import GameCluster.Account.Hash
import GameCluster.Lib.Machine
import GameCluster.Lib.Table

/-!
The account nodes at work on their two stores: loading, registering and binding
accounts (`loader.go`, `acc.go`), `finalizeLoginSession` (`auth.go`), and the
game nodes that take a role on and give it back (`S2SReqLogin`, `S2SRoleClear`).

A login is one thread from the loader on; the steps of a batch are the steps of
its logins in some order. Every command to a store is a step of its own, and so
is each command of a Redis pipeline. Any command may fail, and a failed one may
have been carried out; the client's retries, up to three, are left out, so that a
command is sent once. A hash or a bind key may go when its time to live is over
(`tick`), or be lost at any moment (`evict`).

`log` records what the scripts did and which logins succeeded; the source keeps
no such thing.
-/

namespace GameCluster.Account

open Lib

/-- The seven days of every `expiration`, in seconds. -/
def expiration : Nat := 604800

/-- A document of the collection `accounts`. -/
structure Doc where
  accID : UInt64
  freeze : Bool
  binds : List String

/-- The document decoded into an `Account`. -/
def Doc.account (d : Doc) : Data := { accID := d.accID, freeze := d.freeze, binds := d.binds }

/-- A hash and the moment it expires, if it does. -/
structure Key where
  fields : Hash
  expireAt : Option Nat

/-- The commands of the pipelines. -/
inductive Cmd where
  | hset (accID : UInt64) (fields : List (Field × String))
  | expire (accID : UInt64)
  /-- `SET acc_bind:<bind> value EX expiration`. -/
  | set (bind value : String)

/-- The fields of `pb.S2SReqLogin` and its `Req` that are used here. -/
structure Request where
  bindAcc : String
  reconnect : Bool
  reConnToken : UInt64

/-- The codes that the account service uses. -/
inductive LoginCode where
  | LCSuccess
  | LCSdkCheckFaild
  | LCNoGame
  | LCCanNotReConn
  | LCCD
  | LCServerBusy
  | LCServerErr
  | LCAccountEmpty
  | LCSDKErr
  deriving DecidableEq, Repr

/-- Where a login has got to. -/
inductive Phase where
  | getBind
  | getHash (accID : UInt64)
  | find
  | enrich (doc : Doc)
  /-- A pipeline, after which the login goes on with the account. -/
  | pipeline (cmds : List Cmd) (acc : Data)
  | generate
  | insert (id : UInt64)
  /-- `OpAfterSDKCheck` is due. -/
  | loaded (acc : Data)
  | done

structure Login where
  req : Request
  phase : Phase

/-- What became of one run of `finalizeLoginSession` or `ClearGameID`. -/
inductive Outcome where
  | saved (acc : Data)
  | rejected (code : LoginCode)
  /-- Redis reported an error. -/
  | failed
  | cleared (seq : UInt32) (ok : Bool)

/-- Such a run, with the account's hash before and after it. -/
structure Event where
  accID : UInt64
  bind : String
  outcome : Outcome
  before : Hash
  after : Hash

/-- An `S2SReqLogin` on its way to a game node. -/
structure GameLogin where
  gameID : UInt8
  accID : UInt64
  seq : UInt32

/-- An `S2SRoleClear` on its way to an account node. -/
structure RoleClear where
  accID : UInt64
  seq : UInt32

structure State where
  now : Nat
  hashes : UInt64 → Option Key
  /-- A bind key's value and the moment it expires. -/
  binds : String → Option (String × Nat)
  /-- The counter `server:acc_id`. -/
  ids : Nat
  mongo : List Doc
  logins : List Login
  /-- The pipelines of `BindNewSDK`. -/
  writers : List (List Cmd)
  reqs : List GameLogin
  clears : List RoleClear
  /-- The `LoginSeq` of the entries that the game nodes hold. -/
  holds : UInt8 → UInt64 → Option UInt32
  log : List Event

/-- What `discovery` answers: whether the last game server is there, and the one
that `Select` picks. -/
structure Discovery where
  lastExists : Bool
  select : Option UInt8

/-- A command that Redis or Mongo reports as failed, carried out or not. -/
structure Fault where
  applied : Bool

def allocateGameServer (lastGameID : UInt8) (d : Discovery) : Except LoginCode UInt8 :=
  if lastGameID ≠ 0 ∧ d.lastExists then .ok lastGameID
  else
    match d.select with
    | some id => .ok id
    | none => .error .LCNoGame

/-- `finalizeLoginSession` up to the call of `SaveLoginData`: the account that is
to be saved. `passwd` is what `generatePasswd` would return. -/
def finalizeLoginSession (acc : Data) (req : Request) (d : Discovery) (passwd : UInt64) :
    Except LoginCode Data :=
  if req.reconnect ∧ acc.passwd ≠ 0 ∧ req.reConnToken ≠ acc.passwd then .error .LCCanNotReConn
  else
    match allocateGameServer acc.gameID d with
    | .error code => .error code
    | .ok gameID =>
      .ok
        { acc with
          passwd := if acc.passwd = 0 then passwd else acc.passwd
          seq := acc.seq + 1
          gameID }

/-- The script call of `SaveLoginData`. -/
def saveLoginData (h : Hash) (acc : Data) (oldSeq : UInt32) : Hash × Bool :=
  saveLoginLua h oldSeq.toNat.repr acc.gameID.toNat.repr acc.seq.toNat.repr acc.passwd.toNat.repr

/-- The script call of `ClearGameID`. -/
def clearGameID (h : Hash) (expectedSeq : UInt32) : Hash × Bool :=
  clearGameLua h expectedSeq.toNat.repr

inductive Act where
  /-- A request reaches a loader. -/
  | login (req : Request)
  | getBind (i : Nat) (err : Bool)
  | getHash (i : Nat) (err : Bool)
  | find (i : Nat) (err : Bool)
  | enrich (i : Nat) (err : Bool)
  /-- The next command of the login's pipeline. -/
  | exec (i : Nat) (applied : Bool)
  | generate (i : Nat) (err : Bool)
  | insert (i : Nat) (fault : Option Fault)
  | finalize (i : Nat) (d : Discovery) (passwd : UInt64) (fault : Option Fault)
  /-- `BindNewSDK` up to its pipeline. -/
  | bindNewSDK (accID : UInt64) (bind : String)
  | write (j : Nat) (applied : Bool)
  /-- A game node gets the `k`th `S2SReqLogin` under way; `initRole` takes over
  its `Seq`, or the login is dropped. -/
  | receive (k : Nat) (accepted : Bool)
  /-- A game node's `cleanup` deletes the role's entry. -/
  | cleanup (g : UInt8) (accID : UInt64)
  /-- `HandleRoleLogout` for the `k`th `S2SRoleClear` under way. -/
  | roleClear (k : Nat) (fault : Option Fault)
  | tick (seconds : Nat)
  | evictHash (accID : UInt64)
  | evictBind (bind : String)
  | evictIDs

namespace State

/-- The fields of a hash; a hash that is not there has none. -/
def hash (s : State) (accID : UInt64) : Hash :=
  match s.hashes accID with
  | some key => key.fields
  | none => ∅

/-- Writing to a hash creates it, without a time to live, and leaves the time to
live of one that is there. -/
def setHash (s : State) (accID : UInt64) (h : Hash) : State :=
  { s with
    hashes := Function.update s.hashes accID
      (some ⟨h, (s.hashes accID).bind (·.expireAt)⟩) }

def command (s : State) : Cmd → State
  | .hset accID fields =>
    s.setHash accID (fields.foldl (fun h f => h.insert f.1 f.2) (s.hash accID))
  | .expire accID =>
    { s with
      hashes := Function.update s.hashes accID
        ((s.hashes accID).map fun key => { key with expireAt := some (s.now + expiration) }) }
  | .set bind value =>
    { s with binds := Function.update s.binds bind (some (value, s.now + expiration)) }

def setPhase (s : State) (i : Nat) (l : Login) (phase : Phase) : State :=
  { s with logins := s.logins.set i { l with phase } }

/-- `s'` with an entry in the log for a run on the account that has led there. -/
def record (s s' : State) (accID : UInt64) (bind : String) (outcome : Outcome) : State :=
  { s' with log := s'.log ++ [⟨accID, bind, outcome, s.hash accID, s'.hash accID⟩] }

/-- `GET acc_bind:<bind>`. -/
def getBind (s : State) (i : Nat) (l : Login) (err : Bool) : State :=
  match err, s.binds l.req.bindAcc with
  | false, some (value, _) =>
    match parseUint 64 value with
    | some n => s.setPhase i l (.getHash (.ofNat n))
    | none => s.setPhase i l .find
  | _, _ => s.setPhase i l .find

/-- `HMGET acc:{id}` for every field. A hash without `acc_id` is no account. -/
def getHash (s : State) (i : Nat) (l : Login) (accID : UInt64) (err : Bool) : State :=
  let (acc, ok) := Data.scan {} (s.hash accID) accFields
  if err = false ∧ ok = true ∧ 0 < acc.accID then s.setPhase i l (.loaded acc.unmarshalBinds)
  else s.setPhase i l .find

/-- The query of `loadAccountsFromDB` for one login. -/
def find (s : State) (i : Nat) (l : Login) (err : Bool) : State :=
  if err then s.setPhase i l .done
  else
    match s.mongo.find? fun d => l.req.bindAcc ∈ d.binds with
    | some doc => s.setPhase i l (.enrich doc)
    | none => s.setPhase i l .generate

/-- The commands of `syncAccountsToCache`. -/
def syncCmds (bind : String) (acc : Data) : List Cmd :=
  [.hset acc.accID
      [(.accID, acc.accID.toNat.repr), (.freeze, if acc.freeze then "1" else "0"),
        (.binds, acc.marshalBinds)],
    .expire acc.accID, .set bind acc.accID.toNat.repr]

/-- The state fields are filled in from the hash, errors of `Scan` ignored. -/
def enrich (s : State) (i : Nat) (l : Login) (doc : Doc) (err : Bool) : State :=
  if err then s.setPhase i l .done
  else
    let acc := (doc.account.scan (s.hash doc.accID) stateFields).1
    s.setPhase i l (.pipeline (syncCmds l.req.bindAcc acc) acc)

def exec (s : State) (i : Nat) (l : Login) (cmds : List Cmd) (acc : Data) (applied : Bool) :
    State :=
  match cmds with
  | [] => s.setPhase i l (.loaded acc)
  | c :: rest => (if applied then s.command c else s).setPhase i l (.pipeline rest acc)

/-- `GenerateNextAccID`. -/
def generate (s : State) (i : Nat) (l : Login) (err : Bool) : State :=
  if err then s.setPhase i l .done
  else { s with ids := s.ids + 1 }.setPhase i l (.insert (.ofNat (s.ids + 1)))

/-- The commands of `registerNewAccounts` for one account. -/
def registerCmds (bind : String) (id : UInt64) : List Cmd :=
  [.hset id [(.accID, id.toNat.repr), (.binds, Data.marshalBinds { binds := [bind] })],
    .expire id, .set bind id.toNat.repr]

/-- `InsertOne` under the unique indices on `acc_id` and `binds`. -/
def insert (s : State) (i : Nat) (l : Login) (id : UInt64) (fault : Option Fault) : State :=
  let bind := l.req.bindAcc
  let added : State := { s with mongo := s.mongo ++ [⟨id, false, [bind]⟩] }
  match fault with
  | some f =>
    if f.applied ∧ ¬s.mongo.any (fun d => d.accID = id ∨ bind ∈ d.binds) then
      added.setPhase i l .done
    else s.setPhase i l .done
  | none =>
    if s.mongo.any fun d => d.accID = id ∨ bind ∈ d.binds then s.setPhase i l .done
    else
      added.setPhase i l (.pipeline (registerCmds bind id) { accID := id, binds := [bind] })

/-- `finalizeLoginSession`, and the `S2SReqLogin` that follows a success. -/
def finalizeRun (s : State) (l : Login) (acc : Data) (d : Discovery) (passwd : UInt64)
    (fault : Option Fault) : State × Outcome :=
  match finalizeLoginSession acc l.req d passwd with
  | .error code => (s, .rejected code)
  | .ok acc' =>
    let (h, ok) := saveLoginData (s.hash acc.accID) acc' acc.seq
    match fault with
    | some f => (if f.applied ∧ ok then s.setHash acc.accID h else s, .failed)
    | none =>
      if ok then
        ({ s.setHash acc.accID h with
            reqs := s.reqs ++ [⟨acc'.gameID, acc.accID, acc'.seq⟩] }, .saved acc')
      else (s, .rejected .LCServerBusy)

/-- `OnSDKAuthSuccess`. -/
def finalize (s : State) (i : Nat) (l : Login) (acc : Data) (d : Discovery) (passwd : UInt64)
    (fault : Option Fault) : State :=
  let s := s.setPhase i l .done
  let (s', outcome) := s.finalizeRun l acc d passwd fault
  s.record s' acc.accID l.req.bindAcc outcome

/-- The update of `BindNewSDK`: `$addToSet`, under the unique index on `binds`. -/
def bindNewSDK (s : State) (k : Nat) (doc : Doc) (bind : String) : State :=
  if (s.mongo.eraseIdx k).any fun d => bind ∈ d.binds then s
  else
    { s with
      mongo := s.mongo.set k
        { doc with binds := if bind ∈ doc.binds then doc.binds else doc.binds ++ [bind] }
      writers := s.writers ++ [[.set bind doc.accID.toNat.repr]] }

def write (s : State) (j : Nat) (cmds : List Cmd) (applied : Bool) : State :=
  match cmds with
  | [] => s
  | c :: rest => { (if applied then s.command c else s) with writers := s.writers.set j rest }

def receive (s : State) (k : Nat) (m : GameLogin) (accepted : Bool) : State :=
  { s with
    reqs := s.reqs.eraseIdx k
    holds := Function.update s.holds m.gameID
      (Function.update (s.holds m.gameID) m.accID
        (some (if accepted then m.seq else (s.holds m.gameID m.accID).getD 0))) }

def cleanup (s : State) (g : UInt8) (accID : UInt64) (seq : UInt32) : State :=
  { s with
    holds := Function.update s.holds g (Function.update (s.holds g) accID none)
    clears := s.clears ++ [⟨accID, seq⟩] }

/-- `ClearGameID`, and whether the script has cleared the field. -/
def clearRun (s : State) (m : RoleClear) (fault : Option Fault) : State × Bool :=
  let (h, ok) := clearGameID (s.hash m.accID) m.seq
  if ok ∧ fault.all (·.applied) then (s.setHash m.accID h, true) else (s, false)

/-- `HandleRoleLogout`. -/
def roleClear (s : State) (k : Nat) (m : RoleClear) (fault : Option Fault) : State :=
  let s := { s with clears := s.clears.eraseIdx k }
  let (s', ok) := s.clearRun m fault
  s.record s' m.accID "" (.cleared m.seq ok)

/-- Time passes, and keys whose time is over are gone. -/
def tick (s : State) (seconds : Nat) : State :=
  let now := s.now + seconds
  { s with
    now
    hashes := fun accID => (s.hashes accID).filter fun key => key.expireAt.all (now < ·)
    binds := fun bind => (s.binds bind).filter fun v => now < v.2 }

def step (s : State) : Act → Option State
  | .login req => some { s with logins := s.logins ++ [⟨req, .getBind⟩] }
  | .getBind i err =>
    match s.logins[i]? with
    | some ⟨req, .getBind⟩ => some (s.getBind i ⟨req, .getBind⟩ err)
    | _ => none
  | .getHash i err =>
    match s.logins[i]? with
    | some ⟨req, .getHash accID⟩ => some (s.getHash i ⟨req, .getHash accID⟩ accID err)
    | _ => none
  | .find i err =>
    match s.logins[i]? with
    | some ⟨req, .find⟩ => some (s.find i ⟨req, .find⟩ err)
    | _ => none
  | .enrich i err =>
    match s.logins[i]? with
    | some ⟨req, .enrich doc⟩ => some (s.enrich i ⟨req, .enrich doc⟩ doc err)
    | _ => none
  | .exec i applied =>
    match s.logins[i]? with
    | some ⟨req, .pipeline cmds acc⟩ =>
      some (s.exec i ⟨req, .pipeline cmds acc⟩ cmds acc applied)
    | _ => none
  | .generate i err =>
    match s.logins[i]? with
    | some ⟨req, .generate⟩ => some (s.generate i ⟨req, .generate⟩ err)
    | _ => none
  | .insert i fault =>
    match s.logins[i]? with
    | some ⟨req, .insert id⟩ => some (s.insert i ⟨req, .insert id⟩ id fault)
    | _ => none
  | .finalize i d passwd fault =>
    match s.logins[i]? with
    | some ⟨req, .loaded acc⟩ => some (s.finalize i ⟨req, .loaded acc⟩ acc d passwd fault)
    | _ => none
  | .bindNewSDK accID bind =>
    match s.mongo.findIdx? fun d => d.accID = accID with
    | some k => (s.mongo[k]?).map fun doc => s.bindNewSDK k doc bind
    | none => none
  | .write j applied => (s.writers[j]?).map fun cmds => s.write j cmds applied
  | .receive k accepted => (s.reqs[k]?).map fun m => s.receive k m accepted
  | .cleanup g accID => (s.holds g accID).map fun seq => s.cleanup g accID seq
  | .roleClear k fault => (s.clears[k]?).map fun m => s.roleClear k m fault
  | .tick seconds => some (s.tick seconds)
  | .evictHash accID => some { s with hashes := Function.update s.hashes accID none }
  | .evictBind bind => some { s with binds := Function.update s.binds bind none }
  | .evictIDs => some { s with ids := 0 }

end State

/-- The account nodes over empty caches and any accounts that keep to the unique
index on `binds`, with no role on any game node. -/
def accounts : Machine State Act where
  init s :=
    (∀ a, s.hashes a = none) ∧ (∀ b, s.binds b = none) ∧
      (∀ (i j : Nat) (d e : Doc) (b : String), s.mongo[i]? = some d → s.mongo[j]? = some e →
        b ∈ d.binds → b ∈ e.binds → i = j) ∧
      s.logins = [] ∧ s.writers = [] ∧ s.reqs = [] ∧ s.clears = [] ∧
      (∀ g a, s.holds g a = none) ∧ s.log = []
  step := State.step

/-- Stores without accounts. -/
def State.empty : State where
  now := 0
  hashes := fun _ => none
  binds := fun _ => none
  ids := 0
  mongo := []
  logins := []
  writers := []
  reqs := []
  clears := []
  holds := fun _ _ => none
  log := []

theorem accounts_empty : accounts.init State.empty :=
  ⟨fun _ => rfl, fun _ => rfl, by simp [State.empty], rfl, rfl, rfl, rfl, fun _ _ => rfl, rfl⟩

/-- The first login of a bind, as login `i`, with no failures. -/
def register (i : Nat) (bind : String) (game : UInt8) : List Act :=
  [.login ⟨bind, false, 0⟩, .getBind i false, .find i false, .generate i false, .insert i none,
    .exec i true, .exec i true, .exec i true, .exec i true,
    .finalize i ⟨true, some game⟩ 42 none]

/-- A login whose account is in the cache. -/
def relogin (i : Nat) (bind : String) (game : UInt8) : List Act :=
  [.login ⟨bind, false, 0⟩, .getBind i false, .getHash i false,
    .finalize i ⟨true, some game⟩ 42 none]

end GameCluster.Account
