import GameCluster.Account.Service
import GameCluster.Queue.SwapQueue

/-!
The way of a login request through the account service (`auth.go`, `loader.go`):
the event queue and the goroutine of `run`, the goroutines that ask the SDK, the
three loaders with their channels and batches, and the answers. What the stores
reply is up to the environment; what they hold is the subject of
`GameCluster.Account.Service`.

A goroutine's step ends where another can see it: at a push to the event queue or
to a loader's channel, or at an answer. The requests that a goroutine has at hand
are kept in its stage.
-/

namespace GameCluster.Requests

open Lib
open Account (Data Discovery LoginCode)

abbrev loadThread : ℕ := 3

/-- The capacity of a loader's channel. -/
def loadingCap : ℕ := 4096

def batchSize : ℕ := 500

/-- The fields of a `pb.S2SReqLogin` that are used here; `id` tells the requests
apart, as their addresses do. -/
structure ReqLogin where
  id : ℕ
  sdkType : ℤ
  account : String
  reconnect : Bool
  reConnToken : UInt64
  deriving DecidableEq, Repr

def formatBindKey (sdkType : ℤ) (account : String) : String := sdkType.repr ++ "@" ++ account

/-- FNV-1a with 32 bits. -/
def hashAccount (account : String) : UInt32 :=
  account.toUTF8.toList.foldl (fun h b => (h ^^^ b.toUInt32) * 16777619) 2166136261

namespace ReqLogin

def bindAcc (r : ReqLogin) : String := formatBindKey r.sdkType r.account

def request (r : ReqLogin) : Account.Request := ⟨r.bindAcc, r.reconnect, r.reConnToken⟩

/-- The loader that the request goes to. -/
def loader (r : ReqLogin) : Fin loadThread :=
  ⟨(hashAccount r.account).toNat % loadThread, Nat.mod_lt _ (by decide)⟩

end ReqLogin

/-- `Event`, by its `Op`. -/
inductive Event where
  | login (req : ReqLogin)
  | afterSDKCheck (req : ReqLogin) (acc : Option Data)
  | roleClear
  | loginFail (req : ReqLogin) (code : LoginCode)

/-- The field `Login`. -/
def Event.req : Event → Option ReqLogin
  | .login req => some req
  | .afterSDKCheck req _ => some req
  | .roleClear => none
  | .loginFail req _ => some req

/-- What a request ends with: `sendLoginFailure` or `S2SReqLogin`. -/
inductive Answer where
  | loginFailure (code : LoginCode)
  | reqLogin (gameID : UInt8)
  deriving DecidableEq, Repr

/-- What a step lets out: calls of `dispatchEvent`, SDK goroutines, and answers. -/
structure Output where
  events : List Event := []
  sdks : List ReqLogin := []
  answers : List (ReqLogin × Answer) := []

def sendLoginFailure (req : ReqLogin) (code : LoginCode) : Output :=
  { answers := [(req, .loginFailure code)] }

section Main

/-- What the stores, the discovery and the random numbers have to say to one event. -/
structure Env where
  /-- The reply to `SETNX`, if there is one. -/
  setNX : Option Bool := some true
  d : Discovery := ⟨true, none⟩
  passwd : UInt64 := 0
  /-- The reply to `saveLoginLua`. -/
  save : Option Bool := some true

def checkLoginRateLimit (req : ReqLogin) (setNX : Option Bool) : LoginCode :=
  if req.account = "" then .LCAccountEmpty
  else
    match setNX with
    | none => .LCServerErr
    | some false => .LCCD
    | some true => .LCSuccess

/-- `CreateSdk` knows `Guest`, `Facebook`, `Google` and `Apple`. -/
def createSdk (sdkType : ℤ) : Bool := sdkType ∈ [0, 1, 2, 3]

def authenticateWithSDK (req : ReqLogin) : Output :=
  if createSdk req.sdkType then { sdks := [req] } else { events := [.loginFail req .LCSDKErr] }

def login (req : ReqLogin) (setNX : Option Bool) : Output :=
  match checkLoginRateLimit req setNX with
  | .LCSuccess => authenticateWithSDK req
  | code => { events := [.loginFail req code] }

def onSDKAuthSuccess (acc : Option Data) (req : ReqLogin) (env : Env) : Output :=
  match acc with
  | none => sendLoginFailure req .LCServerErr
  | some acc =>
    match Account.finalizeLoginSession acc req.request env.d env.passwd with
    | .error code => sendLoginFailure req code
    | .ok acc' =>
      match env.save with
      | none => sendLoginFailure req .LCServerErr
      | some false => sendLoginFailure req .LCServerBusy
      | some true => { answers := [(req, .reqLogin acc'.gameID)] }

def processEvent (env : Env) : Event → Output
  | .login req => login req env.setNX
  | .afterSDKCheck req acc => onSDKAuthSuccess acc req env
  | .roleClear => {}
  | .loginFail req code => sendLoginFailure req code

/-- The callback that empties the queue after `Close`. -/
def drainEvent (e : Event) : Output :=
  match e.req with
  | some req => sendLoginFailure req .LCServerBusy
  | none => {}

end Main

/-- How far a loader's goroutine has got, with the requests it has at hand. -/
inductive Stage where
  /-- `KeepRunSafe` has not looked at the context yet. -/
  | starting
  | select
  /-- `loadAccountsFromCache`, the bind keys. -/
  | getBinds (batch : List ReqLogin)
  /-- The hashes, for the requests whose bind key was there. -/
  | getHashes (batch : List ReqLogin) (hits : List ℕ)
  | scan (cmdAcc batchFromDB : List ReqLogin)
  /-- `loadAccountsFromDB`. -/
  | find (batch : List ReqLogin)
  | dispatch (result : List (String × Data)) (rest newAccBatch : List ReqLogin)
  | register (rest : List ReqLogin) (successList : List (ReqLogin × Data))
  | deliver (rest : List (ReqLogin × Data))
  | draining
  | stopped

def Stage.isStopped : Stage → Bool
  | .stopped => true
  | _ => false

structure Loader where
  loading : List ReqLogin := []
  batch : List ReqLogin := []
  stage : Stage := .starting

/-- What `registerNewAccounts` meets for one request. -/
inductive Insert where
  | generateErr
  | duplicate
  | insertErr
  | inserted (id : UInt64)

inductive LoaderAct where
  | start
  | receive
  | tick
  /-- The IDs of the requests whose bind key is there, unless the pipeline failed. -/
  | getBinds (hits : Option (List ℕ))
  | getHashes (err : Bool)
  /-- The hash of the `k`th request; a map's order is any. -/
  | scan (k : ℕ) (acc : Option Data)
  /-- The accounts by bind, unless the query, its cursor or the back-fill failed. -/
  | find (result : Option (List (String × Data)))
  | dispatch
  | register (res : Insert)
  | deliver
  /-- The branch of `ctx.Done()`. -/
  | done
  | drain

namespace Loader

/-- The requests of a batch to load, and those whose bind the batch already has. -/
def dedup (seen : List String) : List ReqLogin → List ReqLogin × List ReqLogin
  | [] => ([], [])
  | req :: rest =>
    if req.bindAcc ∈ seen then
      let (unique, again) := dedup seen rest
      (unique, req :: again)
    else
      let (unique, again) := dedup (req.bindAcc :: seen) rest
      (req :: unique, again)

def flush (l : Loader) : Loader × Output :=
  if l.batch.isEmpty then (l, {})
  else
    let (unique, again) := dedup [] l.batch
    ({ l with batch := [], stage := .getBinds unique },
      { answers := again.map fun req => (req, .loginFailure .LCServerBusy) })

/-- `loadAccountsFromDB` for what the cache does not have. -/
def fallBack (batchFromDB : List ReqLogin) : Stage :=
  if batchFromDB.isEmpty then .select else .find batchFromDB

def scanning (cmdAcc batchFromDB : List ReqLogin) : Stage :=
  if cmdAcc.isEmpty then fallBack batchFromDB else .scan cmdAcc batchFromDB

def dispatching (result : List (String × Data)) (rest newAccBatch : List ReqLogin) : Stage :=
  if rest.isEmpty then
    if newAccBatch.isEmpty then .select else .register newAccBatch []
  else .dispatch result rest newAccBatch

def delivering (rest : List (ReqLogin × Data)) : Stage :=
  if rest.isEmpty then .select else .deliver rest

def registering (rest : List ReqLogin) (successList : List (ReqLogin × Data)) : Stage :=
  if rest.isEmpty then delivering successList else .register rest successList

def step (l : Loader) (cancelled : Bool) (a : LoaderAct) : Option (Loader × Output) :=
  match a, l.stage with
  | .start, .starting => some ({ l with stage := if cancelled then .stopped else .select }, {})
  | .receive, .select =>
    match l.loading with
    | [] => none
    | req :: loading =>
      let l := { l with loading, batch := l.batch ++ [req] }
      some (if batchSize ≤ l.batch.length then l.flush else (l, {}))
  | .tick, .select => some l.flush
  | .getBinds none, .getBinds batch => some ({ l with stage := .find batch }, {})
  | .getBinds (some hits), .getBinds batch =>
    if batch.any (·.id ∈ hits) then some ({ l with stage := .getHashes batch hits }, {})
    else some ({ l with stage := fallBack batch }, {})
  | .getHashes err, .getHashes batch hits =>
    if err then some ({ l with stage := .find batch }, {})
    else
      some ({ l with
        stage := scanning (batch.filter (·.id ∈ hits)) (batch.filter (·.id ∉ hits)) }, {})
  | .scan k acc, .scan cmdAcc batchFromDB =>
    match cmdAcc[k]?, acc with
    | some req, some acc =>
      some ({ l with stage := scanning (cmdAcc.eraseIdx k) batchFromDB },
        { events := [.afterSDKCheck req (some acc)] })
    | some req, none =>
      some ({ l with stage := scanning (cmdAcc.eraseIdx k) (batchFromDB ++ [req]) }, {})
    | none, _ => none
  | .find none, .find batch =>
    some ({ l with stage := .select },
      { answers := batch.map fun req => (req, .loginFailure .LCServerErr) })
  | .find (some result), .find batch =>
    some ({ l with stage := dispatching result batch [] }, {})
  | .dispatch, .dispatch result (req :: rest) newAccBatch =>
    match result.lookup req.bindAcc with
    | some acc =>
      some ({ l with stage := dispatching result rest newAccBatch },
        { events := [.afterSDKCheck req (some acc)] })
    | none => some ({ l with stage := dispatching result rest (newAccBatch ++ [req]) }, {})
  | .register res, .register (req :: rest) successList =>
    match res with
    | .generateErr =>
      some ({ l with stage := registering rest successList },
        sendLoginFailure req .LCServerErr)
    | .duplicate =>
      some ({ l with stage := registering rest successList },
        sendLoginFailure req .LCServerBusy)
    | .insertErr =>
      some ({ l with stage := registering rest successList },
        sendLoginFailure req .LCServerErr)
    | .inserted id =>
      let acc : Data := { accID := id, binds := [req.bindAcc] }
      some ({ l with stage := registering rest (successList ++ [(req, acc)]) }, {})
  | .deliver, .deliver ((req, acc) :: rest) =>
    some ({ l with stage := delivering rest }, { events := [.afterSDKCheck req (some acc)] })
  -- the batch is a local variable of `run` and goes with it
  | .done, .select =>
    if cancelled then some ({ l with batch := [], stage := .draining }, {}) else none
  | .drain, .draining =>
    match l.loading with
    | req :: loading => some ({ l with loading }, sendLoginFailure req .LCServerBusy)
    | [] => some ({ l with stage := .stopped }, {})
  | _, _ => none

end Loader

/-- The goroutine of `run`. -/
inductive Main where
  | starting
  | select
  /-- In `Range` with `processEvent`. -/
  | handling
  /-- In the `Range` after `Close`. -/
  | draining
  | stopped
  deriving DecidableEq, Repr

structure State where
  cancelled : Bool
  evt : SwapQueue Event
  main : Main
  /-- The requests that an SDK goroutine is checking. -/
  sdks : List ReqLogin
  loaders : Fin loadThread → Loader
  /-- How many requests with a `Req` `HandleLoginRequest` has been called with. -/
  accepted : ℕ
  answers : List (ReqLogin × Answer)

/-- The fields of a `pb.C2SLogin` and the token that comes with it. -/
structure C2SLogin where
  sdkType : ℤ
  account : String
  reconnect : Bool
  reConnToken : UInt64

inductive Act where
  | cancel
  | handleLoginRequest (req : Option C2SLogin)
  | onClearRole
  /-- `KeepRunSafe` of `run` looks at the context. -/
  | start
  | wake
  | process (env : Env)
  /-- The branch of `ctx.Done()`. -/
  | done
  | drain
  /-- The `k`th SDK goroutine under way gets the SDK's reply. -/
  | sdk (k : ℕ) (ok : Bool)
  | loader (i : Fin loadThread) (a : LoaderAct)

namespace State

def dispatchEvent (s : State) (e : Event) : State :=
  match s.evt.push e with
  | (evt, none) => { s with evt }
  | (evt, some _) => { s with evt, answers := s.answers ++ (drainEvent e).answers }

def pushToLoader (s : State) (req : ReqLogin) : State :=
  let l := s.loaders req.loader
  if l.loading.length < loadingCap then
    let l' := { l with loading := l.loading ++ [req] }
    { s with loaders := Function.update s.loaders req.loader l' }
  else { s with answers := s.answers ++ (sendLoginFailure req .LCServerBusy).answers }

def emit (s : State) (o : Output) : State :=
  o.events.foldl dispatchEvent
    { s with sdks := s.sdks ++ o.sdks, answers := s.answers ++ o.answers }

def handleLoginRequest (s : State) (req : Option C2SLogin) : State :=
  match req with
  | none => s
  | some m =>
    { s with accepted := s.accepted + 1 }.dispatchEvent
      (.login ⟨s.accepted, m.sdkType, m.account, m.reconnect, m.reConnToken⟩)

def step (s : State) : Act → Option State
  | .cancel => some { s with cancelled := true }
  | .handleLoginRequest req => some (s.handleLoginRequest req)
  | .onClearRole => some (s.dispatchEvent .roleClear)
  | .start =>
    if s.main = .starting then
      some { s with main := if s.cancelled then .stopped else .select }
    else none
  | .wake =>
    if s.main = .select ∧ s.evt.sig then
      some { s with main := .handling, evt := { s.evt with sig := false }.swap }
    else none
  | .process env =>
    if s.main = .handling then
      match s.evt.read with
      | e :: read => some ({ s with evt := { s.evt with read } }.emit (processEvent env e))
      | [] => some { s with main := .select }
    else none
  | .done =>
    if s.main = .select ∧ s.cancelled then
      some { s with main := .draining, evt := s.evt.close.swap }
    else none
  | .drain =>
    if s.main = .draining then
      match s.evt.read with
      | e :: read => some ({ s with evt := { s.evt with read } }.emit (drainEvent e))
      | [] => some { s with main := .stopped }
    else none
  | .sdk k ok =>
    (s.sdks[k]?).map fun req =>
      let s := { s with sdks := s.sdks.eraseIdx k }
      if ok then s.pushToLoader req else s.dispatchEvent (.loginFail req .LCSdkCheckFaild)
  | .loader i a =>
    ((s.loaders i).step s.cancelled a).map fun (l, o) =>
      { s with loaders := Function.update s.loaders i l }.emit o

end State

/-- The service as `StartService` has left it. -/
def State.initial : State where
  cancelled := false
  evt := { maxSize := 96400 }
  main := .starting
  sdks := []
  loaders := fun _ => {}
  accepted := 0
  answers := []

def requests : Machine State Act where
  init s := s = State.initial
  step := State.step

end GameCluster.Requests
