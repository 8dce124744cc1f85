import GameCluster.Logon.State

/-!
The transitions of a game server, one function per goroutine. A step is the
work of one goroutine up to the next point at which another could observe or
disturb it: a channel operation, a critical section of the registry, a call of
`WaitGroup.Wait`, or a round trip to a store. What only the login goroutine
reads, `m.data` above all, changes within its steps.

Panics inside `onOps` and in a role's goroutine are recovered, as `RunSafe`
does outside debug mode.
-/

namespace GameCluster

open Lib

namespace State

/-- `initRole` up to the call of `Register`. An entry that is missing after
`NewRole` succeeded is a nil dereference, which leaves everything as it is. -/
def initRole (s : State) (data : DataToSave) (login : S2SReqLogin) : State :=
  match unmarshalRole data s.now with
  | none => s.setState data.roleID .stateOffline
  | some comps =>
    if data.roleID ≠ login.roleID then s.setState data.roleID .stateOffline
    else
      match s.data.lookup data.roleID with
      | none => s
      | some v =>
        { s with
          data := s.data.insert data.roleID
            { v with
              cache := data.data, loginSeq := login.seq, state := .stateOnline,
              stateTime := s.now }
          roles := s.roles ++
            [{ id := data.roleID, sesID := login.sesID, comps, phase := .created,
               cancelled := false, start := data.data, logout := none }]
          pc := .starting s.roles.length .registerSes }

/-- `postToLoad`. -/
def postToLoad (s : State) (login : S2SReqLogin) : State :=
  { s with loads := s.loads ++ [{ login, phase := .queued }] }

def handleReentry (s : State) (login : S2SReqLogin) : State :=
  let s := s.setState login.roleID .stateKicking
  { s with reentries := s.reentries ++ [{ login, phase := .spawned, found := none }] }

/-- `opSignIn`, with its `StateTimeOut` of ten seconds. -/
def opSignIn (s : State) (login : S2SReqLogin) : State :=
  let v := (s.data.lookup login.roleID).getD { state := .stateInit }
  let s := { s with data := s.data.insert login.roleID v }
  match v.state with
  | .stateOnline => s.handleReentry login
  | .stateOffline | .stateCanDel => s.initRole ⟨login.roleID, v.cache⟩ login
  | .statePending =>
    if s.now - v.stateTime < 10 then s
    else (s.postToLoad login).setState login.roleID .statePending
  | .stateKicking => s
  | .stateInit => (s.setState login.roleID .statePending).postToLoad login

def opReentry (s : State) (login : S2SReqLogin) : State :=
  match s.data.lookup login.roleID with
  | none => s
  | some v => s.initRole ⟨login.roleID, v.cache⟩ login

def roleOffline (s : State) (data : DataToSave) : Option State :=
  (s.setState data.roleID .stateOffline).saveMust ⟨data.roleID, data.data, false⟩

/-- One round of the loop of `saveSuccess`. -/
def saveSuccessOne (s : State) (id : RoleID) : State :=
  match s.data.lookup id with
  | some v => if v.state = .stateOffline then s.setState id .stateCanDel else s
  | none => s

def saveSuccess (s : State) (ids : List RoleID) : State := ids.foldl saveSuccessOne s

/-- `onOps` on an event that has been taken from `m.ops`. -/
def onOps (s : State) : LogonEvent → Option State
  | .login msg => some (s.opSignIn msg)
  | .dbLoaded msg data load => some ((s.setLoad load .gone).initRole data msg)
  | .reentry msg g => some ((s.setReentry g .gone).opReentry msg)
  | .logout data r => (s.roleOffline data).map fun s => { s with logged := s.logged ++ [r] }
  | .saveRole data saveBoth _ => some (s.saveOne ⟨data.roleID, data.data, saveBoth⟩)
  | .saveSuccess ids => some (s.saveSuccess ids)

/-- One entry of the loop of `cleanup`, whose `Interval` is a minute. -/
def cleanupOne (s : State) (now : Int) (id : RoleID) : State :=
  match s.data.lookup id with
  | none => s
  | some v =>
    if v.state = .stateOffline ∧ 60 < now - v.stateTime then
      s.saveOne ⟨id, v.cache, true⟩
    else if v.state = .stateCanDel ∧ 60 < now - v.stateTime then
      { s with data := s.data.erase id, cleared := s.cleared ++ [(id, v.loginSeq)] }
    else s

end State

inductive LogonAct where
  | onOps
  | register
  | cleanup (order : List RoleID)
  | cleanupNext
  | drain
  | exit

/-- The login goroutine. -/
def State.logonStep (s : State) : LogonAct → Option State
  | .onOps =>
    match s.pc, s.ops with
    | .idle, e :: rest => { s with ops := rest }.onOps e
    | _, _ => none
  | .register =>
    match s.pc with
    | .starting r stage =>
      (s.roles[r]?).map fun role =>
        match stage with
        | .registerSes =>
          { s with
            ses := s.ses.insert role.sesID role.id, pc := .starting r .registerRole }
        | .registerRole =>
          { s with reg := s.reg.insert role.id r, pc := .starting r .run }
        | .run => { s.setRole r { role with phase := .started } with pc := .idle }
    | _ => none
  | .cleanup order =>
    match s.pc with
    | .idle =>
      if ¬s.draining ∧ Map.Enumerates order s.data then
        some { s with pc := .cleaning s.now order }
      else none
    | _ => none
  | .cleanupNext =>
    match s.pc with
    | .cleaning now (id :: todo) => some { s.cleanupOne now id with pc := .cleaning now todo }
    | .cleaning _ [] => some { s with pc := .idle }
    | _ => none
  | .drain =>
    match s.pc with
    | .idle => if s.ctxDone then some { s with draining := true } else none
    | _ => none
  | .exit =>
    match s.pc, s.ops with
    | .idle, [] =>
      if s.draining then
        some
          { s with
            pc := .exited
            savers := fun k => { s.savers k with q := (s.savers k).q.close } }
      else none
    | _, _ => none

inductive LoadAct where
  /-- The `HGETALL` of the login's role. -/
  | readRedis
  /-- The query of `loadFromDBBatch`; `last` is the role of the last document
  it returned. -/
  | readMongo (last : Option RoleID)
  | post
  /-- A store failed, or the loader stopped before it got to the login. -/
  | drop

/-- A login on its way through a loader. -/
def State.loadStep (s : State) (i : Nat) (a : LoadAct) : Option State :=
  match s.loads[i]? with
  | none => none
  | some l =>
    let id := l.login.roleID
    match l.phase, a with
    | .queued, .readRedis =>
      if s.loaderExited (loaderOf id) then none
      else if (s.stores.redis id).len = 0 then some (s.setLoad i .missed)
      else some (s.setLoad i (.loaded ⟨id, some (s.stores.redis id)⟩))
    | .missed, .readMongo last =>
      let source := last.getD id
      -- A document is returned only if there is one, and no answer is
      -- empty when the role has one itself.
      if (s.stores.mongo source).len = 0 ↔ last = none then
        some (s.setLoad i (.loaded (fromDB s.stores.mongo last id)))
      else none
    | .loaded data, .post => (s.setLoad i .posted).post (.dbLoaded l.login data i)
    | .queued, .drop => some (s.setLoad i .gone)
    | .missed, .drop => some (s.setLoad i .gone)
    | _, _ => none

/-- The login is in the batch its loader is working on. -/
def Load.inBatch (l : Load) : Bool :=
  match l.phase with
  | .missed | .loaded _ => true
  | _ => false

/-- A loader returns between two batches once the context is done. -/
def State.loaderExit (s : State) (k : Fin loadingGoCnt) : Option State :=
  if s.ctxDone ∧ ∀ l ∈ s.loads, loaderOf l.login.roleID = k → l.inBatch = false then
    some { s with loaderExited := Function.update s.loaderExited k true }
  else none

/-- `r.Wait` of a role is raised from `Run` until `Wait.Done`. -/
def Role.waitRaised (r : Role) : Bool :=
  match r.phase with
  | .created | .done => false
  | _ => true

/-- `meta.Kick`, for a role that exists. -/
def State.kick (s : State) (i : Nat) : State :=
  { s with
    roles :=
      match s.roles[i]? with
      | some r => s.roles.set i { r with cancelled := true }
      | none => s.roles }

inductive ReentryAct where
  | kickAndWait
  | waitDone
  | post

/-- A goroutine of `handleReentry`. -/
def State.reentryStep (s : State) (g : Nat) (a : ReentryAct) : Option State :=
  match s.reentries[g]? with
  | none => none
  | some v =>
    match v.phase, a with
    | .spawned, .kickAndWait =>
      match s.reg.lookup v.login.roleID with
      | none => some (s.setReentry g .posting)
      | some r =>
        some
          { s.kick r with
            reentries := s.reentries.set g { v with phase := .waiting, found := some r } }
    | .waiting, .waitDone =>
      match v.found.bind (s.roles[·]?) with
      | some role => if role.waitRaised then none else some (s.setReentry g .posting)
      | none => none
    | .posting, .post => (s.setReentry g .posted).post (.reentry v.login g)
    | _, _ => none

inductive RoleAct where
  | online
  /-- A handler or a tick changes a component. -/
  | touch (c : TypeComp) (body : String) (dirty : Bool)
  /-- The `save` of a tick. -/
  | save (both : Bool)
  /-- The context is cancelled, by a disconnect or a missed heartbeat. -/
  | cancel
  /-- The event loop ends, cancelled or because a handler panicked, and the
  deferred `Offline` runs its hooks. -/
  | exit
  | leaveSes
  | leaveReg
  | postLogout
  | done

/-- A role's goroutine, and whatever cancels its context. -/
def State.roleStep (s : State) (i : Nat) (a : RoleAct) : Option State :=
  match s.roles[i]? with
  | none => none
  | some r =>
    match r.phase, a with
    | _, .cancel => some (s.kick i)
    | .started, .online =>
      some (s.setRole i { r with phase := .running, comps := r.comps.online })
    | .started, .touch c body dirty | .running, .touch c body dirty =>
      some (s.setRole i { r with comps := r.comps.touch c body dirty })
    | .started, .save both | .running, .save both =>
      let data := r.comps.marshal false
      if data.len = 0 then none
      else
        -- A full channel refuses the event; the flags then stay set.
        match s.post (.saveRole ⟨r.id, some data⟩ both i) with
        | some s => some (s.setRole i { r with comps := r.comps.clearDirty })
        | none => none
    | .running, .exit =>
      if r.comps.offline.Balanced then
        some (s.setRole i { r with phase := .leaving, comps := r.comps.offline })
      else some (s.setRole i { r with phase := .panicked, comps := r.comps.offline })
    | .leaving, .leaveSes =>
      if s.ses.lookup r.sesID = some r.id then
        some { s.setRole i { r with phase := .leftSes } with ses := s.ses.erase r.sesID }
      else some (s.setRole i { r with phase := .unregistered })
    | .leftSes, .leaveReg =>
      some { s.setRole i { r with phase := .unregistered } with reg := s.reg.erase r.id }
    | .unregistered, .postLogout =>
      let data := r.comps.marshal true
      (s.post (.logout ⟨r.id, some data⟩ i)).map
        (·.setRole i { r with phase := .posted, logout := some data })
    | .posted, .done => some (s.setRole i { r with phase := .done })
    | _, _ => none

/-- A saver's goroutine. Its post of `EvtSaveSuccess` blocks while `m.ops` is
full. -/
def State.saverStep (s : State) (k : Fin saveGoCnt) (a : SaverAct) : Option State :=
  match (s.savers k).step s.now s.stores a with
  | none => none
  | some (saver, stores, out) =>
    let s := { s with savers := Function.update s.savers k saver, stores }
    match out with
    | none => some s
    | some ids => s.post (.saveSuccess ids)

inductive CloseAct where
  | begin
  /-- `CloseAndWait` reads the next shard, in some order. -/
  | scan (order : List RoleID)
  /-- The next `Kick`, `Wait` or join of `Close`. -/
  | next

def shardOf (id : RoleID) : Nat := id.toNat % shardCount

/-- `LogonService.Close`. -/
def State.closeStep (s : State) (a : CloseAct) : Option State :=
  match s.close, a with
  | .off, .begin => some { s with close := .scanning 0 [] }
  | .scanning shard metas, .scan order =>
    if shard < shardCount ∧ order.Nodup ∧
        order.toFinset = s.reg.keys.filter (fun id => shardOf id = shard) then
      some { s with close := .scanning (shard + 1) (metas ++ order.filterMap s.reg.lookup) }
    else none
  | .scanning shard metas, .next =>
    if shard = shardCount then some { s with close := .kicking metas metas } else none
  | .kicking (r :: todo) metas, .next => some { s.kick r with close := .kicking todo metas }
  | .kicking [] metas, .next => some { s with close := .waiting metas }
  | .waiting (r :: todo), .next =>
    match s.roles[r]? with
    | some role => if role.waitRaised then none else some { s with close := .waiting todo }
    | none => none
  | .waiting [], .next => some { s with close := .producers, ctxDone := true }
  | .producers, .next =>
    match s.pc with
    | .exited =>
      if ∀ k, s.loaderExited k = true then some { s with close := .consumers } else none
    | _ => none
  | .consumers, .next =>
    if ∀ k, (s.savers k).status ≠ .running then some { s with close := .returned } else none
  | _, _ => none

inductive Act where
  | login (msg : S2SReqLogin)
  /-- The clock advances. -/
  | tick (seconds : Nat)
  | logon (a : LogonAct)
  | load (i : Nat) (a : LoadAct)
  | loaderExit (k : Fin loadingGoCnt)
  | reentry (g : Nat) (a : ReentryAct)
  | role (i : Nat) (a : RoleAct)
  | saver (k : Fin saveGoCnt) (a : SaverAct)
  | close (a : CloseAct)
  /-- Redis removes the key of a role whose time has come. -/
  | expire (id : RoleID)

def State.step (s : State) : Act → Option State
  | .login msg => s.post (.login msg)
  | .tick seconds => some { s with now := s.now + seconds }
  | .logon a => s.logonStep a
  | .load i a => s.loadStep i a
  | .loaderExit k => s.loaderExit k
  | .reentry g a => s.reentryStep g a
  | .role i a => s.roleStep i a
  | .saver k a => s.saverStep k a
  | .close a => s.closeStep a
  | .expire id => (s.stores.expire s.now id).map fun stores => { s with stores }

/-- A game server from its start, over any contents of the stores. -/
def gameServer : Machine State Act where
  init s := ∃ now stores, s = State.initial now stores
  step := State.step

/-- A server over empty stores. -/
def State.empty : State := State.initial 0 ⟨fun _ => ∅, fun _ => ∅, fun _ => none⟩

theorem gameServer_empty : gameServer.init State.empty := ⟨0, _, rfl⟩

/-- The first login of a role that no store knows, up to its `Online`. -/
def firstLogin (id : RoleID) (ses : UInt64) : List Act :=
  [.login ⟨id, ses, 1⟩, .logon .onOps, .load 0 .readRedis, .load 0 (.readMongo none),
    .load 0 .post, .logon .onOps, .logon .register, .logon .register, .logon .register,
    .role 0 .online]

/-- A role's goroutine from the end of its event loop on. -/
def leave (i : Nat) : List Act :=
  [.role i .exit, .role i .leaveSes, .role i .leaveReg, .role i .postLogout, .role i .done]

/-- Steps of the saver of a role. -/
def onSaver (id : RoleID) (acts : List SaverAct) : List Act :=
  acts.map (.saver (State.saverOf id))

end GameCluster
