import GameCluster.Lib.Machine
import GameCluster.Store.Mongo

/-!
The state of a game server as far as logging in and out goes: the login
goroutine with `m.data` and `m.ops`, the logins handed to the loaders, the
re-entry goroutines of `handleReentry`, every `Role` ever made with its
goroutine, the registry `role.Mgr`, the savers with the two stores, and a
`Close` call.

Goroutines of one kind are the entries of a list and are known by their
index. An event carries the index of the goroutine that posted it; the source
has no such field, and no transition depends on it.
-/

namespace GameCluster

open Lib

inductive LoginState where
  | stateInit
  | stateOnline
  | statePending
  | stateKicking
  | stateOffline
  | stateCanDel
  deriving DecidableEq, Repr

/-- `loginData`. -/
structure LoginData where
  state : LoginState
  stateTime : Int := 0
  cache : Option Record := none
  loginSeq : UInt32 := 0

inductive LogonEvent where
  | login (msg : S2SReqLogin)
  | dbLoaded (msg : S2SReqLogin) (data : DataToSave) (load : Nat)
  | reentry (msg : S2SReqLogin) (g : Nat)
  | logout (data : DataToSave) (r : Nat)
  | saveRole (data : DataToSave) (saveBoth : Bool) (r : Nat)
  | saveSuccess (ids : List RoleID)

/-- A login handed to a loader. -/
inductive LoadPhase where
  /-- In the loader's channel or batch. -/
  | queued
  /-- Its Redis hash was empty. -/
  | missed
  | loaded (data : DataToSave)
  | posted
  /-- Dropped on an error, or its event has been processed. -/
  | gone

structure Load where
  login : S2SReqLogin
  phase : LoadPhase

inductive ReentryPhase where
  | spawned
  /-- Waiting for the `Role` that `KickAndWait` found. -/
  | waiting
  | posting
  | posted
  /-- Its event has been processed. -/
  | gone
  deriving DecidableEq

/-- A goroutine of `handleReentry`. `found` is the `Role` that `KickAndWait`
found in the registry. -/
structure Reentry where
  login : S2SReqLogin
  phase : ReentryPhase
  found : Option Nat

/-- A `Role` from `NewRole` to the end of its goroutine. -/
inductive RolePhase where
  | created
  /-- `Run` has been called, `Online` not yet. -/
  | started
  | running
  /-- The `Offline` hooks have run. -/
  | leaving
  /-- Between the two critical sections of `Unregister`. -/
  | leftSes
  | unregistered
  /-- `EvtLogout` has been posted. -/
  | posted
  /-- `Wait.Done` has been called. -/
  | done
  /-- An `Offline` hook panicked; nothing after it runs. -/
  | panicked
  deriving DecidableEq, Repr

/-- `start` is the record that was passed to `NewRole`, `logout` the one its
`EvtLogout` carried. -/
structure Role where
  id : RoleID
  sesID : UInt64
  comps : Comps
  phase : RolePhase
  cancelled : Bool
  start : Option Record
  logout : Option Record

/-- Where `initRole` has got to after `NewRole`. -/
inductive StartStage where
  | registerSes
  | registerRole
  | run
  deriving DecidableEq

/-- The login goroutine. -/
inductive LogonPc where
  | idle
  | starting (r : Nat) (stage : StartStage)
  | cleaning (now : Int) (todo : List RoleID)
  | exited

inductive ClosePc where
  | off
  /-- `CloseAndWait` up to the given shard. -/
  | scanning (shard : Nat) (metas : List Nat)
  | kicking (todo metas : List Nat)
  | waiting (todo : List Nat)
  | producers
  | consumers
  | returned
  deriving DecidableEq

def saveGoCnt : Nat := 3
def loadingGoCnt : Nat := 3
def shardCount : Nat := 64

structure State where
  now : Int
  data : Map RoleID LoginData
  ops : List LogonEvent
  pc : LogonPc
  /-- The login goroutine has seen `ctx.Done` and is in `drainOps`. -/
  draining : Bool
  ctxDone : Bool
  loads : List Load
  loaderExited : Fin loadingGoCnt → Bool
  reentries : List Reentry
  roles : List Role
  ses : Map UInt64 RoleID
  reg : Map RoleID Nat
  savers : Fin saveGoCnt → Saver TypeComp Text
  stores : Stores TypeComp Text
  close : ClosePc
  /-- The roles whose `EvtLogout` has been processed, in that order. -/
  logged : List Nat
  /-- The `S2SRoleClear` messages sent by `cleanup`. -/
  cleared : List (RoleID × UInt32)

namespace State

/-- A server after `Start`, over any contents of the stores. -/
def initial (now : Int) (stores : Stores TypeComp Text) : State where
  now := now
  data := ∅
  ops := []
  pc := .idle
  draining := false
  ctxDone := false
  loads := []
  loaderExited := fun _ => false
  reentries := []
  roles := []
  ses := ∅
  reg := ∅
  savers := fun _ => newSaver
  stores := stores
  close := .off
  logged := []
  cleared := []

/-- `m.save[p.ID % saveGoCnt]`. -/
def saverOf (id : RoleID) : Fin saveGoCnt :=
  ⟨id.toNat % saveGoCnt, Nat.mod_lt _ (by decide)⟩

def loaderOf (id : RoleID) : Fin loadingGoCnt :=
  ⟨id.toNat % loadingGoCnt, Nat.mod_lt _ (by decide)⟩

/-- A send on `m.ops`, which blocks while the channel is full. -/
def post (s : State) (e : LogonEvent) : Option State :=
  if s.ops.length < opChanSize then some { s with ops := s.ops ++ [e] } else none

/-- `setState` on the entry of a role, if it has one. -/
def setState (s : State) (id : RoleID) (state : LoginState) : State :=
  { s with
    data :=
      match s.data.lookup id with
      | some v => s.data.insert id { v with state, stateTime := s.now }
      | none => s.data }

/-- `ld.Cache = p.Data` if the role has an entry. -/
def setCache (s : State) (op : OpSaveData TypeComp Text) : State :=
  { s with
    data :=
      match s.data.lookup op.id with
      | some v => s.data.insert op.id { v with cache := op.data }
      | none => s.data }

/-- `Push` on the saver of the role. -/
def push (s : State) (op : OpSaveData TypeComp Text) : State :=
  let saver := s.savers (saverOf op.id)
  { s with
    savers := Function.update s.savers (saverOf op.id)
      { saver with q := (saver.q.push op).1 } }

/-- `saveOne`: a push that is refused is only logged. -/
def saveOne (s : State) (op : OpSaveData TypeComp Text) : State :=
  (s.setCache op).push op

/-- `saveMust` returns once the op has been accepted or the queue is closed. -/
def saveMust (s : State) (op : OpSaveData TypeComp Text) : Option State :=
  if ((s.savers (saverOf op.id)).q.push op).2 = some .queueFull then none
  else some (s.saveOne op)

def setLoad (s : State) (i : Nat) (phase : LoadPhase) : State :=
  { s with
    loads :=
      match s.loads[i]? with
      | some l => s.loads.set i { l with phase }
      | none => s.loads }

def setReentry (s : State) (g : Nat) (phase : ReentryPhase) : State :=
  { s with
    reentries :=
      match s.reentries[g]? with
      | some v => s.reentries.set g { v with phase }
      | none => s.reentries }

def setRole (s : State) (i : Nat) (r : Role) : State :=
  { s with roles := s.roles.set i r }

end State

end GameCluster
