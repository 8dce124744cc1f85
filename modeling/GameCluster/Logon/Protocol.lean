import GameCluster.Lib.Table
import GameCluster.Logon.State

/-!
The login protocol of a game server without its data: the login state of each
role ID, the signals in the event channel, and where every load, re-entry and
role has got to. Records, clocks, savers and stores are left out, and so is
everything that does not decide which role may start when.

The transitions carry the four conditions under which the protocol keeps its
promise. The source does not enforce them:

* a login that retries a load (`reload`) finds no load of its role under way;
* a login of a role without a live state (`firstLoad`, `relogin`) finds no
  re-entry of its role under way;
* `KickAndWait` (`kickMiss`, `kickFound`) does not read the registry between a
  role's `Unregister` and its `EvtLogout`;
* a role that registers (`registerSes`) does not take over the session of
  another role.
-/

namespace GameCluster

open Lib

namespace Protocol

inductive LoadStage where
  | working
  | posted
  | gone
  deriving DecidableEq

structure Load where
  id : RoleID
  phase : LoadStage

structure Reentry where
  id : RoleID
  phase : ReentryPhase
  found : Option Nat

structure Role where
  id : RoleID
  sesID : UInt64
  phase : RolePhase

/-- The events that advance the protocol, with the goroutine they come from. -/
inductive Signal where
  | loaded (i : Nat)
  | reentry (g : Nat)
  | logout (r : Nat)
  deriving DecidableEq

structure Control where
  state : RoleID → Option LoginState
  signals : List Signal
  loads : List Load
  reentries : List Reentry
  roles : List Role
  logged : List Nat
  ses : Map UInt64 RoleID
  reg : Map RoleID Nat
  /-- The role that `initRole` is registering and starting. -/
  starting : Option (Nat × StartStage)

namespace Control

/-- `setState` on an entry that may be missing. -/
def setState (c : Control) (x : RoleID) (st : LoginState) : Control :=
  { c with state := Function.update c.state x ((c.state x).map fun _ => st) }

theorem setState_missing {c : Control} {x : RoleID} (h : c.state x = none) (st : LoginState) :
    c.setState x st = c := by
  rw [setState, h, Option.map_none, ← h, Function.update_eq_self]

/-- The successful end of `initRole`. -/
def create (c : Control) (x : RoleID) (ses : UInt64) : Control :=
  { c with
    state := Function.update c.state x (some .stateOnline)
    roles := c.roles ++ [⟨x, ses, .created⟩]
    starting := some (c.roles.length, .registerSes) }

def setRole (c : Control) (i : Nat) (r : Role) : Control :=
  { c with roles := c.roles.set i r }

end Control

/-- The moves of a role's goroutine that touch neither registry nor channel. -/
inductive Advance : RolePhase → RolePhase → Prop
  | online : Advance .started .running
  | exit : Advance .running .leaving
  | panic : Advance .running .panicked
  | done : Advance .posted .done

/-- One step of the protocol. -/
inductive Step (c : Control) : Control → Prop
  | idle : Step c c
  | firstLoad {x : RoleID} (hstate : c.state x = none ∨ c.state x = some .stateInit)
      (hre : ∀ v ∈ c.reentries, v.id = x → v.phase = .gone) :
      Step c
        { c with
          state := Function.update c.state x (some .statePending)
          loads := c.loads ++ [⟨x, .working⟩] }
  | reload {x : RoleID} (hstate : c.state x = some .statePending)
      (hload : ∀ l ∈ c.loads, l.id = x → l.phase = .gone) :
      Step c { c with loads := c.loads ++ [⟨x, .working⟩] }
  | kick {x : RoleID} (hidle : c.starting = none) (hstate : c.state x = some .stateOnline) :
      Step c
        { c with
          state := Function.update c.state x (some .stateKicking)
          reentries := c.reentries ++ [⟨x, .spawned, none⟩] }
  | relogin {x : RoleID} (ses : UInt64) (hidle : c.starting = none)
      (hstate : c.state x = some .stateOffline ∨ c.state x = some .stateCanDel)
      (hre : ∀ v ∈ c.reentries, v.id = x → v.phase = .gone) :
      Step c (c.create x ses)
  | reloginReject {x : RoleID}
      (hstate : c.state x = some .stateOffline ∨ c.state x = some .stateCanDel) :
      Step c (c.setState x .stateOffline)
  | loadedStart {i : Nat} {rest : List Signal} {l : Load} (ses : UInt64)
      (hidle : c.starting = none) (hsig : c.signals = .loaded i :: rest)
      (hl : c.loads[i]? = some l) :
      Step c
        ({ c with signals := rest, loads := c.loads.set i { l with phase := .gone } }.create
          l.id ses)
  | loadedReject {i : Nat} {rest : List Signal} {l : Load}
      (hsig : c.signals = .loaded i :: rest) (hl : c.loads[i]? = some l) :
      Step c
        ({ c with signals := rest, loads := c.loads.set i { l with phase := .gone } }.setState
          l.id .stateOffline)
  | reentryStart {g : Nat} {rest : List Signal} {v : Reentry} (ses : UInt64)
      (hidle : c.starting = none) (hsig : c.signals = .reentry g :: rest)
      (hv : c.reentries[g]? = some v) :
      Step c
        ({ c with
            signals := rest
            reentries := c.reentries.set g { v with phase := .gone } }.create v.id ses)
  | reentryReject {g : Nat} {rest : List Signal} {v : Reentry}
      (hsig : c.signals = .reentry g :: rest) (hv : c.reentries[g]? = some v) :
      Step c
        ({ c with
            signals := rest
            reentries := c.reentries.set g { v with phase := .gone } }.setState
          v.id .stateOffline)
  | logout {i : Nat} {rest : List Signal} {r : Role}
      (hsig : c.signals = .logout i :: rest) (hr : c.roles[i]? = some r) :
      Step c
        ({ c with signals := rest, logged := c.logged ++ [i] }.setState r.id .stateOffline)
  | saved (ids : List RoleID) :
      Step c
        { c with
          state := fun x =>
            if x ∈ ids ∧ c.state x = some .stateOffline then some .stateCanDel
            else c.state x }
  | release {x : RoleID} (hstate : c.state x = some .stateCanDel) :
      Step c { c with state := Function.update c.state x none }
  | loadDrop {i : Nat} {l : Load} (hl : c.loads[i]? = some l) (hp : l.phase = .working) :
      Step c { c with loads := c.loads.set i { l with phase := .gone } }
  | loadPost {i : Nat} {l : Load} (hl : c.loads[i]? = some l) (hp : l.phase = .working) :
      Step c
        { c with
          loads := c.loads.set i { l with phase := .posted }
          signals := c.signals ++ [.loaded i] }
  | kickMiss {g : Nat} {v : Reentry} (hv : c.reentries[g]? = some v) (hp : v.phase = .spawned)
      (hreg : c.reg.lookup v.id = none)
      (hgap : ∀ r ∈ c.roles, r.id = v.id → r.phase ≠ .unregistered) :
      Step c { c with reentries := c.reentries.set g { v with phase := .posting } }
  | kickFound {g : Nat} {v : Reentry} {i : Nat} (hv : c.reentries[g]? = some v)
      (hp : v.phase = .spawned) (hreg : c.reg.lookup v.id = some i)
      (hgap : ∀ r ∈ c.roles, r.id = v.id → r.phase ≠ .unregistered) :
      Step c
        { c with
          reentries := c.reentries.set g { v with phase := .waiting, found := some i } }
  | waitDone {g : Nat} {v : Reentry} {i : Nat} {r : Role} (hv : c.reentries[g]? = some v)
      (hp : v.phase = .waiting) (hfound : v.found = some i) (hr : c.roles[i]? = some r)
      (hwait : r.phase = .created ∨ r.phase = .done) :
      Step c { c with reentries := c.reentries.set g { v with phase := .posting } }
  | reentryPost {g : Nat} {v : Reentry} (hv : c.reentries[g]? = some v)
      (hp : v.phase = .posting) :
      Step c
        { c with
          reentries := c.reentries.set g { v with phase := .posted }
          signals := c.signals ++ [.reentry g] }
  | registerSes {i : Nat} {r : Role} (hst : c.starting = some (i, .registerSes))
      (hr : c.roles[i]? = some r)
      (hses : c.ses.lookup r.sesID = none ∨ c.ses.lookup r.sesID = some r.id) :
      Step c
        { c with ses := c.ses.insert r.sesID r.id, starting := some (i, .registerRole) }
  | registerRole {i : Nat} {r : Role} (hst : c.starting = some (i, .registerRole))
      (hr : c.roles[i]? = some r) :
      Step c { c with reg := c.reg.insert r.id i, starting := some (i, .run) }
  | run {i : Nat} {r : Role} (hst : c.starting = some (i, .run)) (hr : c.roles[i]? = some r) :
      Step c { c.setRole i { r with phase := .started } with starting := none }
  | advance {i : Nat} {r : Role} {p : RolePhase} (hr : c.roles[i]? = some r)
      (hp : Advance r.phase p) : Step c (c.setRole i { r with phase := p })
  | leaveSes {i : Nat} {r : Role} (hr : c.roles[i]? = some r) (hp : r.phase = .leaving)
      (hses : c.ses.lookup r.sesID = some r.id) :
      Step c { c.setRole i { r with phase := .leftSes } with ses := c.ses.erase r.sesID }
  | loseSes {i : Nat} {r : Role} (hr : c.roles[i]? = some r) (hp : r.phase = .leaving)
      (hses : c.ses.lookup r.sesID ≠ some r.id) :
      Step c (c.setRole i { r with phase := .unregistered })
  | leaveReg {i : Nat} {r : Role} (hr : c.roles[i]? = some r) (hp : r.phase = .leftSes) :
      Step c { c.setRole i { r with phase := .unregistered } with reg := c.reg.erase r.id }
  | postLogout {i : Nat} {r : Role} (hr : c.roles[i]? = some r) (hp : r.phase = .unregistered) :
      Step c
        { c.setRole i { r with phase := .posted } with
          signals := c.signals ++ [.logout i] }

/-- The role has posted its `EvtLogout`. -/
def Posted : RolePhase → Prop
  | .posted | .done => True
  | _ => False

/-- The role's goroutine has begun and its `EvtLogout` is still to come. -/
def Live : RolePhase → Prop
  | .created | .posted | .done => False
  | _ => True

/-- The registry still has the entry made for the role. -/
def InReg : RolePhase → Prop
  | .started | .running | .leaving | .leftSes | .panicked => True
  | _ => False

/-- The registry still has the session made for the role. -/
def InSes : RolePhase → Prop
  | .started | .running | .leaving | .panicked => True
  | _ => False

/-- A role whose `EvtLogout` has not been processed. -/
abbrev Open (c : Control) (i : Nat) (r : Role) : Prop := c.roles[i]? = some r ∧ i ∉ c.logged

/-- Every signal in the channel stands for exactly one goroutine that has
posted it and not been heard yet. -/
structure Channel (c : Control) : Prop where
  nodup : c.signals.Nodup
  loaded : ∀ i, .loaded i ∈ c.signals ↔ ∃ l, c.loads[i]? = some l ∧ l.phase = .posted
  reentry : ∀ g, .reentry g ∈ c.signals ↔ ∃ v, c.reentries[g]? = some v ∧ v.phase = .posted
  logout : ∀ i, .logout i ∈ c.signals ↔
    ∃ r, c.roles[i]? = some r ∧ Posted r.phase ∧ i ∉ c.logged
  logged : ∀ i ∈ c.logged, ∃ r, c.roles[i]? = some r ∧ Posted r.phase

/-- A role ID has a load under way only while its entry is pending, a role only
while it is online or being kicked, and at most one of each. -/
structure Exclusive (c : Control) : Prop where
  load_state : ∀ (i : Nat) (l : Load), c.loads[i]? = some l → l.phase ≠ .gone →
    c.state l.id = some .statePending
  load_unique : ∀ (i j : Nat) (l l' : Load), c.loads[i]? = some l → l.phase ≠ .gone →
    c.loads[j]? = some l' → l'.phase ≠ .gone → l.id = l'.id → i = j
  role_state : ∀ (i : Nat) (r : Role), Open c i r →
    c.state r.id = some .stateOnline ∨ c.state r.id = some .stateKicking
  state_role : ∀ x, c.state x = some .stateOnline ∨ c.state x = some .stateKicking →
    ∃ i r, Open c i r ∧ r.id = x
  role_unique : ∀ (i j : Nat) (r r' : Role), Open c i r → Open c j r' → r.id = r'.id → i = j
  created : ∀ (i : Nat) (r : Role), c.roles[i]? = some r → r.phase = .created →
    ∃ stage, c.starting = some (i, stage)
  starting : ∀ i stage, c.starting = some (i, stage) →
    ∃ r, c.roles[i]? = some r ∧ r.phase = .created

/-- A re-entry is under way only while its role is being kicked or has gone, and
once it has stopped waiting the role's `EvtLogout` is ahead of it. -/
structure Ordered (c : Control) : Prop where
  state : ∀ (g : Nat) (v : Reentry), c.reentries[g]? = some v → v.phase ≠ .gone →
    c.state v.id ≠ some .stateOnline ∧ c.state v.id ≠ some .statePending
  unique : ∀ (g h : Nat) (v w : Reentry), c.reentries[g]? = some v → v.phase ≠ .gone →
    c.reentries[h]? = some w → w.phase ≠ .gone → v.id = w.id → g = h
  started : ∀ (g : Nat) (v : Reentry), c.reentries[g]? = some v → v.phase ≠ .gone →
    ∀ (i : Nat) (r : Role), Open c i r → r.id = v.id → r.phase ≠ .created
  waiting : ∀ (g : Nat) (v : Reentry), c.reentries[g]? = some v → v.phase = .waiting →
    ∀ (i : Nat) (r : Role), Open c i r → r.id = v.id → v.found = some i ∨ Posted r.phase
  posting : ∀ (g : Nat) (v : Reentry), c.reentries[g]? = some v →
    v.phase = .posting ∨ v.phase = .posted →
    ∀ (i : Nat) (r : Role), Open c i r → r.id = v.id → Posted r.phase
  ahead : ∀ (g : Nat) (v : Reentry), c.reentries[g]? = some v → v.phase = .posted →
    ∀ (i : Nat) (r : Role), Open c i r → r.id = v.id → Before (.logout i) (.reentry g) c.signals

/-- The registry has exactly the entries made for roles that have not left it,
and the session of each of them until it leaves. -/
structure Registered (c : Control) : Prop where
  reg : ∀ (i : Nat) (r : Role), c.roles[i]? = some r → InReg r.phase ∨ c.starting = some (i, .run) →
    c.reg.lookup r.id = some i
  ses : ∀ (i : Nat) (r : Role), c.roles[i]? = some r →
    InSes r.phase ∨ c.starting = some (i, .registerRole) ∨ c.starting = some (i, .run) →
    c.ses.lookup r.sesID = some r.id
  entry : ∀ x i, c.reg.lookup x = some i → ∃ r, c.roles[i]? = some r ∧ r.id = x ∧
    (InReg r.phase ∨ c.starting = some (i, .run))

structure Inv (c : Control) : Prop where
  channel : Channel c
  exclusive : Exclusive c
  ordered : Ordered c
  registered : Registered c

end Protocol

end GameCluster
