import GameCluster.Lib.Machine
import GameCluster.Lib.RedisList
import GameCluster.Lib.Table
import Mathlib.Data.List.Nodup

/-!
The offline events of a role (`share/offline_evt/offline_evt.go`). `Add` appends
an event to the role's Redis list and cuts the list to its last `MaxEvents`
elements; `Do` reads the first `MaxEvents`, runs their handlers and cuts off as
many elements as it has read. Each is several commands, and Redis runs the
commands of all callers one at a time in any order.

The list holds the numbers of the `Add` calls in place of the bytes, so that two
equal events stay apart. `handled` and `evicted` are histories: what `Do` has
passed to a handler, and what the cut of an `Add` has removed, with the number
of elements that were behind it. The thirty days of `EXPIRE` do not pass here.
-/

namespace GameCluster.Offline

open Lib

def maxEvents : ℕ := 10

structure EvtOffline where
  msgName : String
  msgID : UInt32 := 0
  data : List UInt8
  roleID : UInt64
  deriving DecidableEq, Repr

/-- What the server that runs `Do` knows of message types. -/
structure Handlers where
  /-- `protoregistry.GlobalTypes.FindMessageByName` -/
  findMessageByName : String → Bool
  /-- Whether the type of that name accepts the bytes. -/
  unmarshal : String → List UInt8 → Bool
  /-- Whether `offlineHandle` has an entry of that name. -/
  offlineHandle : String → Bool

/-- Whether the loop of `Do` comes to the handler's call for this event. -/
def Handlers.passes (h : Handlers) (op : EvtOffline) : Bool :=
  h.findMessageByName op.msgName && (op.data.isEmpty || h.unmarshal op.msgName op.data) &&
    h.offlineHandle op.msgName

/-- A server with a handler for every type. -/
def everyHandler : Handlers where
  findMessageByName _ := true
  unmarshal _ _ := true
  offlineHandle _ := true

/-- The command that an `Add` is at. -/
inductive AddPc where
  | rpush
  | ltrim
  | expire
  | done
  deriving DecidableEq, Repr

/-- Where a `Do` stands: before its `LRANGE`, at the handler of the `i`-th event
that it has read or, after the last one, before its `LTRIM`, or returned. -/
inductive DoPc where
  | lrange
  | handling (ss : List ℕ) (i : ℕ)
  | done
  deriving DecidableEq, Repr

structure AddCall where
  evt : EvtOffline
  pc : AddPc
  deriving DecidableEq, Repr

structure Evicted where
  id : ℕ
  /-- The elements behind it in the list. -/
  newer : ℕ
  deriving DecidableEq, Repr

structure State where
  list : List ℕ := []
  adds : List AddCall := []
  dos : List DoPc := []
  handled : List ℕ := []
  evicted : List Evicted := []

inductive Act where
  /-- A new call of `Add`. -/
  | add (evt : EvtOffline)
  | stepAdd (i : ℕ)
  /-- A new call of `Do`. -/
  | call
  | stepDo (d : ℕ)

/-- What `LTRIM -MaxEvents -1` removes. -/
def cut (list : List ℕ) : List Evicted :=
  (list.take (list.length - maxEvents)).zipIdx.map fun e => ⟨e.1, list.length - 1 - e.2⟩

namespace State

def setAdd (s : State) (i : ℕ) (c : AddCall) (pc : AddPc) : State :=
  { s with adds := s.adds.set i { c with pc } }

def stepAdd (s : State) (i : ℕ) : Option State :=
  match s.adds[i]? with
  | some ⟨evt, .rpush⟩ => some ({ s with list := s.list ++ [i] }.setAdd i ⟨evt, .rpush⟩ .ltrim)
  | some ⟨evt, .ltrim⟩ =>
    some ({ s with
      list := RedisList.ltrim s.list (-maxEvents) (-1)
      evicted := s.evicted ++ cut s.list }.setAdd i ⟨evt, .ltrim⟩ .expire)
  | some ⟨evt, .expire⟩ => some (s.setAdd i ⟨evt, .expire⟩ .done)
  | _ => none

/-- Whether the event of call `id` gets to its handler. -/
def passes (s : State) (h : Handlers) (id : ℕ) : Bool := (s.adds[id]?).any fun c => h.passes c.evt

def stepDo (h : Handlers) (s : State) (d : ℕ) : Option State :=
  match s.dos[d]? with
  | some .lrange =>
    let ss := RedisList.lrange s.list 0 (maxEvents - 1)
    some { s with dos := s.dos.set d (if ss = [] then .done else .handling ss 0) }
  | some (.handling ss i) =>
    match ss[i]? with
    | some id =>
      some { s with
        handled := if s.passes h id then s.handled ++ [id] else s.handled
        dos := s.dos.set d (.handling ss (i + 1)) }
    | none =>
      some { s with
        list := RedisList.ltrim s.list ss.length (-1)
        dos := s.dos.set d .done }
  | _ => none

end State

def step (h : Handlers) (s : State) : Act → Option State
  | .add evt => some { s with adds := s.adds ++ [⟨evt, .rpush⟩] }
  | .stepAdd i => s.stepAdd i
  | .call => some { s with dos := s.dos ++ [.lrange] }
  | .stepDo d => s.stepDo h d

/-- Any number of calls of `Add` and `Do` for one role. -/
def offlineEvents (h : Handlers) : Machine State Act where
  init s := s = {}
  step := step h

def DoPc.reading : DoPc → Bool
  | .handling _ _ => true
  | .lrange | .done => false

/-- No `Do` is between its `LRANGE` and its `LTRIM`. -/
def State.calm (s : State) : Bool := s.dos.all (!·.reading)

/-- The event has a handler on the server that runs `Do`; the calls of `Do` do
not overlap; and while one is between its commands, the cut of an `Add` removes
nothing. -/
def apart (h : Handlers) (s : State) : Act → Prop
  | .add evt => h.passes evt = true
  | .stepAdd i =>
    (s.adds[i]?).any (·.pc = .ltrim) = true → s.calm = true ∨ s.list.length ≤ maxEvents
  | .call => True
  | .stepDo d => s.dos[d]? = some .lrange → s.calm = true

instance (h : Handlers) (s : State) (a : Act) : Decidable (apart h s a) :=
  match a with
  | .add evt => inferInstanceAs (Decidable (h.passes evt = true))
  | .stepAdd i => inferInstanceAs (Decidable
      ((s.adds[i]?).any (·.pc = .ltrim) = true → s.calm = true ∨ s.list.length ≤ maxEvents))
  | .call => inferInstanceAs (Decidable True)
  | .stepDo d => inferInstanceAs (Decidable (s.dos[d]? = some .lrange → s.calm = true))

variable {h : Handlers} {s t : State} {a : Act}

inductive Effect (h : Handlers) (s : State) : Act → State → Prop
  | add (evt : EvtOffline) : Effect h s (.add evt) { s with adds := s.adds ++ [⟨evt, .rpush⟩] }
  | rpush {i : ℕ} {c : AddCall} (hc : s.adds[i]? = some c) (hpc : c.pc = .rpush) :
      Effect h s (.stepAdd i) ({ s with list := s.list ++ [i] }.setAdd i c .ltrim)
  | ltrim {i : ℕ} {c : AddCall} (hc : s.adds[i]? = some c) (hpc : c.pc = .ltrim) :
      Effect h s (.stepAdd i)
        ({ s with
          list := s.list.drop (s.list.length - maxEvents)
          evicted := s.evicted ++ cut s.list }.setAdd i c .expire)
  | expire {i : ℕ} {c : AddCall} (hc : s.adds[i]? = some c) (hpc : c.pc = .expire) :
      Effect h s (.stepAdd i) (s.setAdd i c .done)
  | call : Effect h s .call { s with dos := s.dos ++ [.lrange] }
  | empty {d : ℕ} (hd : s.dos[d]? = some .lrange) (hnone : s.list = []) :
      Effect h s (.stepDo d) { s with dos := s.dos.set d .done }
  | read {d : ℕ} (hd : s.dos[d]? = some .lrange) :
      Effect h s (.stepDo d) { s with dos := s.dos.set d (.handling (s.list.take maxEvents) 0) }
  | handle {d : ℕ} {ss : List ℕ} {i id : ℕ} (hd : s.dos[d]? = some (.handling ss i))
      (hi : ss[i]? = some id) :
      Effect h s (.stepDo d)
        { s with
          handled := if s.passes h id then s.handled ++ [id] else s.handled
          dos := s.dos.set d (.handling ss (i + 1)) }
  | trim {d : ℕ} {ss : List ℕ} {i : ℕ} (hd : s.dos[d]? = some (.handling ss i))
      (hi : ss.length ≤ i) :
      Effect h s (.stepDo d) { s with list := s.list.drop ss.length, dos := s.dos.set d .done }

theorem stepAdd_effect {i : ℕ} (hs : s.stepAdd i = some t) : Effect h s (.stepAdd i) t := by
  unfold State.stepAdd at hs
  split at hs
  · rename_i evt hc
    cases hs
    exact .rpush hc rfl
  · rename_i evt hc
    cases hs
    rw [RedisList.ltrim_back s.list (by decide : 0 < maxEvents)]
    exact .ltrim hc rfl
  · rename_i evt hc
    cases hs
    exact .expire hc rfl
  · cases hs

theorem stepDo_effect {d : ℕ} (hs : s.stepDo h d = some t) : Effect h s (.stepDo d) t := by
  have hread : RedisList.lrange s.list 0 (maxEvents - 1) = s.list.take maxEvents :=
    RedisList.lrange_front s.list (by decide)
  unfold State.stepDo at hs
  split at hs
  · rename_i hd
    cases hs
    rw [hread]
    split
    · rename_i hnil
      have hlist : s.list = [] := by
        rcases List.take_eq_nil_iff.mp hnil with hzero | hlist
        · cases hzero
        · exact hlist
      exact .empty hd hlist
    · exact .read hd
  · rename_i ss i hd
    split at hs
    · rename_i id hi
      cases hs
      exact .handle hd hi
    · rename_i hi
      cases hs
      rw [RedisList.ltrim_front]
      exact .trim hd (List.getElem?_eq_none_iff.mp hi)
  · cases hs

theorem step_effect (hs : step h s a = some t) : Effect h s a t := by
  cases a with
  | add evt =>
    cases hs
    exact .add evt
  | stepAdd i => exact stepAdd_effect hs
  | call =>
    cases hs
    exact .call
  | stepDo d => exact stepDo_effect hs

end GameCluster.Offline
