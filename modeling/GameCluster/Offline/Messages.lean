import GameCluster.Bus.Frame
import GameCluster.Lib.Decimal
import GameCluster.Lib.Fields
import GameCluster.Offline.Events
import Mathlib.Data.List.Induction
import Mathlib.Logic.Function.Basic

/-!
Offline events and offline messages side by side (`share/offline_evt`), as
calls that run one after the other. `Add` and `Do` use the list under
`offlineDataKey`. `AddMsg` writes to the list under `offlineMsgKey`, and
`HandleMsg` reads and cuts the one under `offlineDataKey`.

Of protobuf only this is used, that unmarshalling a marshalled value gives the
value back. A Redis list that does not exist is empty.
-/

namespace GameCluster.Offline

open Lib

structure NatsMsg where
  msgID : UInt32
  data : List UInt8
  serID : Int32 := 0
  serType : Int32 := 0
  roleID : UInt64
  sesID : UInt64 := 0
  forward : Bool := false
  deriving DecidableEq

/-- A `proto.Message`, by its full name and its marshalled fields. -/
structure ProtoMessage where
  name : String
  bytes : List UInt8
  deriving DecidableEq, Repr

/-- How events and messages are marshalled. Nothing rests on reading a message
back: `HandleMsg` reads the list of the events. -/
structure Proto (ω : Type) where
  marshalEvt : EvtOffline → ω
  unmarshalEvt : ω → Option EvtOffline
  marshalMsg : NatsMsg → ω
  unmarshalMsg : ω → Option NatsMsg
  unmarshal_marshalEvt : ∀ evt, unmarshalEvt (marshalEvt evt) = some evt

/-- The lists in Redis. -/
abbrev Lists (ω : Type) := String → List ω

/-- The two keys of a role; `srvType` is `flag.SrvType`. -/
def roleKey (srvType : ℕ) (kind : String) (roleID : UInt64) : String :=
  "role:" ++ roleID.toNat.repr ++ ":" ++ srvType.repr ++ ":" ++ kind

def offlineDataKey (srvType : ℕ) : UInt64 → String := roleKey srvType "offline_evt"

def offlineMsgKey (srvType : ℕ) : UInt64 → String := roleKey srvType "offline_msg"

section Code

variable {ω : Type} (p : Proto ω) (srvType : ℕ)

/-- `RPUSH key v` and `LTRIM key -MaxEvents -1`. -/
def pushTrim (lists : Lists ω) (key : String) (v : ω) : Lists ω :=
  let lists := Function.update lists key (lists key ++ [v])
  Function.update lists key (RedisList.ltrim (lists key) (-maxEvents) (-1))

def newEvt (roleID : UInt64) (msg : ProtoMessage) : EvtOffline where
  msgName := msg.name
  data := msg.bytes
  roleID := roleID

def add (lists : Lists ω) (roleID : UInt64) (msg : ProtoMessage) : Lists ω :=
  pushTrim lists (offlineDataKey srvType roleID) (p.marshalEvt (newEvt roleID msg))

def addMsg (lists : Lists ω) (msg : NatsMsg) : Lists ω :=
  pushTrim lists (offlineMsgKey srvType msg.roleID) (p.marshalMsg msg)

/-- `LRANGE key 0 MaxEvents-1`, what the loop makes of each element, and
`LTRIM key len(ss) -1`. -/
def readTrim {β : Type} (lists : Lists ω) (key : String) (f : ω → Option β) :
    Lists ω × List β :=
  let ss := RedisList.lrange (lists key) 0 (maxEvents - 1)
  if ss.isEmpty then (lists, [])
  else (Function.update lists key (RedisList.ltrim (lists key) ss.length (-1)), ss.filterMap f)

/-- `Do`, with the events that it has passed to their handlers. -/
def doEvents (h : Handlers) (lists : Lists ω) (roleID : UInt64) : Lists ω × List EvtOffline :=
  readTrim lists (offlineDataKey srvType roleID) fun v => (p.unmarshalEvt v).filter h.passes

/-- What `HandleMsg` makes of a stored message. -/
def toRouter (msg : NatsMsg) : Bus.Message where
  head :=
    { actorID := 0, sesID := 0, msgID := msg.msgID, flag := 0, fromSer := 0, fromSerID := 0,
      toSer := 0, toSerID := 0 }
  data := msg.data

/-- `HandleMsg`, with the messages that it has passed to the router. -/
def handleMsg (lists : Lists ω) (roleID : UInt64) : Lists ω × List Bus.Message :=
  readTrim lists (offlineDataKey srvType roleID) fun v => (p.unmarshalMsg v).map toRouter

inductive Call where
  | add (roleID : UInt64) (msg : ProtoMessage)
  | addMsg (msg : NatsMsg)

def Call.run (lists : Lists ω) : Call → Lists ω
  | .add roleID msg => Offline.add p srvType lists roleID msg
  | .addMsg msg => Offline.addMsg p srvType lists msg

/-- The lists after these calls, for any roles. -/
def stored (calls : List Call) : Lists ω :=
  calls.foldl (Call.run p srvType) fun _ => []

end Code

/-- The events that the calls have added for a role. -/
def events (roleID : UInt64) (calls : List Call) : List EvtOffline :=
  calls.filterMap fun
    | .add id msg => if id = roleID then some (newEvt id msg) else none
    | .addMsg _ => none

def messages (roleID : UInt64) (calls : List Call) : List NatsMsg :=
  calls.filterMap fun
    | .add _ _ => none
    | .addMsg msg => if msg.roleID = roleID then some msg else none

/-- The last `MaxEvents` elements. -/
def newest {τ : Type} (l : List τ) : List τ := l.drop (l.length - maxEvents)

inductive Order where
  | handleMsgFirst
  | doFirst
  deriving DecidableEq, Repr

variable {ω : Type} (p : Proto ω) (h : Handlers) (srvType : ℕ)

/-- The lists that `HandleMsg` and `Do` are called with. -/
def inOrder (lists : Lists ω) (roleID : UInt64) : Order → Lists ω × Lists ω
  | .handleMsgFirst => (lists, (handleMsg p srvType lists roleID).1)
  | .doFirst => ((doEvents p srvType h lists roleID).1, lists)

/-- Each of the two readers gets what was stored for it, and leaves what was
stored for the other. -/
structure SeparateIn (calls : List Call) (roleID : UInt64) (atMsg atDo : Lists ω) : Prop where
  passed : (handleMsg p srvType atMsg roleID).2 = (newest (messages roleID calls)).map toRouter
  handled : (doEvents p srvType h atDo roleID).2 = newest (events roleID calls)
  keepsEvents : (handleMsg p srvType atMsg roleID).1 (offlineDataKey srvType roleID) =
    atMsg (offlineDataKey srvType roleID)
  keepsMessages : (doEvents p srvType h atDo roleID).1 (offlineMsgKey srvType roleID) =
    atDo (offlineMsgKey srvType roleID)

def Separate (calls : List Call) (roleID : UInt64) (o : Order) : Prop :=
  let lists := inOrder p h srvType (stored p srvType calls) roleID o
  SeparateIn p h srvType calls roleID lists.1 lists.2

variable {p h srvType} {roleID : UInt64} {calls : List Call}

theorem roleKey_inj {kind kind' : String} {id id' : UInt64}
    (heq : roleKey srvType kind id = roleKey srvType kind' id') : id = id' ∧ kind = kind' := by
  have htexts := congrArg String.toList heq
  simp only [roleKey, String.toList_append, List.append_assoc] at htexts
  obtain ⟨hid, hrest⟩ := append_sep_inj (notMem_repr (by decide : ':'.isDigit = false) _)
    (notMem_repr (by decide) _) (List.append_cancel_left htexts)
  have hnumber := repr_eq_repr_iff.mp (String.toList_inj.mp hid)
  have hkind : ":".toList ++ kind.toList = ":".toList ++ kind'.toList :=
    List.append_cancel_left (List.append_cancel_left hrest)
  exact ⟨UInt64.toNat_inj.mp hnumber, String.toList_inj.mp (List.append_cancel_left hkind)⟩

theorem dataKey_ne_msgKey (srvType : ℕ) (id id' : UInt64) :
    offlineDataKey srvType id ≠ offlineMsgKey srvType id' := by
  intro heq
  exact absurd (roleKey_inj heq).2 (by decide)

theorem length_newest_le {τ : Type} (l : List τ) : (newest l).length ≤ maxEvents := by
  rw [newest, List.length_drop]
  omega

/-- Cutting before an element is appended and after it is cutting once. -/
theorem newest_concat {τ : Type} (l : List τ) (x : τ) :
    newest (newest l ++ [x]) = newest (l ++ [x]) := by
  have hpos : 0 < maxEvents := by decide
  rcases Nat.le_total l.length maxEvents with hle | hle
  · rw [newest, newest, Nat.sub_eq_zero_of_le hle, List.drop_zero, newest]
  · have hlen : (newest l ++ [x]).length - maxEvents = 1 := by
      rw [newest, List.length_append, List.length_drop, List.length_singleton]
      omega
    have hlen' : (l ++ [x]).length - maxEvents = l.length - maxEvents + 1 := by
      rw [List.length_append, List.length_singleton]
      omega
    rw [newest, hlen, newest, ← List.drop_append_of_le_length (by omega), List.drop_drop, newest,
      hlen']

theorem newest_map {τ υ : Type} (f : τ → υ) (l : List τ) : newest (l.map f) = (newest l).map f := by
  rw [newest, newest, List.length_map, List.map_drop]

section Lists

variable (lists : Lists ω) {key key' : String}

theorem pushTrim_self (key : String) (v : ω) :
    pushTrim lists key v key = newest (lists key ++ [v]) := by
  simp only [pushTrim, Function.update_self]
  exact RedisList.ltrim_back _ (by decide)

theorem pushTrim_of_ne (hne : key' ≠ key) (v : ω) : pushTrim lists key v key' = lists key' := by
  simp only [pushTrim, Function.update_of_ne hne]

variable {β : Type} (f : ω → Option β)

theorem readTrim_of_nil (hnil : lists key = []) : readTrim lists key f = (lists, []) := by
  unfold readTrim
  rw [hnil]
  rfl

theorem readTrim_of_ne (hne : key' ≠ key) : (readTrim lists key f).1 key' = lists key' := by
  unfold readTrim
  simp only
  split
  · rfl
  · exact Function.update_of_ne hne _ _

/-- A list of at most `MaxEvents` elements is read to its end. -/
theorem readTrim_short (hlen : (lists key).length ≤ maxEvents) :
    (readTrim lists key f).2 = (lists key).filterMap f ∧ (readTrim lists key f).1 key = [] := by
  have hread : RedisList.lrange (lists key) 0 (maxEvents - 1) = lists key := by
    rw [RedisList.lrange_front _ (by decide : 0 < maxEvents), List.take_of_length_le hlen]
  unfold readTrim
  simp only [hread]
  split
  · rename_i hempty
    have hnil := List.isEmpty_iff.mp hempty
    exact ⟨by rw [hnil]; rfl, hnil⟩
  · simp only [Function.update_self, RedisList.ltrim_front, List.drop_length, and_self]

end Lists

def Call.key (srvType : ℕ) : Call → String
  | .add roleID _ => offlineDataKey srvType roleID
  | .addMsg msg => offlineMsgKey srvType msg.roleID

def Call.value (p : Proto ω) : Call → ω
  | .add roleID msg => p.marshalEvt (newEvt roleID msg)
  | .addMsg msg => p.marshalMsg msg

theorem Call.run_eq (lists : Lists ω) (c : Call) :
    c.run p srvType lists = pushTrim lists (c.key srvType) (c.value p) := by
  cases c <;> rfl

/-- A list holds the newest of the values that were written to its key. -/
theorem stored_eq (calls : List Call) (key : String) :
    stored p srvType calls key =
      newest (calls.filterMap fun c => if c.key srvType = key then some (c.value p) else none) := by
  induction calls using List.reverseRecOn with
  | nil => rfl
  | append_singleton calls c ih =>
    have hstep : stored p srvType (calls ++ [c]) = c.run p srvType (stored p srvType calls) :=
      List.foldl_concat ..
    rw [hstep, Call.run_eq, List.filterMap_append]
    by_cases hkey : c.key srvType = key
    · rw [← hkey, pushTrim_self, hkey, ih, newest_concat]
      simp only [List.filterMap_cons, List.filterMap_nil, hkey, if_true]
    · rw [pushTrim_of_ne _ (Ne.symm hkey), ih]
      simp only [List.filterMap_cons, List.filterMap_nil, hkey, if_false, List.append_nil]

theorem stored_events (calls : List Call) (roleID : UInt64) :
    stored p srvType calls (offlineDataKey srvType roleID) =
      (newest (events roleID calls)).map p.marshalEvt := by
  rw [stored_eq, ← newest_map, events, List.map_filterMap]
  congr 2
  funext c
  cases c with
  | add id msg =>
    by_cases hid : id = roleID
    · simp [Call.key, Call.value, hid]
    · have hkey : offlineDataKey srvType id ≠ offlineDataKey srvType roleID :=
        fun heq => hid (roleKey_inj heq).1
      simp [Call.key, hid, hkey]
  | addMsg msg => simp [Call.key, (dataKey_ne_msgKey srvType roleID msg.roleID).symm]

theorem length_stored_events (calls : List Call) (roleID : UInt64) :
    (stored p srvType calls (offlineDataKey srvType roleID)).length ≤ maxEvents := by
  rw [stored_events, List.length_map]
  exact length_newest_le _

/-- `Do` handles those of the newest events of its role that pass, and leaves none behind. -/
theorem doEvents_stored (srvType : ℕ) (calls : List Call) (roleID : UInt64) :
    (doEvents p srvType h (stored p srvType calls) roleID).2 =
        (newest (events roleID calls)).filter h.passes ∧
      (doEvents p srvType h (stored p srvType calls) roleID).1
        (offlineDataKey srvType roleID) = [] := by
  obtain ⟨hread, htrim⟩ := readTrim_short (stored p srvType calls)
    (fun v => (p.unmarshalEvt v).filter h.passes) (length_stored_events calls roleID)
  refine ⟨?_, htrim⟩
  rw [doEvents, hread, stored_events, List.filterMap_map, ← List.filterMap_eq_filter]
  refine List.filterMap_congr fun evt _ => ?_
  simp [p.unmarshal_marshalEvt, Option.guard, Option.filter]

theorem handleMsg_of_nil {lists : Lists ω} (hnil : lists (offlineDataKey srvType roleID) = []) :
    handleMsg p srvType lists roleID = (lists, []) :=
  readTrim_of_nil lists _ hnil

theorem newest_eq_nil {τ : Type} {l : List τ} : newest l = [] ↔ l = [] := by
  have hpos : 0 < maxEvents := by decide
  rw [newest, List.drop_eq_nil_iff, ← List.length_eq_zero_iff]
  omega

/-- `HandleMsg` leaves the events of the role only if there are none. -/
theorem events_eq_nil_of_keeps
    (hkeeps : (handleMsg p srvType (stored p srvType calls) roleID).1
      (offlineDataKey srvType roleID) = stored p srvType calls (offlineDataKey srvType roleID)) :
    events roleID calls = [] := by
  have htrim := (readTrim_short (stored p srvType calls)
    (fun v => (p.unmarshalMsg v).map toRouter) (length_stored_events calls roleID)).2
  have hstored := hkeeps.symm.trans htrim
  rwa [stored_events, List.map_eq_nil_iff, newest_eq_nil] at hstored

/-- A list without events has nothing that `HandleMsg` could pass on. -/
theorem messages_eq_nil_of_passed {lists : Lists ω}
    (hnil : lists (offlineDataKey srvType roleID) = [])
    (hpassed : (handleMsg p srvType lists roleID).2 =
      (newest (messages roleID calls)).map toRouter) : messages roleID calls = [] := by
  rw [handleMsg_of_nil hnil] at hpassed
  exact newest_eq_nil.mp (List.map_eq_nil_iff.mp hpassed.symm)

theorem stored_of_events_nil (srvType : ℕ) (hempty : events roleID calls = []) :
    stored p srvType calls (offlineDataKey srvType roleID) = [] := by
  rw [stored_events, hempty]
  rfl

/-- The two readers do not disturb each other exactly if no message is stored for
the role, `Do` can handle the newest events, and none of them waits when
`HandleMsg` is called. -/
theorem offline_queues_separate (p : Proto ω) (h : Handlers) (srvType : ℕ) (calls : List Call)
    (roleID : UInt64) (o : Order) :
    Separate p h srvType calls roleID o ↔
      messages roleID calls = [] ∧
        (∀ evt ∈ newest (events roleID calls), h.passes evt = true) ∧
        (o = .doFirst ∨ events roleID calls = []) := by
  have hne := (dataKey_ne_msgKey srvType roleID roleID).symm
  obtain ⟨hhandled, htrim⟩ := doEvents_stored (p := p) (h := h) srvType calls roleID
  constructor
  · intro hsep
    cases o with
    | doFirst =>
      refine ⟨messages_eq_nil_of_passed htrim hsep.passed, ?_, Or.inl rfl⟩
      exact List.filter_eq_self.mp (hhandled.symm.trans hsep.handled)
    | handleMsgFirst =>
      have hempty := events_eq_nil_of_keeps hsep.keepsEvents
      refine ⟨?_, by simp [hempty, newest], Or.inr hempty⟩
      exact messages_eq_nil_of_passed (stored_of_events_nil srvType hempty) hsep.passed
  · rintro ⟨hmessages, hpasses, hevents⟩
    have hpassed : (newest (messages roleID calls)).map toRouter = [] := by
      rw [hmessages]
      rfl
    rw [List.filter_eq_self.mpr hpasses] at hhandled
    cases o with
    | doFirst =>
      have hnone := handleMsg_of_nil (p := p) htrim
      refine ⟨?_, hhandled, ?_, readTrim_of_ne _ _ hne⟩
      · exact (congrArg Prod.snd hnone).trans hpassed.symm
      · exact congrFun (congrArg Prod.fst hnone) _
    | handleMsgFirst =>
      have hempty := hevents.resolve_left (by decide)
      have hnil := stored_of_events_nil (p := p) srvType hempty
      have hnone := handleMsg_of_nil (p := p) hnil
      refine ⟨?_, ?_, ?_, readTrim_of_ne _ _ hne⟩
      · exact (congrArg Prod.snd hnone).trans hpassed.symm
      · rw [inOrder, hnone]
        exact hhandled
      · exact congrFun (congrArg Prod.fst hnone) _

/-- Wire values that say what they are. -/
def tagged : Proto (EvtOffline ⊕ NatsMsg) where
  marshalEvt := .inl
  unmarshalEvt := Sum.getLeft?
  marshalMsg := .inr
  unmarshalMsg := Sum.getRight?
  unmarshal_marshalEvt _ := rfl

/-- Twelve events of role 5000, and a message to another role. -/
def twelveEvents : List Call :=
  .addMsg { msgID := 22, data := [8, 1], roleID := 6000 } ::
    (List.range 12).map fun i => .add 5000 ⟨"pb.S2SReqLogin", [8, .ofNat i]⟩

theorem twelveEvents_separate :
    (events 5000 twelveEvents).length = 12 ∧
      Separate tagged everyHandler 2 twelveEvents 5000 .doFirst :=
  ⟨by decide, (offline_queues_separate tagged everyHandler 2 twelveEvents 5000 .doFirst).mpr
    ⟨by decide, by simp [Handlers.passes, everyHandler], Or.inl rfl⟩⟩

def oneMessage : List Call := [.addMsg { msgID := 22, data := [8, 1], roleID := 5000 }]

theorem not_separate_oneMessage (o : Order) : ¬Separate p h srvType oneMessage 5000 o := by
  intro hsep
  have hnil : (inOrder p h srvType (stored p srvType oneMessage) 5000 o).1
      (offlineDataKey srvType 5000) = [] := by
    cases o with
    | handleMsgFirst => exact stored_of_events_nil srvType (by decide)
    | doFirst => exact (doEvents_stored srvType oneMessage 5000).2
  exact absurd (messages_eq_nil_of_passed hnil hsep.passed) (by decide)

/-- The message is passed to the router in neither order. -/
theorem oneMessage_not_passed :
    ¬Separate tagged everyHandler 2 oneMessage 5000 .handleMsgFirst ∧
      ¬Separate tagged everyHandler 2 oneMessage 5000 .doFirst :=
  ⟨not_separate_oneMessage .handleMsgFirst, not_separate_oneMessage .doFirst⟩

end GameCluster.Offline
