import GameCluster.Gateway.Forward
import GameCluster.Lib.Fields

/-!
Who gets what is published (`msgq/nats.go`, `msgq/sub.go`). A server subscribes
to four subjects, made from its type and its ID, and the senders make the
subjects from the destination. The names for calls are kept in a cache under a
key of 64 bits that holds the type and the ID.
-/

namespace GameCluster.Bus

open Lib Gateway

/-! ### Names -/

def anySubjectName (serType : UInt32) : String := "msg." ++ srvName serType ++ ".any"

def broadcastSubjectName (serType : UInt32) : String := "msg." ++ srvName serType ++ ".broadcast"

/-- `rpcSubCache` -/
abbrev SubCache := Map UInt64 String

def rpcKey (serType : UInt32) (serID : UInt8) : UInt64 :=
  serType.toInt32.toInt64.toUInt64 <<< 32 ||| serID.toUInt64

def rpcName (serType : UInt32) (serID : UInt8) : String :=
  "rpc." ++ srvName serType ++ ".node." ++ serID.toNat.repr

/-- The name, and the cache after it. -/
def rpcNodeSubjectName (cache : SubCache) (serType : UInt32) (serID : UInt8) : String × SubCache :=
  match cache.lookup (rpcKey serType serID) with
  | some val => (val, cache)
  | none =>
    let str := rpcName serType serID
    (str, cache.insert (rpcKey serType serID) str)

/-- The caches that callers fill. Two of them may both miss and store. -/
inductive SubCache.Filled : SubCache → Prop
  | empty : Filled ∅
  | store {cache : SubCache} (serType : UInt32) (serID : UInt8) :
      Filled cache → Filled (cache.insert (rpcKey serType serID) (rpcName serType serID))

theorem rpcKey_high (serType : UInt32) (serID : UInt8) {i : ℕ} (hi : i < 32) :
    (rpcKey serType serID).toBitVec.getLsbD (i + 32) = serType.toBitVec.getLsbD i := by
  have hsum : i + 32 < 64 := by omega
  simp [rpcKey, BitVec.getElem_signExtend, hsum, hi]

theorem rpcKey_low (serType : UInt32) (serID : UInt8) {i : ℕ} (hi : i < 8) :
    (rpcKey serType serID).toBitVec.getLsbD i = serID.toBitVec.getLsbD i := by
  have hword : i < 64 := by omega
  have hhalf : i < 32 := by omega
  simp [rpcKey, hword, hhalf]

/-- No two servers share a key, although only the low half of the type is in it. -/
theorem rpcKey_inj {serType serType' : UInt32} {serID serID' : UInt8}
    (h : rpcKey serType serID = rpcKey serType' serID') : serType = serType' ∧ serID = serID' := by
  constructor
  · apply UInt32.toBitVec_inj.mp
    apply BitVec.eq_of_getLsbD_eq
    intro i hi
    rw [← rpcKey_high serType serID hi, h, rpcKey_high serType' serID' hi]
  · apply UInt8.toBitVec_inj.mp
    apply BitVec.eq_of_getLsbD_eq
    intro i hi
    rw [← rpcKey_low serType serID hi, h, rpcKey_low serType' serID' hi]

theorem SubCache.Filled.lookup {cache : SubCache} (h : cache.Filled) {serType : UInt32}
    {serID : UInt8} {val : String} (hval : cache.lookup (rpcKey serType serID) = some val) :
    val = rpcName serType serID := by
  induction h with
  | empty => cases hval
  | store serType' serID' _ ih =>
    rw [Map.lookup_insert_ite] at hval
    split at hval
    · rename_i hkey
      obtain ⟨rfl, rfl⟩ := rpcKey_inj hkey
      exact (Option.some.inj hval).symm
    · exact ih hval

/-- What others have asked for before does not show. -/
theorem SubCache.Filled.rpcNodeSubjectName {cache : SubCache} (h : cache.Filled)
    (serType : UInt32) (serID : UInt8) :
    (rpcNodeSubjectName cache serType serID).1 = rpcName serType serID := by
  unfold Bus.rpcNodeSubjectName
  split
  · rename_i val hval
    exact h.lookup hval
  · rfl

theorem SubCache.Filled.after {cache : SubCache} (h : cache.Filled) (serType : UInt32)
    (serID : UInt8) : (Bus.rpcNodeSubjectName cache serType serID).2.Filled := by
  unfold Bus.rpcNodeSubjectName
  split
  · exact h
  · exact .store serType serID h

/-! ### Destinations -/

/-- The types that `pb.Server_name` has a name for. -/
def Named (serType : UInt32) : Prop := srvName serType ≠ ""

instance (serType : UInt32) : Decidable (Named serType) :=
  inferInstanceAs (Decidable (srvName serType ≠ ""))

/-- Where a message or a call goes. -/
inductive Dest where
  | node (serType : UInt32) (serID : UInt8)
  | any (serType : UInt32)
  | broadcast (serType : UInt32)
  | rpc (serType : UInt32) (serID : UInt8)
  deriving DecidableEq, Repr

/-- The subject that a sender makes; `cache` is the sender's. -/
def Dest.subject (cache : SubCache) : Dest → String
  | node serType serID => nodeSubjectName serType serID
  | any serType => anySubjectName serType
  | broadcast serType => broadcastSubjectName serType
  | rpc serType serID => (rpcNodeSubjectName cache serType serID).1

/-- Whom it is for. -/
def Dest.addresses (serType : UInt32) (serID : UInt8) : Dest → Bool
  | node t i => serType = t ∧ serID = i
  | any t => serType = t
  | broadcast t => serType = t
  | rpc t i => serType = t ∧ serID = i

/-- The queue group in which it is taken. -/
def Dest.queue : Dest → String
  | any _ => "msg.group"
  | _ => ""

theorem srvName_inj {serType serType' : UInt32} (h : Named serType)
    (heq : srvName serType = srvName serType') : serType = serType' := by
  apply UInt32.toNat_inj.mp
  unfold Named srvName at h
  unfold srvName at heq
  split at h
  case h_9 => exact absurd rfl h
  all_goals
    rename_i hnum
    simp only [hnum] at heq ⊢
    split at heq <;> rename_i hnum' <;> first | exact hnum'.symm | simp at heq

theorem dot_notMem_srvName (serType : UInt32) : '.' ∉ (srvName serType).toList := by
  unfold srvName
  split <;> simp

/-! A subject has three parts with dots between them, the last of which may have
a dot of its own. -/

def Dest.root : Dest → String
  | rpc _ _ => "rpc"
  | _ => "msg"

def Dest.serType : Dest → UInt32
  | node t _ => t
  | any t => t
  | broadcast t => t
  | rpc t _ => t

def Dest.rest : Dest → String
  | node _ i => "node." ++ i.toNat.repr
  | any _ => "any"
  | broadcast _ => "broadcast"
  | rpc _ i => "node." ++ i.toNat.repr

theorem Dest.subject_toList {cache : SubCache} (hc : cache.Filled) (d : Dest) :
    (d.subject cache).toList =
      d.root.toList ++ '.' :: ((srvName d.serType).toList ++ '.' :: d.rest.toList) := by
  cases d with
  | node t i => simp [subject, nodeSubjectName, root, serType, rest]
  | any t => simp [subject, anySubjectName, root, serType, rest]
  | broadcast t => simp [subject, broadcastSubjectName, root, serType, rest]
  | rpc t i => simp [subject, hc.rpcNodeSubjectName, rpcName, root, serType, rest]

theorem Dest.eq_of_parts {d d' : Dest} (hroot : d.root = d'.root) (htype : d.serType = d'.serType)
    (hrest : d.rest = d'.rest) : d = d' := by
  have hid : ∀ i i' : UInt8, "node." ++ i.toNat.repr = "node." ++ i'.toNat.repr → i = i' := by
    intro i i' h
    have hlist := congrArg String.toList h
    rw [String.toList_append, String.toList_append] at hlist
    exact UInt8.toNat_inj.mp
      (repr_eq_repr_iff.mp (String.toList_inj.mp (List.append_cancel_left hlist)))
  have hfirst := congrArg (fun w => w.toList.head?) hrest
  cases d with
  | node t i =>
    cases d' with
    | node t' i' => exact congrArg₂ node htype (hid i i' hrest)
    | rpc t' i' => simp [root] at hroot
    | _ => simp [rest] at hfirst
  | any t =>
    cases d' with
    | any t' => exact congrArg any htype
    | _ => simp [rest] at hfirst
  | broadcast t =>
    cases d' with
    | broadcast t' => exact congrArg broadcast htype
    | _ => simp [rest] at hfirst
  | rpc t i =>
    cases d' with
    | rpc t' i' => exact congrArg₂ rpc htype (hid i i' hrest)
    | _ => simp [root] at hroot

/-- Different destinations have different subjects. -/
theorem Dest.subject_inj {cache cache' : SubCache} (hc : cache.Filled) (hc' : cache'.Filled)
    {d d' : Dest} (hd : Named d.serType) (h : d.subject cache = d'.subject cache') : d = d' := by
  have hlist := congrArg String.toList h
  rw [d.subject_toList hc, d'.subject_toList hc'] at hlist
  have hnodot : ∀ e : Dest, '.' ∉ e.root.toList := by
    intro e
    cases e <;> simp [root]
  obtain ⟨hroot, hlist⟩ := append_sep_inj (hnodot d) (hnodot d') hlist
  obtain ⟨hname, hrest⟩ := append_sep_inj (dot_notMem_srvName _) (dot_notMem_srvName _) hlist
  exact eq_of_parts (String.toList_inj.mp hroot) (srvName_inj hd (String.toList_inj.mp hname))
    (String.toList_inj.mp hrest)

/-! ### Subscriptions -/

/-- `DataBus.getSubjects`: the queue of each subject, and the cache after it. -/
def getSubjects (cache : SubCache) (serType : UInt32) (serID : UInt8) :
    Map String String × SubCache :=
  let subs : Map String String := ∅
  let subs := subs.insert (broadcastSubjectName serType) ""
  let subs := subs.insert (nodeSubjectName serType serID) ""
  let subs := subs.insert (anySubjectName serType) "msg.group"
  let (rpc, cache) := rpcNodeSubjectName cache serType serID
  (subs.insert rpc "", cache)

/-- A server is subscribed to the subject of a destination if and only if it is
addressed by it, in the queue for it, whatever names the server and the sender
have in their caches by then. Subscribing leaves names in the server's cache that
are right again. -/
theorem subscribed_iff_addressed (cache cache' : SubCache) (hc : cache.Filled)
    (hc' : cache'.Filled) (serType : UInt32) (hnamed : Named serType) (serID : UInt8) (d : Dest) :
    (getSubjects cache serType serID).1.lookup (d.subject cache') =
        (if d.addresses serType serID then some d.queue else none) ∧
      (getSubjects cache serType serID).2.Filled := by
  have hsame : ∀ e : Dest, e.serType = serType →
      (d.subject cache' = e.subject cache ↔ d = e) := by
    intro e he
    constructor
    · intro h
      exact (Dest.subject_inj hc hc' (he ▸ hnamed) h.symm).symm
    · rintro rfl
      cases d with
      | rpc t i => exact (hc'.rpcNodeSubjectName t i).trans (hc.rpcNodeSubjectName t i).symm
      | _ => rfl
  have hrpc : d.subject cache' = (rpcNodeSubjectName cache serType serID).1 ↔
      d = .rpc serType serID := hsame (.rpc serType serID) rfl
  have hany : d.subject cache' = anySubjectName serType ↔ d = .any serType :=
    hsame (.any serType) rfl
  have hnode : d.subject cache' = nodeSubjectName serType serID ↔ d = .node serType serID :=
    hsame (.node serType serID) rfl
  have hbroadcast : d.subject cache' = broadcastSubjectName serType ↔ d = .broadcast serType :=
    hsame (.broadcast serType) rfl
  refine ⟨?_, hc.after serType serID⟩
  simp only [getSubjects, Map.lookup_insert_ite, hrpc, hany, hnode, hbroadcast]
  cases d <;> simp [Dest.addresses, Dest.queue, @eq_comm _ serType, @eq_comm _ serID]

/-- The first game server, which has called the second one before, and a caller
that has no names yet. -/
theorem game_subscribed_to_call :
    (getSubjects (rpcNodeSubjectName ∅ 2 2).2 2 1).1.lookup ((Dest.rpc 2 1).subject ∅) =
        (if (Dest.rpc 2 1).addresses 2 1 then some (Dest.rpc 2 1).queue else none) ∧
      (getSubjects (rpcNodeSubjectName ∅ 2 2).2 2 1).2.Filled :=
  subscribed_iff_addressed _ ∅ (SubCache.Filled.empty.after 2 2) .empty 2 (by decide) 1 (.rpc 2 1)

end GameCluster.Bus
