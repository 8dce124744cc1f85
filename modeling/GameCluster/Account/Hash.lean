import GameCluster.Lib.Decimal
import GameCluster.Lib.Map

/-!
The Redis hash of an account (`account/auth/acc.go`): its fields as texts, the
two Lua scripts that compare and change it, and how an `Account` is read from
it. A script runs as one step. Numbers are written in decimal, and a field that
is missing reads as zero.
-/

namespace GameCluster.Account

open Lib

/-- The fields of `acc:{id}`. -/
inductive Field where
  | accID
  | binds
  | freeze
  | gameID
  | seq
  | passwd
  deriving DecidableEq, Repr

abbrev Hash := Map Field String

/-- `AccFields`. -/
def accFields : List Field := [.accID, .binds, .freeze, .gameID, .seq, .passwd]

/-- `StateFields`. -/
def stateFields : List Field := [.gameID, .seq, .passwd]

/-- `HGET key seq`, with `'0'` for a missing field. -/
def Hash.currentSeq (h : Hash) : String := (h.lookup .seq).getD "0"

def saveLoginLua (h : Hash) (expectedSeq gameID seq passwd : String) : Hash × Bool :=
  if h.currentSeq = expectedSeq then
    (((h.insert .gameID gameID).insert .seq seq).insert .passwd passwd, true)
  else (h, false)

def clearGameLua (h : Hash) (expectedSeq : String) : Hash × Bool :=
  if h.currentSeq = expectedSeq then (h.insert .gameID "0", true) else (h, false)

/-- `Account`. -/
structure Data where
  accID : UInt64 := 0
  freeze : Bool := false
  gameID : UInt8 := 0
  seq : UInt32 := 0
  passwd : UInt64 := 0
  binds : List String := []
  bindsJSON : String := ""

/-- `strconv.ParseBool`. -/
def parseBool (s : String) : Option Bool :=
  if s ∈ ["1", "t", "T", "TRUE", "true", "True"] then some true
  else if s ∈ ["0", "f", "F", "FALSE", "false", "False"] then some false
  else none

namespace Data

/-- What `Scan` makes of the text of one field. -/
def setField (acc : Data) (f : Field) (s : String) : Option Data :=
  match f with
  | .accID => (parseUint 64 s).map fun n => { acc with accID := .ofNat n }
  | .binds => some { acc with bindsJSON := s }
  | .freeze => (parseBool s).map fun b => { acc with freeze := b }
  | .gameID => (parseUint 8 s).map fun n => { acc with gameID := .ofNat n }
  | .seq => (parseUint 32 s).map fun n => { acc with seq := .ofNat n }
  | .passwd => (parseUint 64 s).map fun n => { acc with passwd := .ofNat n }

/-- `HMGET` and `Scan`: fields that are missing are passed over, and the first
text that does not parse is an error, with the fields before it set. -/
def scan (acc : Data) (h : Hash) : List Field → Data × Bool
  | [] => (acc, true)
  | f :: rest =>
    match h.lookup f with
    | none => acc.scan h rest
    | some s =>
      match acc.setField f s with
      | some acc => acc.scan h rest
      | none => (acc, false)

def unmarshalBinds (acc : Data) : Data :=
  if acc.bindsJSON ≠ "" then { acc with binds := acc.bindsJSON.splitOn "," } else acc

def marshalBinds (acc : Data) : String :=
  if acc.binds ≠ [] then String.intercalate "," acc.binds else acc.bindsJSON

end Data

/-- What no field writes to is not changed by `Scan`. -/
theorem scan_keeps {β : Type} (part : Data → β) (h : Hash) (fields : List Field)
    (hkeep : ∀ f ∈ fields, ∀ (acc acc' : Data) (v : String), acc.setField f v = some acc' →
      part acc' = part acc) (acc : Data) : part (acc.scan h fields).1 = part acc := by
  induction fields generalizing acc with
  | nil => rfl
  | cons f rest ih =>
    have hrest := ih fun g hg => hkeep g (List.mem_cons_of_mem f hg)
    rw [Data.scan]
    split
    · exact hrest acc
    · split
      · rename_i acc' hset
        rw [hrest acc', hkeep f List.mem_cons_self acc acc' _ hset]
      · rfl

/-- The text of field `f` stands for `n`. -/
def Hash.Reads (h : Hash) (f : Field) (n : ℕ) : Prop :=
  h.lookup f = none ∧ n = 0 ∨ h.lookup f = some n.repr

/-- The three fields of the login state. -/
structure Hash.Holds (h : Hash) (gameID : UInt8) (seq : UInt32) (passwd : UInt64) : Prop where
  gameID : h.Reads .gameID gameID.toNat
  seq : h.Reads .seq seq.toNat
  passwd : h.Reads .passwd passwd.toNat

theorem Hash.Holds.empty : Hash.Holds ∅ 0 0 0 := by
  constructor <;> exact Or.inl ⟨rfl, rfl⟩

theorem Hash.Reads.currentSeq {h : Hash} {n : ℕ} (hr : h.Reads .seq n) : h.currentSeq = n.repr := by
  obtain ⟨hnone, rfl⟩ | hsome := hr
  · rw [Hash.currentSeq, hnone]
    rfl
  · rw [Hash.currentSeq, hsome]
    rfl

/-- The scripts compare numbers. -/
theorem Hash.Reads.currentSeq_eq_iff {h : Hash} {n : ℕ} (hr : h.Reads .seq n) (k : ℕ) :
    h.currentSeq = k.repr ↔ n = k := by
  rw [hr.currentSeq]
  exact repr_eq_repr_iff

theorem Hash.Reads.scan {h : Hash} {f : Field} {n : ℕ} (hr : h.Reads f n) {acc acc' : Data}
    (rest : List Field) (hzero : n = 0 → acc' = acc)
    (hset : acc.setField f n.repr = some acc') : acc.scan h (f :: rest) = acc'.scan h rest := by
  rw [Data.scan]
  obtain ⟨hnone, hn⟩ | hsome := hr
  · simp only [hnone, hzero hn]
  · simp only [hsome, hset]

theorem Hash.Holds.clear {h : Hash} {gameID : UInt8} {seq : UInt32} {passwd : UInt64}
    (hh : h.Holds gameID seq passwd) : Hash.Holds (h.insert .gameID "0") 0 seq passwd := by
  have hother : ∀ {f : Field} {n : ℕ}, f ≠ .gameID → h.Reads f n →
      Hash.Reads (h.insert .gameID "0") f n := by
    intro f n hf hr
    rw [Hash.Reads, Map.lookup_insert_ite, if_neg hf]
    exact hr
  exact ⟨Or.inr (by simp; decide), hother (by decide) hh.seq, hother (by decide) hh.passwd⟩

/-- `Scan` over the state fields of an account without a login state of its own
reads the one that the hash holds. -/
theorem Hash.Holds.scan_state {h : Hash} {gameID : UInt8} {seq : UInt32} {passwd : UInt64}
    (hh : h.Holds gameID seq passwd) (acc : Data) (hg : acc.gameID = 0) (hs : acc.seq = 0)
    (hp : acc.passwd = 0) : acc.scan h stateFields = ({ acc with gameID, seq, passwd }, true) := by
  have hgame : acc.scan h stateFields = { acc with gameID }.scan h [.seq, .passwd] := by
    refine hh.gameID.scan _ (fun hn => ?_) ?_
    · rw [UInt8.toNat_inj.mp (hn.trans UInt8.toNat_zero.symm), ← hg]
    · simp [Data.setField, parseUint_repr (gameID.toNat_lt)]
  have hseq : { acc with gameID }.scan h [.seq, .passwd] =
      { acc with gameID, seq }.scan h [.passwd] := by
    refine hh.seq.scan _ (fun hn => ?_) ?_
    · rw [UInt32.toNat_inj.mp (hn.trans UInt32.toNat_zero.symm), hs]
    · simp [Data.setField, parseUint_repr (seq.toNat_lt)]
  have hpasswd : { acc with gameID, seq }.scan h [.passwd] =
      { acc with gameID, seq, passwd }.scan h [] := by
    refine hh.passwd.scan _ (fun hn => ?_) ?_
    · rw [UInt64.toNat_inj.mp (hn.trans UInt64.toNat_zero.symm), hp]
    · simp [Data.setField, parseUint_repr (passwd.toNat_lt)]
  rw [hgame, hseq, hpasswd, Data.scan]

end GameCluster.Account
