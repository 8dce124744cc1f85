import Mathlib.Algebra.Group.Int.Defs
import Mathlib.Algebra.Order.Group.Nat
import Mathlib.Tactic.Common

/-!
Decimal numbers as text. `decimalNat` and `decimalInt` say what number a text denotes,
and `Nat.repr` and `Int.repr` write it, so that two numbers are equal exactly when their
texts are. `parseUint` and `parseInt` read numbers of a given width.
-/

namespace GameCluster.Lib

/-- The number that a text of digits denotes. -/
def decimalNat (cs : List Char) : Option ℕ :=
  if cs ≠ [] ∧ cs.all Char.isDigit then some (Nat.ofDigitChars 10 cs 0) else none

def withSign (neg : Bool) (n : ℕ) : ℤ := if neg then -n else n

/-- The number that a text of digits after an optional sign denotes. -/
def decimalInt : List Char → Option ℤ
  | '+' :: cs => (decimalNat cs).map (withSign false)
  | '-' :: cs => (decimalNat cs).map (withSign true)
  | cs => (decimalNat cs).map (withSign false)

theorem decimalNat_repr (n : ℕ) : decimalNat n.repr.toList = some n := by
  have hdigits : (Nat.toDigits 10 n).all Char.isDigit = true := by
    rw [List.all_eq_true]
    intro c hc
    exact Nat.isDigit_of_mem_toDigits (by decide) (by decide) hc
  rw [decimalNat, Nat.repr_eq_ofList_toDigits, String.toList_ofList,
    if_pos ⟨Nat.toDigits_ne_nil, hdigits⟩, Nat.ofDigitChars_ten_toDigits]

/-- A number is determined by its text. -/
theorem repr_eq_repr_iff {m n : ℕ} : m.repr = n.repr ↔ m = n := by
  constructor
  · intro h
    have hvalue := decimalNat_repr m
    rw [h, decimalNat_repr] at hvalue
    exact (Option.some.inj hvalue).symm
  · rintro rfl
    rfl

theorem notMem_repr {c : Char} (hc : c.isDigit = false) (n : ℕ) : c ∉ n.repr.toList := by
  intro hmem
  rw [Nat.repr_eq_ofList_toDigits, String.toList_ofList] at hmem
  have hdigit : c.isDigit = true := Nat.isDigit_of_mem_toDigits (by decide) (by decide) hmem
  rw [hc] at hdigit
  cases hdigit

/-- Digits without a sign denote the same number in both readings. -/
theorem decimalInt_of_decimalNat {cs : List Char} {n : ℕ} (h : decimalNat cs = some n) :
    decimalInt cs = some (n : ℤ) := by
  obtain ⟨⟨hne, hdigits⟩, -⟩ := Option.ite_none_right_eq_some.mp h
  obtain ⟨c, rest, rfl⟩ := List.exists_cons_of_ne_nil hne
  have hc : c.isDigit = true := List.all_eq_true.mp hdigits c List.mem_cons_self
  have hplus : c ≠ '+' := by
    rintro rfl
    cases hc
  have hminus : c ≠ '-' := by
    rintro rfl
    cases hc
  have hdec : decimalInt (c :: rest) = (decimalNat (c :: rest)).map (withSign false) := by
    simp [decimalInt, hplus, hminus]
  rw [hdec, h]
  rfl

theorem toList_repr_negSucc (n : ℕ) : (Int.negSucc n).repr.toList = '-' :: (n + 1).repr.toList := by
  have hrepr : (Int.negSucc n).repr = "-" ++ (n + 1).repr := rfl
  rw [hrepr, String.toList_append]
  rfl

theorem decimalInt_repr (z : ℤ) : decimalInt z.repr.toList = some z := by
  cases z with
  | ofNat n => exact decimalInt_of_decimalNat (decimalNat_repr n)
  | negSucc n =>
    rw [toList_repr_negSucc, decimalInt, decimalNat_repr]
    rfl

theorem notMem_int_repr {c : Char} (hc : c.isDigit = false) (hsign : c ≠ '-') (z : ℤ) :
    c ∉ z.repr.toList := by
  cases z with
  | ofNat n => exact notMem_repr hc n
  | negSucc n =>
    rw [toList_repr_negSucc, List.mem_cons, not_or]
    exact ⟨hsign, notMem_repr hc (n + 1)⟩

/-- `strconv.ParseUint` with base 10, up to the error. -/
def parseUint (bits : ℕ) (s : String) : Option ℕ := (decimalNat s.toList).filter (· < 2 ^ bits)

theorem parseUint_repr {bits n : ℕ} (h : n < 2 ^ bits) : parseUint bits n.repr = some n := by
  rw [parseUint, decimalNat_repr, Option.filter_some, if_pos (decide_eq_true h)]

/-- `strconv.ParseInt` with base 10, up to the error. -/
def parseInt (bits : ℕ) (s : String) : Option ℤ :=
  (decimalInt s.toList).filter fun z => -2 ^ (bits - 1) ≤ z ∧ z < 2 ^ (bits - 1)

theorem parseInt_repr {bits : ℕ} {z : ℤ} (hlow : -2 ^ (bits - 1) ≤ z)
    (hhigh : z < 2 ^ (bits - 1)) : parseInt bits z.repr = some z := by
  rw [parseInt, decimalInt_repr, Option.filter_some, if_pos (decide_eq_true ⟨hlow, hhigh⟩)]

example : parseUint 8 "255" = some 255 ∧ parseUint 8 "256" = none ∧ parseUint 8 "" = none := by
  decide +kernel

example : parseInt 8 "-128" = some (-128) ∧ parseInt 8 "+5" = some 5 ∧ parseInt 8 "128" = none := by
  decide +kernel

end GameCluster.Lib
