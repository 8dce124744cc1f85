import Mathlib.Tactic.TypeStar
import Mathlib.Algebra.Order.Group.Nat

/-!
The list commands of Redis by their documented index rules: an index below zero
counts from the end, a start before the list is its start, a stop behind it is
its last element, and a range that is empty then selects nothing. `LTRIM` keeps
what `LRANGE` would return.
-/

namespace GameCluster.Lib.RedisList

variable {τ : Type*}

/-- An index as counted from the front. -/
def fromFront (len : ℕ) (i : ℤ) : ℤ := if i < 0 then i + len else i

def lrange (l : List τ) (start stop : ℤ) : List τ :=
  let first := max (fromFront l.length start) 0
  let last := min (fromFront l.length stop) (l.length - 1)
  if last < first then [] else (l.drop first.toNat).take (last - first + 1).toNat

def ltrim (l : List τ) (start stop : ℤ) : List τ := lrange l start stop

theorem fromFront_of_nonneg {len : ℕ} {i : ℤ} (h : 0 ≤ i) : fromFront len i = i :=
  if_neg (not_lt.mpr h)

theorem fromFront_of_neg {len : ℕ} {i : ℤ} (h : i < 0) : fromFront len i = i + len := if_pos h

/-- A range up to the end of the list. -/
theorem lrange_to_end (l : List τ) {start : ℤ} {n : ℕ}
    (h : max (fromFront l.length start) 0 = n) : lrange l start (-1) = l.drop n := by
  unfold lrange
  rw [h, fromFront_of_neg (by decide)]
  have hlast : min (-1 + (l.length : ℤ)) (l.length - 1) = l.length - 1 := by omega
  simp only [hlast, Int.toNat_natCast]
  split
  · rename_i hlt
    rw [List.drop_eq_nil_of_le (by omega)]
  · rename_i hge
    apply List.take_of_length_le
    rw [List.length_drop]
    omega

theorem lrange_front (l : List τ) {n : ℕ} (hn : 0 < n) : lrange l 0 ((n : ℤ) - 1) = l.take n := by
  unfold lrange
  rw [fromFront_of_nonneg (le_refl 0), fromFront_of_nonneg (by omega : (0 : ℤ) ≤ n - 1)]
  simp only [max_self, Int.toNat_zero, List.drop_zero, Int.sub_zero]
  split
  · rename_i hlt
    have hnil : l = [] := List.length_eq_zero_iff.mp (by omega)
    rw [hnil, List.take_nil]
  · rename_i hge
    have hcount : (min ((n : ℤ) - 1) (l.length - 1) + 1).toNat = min n l.length := by omega
    rw [hcount, ← List.take_eq_take_min]

/-- `LTRIM key -n -1` keeps the last `n` elements. -/
theorem ltrim_back (l : List τ) {n : ℕ} (hn : 0 < n) :
    ltrim l (-(n : ℤ)) (-1) = l.drop (l.length - n) := by
  apply lrange_to_end
  rw [fromFront_of_neg (by omega)]
  omega

/-- `LTRIM key n -1` drops the first `n` elements. -/
theorem ltrim_front (l : List τ) (n : ℕ) : ltrim l n (-1) = l.drop n := by
  apply lrange_to_end
  rw [fromFront_of_nonneg (Int.natCast_nonneg n)]
  omega

end GameCluster.Lib.RedisList
