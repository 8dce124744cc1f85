import Mathlib.Algebra.BigOperators.Group.List.Basic
import Mathlib.Algebra.GroupWithZero.Nat
import Mathlib.Order.Interval.Finset.Nat

/-!
Choosing an index by weight. The weights cut the numbers below their sum into
consecutive intervals, and a number chooses the index whose interval it is in. So
an index is chosen by exactly as many numbers as its weight says.
-/

namespace GameCluster.Lib

/-- The first index at which the running sum of the weights is greater than `d`. -/
def pick : List ℕ → ℕ → Option ℕ
  | [], _ => none
  | w :: ws, d => if d < w then some 0 else (pick ws (d - w)).map (· + 1)

theorem pick_eq_some_iff {ws : List ℕ} {d k : ℕ} :
    pick ws d = some k ↔ k < ws.length ∧ (ws.take k).sum ≤ d ∧ d < (ws.take (k + 1)).sum := by
  induction ws generalizing d k with
  | nil => simp [pick]
  | cons w ws ih =>
    rw [pick]
    by_cases hd : d < w
    · rw [if_pos hd]
      cases k with
      | zero => simp [hd]
      | succ k =>
        simp only [List.take_succ_cons, List.sum_cons, Option.some.injEq]
        omega
    · rw [if_neg hd, Option.map_eq_some_iff]
      cases k with
      | zero => simp [hd]
      | succ k =>
        simp only [Nat.add_right_cancel_iff, exists_eq_right, ih, List.length_cons,
          List.take_succ_cons, List.sum_cons]
        omega

theorem exists_pick {ws : List ℕ} {d : ℕ} (h : d < ws.sum) : ∃ k, pick ws d = some k := by
  induction ws generalizing d with
  | nil => simp at h
  | cons w ws ih =>
    rw [pick]
    by_cases hd : d < w
    · exact ⟨0, if_pos hd⟩
    · rw [List.sum_cons] at h
      obtain ⟨k, hk⟩ := ih (by omega : d - w < ws.sum)
      exact ⟨k + 1, by rw [if_neg hd, hk, Option.map_some]⟩

/-- An index is chosen by as many numbers as its weight says. -/
theorem card_pick {ws : List ℕ} {k w : ℕ} (h : ws[k]? = some w) :
    ((Finset.range ws.sum).filter fun d => pick ws d = some k).card = w := by
  obtain ⟨hk, rfl⟩ := List.getElem?_eq_some_iff.mp h
  have hnext : (ws.take (k + 1)).sum = (ws.take k).sum + ws[k] := by
    rw [List.take_succ_eq_append_getElem hk, List.sum_append, List.sum_singleton]
  have hle : (ws.take (k + 1)).sum ≤ ws.sum := by
    rw [← List.sum_take_add_sum_drop ws (k + 1)]
    exact Nat.le_add_right _ _
  have hinterval : ((Finset.range ws.sum).filter fun d => pick ws d = some k) =
      Finset.Ico (ws.take k).sum (ws.take (k + 1)).sum := by
    ext d
    simp only [Finset.mem_filter, Finset.mem_range, pick_eq_some_iff, Finset.mem_Ico]
    omega
  rw [hinterval, Nat.card_Ico, hnext]
  omega

example : (List.range 6).map (pick [1, 3, 2]) =
    [some 0, some 1, some 1, some 1, some 2, some 2] := by decide

end GameCluster.Lib
