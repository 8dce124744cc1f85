import Mathlib.Algebra.BigOperators.Fin
import Mathlib.Data.List.InsertIdx

/-!
The weight of what is in a list, and of what is in a family of places. A step that
only moves things around keeps the weight of the whole; the lemmas say what the
list operations do to their part of it.
-/

namespace GameCluster.Lib

open scoped BigOperators

variable {α β ι : Type*} (w : α → ℕ)

def tally (l : List α) : ℕ := (l.map w).sum

@[simp] theorem tally_nil : tally w [] = 0 := rfl

@[simp] theorem tally_cons (a : α) (l : List α) : tally w (a :: l) = w a + tally w l := by
  simp [tally]

@[simp] theorem tally_append (l l' : List α) : tally w (l ++ l') = tally w l + tally w l' := by
  simp [tally]

@[simp] theorem tally_map (f : β → α) (l : List β) :
    tally w (l.map f) = tally (fun b => w (f b)) l := by
  simp [tally, Function.comp_def]

theorem tally_eraseIdx {l : List α} {k : ℕ} {a : α} (h : l[k]? = some a) :
    tally w (l.eraseIdx k) + w a = tally w l := by
  obtain ⟨hk, rfl⟩ := List.getElem?_eq_some_iff.mp h
  have hsum := List.add_sum_eraseIdx (l := l.map w) (i := k) (by simpa using hk)
    fun _ _ => Nat.add_comm _ _
  rw [List.getElem_map, List.eraseIdx_map] at hsum
  rw [tally, tally, ← hsum, Nat.add_comm]

theorem tally_filter (p : α → Bool) (l : List α) :
    tally w (l.filter p) + tally w (l.filter fun a => !p a) = tally w l := by
  induction l with
  | nil => rfl
  | cons a l ih =>
    cases hp : p a <;> simp [hp] <;> omega

theorem tally_countP (p : α → Prop) [DecidablePred p] (l : List α) :
    tally (fun a => if p a then 1 else 0) l = l.countP p := by
  induction l with
  | nil => rfl
  | cons a l ih =>
    rw [tally_cons, ih, List.countP_cons]
    simp [Nat.add_comm]

/-- One place of a family is filled anew. -/
theorem sum_update [Fintype ι] [DecidableEq ι] (f : ι → α) (i : ι) (x : α) :
    ∑ j, w (Function.update f i x j) + w (f i) = ∑ j, w (f j) + w x := by
  have hcomp : ∀ j, w (Function.update f i x j) =
      Function.update (fun j => w (f j)) i (w x) j :=
    fun j => Function.apply_update (fun _ => w) f i x j
  have hsplit : ∑ j, w (f j) = w (f i) + ∑ j ∈ Finset.univ \ {i}, w (f j) :=
    Finset.sum_eq_add_sum_sdiff_singleton i _ fun hi => absurd (Finset.mem_univ i) hi
  simp only [hcomp]
  rw [Finset.sum_update_of_mem (Finset.mem_univ i), hsplit]
  omega

end GameCluster.Lib
