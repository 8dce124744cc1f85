import GameCluster.Lib.Table
import Mathlib.Data.List.Basic
import Mathlib.Tactic.TypeStar

/-!
Slices over shared backing arrays. An array is made with a fixed length and
keeps it. A slice here starts at the first element of its array and shows a
prefix of it. `append` writes into the array while there is room and copies to
a new array otherwise, so a slice and what was cut from it may share elements.
`swapRemove` overwrites an element with the last one and cuts the slice there.
-/

namespace GameCluster.Lib

/-- The backing arrays by address. None is ever freed. -/
abbrev Arrays (τ : Type*) := List (List τ)

/-- A list without its entry `i`, in whose place the last entry comes. -/
def swapRemove {τ : Type*} [Inhabited τ] (l : List τ) (i : ℕ) : List τ :=
  (l.set i (l.getLastD default)).dropLast

theorem perm_swapRemove {τ : Type*} [Inhabited τ] {l : List τ} {i : ℕ} {a : τ}
    (h : l[i]? = some a) : l.Perm (a :: swapRemove l i) := by
  rcases List.eq_nil_or_concat l with rfl | ⟨front, x, rfl⟩
  · simp at h
  · simp only [List.concat_eq_append] at h ⊢
    by_cases hi : i = front.length
    · subst hi
      obtain rfl : x = a := by simpa using h
      simp [swapRemove]
    · have hlt : i < front.length := by
        have := lt_length_of_some h
        rw [List.length_append, List.length_singleton] at this
        omega
      rw [List.getElem?_append_left hlt] at h
      have hrest : swapRemove (front ++ [x]) i = front.set i x := by
        simp [swapRemove, List.set_append_left _ _ hlt]
      rw [hrest, set_eq_take_cons_drop h]
      nth_rewrite 1 [eq_take_cons_drop h]
      refine (List.perm_append_singleton x _).trans ?_
      refine (List.Perm.cons x List.perm_middle).trans ((List.Perm.swap a x _).trans ?_)
      exact List.Perm.cons a List.perm_middle.symm

structure Slice where
  array : ℕ
  len : ℕ
  deriving DecidableEq, Repr

namespace Slice

variable {τ : Type*} {h : Arrays τ} {s r : Slice}

def backing (h : Arrays τ) (s : Slice) : List τ := (h[s.array]?).getD []

def cap (h : Arrays τ) (s : Slice) : ℕ := (s.backing h).length

/-- The elements that the slice shows. -/
def elems (h : Arrays τ) (s : Slice) : List τ := (s.backing h).take s.len

/-- `s[:0]` -/
def truncate (s : Slice) : Slice := { s with len := 0 }

/-- `make([]T, 0, n)` -/
def make [Inhabited τ] (h : Arrays τ) (n : ℕ) : Arrays τ × Slice :=
  (h ++ [List.replicate n default], ⟨h.length, 0⟩)

/-- `append(s, x)`. A new array gets `spare` elements more than it needs. -/
def append [Inhabited τ] (h : Arrays τ) (s : Slice) (x : τ) (spare : ℕ) : Arrays τ × Slice :=
  if s.len < s.cap h then (h.set s.array ((s.backing h).set s.len x), ⟨s.array, s.len + 1⟩)
  else (h ++ [s.elems h ++ x :: List.replicate spare default], ⟨h.length, s.len + 1⟩)

/-- `append(s, xs...)` -/
def appendAll [Inhabited τ] (h : Arrays τ) (s : Slice) (xs : List τ) (spare : ℕ) :
    Arrays τ × Slice :=
  if s.len + xs.length ≤ s.cap h then
    (h.set s.array (s.elems h ++ xs ++ (s.backing h).drop (s.len + xs.length)),
      ⟨s.array, s.len + xs.length⟩)
  else (h ++ [s.elems h ++ xs ++ List.replicate spare default], ⟨h.length, s.len + xs.length⟩)

/-- A slice that shows all of a new array with the elements `l`, as
`make([]T, len(l))` and `copy` give it. -/
def ofList (h : Arrays τ) (l : List τ) : Arrays τ × Slice := (h ++ [l], ⟨h.length, l.length⟩)

/-- `s[i] = x` -/
def write (h : Arrays τ) (s : Slice) (i : ℕ) (x : τ) : Arrays τ :=
  h.set s.array ((s.backing h).set i x)

/-- `s[i] = s[last]; s[last] = zero; s = s[:last]` -/
def removeAt [Inhabited τ] (h : Arrays τ) (s : Slice) (i : ℕ) : Arrays τ × Slice :=
  let last := s.len - 1
  let moved := s.write h i ((s.elems h).getLastD default)
  (s.write moved last default, { s with len := last })

/-- `clear(s)` -/
def clear [Inhabited τ] (h : Arrays τ) (s : Slice) : Arrays τ :=
  h.set s.array (List.replicate s.len default ++ (s.backing h).drop s.len)

structure Valid (h : Arrays τ) (s : Slice) : Prop where
  allocated : s.array < h.length
  len_le : s.len ≤ s.cap h

/-- From `h` to `h'` the array of `s` stays as it is. -/
structure Kept (h h' : Arrays τ) (s : Slice) : Prop where
  allocated : s.array < h.length → s.array < h'.length
  backing : s.backing h' = s.backing h

namespace Kept

variable {h' : Arrays τ}

theorem elems (k : Kept h h' s) : s.elems h' = s.elems h := by
  rw [Slice.elems, Slice.elems, k.backing]

theorem valid (k : Kept h h' s) (hs : s.Valid h) : s.Valid h' :=
  ⟨k.allocated hs.allocated, by rw [cap, k.backing]; exact hs.len_le⟩

theorem refl (h : Arrays τ) (s : Slice) : Kept h h s := ⟨id, rfl⟩

theorem trans {h'' : Arrays τ} (k : Kept h h' s) (k' : Kept h' h'' s) : Kept h h'' s :=
  ⟨fun hs => k'.allocated (k.allocated hs), k'.backing.trans k.backing⟩

theorem concat (hs : s.Valid h) (a : List τ) : Kept h (h ++ [a]) s where
  allocated _ := by
    rw [List.length_append]
    exact Nat.lt_add_right _ hs.allocated
  backing := by
    rw [Slice.backing, Slice.backing, List.getElem?_append_left hs.allocated]

theorem set {i : ℕ} (hne : s.array ≠ i) (a : List τ) : Kept h (h.set i a) s where
  allocated hs := by
    rw [List.length_set]
    exact hs
  backing := by
    rw [Slice.backing, Slice.backing, List.getElem?_set_ne hne.symm]

end Kept

theorem backing_set_self (hs : s.array < h.length) (a : List τ) (n : ℕ) :
    Slice.backing (h.set s.array a) ⟨s.array, n⟩ = a := by
  simp [backing, hs]

theorem backing_concat_new (a : List τ) (n : ℕ) : Slice.backing (h ++ [a]) ⟨h.length, n⟩ = a := by
  simp [backing]

namespace Valid

theorem elems_length (hs : s.Valid h) : (s.elems h).length = s.len := by
  rw [elems, List.length_take]
  exact Nat.min_eq_left hs.len_le

theorem elems_eq_nil_iff (hs : s.Valid h) : s.elems h = [] ↔ s.len = 0 := by
  rw [← List.length_eq_zero_iff, hs.elems_length]

theorem truncate (hs : s.Valid h) : s.truncate.Valid h := ⟨hs.allocated, Nat.zero_le _⟩

end Valid

@[simp] theorem truncate_elems (h : Arrays τ) (s : Slice) : s.truncate.elems h = [] := by
  simp [truncate, elems]

theorem ofList_valid (h : Arrays τ) (l : List τ) : (ofList h l).2.Valid (ofList h l).1 where
  allocated := by simp [ofList]
  len_le := Nat.le_of_eq (by rw [cap, ofList, backing_concat_new])

theorem ofList_elems (h : Arrays τ) (l : List τ) : (ofList h l).2.elems (ofList h l).1 = l := by
  rw [elems, ofList, backing_concat_new, List.take_length]

theorem ofList_kept (hr : r.Valid h) (l : List τ) : Kept h (ofList h l).1 r := Kept.concat hr l

theorem ofList_array_ne (hr : r.Valid h) (l : List τ) : r.array ≠ (ofList h l).2.array :=
  Nat.ne_of_lt hr.allocated

section Zero

variable [Inhabited τ]

theorem make_valid (h : Arrays τ) (n : ℕ) : (make h n).2.Valid (make h n).1 where
  allocated := by simp [make]
  len_le := Nat.zero_le _

theorem make_kept (hr : r.Valid h) (n : ℕ) : Kept h (make h n).1 r := Kept.concat hr _

/-- A new array is nobody else's. -/
theorem make_array_ne (hr : r.Valid h) (n : ℕ) : r.array ≠ (make h n).2.array :=
  Nat.ne_of_lt hr.allocated

theorem append_elems (hs : s.Valid h) (x : τ) (spare : ℕ) :
    (append h s x spare).2.elems (append h s x spare).1 = s.elems h ++ [x] := by
  unfold append
  by_cases hroom : s.len < s.cap h
  · simp only [if_pos hroom, elems]
    have hlt : s.len < ((s.backing h).set s.len x).length := by
      rw [List.length_set]
      exact hroom
    rw [backing_set_self hs.allocated, List.take_succ_eq_append_getElem hlt]
    simp [List.take_set_of_le]
  · have hlen : (s.elems h ++ [x]).length = s.len + 1 := by
      rw [List.length_append, hs.elems_length, List.length_singleton]
    simp only [if_neg hroom]
    rw [elems, backing_concat_new, List.append_cons]
    exact List.take_left' hlen

theorem append_valid (hs : s.Valid h) (x : τ) (spare : ℕ) :
    (append h s x spare).2.Valid (append h s x spare).1 := by
  unfold append
  by_cases hroom : s.len < s.cap h
  · simp only [if_pos hroom]
    refine ⟨by simpa using hs.allocated, ?_⟩
    rw [cap, backing_set_self hs.allocated, List.length_set]
    exact hroom
  · simp only [if_neg hroom]
    refine ⟨by simp, ?_⟩
    rw [cap, backing_concat_new, List.length_append, hs.elems_length]
    simp only [List.length_cons]
    omega

theorem append_len (h : Arrays τ) (s : Slice) (x : τ) (spare : ℕ) :
    (append h s x spare).2.len = s.len + 1 := by
  unfold append
  split <;> rfl

/-- Appending to one slice leaves a slice over another array alone. -/
theorem append_kept (hr : r.Valid h) (hne : r.array ≠ s.array) (x : τ) (spare : ℕ) :
    Kept h (append h s x spare).1 r := by
  unfold append
  split
  · exact Kept.set hne _
  · exact Kept.concat hr _

theorem append_array_ne (hr : r.Valid h) (hne : r.array ≠ s.array) (x : τ) (spare : ℕ) :
    r.array ≠ (append h s x spare).2.array := by
  unfold append
  split
  · exact hne
  · exact Nat.ne_of_lt hr.allocated

theorem appendAll_elems (hs : s.Valid h) (xs : List τ) (spare : ℕ) :
    (appendAll h s xs spare).2.elems (appendAll h s xs spare).1 = s.elems h ++ xs := by
  have hlen : (s.elems h ++ xs).length = s.len + xs.length := by
    rw [List.length_append, hs.elems_length]
  unfold appendAll
  by_cases hroom : s.len + xs.length ≤ s.cap h
  · simp only [if_pos hroom]
    rw [elems, backing_set_self hs.allocated]
    exact List.take_left' hlen
  · simp only [if_neg hroom]
    rw [elems, backing_concat_new]
    exact List.take_left' hlen

theorem appendAll_valid (hs : s.Valid h) (xs : List τ) (spare : ℕ) :
    (appendAll h s xs spare).2.Valid (appendAll h s xs spare).1 := by
  have hlen : (s.elems h ++ xs).length = s.len + xs.length := by
    rw [List.length_append, hs.elems_length]
  unfold appendAll
  by_cases hroom : s.len + xs.length ≤ s.cap h
  · simp only [if_pos hroom]
    refine ⟨by simpa using hs.allocated, ?_⟩
    rw [cap, backing_set_self hs.allocated, List.length_append, hlen]
    exact Nat.le_add_right _ _
  · simp only [if_neg hroom]
    refine ⟨by simp, ?_⟩
    rw [cap, backing_concat_new, List.length_append, hlen]
    exact Nat.le_add_right _ _

theorem removeAt_kept (hne : r.array ≠ s.array) (i : ℕ) : Kept h (removeAt h s i).1 r :=
  (Kept.set hne _).trans (Kept.set hne _)

theorem removeAt_backing (hs : s.Valid h) (i : ℕ) :
    (removeAt h s i).2.backing (removeAt h s i).1 =
      ((s.backing h).set i ((s.elems h).getLastD default)).set (s.len - 1) default := by
  have hmoved : s.array < (s.write h i ((s.elems h).getLastD default)).length := by
    rw [write, List.length_set]
    exact hs.allocated
  have hback : s.backing (s.write h i ((s.elems h).getLastD default)) =
      (s.backing h).set i ((s.elems h).getLastD default) :=
    backing_set_self hs.allocated _ s.len
  simp only [removeAt]
  rw [write, hback]
  exact backing_set_self hmoved _ _

theorem removeAt_valid (hs : s.Valid h) (i : ℕ) : (removeAt h s i).2.Valid (removeAt h s i).1 where
  allocated := by simpa [removeAt, write] using hs.allocated
  len_le := by
    rw [cap, removeAt_backing hs, List.length_set, List.length_set]
    exact Nat.le_trans (Nat.sub_le _ _) hs.len_le

theorem removeAt_elems (hs : s.Valid h) (i : ℕ) :
    (removeAt h s i).2.elems (removeAt h s i).1 = swapRemove (s.elems h) i := by
  rw [elems, removeAt_backing hs, swapRemove, List.dropLast_eq_take, List.length_set,
    hs.elems_length]
  rw [elems, ← List.take_set, List.take_take, Nat.min_eq_left (Nat.sub_le _ _)]
  exact List.take_set_of_le (Nat.le_refl _)

theorem clear_kept (hne : r.array ≠ s.array) : Kept h (clear h s) r := Kept.set hne _

theorem clear_valid (hs : s.Valid h) : s.Valid (clear h s) := by
  refine ⟨by simpa [clear] using hs.allocated, ?_⟩
  rw [cap, clear, backing_set_self (n := s.len) hs.allocated]
  simp

end Zero

end Slice

end GameCluster.Lib
