import Mathlib.Order.Bounds.Basic
import Mathlib.Order.Monotone.Basic

/-!
A deadline that is looked at again and again. There is a set of boundaries in
time. A look that finds the deadline passed fires and moves it to the first
boundary after the time of the look; any other look leaves it where it is.

Time is any linear order, and what makes a look fire is left open: the users of
the library compare with `<` or with `≤`, and may ask for more.
-/

namespace GameCluster.Lib

variable {T : Type*} [LinearOrder T]

/-- The first boundary after an instant. -/
def NextBoundary (S : Set T) (t d : T) : Prop := IsLeast {b | b ∈ S ∧ t < b} d

/-- The looks are numbered; `deadline k` is what look `k` finds. -/
structure Alarm (S : Set T) (time deadline : ℕ → T) (fires : ℕ → Prop) : Prop where
  renew : ∀ k, fires k → NextBoundary S (time k) (deadline (k + 1))
  keep : ∀ k, ¬fires k → deadline (k + 1) = deadline k

namespace Alarm

variable {S : Set T} {time deadline : ℕ → T} {fires : ℕ → Prop}

/-- No look before `k` has dealt with the boundary: they fired before it, and
it is not before the deadline there was at the start. -/
structure Pending (time deadline : ℕ → T) (fires : ℕ → Prop) (k : ℕ) (b : T) : Prop where
  fired_before : ∀ l < k, fires l → time l < b
  start_le : (∀ l < k, ¬fires l) → deadline 0 ≤ b

theorem deadline_eq_start (h : Alarm S time deadline fires) {k : ℕ}
    (hnone : ∀ l < k, ¬fires l) : deadline k = deadline 0 := by
  induction k with
  | zero => rfl
  | succ k ih =>
    rw [h.keep k (hnone k (Nat.lt_succ_self k))]
    exact ih fun l hl => hnone l (Nat.lt_succ_of_lt hl)

/-- After the first firing the deadline is the next boundary after the last. -/
theorem exists_last (h : Alarm S time deadline fires) {k : ℕ} (hsome : ∃ j < k, fires j) :
    ∃ j < k, fires j ∧ (∀ l, j < l → l < k → ¬fires l) ∧
      NextBoundary S (time j) (deadline k) := by
  induction k with
  | zero =>
    obtain ⟨j, hj, _⟩ := hsome
    exact absurd hj (Nat.not_lt_zero j)
  | succ k ih =>
    by_cases hk : fires k
    · refine ⟨k, Nat.lt_succ_self k, hk, ?_, h.renew k hk⟩
      intro l hkl hlk
      omega
    · have hbefore : ∃ j < k, fires j := by
        obtain ⟨j, hj, hfire⟩ := hsome
        refine ⟨j, lt_of_le_of_ne (Nat.le_of_lt_succ hj) ?_, hfire⟩
        rintro rfl
        exact hk hfire
      obtain ⟨j, hj, hfire, hlast, hnext⟩ := ih hbefore
      refine ⟨j, Nat.lt_succ_of_lt hj, hfire, ?_, ?_⟩
      · intro l hjl hlk
        by_cases hl : l = k
        · exact hl ▸ hk
        · exact hlast l hjl (by omega)
      · rw [h.keep k hk]
        exact hnext

/-- The deadline is not after a boundary that has not been dealt with. -/
theorem deadline_le (h : Alarm S time deadline fires) {k : ℕ} {b : T} (hb : b ∈ S)
    (hpending : Pending time deadline fires k b) : deadline k ≤ b := by
  by_cases hsome : ∃ j < k, fires j
  · obtain ⟨j, hj, hfire, _, hnext⟩ := h.exists_last hsome
    exact hnext.2 ⟨hb, hpending.fired_before j hj hfire⟩
  · have hnone : ∀ l < k, ¬fires l := fun l hl hfire => hsome ⟨l, hl, hfire⟩
    rw [h.deadline_eq_start hnone]
    exact hpending.start_le hnone

/-- The deadline is the first boundary that has not been dealt with, once there
has been a firing or if it was a boundary from the start. -/
theorem deadline_isLeast (h : Alarm S time deadline fires) (hmono : Monotone time) {k : ℕ}
    (hstart : deadline 0 ∈ S ∨ ∃ j < k, fires j) :
    IsLeast {b | b ∈ S ∧ Pending time deadline fires k b} (deadline k) := by
  refine ⟨?_, fun b hb => h.deadline_le hb.1 hb.2⟩
  by_cases hsome : ∃ j < k, fires j
  · obtain ⟨j, hj, hfire, hlast, hnext⟩ := h.exists_last hsome
    refine ⟨hnext.1.1, ?_, fun hnone => absurd hfire (hnone j hj)⟩
    intro l hl hl'
    have hlj : l ≤ j := by
      by_contra hlt
      exact hlast l (Nat.lt_of_not_le hlt) hl hl'
    exact (hmono hlj).trans_lt hnext.1.2
  · have hnone : ∀ l < k, ¬fires l := fun l hl hfire => hsome ⟨l, hl, hfire⟩
    rw [h.deadline_eq_start hnone]
    refine ⟨hstart.resolve_right hsome, ?_, fun _ => le_refl _⟩
    intro l hl hfire
    exact absurd hfire (hnone l hl)

/-- No look before `k` is later than the deadline, if a look fires as soon as
the deadline has passed. -/
theorem time_le_deadline (h : Alarm S time deadline fires) (hmono : Monotone time)
    (hfires : ∀ k, deadline k < time k → fires k) {k l : ℕ} (hl : l < k) :
    time l ≤ deadline k := by
  induction k with
  | zero => exact absurd hl (Nat.not_lt_zero l)
  | succ k ih =>
    by_cases hk : fires k
    · exact ((hmono (Nat.le_of_lt_succ hl)).trans_lt (h.renew k hk).1.2).le
    · rw [h.keep k hk]
      obtain hlt | rfl := Nat.lt_succ_iff_lt_or_eq.mp hl
      · exact ih hlt
      · exact not_lt.mp fun hpassed => hk (hfires l hpassed)

/-- An alarm that fires as soon as the deadline has passed fires at the first
look after a boundary that has not been dealt with, and only there. -/
theorem fires_iff_first (h : Alarm S time deadline fires) (hmono : Monotone time)
    (hfires : ∀ k, fires k ↔ deadline k < time k) {k : ℕ}
    (hstart : deadline 0 ∈ S ∨ ∃ j < k, fires j) :
    fires k ↔ ∃ b ∈ S, b < time k ∧ (∀ l < k, time l ≤ b) ∧
      Pending time deadline fires k b := by
  have hleast := h.deadline_isLeast hmono hstart
  constructor
  · intro hk
    refine ⟨deadline k, hleast.1.1, (hfires k).mp hk, ?_, hleast.1.2⟩
    intro l hl
    exact h.time_le_deadline hmono (fun i => (hfires i).mpr) hl
  · rintro ⟨b, hb, hlt, _, hpending⟩
    exact (hfires k).mpr ((h.deadline_le hb hpending).trans_lt hlt)

/-- Two firings have a boundary between them. -/
theorem boundary_between (h : Alarm S time deadline fires) (hmono : Monotone time)
    (hfires : ∀ k, fires k → deadline k ≤ time k) {k l : ℕ} (hkl : k < l) (hk : fires k)
    (hl : fires l) : ∃ b ∈ S, time k < b ∧ b ≤ time l := by
  have hleast := h.deadline_isLeast hmono (k := l) (Or.inr ⟨k, hkl, hk⟩)
  exact ⟨deadline l, hleast.1.1, hleast.1.2.fired_before k hkl hk, hfires l hl⟩

end Alarm

end GameCluster.Lib
