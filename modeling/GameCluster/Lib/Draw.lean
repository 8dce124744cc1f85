import Mathlib.Data.Multiset.AddSub
import Mathlib.Tactic.Common

/-!
Programs that ask a generator of random numbers. A program either returns or
makes one request with a bound and goes on with the answer, which is below the
bound. A request with bound 0 has no answer, and a program that makes one does
not return. What a program can do is said over all answers; `Always` is the
form in which a single call is specified, and `repeated_drains` the rule for a
store that is asked until it is empty.
-/

namespace GameCluster.Lib

inductive Draw (α : Type*) where
  | done (a : α)
  | below (bound : ℕ) (next : ℕ → α)

/-- What the generator answers to the request number `k` with a given bound. -/
structure Generator where
  answer : ℕ → ℕ → ℕ
  lt : ∀ k bound, 0 < bound → answer k bound < bound

namespace Draw

variable {α σ β τ ε : Type*}

/-- The result when the generator answers `d`. -/
def run (d : ℕ) : Draw α → Option α
  | done a => some a
  | below bound next => if d < bound then some (next d) else none

/-- The result when the generator answers by `answer`. -/
def under (answer : ℕ → ℕ) : Draw α → Option α
  | done a => some a
  | below bound next => if answer bound < bound then some (next (answer bound)) else none

/-- The program returns, and whatever the generator answers `P` holds of the result. -/
def Always (P : α → Prop) : Draw α → Prop
  | done a => P a
  | below bound next => 0 < bound ∧ ∀ d < bound, P (next d)

theorem Always.mono {P Q : α → Prop} {m : Draw α} (h : m.Always P) (himp : ∀ a, P a → Q a) :
    m.Always Q := by
  cases m with
  | done a => exact himp a h
  | below bound next => exact ⟨h.1, fun d hd => himp _ (h.2 d hd)⟩

theorem Always.of_run {P : α → Prop} {m : Draw α} (h : m.Always P) {d : ℕ} {a : α}
    (hrun : m.run d = some a) : P a := by
  cases m with
  | done b =>
    obtain rfl := Option.some.inj hrun
    exact h
  | below bound next =>
    obtain ⟨hd, hnext⟩ := Option.ite_none_right_eq_some.mp hrun
    obtain rfl := Option.some.inj hnext
    exact h.2 d hd

theorem Always.under {P : α → Prop} {m : Draw α} (h : m.Always P) (g : Generator) (k : ℕ) :
    ∃ a, m.under (g.answer k) = some a ∧ P a := by
  cases m with
  | done a => exact ⟨a, rfl, h⟩
  | below bound next =>
    have hlt := g.lt k bound h.1
    exact ⟨next (g.answer k bound), if_pos hlt, h.2 _ hlt⟩

/-- `n` calls in a row, with what each of them returned. -/
def repeated (f : σ → Draw (σ × β)) (g : Generator) : ℕ → σ → Option (σ × List β)
  | 0, s => some (s, [])
  | n + 1, s =>
    ((f s).under (g.answer n)).bind fun out =>
      (repeated f g n out.1).map fun rest => (rest.1, out.2 :: rest.2)

/-- A store that gives out something of its stock as long as there is any, and fails
with `e` afterwards, gives out all of it and each thing once. -/
theorem repeated_drains {f : σ → Draw (σ × Except ε τ)} (P : σ → Prop)
    (stock : σ → Multiset τ) {e : ε}
    (hempty : ∀ s, P s → stock s = 0 → f s = .done (s, .error e))
    (hgives : ∀ s, P s → stock s ≠ 0 →
      (f s).Always fun out => ∃ v, out.2 = .ok v ∧ P out.1 ∧ stock s = v ::ₘ stock out.1)
    (g : Generator) (n : ℕ) {s : σ} (hs : P s) :
    ∃ s', ∃ given : List τ, repeated f g n s =
        some (s', given.map .ok ++ List.replicate (n - (stock s).card) (.error e)) ∧
      given.length = min n (stock s).card ∧ ↑given + stock s' = stock s ∧
      ((stock s).card ≤ n → stock s' = 0) ∧ P s' := by
  induction n generalizing s with
  | zero =>
    refine ⟨s, [], by simp [repeated], by simp, by simp, fun hle => ?_, hs⟩
    exact Multiset.card_eq_zero.mp (Nat.le_zero.mp hle)
  | succ n ih =>
    by_cases hstock : stock s = 0
    · obtain ⟨s', given, hrun, hlen, hsum, hall, hs'⟩ := ih hs
      obtain rfl : given = [] := List.eq_nil_of_length_eq_zero (by simp [hlen, hstock])
      refine ⟨s', [], ?_, by simp [hstock], hsum, fun _ => hall (by simp [hstock]), hs'⟩
      rw [repeated, hempty s hs hstock]
      simp [under, hrun, hstock, List.replicate_succ]
    · obtain ⟨out, hout, v, hv, hP, hcons⟩ := (hgives s hs hstock).under g n
      obtain ⟨s', given, hrun, hlen, hsum, hall, hs'⟩ := ih hP
      have hcard : (stock s).card = (stock out.1).card + 1 := by
        rw [hcons, Multiset.card_cons]
      refine ⟨s', v :: given, ?_, ?_, ?_, fun hle => hall (by omega), hs'⟩
      · rw [repeated, hout, hcard, Nat.add_sub_add_right]
        simp [hrun, hv]
      · rw [List.length_cons, hlen, hcard, Nat.add_min_add_right]
      · rw [hcons, ← hsum, ← Multiset.cons_coe, Multiset.cons_add]

end Draw

end GameCluster.Lib
