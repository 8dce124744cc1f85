import Mathlib.Order.Monotone.Basic
import Mathlib.Tactic.TypeStar

/-!
Machines whose nondeterminism sits in their actions. A step is a partial
function of a state and an action, so a concrete run can be evaluated, and a
run is a finite list of actions or an infinite stuttering sequence of states.

A run may be restricted by a condition on the state before each step and the
action taken there. A safety result that holds only under such a condition is
stated with `Reachable`, whose first argument is that condition.
-/

namespace GameCluster.Lib

structure Machine (σ α : Type*) where
  init : σ → Prop
  step : σ → α → Option σ

namespace Machine

variable {σ α : Type*} {m : Machine σ α} {ok : σ → α → Prop}

/-- The states of runs all of whose steps meet `ok`, judged in the state the
step is taken in. -/
inductive Reachable (m : Machine σ α) (ok : σ → α → Prop) : σ → Prop
  | init {s : σ} : m.init s → Reachable m ok s
  | step {s t : σ} {a : α} :
      Reachable m ok s → ok s a → m.step s a = some t → Reachable m ok t

/-- The condition that restricts nothing. -/
def anyStep (_ : σ) (_ : α) : Prop := True

instance (s : σ) (a : α) : Decidable (anyStep s a) := inferInstanceAs (Decidable True)

/-- Induction over a run, packaged once: an invariant of the initial states
that every permitted step preserves holds in every reachable state. The step
may use that its source is itself reachable. -/
theorem Reachable.invariant {P : σ → Prop} (hinit : ∀ s, m.init s → P s)
    (hstep : ∀ s a t, m.Reachable ok s → P s → ok s a →
      m.step s a = some t → P t) {s : σ} (h : m.Reachable ok s) : P s := by
  induction h with
  | init h => exact hinit _ h
  | step hr hok hs ih => exact hstep _ _ _ hr ih hok hs

theorem Reachable.mono {ok' : σ → α → Prop} (himp : ∀ s a, ok s a → ok' s a)
    {s : σ} (h : m.Reachable ok s) : m.Reachable ok' s := by
  induction h with
  | init h => exact .init h
  | step _ hok hs ih => exact .step ih (himp _ _ hok) hs

/-- Runs a list of actions, checking `ok` before each of them. -/
def exec (m : Machine σ α) (ok : σ → α → Prop) [∀ s a, Decidable (ok s a)] :
    σ → List α → Option σ
  | s, [] => some s
  | s, a :: rest =>
    if ok s a then (m.step s a).bind fun t => exec m ok t rest else none

theorem exec_reachable [∀ s a, Decidable (ok s a)] {s t : σ} (acts : List α)
    (hs : m.Reachable ok s) (h : m.exec ok s acts = some t) :
    m.Reachable ok t := by
  induction acts generalizing s with
  | nil =>
    obtain rfl : s = t := by simpa [exec] using h
    exact hs
  | cons a rest ih =>
    by_cases hok : ok s a
    · simp only [exec, if_pos hok] at h
      cases hstep : m.step s a with
      | none => simp [hstep] at h
      | some u =>
        rw [hstep] at h
        exact ih (.step hs hok hstep) h
    · simp [exec, if_neg hok] at h

/-- A concrete run and a decidable property of the state it ends in. -/
theorem exec_reaches (ok : σ → α → Prop) [∀ s a, Decidable (ok s a)] (P : σ → Prop)
    [DecidablePred P] {s : σ} (acts : List α) (hs : m.init s)
    (h : ∃ t ∈ m.exec ok s acts, P t) : ∃ t, m.Reachable ok t ∧ P t := by
  obtain ⟨t, ht, hp⟩ := h
  exact ⟨t, exec_reachable acts (.init hs) ht, hp⟩

/-- A run as a sequence of states. Stuttering lets a finite run be one. -/
def IsRun (m : Machine σ α) (run : ℕ → σ) : Prop :=
  m.init (run 0) ∧
    ∀ n, run (n + 1) = run n ∨ ∃ a, m.step (run n) a = some (run (n + 1))

theorem IsRun.invariant {run : ℕ → σ} (h : m.IsRun run) {P : σ → Prop}
    (hinit : P (run 0)) (hstep : ∀ s a t, P s → m.step s a = some t → P t) (n : ℕ) :
    P (run n) := by
  induction n with
  | zero => exact hinit
  | succ n ih =>
    rcases h.2 n with heq | ⟨a, hs⟩
    · rw [heq]
      exact ih
    · exact hstep _ a _ ih hs

/-- The run that takes the given actions, up to the first that is not
enabled, and then stutters. -/
def follow (m : Machine σ α) : σ → List α → ℕ → σ
  | s, [], _ => s
  | s, _ :: _, 0 => s
  | s, a :: rest, n + 1 =>
    match m.step s a with
    | some t => follow m t rest n
    | none => s

theorem follow_isRun {s : σ} (hs : m.init s) (acts : List α) : m.IsRun (m.follow s acts) := by
  have hzero : ∀ (s : σ) (acts : List α), m.follow s acts 0 = s := by
    intro s acts
    cases acts <;> rfl
  refine ⟨by rw [hzero]; exact hs, fun n => ?_⟩
  clear hs
  induction n generalizing s acts with
  | zero =>
    cases acts with
    | nil => exact Or.inl rfl
    | cons a rest =>
      cases hstep : m.step s a with
      | none => exact Or.inl (by simp [follow, hstep])
      | some t => exact Or.inr ⟨a, by simp [follow, hstep, hzero]⟩
  | succ n ih =>
    cases acts with
    | nil => exact Or.inl rfl
    | cons a rest =>
      cases hstep : m.step s a with
      | none => exact Or.inl (by simp [follow, hstep])
      | some t => simpa [follow, hstep] using ih rest

end Machine

/-- A copy that at each step stays good for the same histories or becomes good
for all of a growing history is at all times good for a prefix of the history,
and the length of that prefix never decreases. -/
theorem exists_monotone_pointer {τ β : Type*} (hist : ℕ → List τ) (val : ℕ → β)
    (rel : List τ → β → Prop) (hgrow : ∀ n, hist n <+: hist (n + 1)) (hzero : rel [] (val 0))
    (hstep : ∀ n, (∀ ops, rel ops (val n) → rel ops (val (n + 1))) ∨
      rel (hist n) (val (n + 1))) :
    ∃ p : ℕ → ℕ, Monotone p ∧
      ∀ n, p n ≤ (hist n).length ∧ rel ((hist n).take (p n)) (val n) := by
  classical
  let p : ℕ → ℕ := fun n =>
    n.rec 0 fun k q =>
      if ∀ ops, rel ops (val k) → rel ops (val (k + 1)) then q else (hist k).length
  have hp : ∀ n, p n ≤ (hist n).length ∧ rel ((hist n).take (p n)) (val n) := by
    intro n
    induction n with
    | zero => exact ⟨Nat.zero_le _, hzero⟩
    | succ n ih =>
      obtain ⟨rest, hrest⟩ := hgrow n
      have hlen := congrArg List.length hrest
      rw [List.length_append] at hlen
      by_cases hsame : ∀ ops, rel ops (val n) → rel ops (val (n + 1))
      · have hpn : p (n + 1) = p n := if_pos hsame
        rw [hpn]
        refine ⟨by omega, ?_⟩
        rw [← hrest, List.take_append_of_le_length ih.1]
        exact hsame _ ih.2
      · have hpn : p (n + 1) = (hist n).length := if_neg hsame
        rw [hpn]
        refine ⟨by omega, ?_⟩
        rw [← hrest, List.take_left]
        exact (hstep n).resolve_left hsame
  refine ⟨p, monotone_nat_of_le_succ ?_, hp⟩
  intro n
  by_cases hsame : ∀ ops, rel ops (val n) → rel ops (val (n + 1))
  · exact (if_pos hsame : p (n + 1) = p n).ge
  · exact (hp n).1.trans (if_neg hsame : p (n + 1) = (hist n).length).ge

end GameCluster.Lib
