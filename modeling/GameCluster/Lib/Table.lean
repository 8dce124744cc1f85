import Mathlib.Data.List.Basic
import Mathlib.Tactic.TypeStar

/-!
Lists used as tables of threads, whose entries are appended and overwritten
but never removed, and lists used as channels, whose elements are appended at
the end and taken from the front. `Before b a l` says that in the channel `l`
the message `b` is ahead of every `a`.
-/

namespace GameCluster.Lib

variable {τ : Type*}

variable {l : List τ} {i : ℕ} {a b : τ} {P : τ → τ → Prop}

theorem getElem?_set_some (h : l[i]? = some a) (b : τ) (j : ℕ) :
    (l.set i b)[j]? = if j = i then some b else l[j]? := by
  obtain ⟨hlt, _⟩ := List.getElem?_eq_some_iff.mp h
  rw [List.getElem?_set]
  by_cases hij : i = j
  · simp [hij, hij ▸ hlt]
  · simp [hij, Ne.symm hij]

theorem set_getElem?_self (h : l[i]? = some a) : l.set i a = l := by
  obtain ⟨hlt, rfl⟩ := List.getElem?_eq_some_iff.mp h
  exact List.set_getElem_self hlt

theorem getElem?_concat (l : List τ) (a : τ) (j : ℕ) :
    (l ++ [a])[j]? = if j = l.length then some a else l[j]? := by
  by_cases hj : j = l.length
  · simp [hj]
  · rw [if_neg hj, List.getElem?_append]
    split
    · rfl
    · rw [List.getElem?_eq_none (by simp; omega), List.getElem?_eq_none (by omega)]

theorem lt_length_of_some (h : l[i]? = some a) : i < l.length :=
  (List.getElem?_eq_some_iff.mp h).1

/-- What holds of every entry still does after one is overwritten. -/
theorem forall_getElem?_set {P : ℕ → τ → Prop} (h : ∀ j x, l[j]? = some x → P j x) (hb : P i b)
    (j : ℕ) (x : τ) (hx : (l.set i b)[j]? = some x) : P j x := by
  rw [List.getElem?_set] at hx
  split at hx
  · rename_i hij
    obtain rfl := Option.some.inj (Option.ite_none_right_eq_some.mp hx).2
    exact hij ▸ hb
  · exact h j x hx

theorem forall_getElem?_concat {P : ℕ → τ → Prop} (h : ∀ j x, l[j]? = some x → P j x)
    (ha : P l.length a) (j : ℕ) (x : τ) (hx : (l ++ [a])[j]? = some x) : P j x := by
  rw [getElem?_concat] at hx
  split at hx
  · rename_i hj
    obtain rfl := Option.some.inj hx
    exact hj ▸ ha
  · exact h j x hx

/-- No two entries that are alive have the same key. -/
def UniqueBy {κ : Type*} (alive : τ → Prop) (key : τ → κ) (l : List τ) : Prop :=
  ∀ (i j : ℕ) (a b : τ), l[i]? = some a → alive a → l[j]? = some b → alive b → key a = key b →
    i = j

section UniqueBy

variable {κ : Type*} {alive : τ → Prop} {key : τ → κ} {l : List τ}

theorem UniqueBy.set (h : UniqueBy alive key l) {i : ℕ} {a b : τ} (ha : l[i]? = some a)
    (hb : alive b → alive a ∧ key b = key a) : UniqueBy alive key (l.set i b) := by
  intro j k x y hx hax hy hay hkey
  rw [getElem?_set_some ha] at hx hy
  split at hx <;> split at hy
  · rename_i hj hk
    exact hj.trans hk.symm
  · rename_i hj _
    obtain rfl := Option.some.inj hx
    exact hj.trans (h i k a y ha (hb hax).1 hy hay ((hb hax).2.symm.trans hkey))
  · rename_i _ hk
    obtain rfl := Option.some.inj hy
    exact (h j i x a hx hax ha (hb hay).1 (hkey.trans (hb hay).2)).trans hk.symm
  · exact h j k x y hx hax hy hay hkey

theorem UniqueBy.concat (h : UniqueBy alive key l) {a : τ}
    (ha : ∀ (j : ℕ) (b : τ), l[j]? = some b → alive b → key b ≠ key a) :
    UniqueBy alive key (l ++ [a]) := by
  intro j k x y hx hax hy hay hkey
  rw [getElem?_concat] at hx hy
  split at hx <;> split at hy
  · rename_i hj hk
    exact hj.trans hk.symm
  · obtain rfl := Option.some.inj hx
    exact absurd hkey.symm (ha k y hy hay)
  · obtain rfl := Option.some.inj hy
    exact absurd hkey (ha j x hx hax)
  · exact h j k x y hx hax hy hay hkey

end UniqueBy

theorem eq_take_cons_drop (h : l[i]? = some a) : l = l.take i ++ a :: l.drop (i + 1) := by
  obtain ⟨hlt, rfl⟩ := List.getElem?_eq_some_iff.mp h
  rw [← List.drop_eq_getElem_cons hlt, List.take_append_drop]

theorem set_eq_take_cons_drop (h : l[i]? = some a) (b : τ) :
    l.set i b = l.take i ++ b :: l.drop (i + 1) := by
  rw [List.set_eq_take_append_cons_drop, if_pos (lt_length_of_some h)]

/-- A step of the thread at `i`, taken where its entry satisfies `p`. -/
def atEntry {σ : Type*} (l : List τ) (i : ℕ) (p : τ → Prop) [DecidablePred p] (f : τ → σ) :
    Option σ :=
  match l[i]? with
  | some a => if p a then some (f a) else none
  | none => none

theorem atEntry_eq_some {σ : Type*} {p : τ → Prop} [DecidablePred p] {f : τ → σ} {t : σ}
    (h : atEntry l i p f = some t) :
    ∃ a, l[i]? = some a ∧ p a ∧ t = f a := by
  unfold atEntry at h
  split at h
  · rename_i a ha
    obtain ⟨hp, h⟩ := Option.ite_none_right_eq_some.mp h
    cases h
    exact ⟨a, ha, hp, rfl⟩
  · cases h

/-- Among the entries below `i` that satisfy `P` there is a last one. -/
theorem exists_last_below {P : τ → Prop} {i j : ℕ} (ha : l[j]? = some a) (hP : P a) (hji : j < i) :
    ∃ k b, k < i ∧ l[k]? = some b ∧ P b ∧ ∀ m c, k < m → m < i → l[m]? = some c → ¬P c := by
  induction i with
  | zero => exact absurd hji (Nat.not_lt_zero j)
  | succ i ih =>
    by_cases hi : ∃ b, l[i]? = some b ∧ P b
    · obtain ⟨b, hb, hPb⟩ := hi
      exact ⟨i, b, i.lt_succ_self, hb, hPb, fun m c hm hm' => by omega⟩
    · have hne : j ≠ i := fun h => hi ⟨a, h ▸ ha, hP⟩
      obtain ⟨k, b, hk, hb, hPb, hlast⟩ := ih (by omega)
      refine ⟨k, b, by omega, hb, hPb, fun m c hkm hm hc hPc => ?_⟩
      rcases Nat.lt_succ_iff_lt_or_eq.mp hm with hlt | rfl
      · exact hlast m c hkm hlt hc hPc
      · exact hi ⟨c, hc, hPc⟩

/-- A table that has kept its entries up to `P`, and may have got more. -/
def Grows (P : τ → τ → Prop) (l l' : List τ) : Prop :=
  ∀ (i : ℕ) (a : τ), l[i]? = some a → ∃ b, l'[i]? = some b ∧ P a b

theorem Grows.refl (hP : ∀ a, P a a) (l : List τ) : Grows P l l :=
  fun _ a ha => ⟨a, ha, hP a⟩

theorem Grows.set (hP : ∀ a, P a a) (ha : l[i]? = some a) (hab : P a b) :
    Grows P l (l.set i b) := by
  intro j x hx
  rw [getElem?_set_some ha]
  by_cases hj : j = i
  · subst hj
    obtain rfl : a = x := Option.some.inj (ha.symm.trans hx)
    exact ⟨b, by simp, hab⟩
  · exact ⟨x, by simp [hj, hx], hP x⟩

theorem Grows.concat (hP : ∀ a, P a a) (l : List τ) (a : τ) : Grows P l (l ++ [a]) := by
  intro j x hx
  exact ⟨x, by rw [getElem?_concat, if_neg (Nat.ne_of_lt (lt_length_of_some hx)), hx], hP x⟩

def Before (b a : τ) (l : List τ) : Prop :=
  ∀ pre post, l = pre ++ a :: post → b ∈ pre

theorem Before.concat {a b e : τ} (h : Before b a l) (he : e = a → b ∈ l) :
    Before b a (l ++ [e]) := by
  intro pre post hl
  rcases List.eq_nil_or_concat post with rfl | ⟨post', x, rfl⟩
  · obtain ⟨rfl, hx⟩ := List.append_inj' hl rfl
    exact he (List.cons.inj hx).1
  · rw [List.concat_eq_append, ← List.cons_append, ← List.append_assoc] at hl
    obtain ⟨rfl, _⟩ := List.append_inj' hl rfl
    exact h pre post' rfl

theorem Before.tail {a b c : τ} {rest : List τ} (h : Before b a (c :: rest)) (hc : c ≠ b) :
    Before b a rest := by
  intro pre post hrest
  have hmem := h (c :: pre) post (by rw [hrest, List.cons_append])
  exact (List.mem_cons.mp hmem).resolve_left (Ne.symm hc)

theorem not_before_head (a b : τ) (rest : List τ) : ¬Before b a (a :: rest) := by
  intro h
  exact absurd (h [] rest rfl) (by simp)

theorem before_of_notMem (h : a ∉ l) : Before b a l := by
  intro pre post hl
  exact absurd (by simp [hl]) h

end GameCluster.Lib
