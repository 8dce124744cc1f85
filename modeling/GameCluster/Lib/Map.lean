import Mathlib.Data.Finmap
import GameCluster.Lib.Table

/-!
Finite maps, and the field-wise overlay of one map by another. `new ∪ old`
takes a key's value from `new` when it has one and from `old` otherwise, which
is what a store does that writes the given fields and keeps the rest. Applying
a list of such writes in order leaves, for each key, the value of its last
writer.
-/

namespace GameCluster.Lib

abbrev Map (κ α : Type*) := Finmap fun _ : κ => α

namespace Map

variable {κ α : Type*} [DecidableEq κ]

/-- The number of keys. -/
def len (m : Map κ α) : ℕ := m.keys.card

omit [DecidableEq κ] in
theorem len_eq_zero {m : Map κ α} : m.len = 0 ↔ m = ∅ := by
  constructor
  · intro h
    have hkeys : m.keys = ∅ := Finset.card_eq_zero.mp h
    classical
    apply Finmap.ext_lookup
    intro k
    rw [Finmap.lookup_empty, Finmap.lookup_eq_none, ← Finmap.mem_keys, hkeys]
    exact Finset.notMem_empty k
  · rintro rfl
    simp [len]

@[simp] theorem lookup_insert_ite (m : Map κ α) (k k' : κ) (v : α) :
    (m.insert k v).lookup k' = if k' = k then some v else m.lookup k' := by
  by_cases h : k' = k
  · subst h
    simp
  · rw [Finmap.lookup_insert_of_ne _ h, if_neg h]

@[simp] theorem lookup_erase_ite (m : Map κ α) (k k' : κ) :
    (m.erase k).lookup k' = if k' = k then none else m.lookup k' := by
  by_cases h : k' = k
  · subst h
    simp
  · rw [Finmap.lookup_erase_ne h, if_neg h]

@[simp] theorem lookup_union_or (new old : Map κ α) (k : κ) :
    (new ∪ old).lookup k = (new.lookup k).or (old.lookup k) := by
  by_cases h : k ∈ new
  · rw [Finmap.lookup_union_left h]
    obtain ⟨v, hv⟩ := Finmap.mem_iff.mp h
    simp [hv]
  · rw [Finmap.lookup_union_right h, Finmap.lookup_eq_none.mpr h, Option.none_or]

/-- `order` lists every key of the map once. -/
def Enumerates (order : List κ) (m : Map κ α) : Prop :=
  order.Nodup ∧ order.toFinset = m.keys

instance (order : List κ) (m : Map κ α) : Decidable (Enumerates order m) :=
  inferInstanceAs (Decidable (_ ∧ _))

theorem Enumerates.mem_iff {order : List κ} {m : Map κ α}
    (h : Enumerates order m) (k : κ) : k ∈ order ↔ (m.lookup k).isSome := by
  rw [Finmap.lookup_isSome, ← Finmap.mem_keys, ← h.2, List.mem_toFinset]

/-- A new value for a key that is there changes no key. -/
theorem Enumerates.insert {order : List κ} {m : Map κ α} (h : Enumerates order m) {k : κ}
    (hk : k ∈ m) (v : α) : Enumerates order (m.insert k v) := by
  refine ⟨h.1, h.2.trans ?_⟩
  ext k'
  rw [Finmap.mem_keys, Finmap.mem_keys, Finmap.mem_insert]
  exact (or_iff_right_of_imp fun heq => heq ▸ hk).symm

/-- The map with the given keys and a value for each. -/
def tabulate (keys : List κ) (f : κ → α) : Map κ α :=
  (keys.map fun k => (⟨k, f k⟩ : Sigma fun _ => α)).toFinmap

@[simp] theorem lookup_tabulate (keys : List κ) (f : κ → α) (k : κ) :
    (tabulate keys f).lookup k = if k ∈ keys then some (f k) else none := by
  rw [tabulate, Finmap.dlookup_list_toFinmap]
  induction keys with
  | nil => rfl
  | cons k' rest ih =>
    by_cases h : k = k'
    · subst h
      simp
    · rw [List.map_cons, List.dlookup_cons_ne _ _ h, ih]
      simp [h]

theorem enumerates_tabulate {keys : List κ} (h : keys.Nodup) (f : κ → α) :
    Enumerates keys (tabulate keys f) := by
  refine ⟨h, ?_⟩
  ext k
  rw [Finmap.mem_keys, ← Finmap.lookup_isSome, lookup_tabulate, List.mem_toFinset]
  split <;> simp_all

/-- Every field of `part` is in `whole`, with the same value. -/
def Holds (whole part : Map κ α) : Prop :=
  ∀ k v, part.lookup k = some v → whole.lookup k = some v

theorem holds_iff_union_eq {whole part : Map κ α} : Holds whole part ↔ part ∪ whole = whole := by
  constructor
  · intro h
    apply Finmap.ext_lookup
    intro k
    rw [lookup_union_or]
    cases hk : part.lookup k with
    | none => simp
    | some v => simp [h k v hk]
  · intro h k v hk
    rw [← h, lookup_union_or, hk, Option.some_or]

theorem holds_union (new old : Map κ α) : Holds (new ∪ old) new := by
  intro k v hk
  simp [hk]

theorem Holds.keys_subset {whole part : Map κ α} (h : Holds whole part) :
    part.keys ⊆ whole.keys := by
  intro k hk
  obtain ⟨v, hv⟩ := Finmap.mem_iff.mp (Finmap.mem_keys.mp hk)
  exact Finmap.mem_keys.mpr (Finmap.mem_iff.mpr ⟨v, h k v hv⟩)

theorem holds_empty (m : Map κ α) : Holds m ∅ := by
  intro k v hk
  simp at hk

/-- Writing the same fields twice is writing them once. -/
@[simp] theorem union_self_union (new old : Map κ α) : new ∪ (new ∪ old) = new ∪ old :=
  holds_iff_union_eq.mp (holds_union new old)

/-- A map with a value at every key hides what it is laid over. -/
theorem union_eq_left_of_total {new : Map κ α}
    (h : ∀ k, (new.lookup k).isSome) (old : Map κ α) : new ∪ old = new := by
  apply Finmap.ext_lookup
  intro k
  obtain ⟨v, hv⟩ := Option.isSome_iff_exists.mp (h k)
  simp [hv]

theorem eq_empty_of_union_eq_empty {new old : Map κ α} (h : new ∪ old = ∅) : new = ∅ := by
  apply Finmap.ext_lookup
  intro k
  have hk := congrArg (Finmap.lookup k) h
  rw [lookup_union_or, Finmap.lookup_empty, Option.or_eq_none_iff] at hk
  rw [hk.1, Finmap.lookup_empty]

/-- The writes of a list, applied in order to nothing. -/
def lastWrites (writes : List (Map κ α)) : Map κ α :=
  writes.foldl (fun acc w => w ∪ acc) ∅

private theorem foldl_union (writes : List (Map κ α)) (acc : Map κ α) :
    writes.foldl (fun acc w => w ∪ acc) acc = lastWrites writes ∪ acc := by
  induction writes generalizing acc with
  | nil => simp [lastWrites]
  | cons w rest ih =>
    simp only [lastWrites, List.foldl_cons] at ih ⊢
    rw [ih (w ∪ acc), ih (w ∪ ∅), Finmap.union_empty, Finmap.union_assoc]

@[simp] theorem lastWrites_nil : lastWrites ([] : List (Map κ α)) = ∅ := rfl

@[simp] theorem lastWrites_cons (w : Map κ α) (rest : List (Map κ α)) :
    lastWrites (w :: rest) = lastWrites rest ∪ w := by
  rw [lastWrites, List.foldl_cons, Finmap.union_empty, foldl_union]

@[simp] theorem lastWrites_append (first second : List (Map κ α)) :
    lastWrites (first ++ second) = lastWrites second ∪ lastWrites first := by
  rw [lastWrites, List.foldl_append, foldl_union]
  rfl

/-- The entries of a list, stored one after the other. -/
def insertAll (entries : List (κ × α)) (m : Map κ α) : Map κ α :=
  entries.foldl (fun m x => m.insert x.1 x.2) m

/-- A key has the value of its last entry. -/
theorem lookup_insertAll (entries : List (κ × α)) (k : κ) (v : α) :
    (insertAll entries ∅).lookup k = some v ↔
      ∃ i, entries[i]? = some (k, v) ∧
        ∀ (j : ℕ) (x : κ × α), i < j → entries[j]? = some x → x.1 ≠ k := by
  induction entries using List.reverseRecOn with
  | nil => simp [insertAll]
  | append_singleton entries x ih =>
    have hlast {i : ℕ} {y : κ × α} (hy : entries[i]? = some y) : i ≠ entries.length :=
      (lt_length_of_some hy).ne
    rw [insertAll, List.foldl_append, List.foldl_cons, List.foldl_nil, lookup_insert_ite,
      ← insertAll]
    simp only [getElem?_concat]
    by_cases hk : k = x.1
    · rw [if_pos hk]
      constructor
      · intro hv
        obtain rfl := Option.some.inj hv
        refine ⟨entries.length, by simp [hk], fun j y hj hy => ?_⟩
        rw [if_neg (by omega), List.getElem?_eq_none (by omega)] at hy
        cases hy
      · rintro ⟨i, hi, hafter⟩
        by_cases heq : i = entries.length
        · rw [if_pos heq] at hi
          rw [Option.some.inj hi]
        · rw [if_neg heq] at hi
          have hlt := lt_length_of_some hi
          exact absurd hk.symm (hafter entries.length x hlt (if_pos rfl))
    · rw [if_neg hk, ih]
      constructor
      · rintro ⟨i, hi, hafter⟩
        refine ⟨i, by rw [if_neg (hlast hi), hi], fun j y hj hy => ?_⟩
        by_cases heq : j = entries.length
        · rw [if_pos heq] at hy
          obtain rfl := Option.some.inj hy
          exact fun h => hk h.symm
        · rw [if_neg heq] at hy
          exact hafter j y hj hy
      · rintro ⟨i, hi, hafter⟩
        by_cases heq : i = entries.length
        · rw [if_pos heq] at hi
          obtain rfl := Option.some.inj hi
          exact absurd rfl hk
        · rw [if_neg heq] at hi
          exact ⟨i, hi, fun j y hj hy => hafter j y hj (by rw [if_neg (hlast hy), hy])⟩

end Map

end GameCluster.Lib
