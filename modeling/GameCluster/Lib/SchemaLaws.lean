import GameCluster.Lib.MessageLaws

/-!
What holds of whole encodings: where in a buffer they go, and that a message is
read back from what was written for it.
-/

namespace GameCluster.Lib.Wire

variable {ρ : Type}

theorem Yields.ne_nil {α : Type*} {read : Cursor → Except Err (α × Cursor)} {bytes : List UInt8}
    {x : α} (h : Yields read bytes x) (he : Advances read) : bytes ≠ [] := by
  rintro rfl
  exact absurd (he _ _ _ (h 0 [] (by decide))) (Nat.lt_irrefl _)

namespace Message

variable {F : Table ρ} {name : String}

theorem flatten_flatMap (records : ℕ → List (List UInt8)) (nums : List ℕ) :
    (nums.flatMap records).flatten = nums.flatMap fun n => (records n).flatten := by
  induction nums with
  | nil => rfl
  | cons n rest ih => rw [List.flatMap_cons, List.flatMap_cons, List.flatten_append, ih]

theorem slot_eq_of_none {o : Option (Field ρ)} (h : o = none) (v v' : Slot o) : v = v' := by
  subst h
  rfl

/-- What is laid over the zero message, field by field, is the message. -/
theorem overlay_eq {nums : List ℕ} (hnums : ∀ n, n ∉ nums → F n = none)
    (val val' : (n : ℕ) → Slot (F n)) : (fun n => if n ∈ nums then val n else val' n) = val := by
  funext n
  by_cases hn : n ∈ nums
  · rw [if_pos hn]
  · rw [if_neg hn]
    exact slot_eq_of_none (hnums n hn) _ _

/-! ### The fuel of the loop -/

section Code

variable [Protohelpers]

theorem unmarshalLoop_nil (fuel : ℕ) (m : Message F) (q : ℕ) :
    unmarshalLoop name fuel m ⟨q, []⟩ = .ok m := by
  cases fuel with
  | zero => rfl
  | succ fuel => rw [unmarshalLoop, if_pos rfl]

variable {fuel : ℕ} {m m' : Message F} {c : Cursor} {nums : List ℕ}

theorem unmarshalLoop_step {c c' : Cursor} (hne : c.rest ≠ []) (hfuel : c.rest.length ≤ fuel)
    (h : readRecord name m c = .ok (m', c')) :
    unmarshalLoop name fuel m c = unmarshalLoop name (fuel - 1) m' c' := by
  have hpos := List.length_pos_of_ne_nil hne
  obtain ⟨k, rfl⟩ : ∃ k, fuel = k + 1 := ⟨fuel - 1, by omega⟩
  rw [unmarshalLoop, if_neg hne, h]
  rfl

/-- As many rounds as there are bytes are enough. -/
theorem unmarshalLoop_fuel [LawfulProtohelpers] (hF : Table.WellFormed F)
    (hfuel : c.rest.length ≤ fuel) :
    unmarshalLoop name fuel m c = unmarshalLoop name c.rest.length m c := by
  induction fuel using Nat.strong_induction_on generalizing m c with
  | _ fuel ih =>
    obtain ⟨q, rest⟩ := c
    by_cases hne : rest = []
    · subst hne
      rw [unmarshalLoop_nil, unmarshalLoop_nil]
    · have hpos := List.length_pos_of_ne_nil hne
      cases hread : readRecord name m ⟨q, rest⟩ with
      | error e =>
        obtain ⟨k, rfl⟩ : ∃ k, fuel = k + 1 := ⟨fuel - 1, by dsimp only at hfuel; omega⟩
        obtain ⟨l, hl⟩ : ∃ l, rest.length = l + 1 := ⟨rest.length - 1, by omega⟩
        rw [unmarshalLoop, hl, unmarshalLoop, if_neg hne, if_neg hne, hread]
        rfl
      | ok p =>
        obtain ⟨m', c'⟩ := p
        have hlen := readRecord_advances hF m _ _ _ hread
        dsimp only at hfuel hlen
        rw [unmarshalLoop_step hne hfuel hread, unmarshalLoop_step hne (Nat.le_refl _) hread,
          ih _ (by omega) (by omega)]
        rcases Nat.lt_or_ge (rest.length - 1) fuel with hlt | hge
        · rw [ih (rest.length - 1) hlt (by omega)]
        · omega

/-! ### Reading what was written -/

/-- A chain of records is a run of the loop. -/
theorem unmarshalLoop_records [LawfulProtohelpers] (hF : Table.WellFormed F)
    {records : List (List UInt8)} (h : Reads (readRecord name) m records m') {q : ℕ}
    (hq : q + records.flatten.length < 2 ^ 63) :
    unmarshalLoop name records.flatten.length m ⟨q, records.flatten⟩ = .ok m' := by
  induction records generalizing m q with
  | nil =>
    cases h
    rfl
  | cons record rest ih =>
    obtain ⟨u, hu, hrest⟩ := h
    rw [List.flatten_cons] at hq ⊢
    have hne := hu.ne_nil (readRecord_advances hF m)
    have hpos := List.length_pos_of_ne_nil hne
    have hlen : (record ++ rest.flatten).length = record.length + rest.flatten.length :=
      List.length_append
    rw [unmarshalLoop_step (List.append_ne_nil_of_left_ne_nil hne _) (Nat.le_refl _)
      (hu q _ hq), unmarshalLoop_fuel hF (by dsimp only; omega)]
    exact ih hrest (by omega)

theorem reads_field {n : ℕ} {records : List (List UInt8)} {v v' : Slot (F n)}
    (h : Chain (Slot.Step n (F n)) v records v') (m : Message F) (hm : m.val n = v) :
    Reads (readRecord name) m records ⟨Function.update m.val n v', m.unknown⟩ := by
  induction records generalizing m v with
  | nil =>
    cases h
    rw [← hm, Function.update_eq_self]
    rfl
  | cons record rest ih =>
    obtain ⟨u, hu, hrest⟩ := h
    rw [← hm] at hu
    have hnext := ih hrest ⟨Function.update m.val n u, m.unknown⟩ (Function.update_self _ _ _)
    rw [Function.update_idem] at hnext
    exact ⟨_, yields_readRecord hu, hnext⟩

/-- The records of several fields, each of which has the zero value before. -/
theorem reads_fields (name : String) {records : (n : ℕ) → ρ → Slot (F n) → List (List UInt8)}
    (h : ∀ n, Slot.Encodes n (F n) (records n)) (hnodup : nums.Nodup) (r : ρ)
    (hm : ∀ n, Slot.Valid (F n) (m.val n)) (m₀ : Message F)
    (hm₀ : ∀ n ∈ nums, m₀.val n = Slot.zero (F n)) :
    Reads (readRecord name) m₀ (nums.flatMap fun n => records n r (m.val n))
      ⟨fun n => if n ∈ nums then m.val n else m₀.val n, m₀.unknown⟩ := by
  induction nums generalizing m₀ with
  | nil => simp [Chain]
  | cons n rest ih =>
    obtain ⟨hn, hrest⟩ := List.nodup_cons.mp hnodup
    have hfirst : Reads (readRecord name) m₀ _ _ :=
      reads_field ((h n).reads r (m.val n) (hm n)) m₀ (hm₀ n List.mem_cons_self)
    have hsecond := ih hrest ⟨Function.update m₀.val n (m.val n), m₀.unknown⟩ fun k hk => by
      have hne : k ≠ n := fun heq => hn (heq ▸ hk)
      dsimp only
      rw [Function.update_of_ne hne]
      exact hm₀ k (List.mem_cons_of_mem _ hk)
    have hval : (fun k => if k ∈ rest then m.val k else Function.update m₀.val n (m.val n) k) =
        fun k => if k ∈ n :: rest then m.val k else m₀.val k := by
      funext k
      by_cases hk : k = n
      · subst hk
        rw [if_neg hn, if_pos List.mem_cons_self, Function.update_self]
      · rw [Function.update_of_ne hk]
        simp only [List.mem_cons, hk, false_or]
    dsimp only at hsecond
    rw [hval] at hsecond
    rw [List.flatMap_cons]
    exact hfirst.append hsecond

theorem reads_unknown [LawfulProtohelpers] {records : List (List UInt8)}
    (h : ∀ x ∈ records, UnknownRecord F x) (m : Message F) :
    Reads (readRecord name) m records ⟨m.val, m.unknown ++ records.flatten⟩ := by
  induction records generalizing m with
  | nil => simp [Chain]
  | cons record rest ih =>
    have hrest := ih (fun x hx => h x (List.mem_cons_of_mem _ hx))
      ⟨m.val, m.unknown ++ record⟩
    rw [List.append_assoc, ← List.flatten_cons] at hrest
    exact ⟨_, yields_readRecord_unknown m (h record List.mem_cons_self), hrest⟩

/-! ### Whole encodings -/

/-- The records of the fields in the order of their numbers, then the unknown
ones. -/
def enc (records : (n : ℕ) → ρ → Slot (F n) → List (List UInt8)) (nums : List ℕ) (r : ρ)
    (m : Message F) : List UInt8 :=
  (nums.flatMap fun n => (records n r (m.val n)).flatten) ++ m.unknown

theorem length_enc {records : (n : ℕ) → ρ → Slot (F n) → List (List UInt8)}
    (h : ∀ n, Slot.Encodes n (F n) (records n)) (nums : List ℕ) (r r' : ρ) (m : Message F) :
    size nums r' m = (enc records nums r m).length := by
  rw [enc, List.length_append, List.length_flatMap, size]
  congr 2
  exact List.map_congr_left fun n _ => (h n).size_eq r r' (m.val n)

theorem puts_marshal {records : (n : ℕ) → ρ → Slot (F n) → List (List UInt8)}
    (h : ∀ n, Slot.Encodes n (F n) (records n)) (nums : List ℕ) (r : ρ) (m : Message F) :
    Writer.Puts (marshal nums r m) (enc records nums r m) := by
  have hfields := Writer.Puts.foldlM (fun n => (h n).puts r (m.val n)) nums.reverse
  rw [List.reverse_reverse] at hfields
  exact (Writer.Puts.back m.unknown).bind hfields

theorem unmarshal_enc [LawfulProtohelpers] (hF : Table.WellFormed F)
    {records : (n : ℕ) → ρ → Slot (F n) → List (List UInt8)}
    (h : ∀ n, Slot.Encodes n (F n) (records n)) (hnodup : nums.Nodup)
    (hnums : ∀ n, n ∉ nums → F n = none) {r : ρ} (hm : m.Valid)
    (hlen : (enc records nums r m).length < 2 ^ 63) :
    unmarshal name (Message.zero F) (enc records nums r m) = .ok m := by
  obtain ⟨unknown, hunknown, hrecords⟩ := hm.2
  have hfields : Reads (readRecord name) (Message.zero F)
      (nums.flatMap fun n => records n r (m.val n)) ⟨m.val, []⟩ := by
    have hread := reads_fields name h hnodup r hm.1 (Message.zero F) fun _ _ => rfl
    rwa [overlay_eq hnums] at hread
  have hchain := hfields.append (reads_unknown hrecords _)
  have hbytes : ((nums.flatMap fun n => records n r (m.val n)) ++ unknown).flatten =
      enc records nums r m := by
    rw [List.flatten_append, flatten_flatMap, enc, hunknown]
  have hrun := unmarshalLoop_records hF hchain (q := 0) (by rw [hbytes]; omega)
  rw [hbytes] at hrun
  rw [unmarshal, Cursor.start, hrun, List.nil_append, ← hunknown]

theorem unmarshalLoop_valid [LawfulProtohelpers] (hF : Table.WellFormed F) (hm : m.Valid)
    (h : unmarshalLoop name fuel m c = .ok m') : m'.Valid := by
  induction fuel generalizing m c with
  | zero =>
    cases h
    exact hm
  | succ fuel ih =>
    rw [unmarshalLoop] at h
    split at h
    · cases h
      exact hm
    · obtain ⟨m₁, c₁, hread, hrest⟩ := andThen_ok h
      exact ih (readRecord_valid hF hm hread) hrest

theorem type_encodes [LawfulProtohelpers] (hF : Table.WellFormed F)
    {records : (n : ℕ) → ρ → Slot (F n) → List (List UInt8)}
    (h : ∀ n, Slot.Encodes n (F n) (records n)) (hnodup : nums.Nodup)
    (hnums : ∀ n, n ∉ nums → F n = none) :
    (Message.type name F nums).Encodes (enc records nums) where
  puts r m := puts_marshal h nums r m
  size_eq r r' m := length_enc h nums r r' m
  valid_zero := ⟨fun n => Slot.valid_zero (hF n), [], rfl, fun _ hx => absurd hx List.not_mem_nil⟩
  unmarshal_enc _ _ hm hlen := unmarshal_enc hF h hnodup hnums hm hlen
  unmarshal_valid _ _ _ hm h := unmarshalLoop_valid hF hm h

end Code

end Message

/-! ### Schemas -/

structure Schema.WellFormed (s : Schema ρ) : Prop where
  nodup : s.nums.Nodup
  fields : ∀ f ∈ s.fields, f.WellFormed

namespace Schema.WellFormed

theorem table {s : Schema ρ} (h : s.WellFormed) : Table.WellFormed s.table := by
  intro n f hf
  have hnum := List.find?_some hf
  exact ⟨beq_iff_eq.mp hnum, h.fields f (List.mem_of_find?_eq_some hf)⟩

theorem exists_records [Protohelpers] {s : Schema ρ} (h : s.WellFormed) :
    ∃ records : (n : ℕ) → ρ → Slot (s.table n) → List (List UInt8),
      ∀ n, Slot.Encodes n (s.table n) (records n) := by
  choose records hrecords using fun n => Slot.exists_encodes (h.table n)
  exact ⟨records, hrecords⟩

end Schema.WellFormed

theorem Schema.table_eq_none {s : Schema ρ} {n : ℕ} (h : n ∉ s.nums) : s.table n = none := by
  rw [Schema.table, List.find?_eq_none]
  intro f hf heq
  exact h (List.mem_map.mpr ⟨f, hf, beq_iff_eq.mp heq⟩)

theorem Schema.WellFormed.lawful [Protohelpers] [LawfulProtohelpers] {s : Schema ρ}
    (h : s.WellFormed) : s.type.Lawful := by
  obtain ⟨records, hrecords⟩ := h.exists_records
  exact ⟨_, Message.type_encodes h.table hrecords h.nodup fun _ => Schema.table_eq_none⟩

/-! ### Into buffers -/

namespace MsgType.Encodes

variable {t : MsgType ρ} {enc : ρ → t.Msg → List UInt8}

/-- The encoding is put at the end of the buffer, if there is room for it. -/
theorem marshalToSizedBuffer_eq (h : t.Encodes enc) (r : ρ) (m : t.Msg) (dAtA : List UInt8) :
    t.marshalToSizedBuffer r m dAtA = if (enc r m).length ≤ dAtA.length then
      some (dAtA.take (dAtA.length - (enc r m).length) ++ enc r m, (enc r m).length)
      else none := by
  rw [marshalToSizedBuffer, h.puts r m ⟨dAtA, dAtA.length⟩ (Nat.le_refl _), Writer.back]
  by_cases hroom : (enc r m).length ≤ dAtA.length
  · have hlen : dAtA.length - (dAtA.length - (enc r m).length) = (enc r m).length := by omega
    rw [if_pos ⟨hroom, Nat.le_refl _⟩, if_pos hroom, Option.map_some, List.drop_length,
      List.append_nil, hlen]
  · rw [if_neg fun hb => hroom hb.1, if_neg hroom, Option.map_none]

theorem marshalVT_eq (h : t.Encodes enc) (r r' : ρ) (m : t.Msg) :
    t.marshalVT r r' m = some (enc r m) := by
  rw [marshalVT, h.marshalToSizedBuffer_eq, List.length_replicate, h.size_eq r r',
    if_pos (Nat.le_refl _), Option.map_some, Nat.sub_self, List.take_zero, List.nil_append]
  exact congrArg some List.take_length

end MsgType.Encodes

end GameCluster.Lib.Wire
