import GameCluster.Lib.FieldLaws

/-!
What holds of the code of a message if its tags and the code of its fields are
right. The encoding of a message is a list of records, each of which changes one
field or is kept with the unknown ones, so a message is read record by record.
-/

namespace GameCluster.Lib.Wire

variable {ρ : Type}

/-- The constants of the generated code for a field. -/
structure Field.WellFormed (f : Field ρ) : Prop where
  tag_eq : f.tag = varint (BitVec.ofNat 64 (f.num * 8 + f.type.wireType))
  tagSize_eq : f.tagSize = f.tag.length
  num_pos : 0 < f.num
  num_lt : f.num < 2 ^ 29
  wireType_eq : f.type.wireType = 0 ∨ f.type.wireType = 2
  lawful : f.type.Lawful

/-- Each field stands at its number. -/
def Table.WellFormed (F : Table ρ) : Prop := ∀ n f, F n = some f → f.num = n ∧ f.WellFormed

/-! ### The tag -/

theorem fieldNum_ofNat {n wt : ℕ} (hn : n < 2 ^ 29) (hwt : wt < 8) :
    (fieldNum (BitVec.ofNat 64 (n * 8 + wt))).toNat = n := by
  rw [fieldNum, BitVec.toNat_setWidth, BitVec.toNat_ushiftRight, BitVec.toNat_ofNat,
    Nat.mod_eq_of_lt (by omega), Nat.shiftRight_eq_div_pow]
  omega

theorem wireType_ofNat {n wt : ℕ} (hn : n < 2 ^ 29) (hwt : wt < 8) :
    wireType (BitVec.ofNat 64 (n * 8 + wt)) = wt := by
  have hand : (n * 8 + wt) &&& 7 = (n * 8 + wt) % 8 := Nat.and_two_pow_sub_one_eq_mod _ 3
  rw [wireType, BitVec.toNat_and, BitVec.toNat_ofNat, Nat.mod_eq_of_lt (by omega)]
  change (n * 8 + wt) &&& 7 = wt
  omega

theorem Field.WellFormed.isTag {f : Field ρ} (h : f.WellFormed) :
    IsTag f.num (BitVec.ofNat 64 (f.num * 8 + f.type.wireType)) f.tag := by
  have hwt : f.type.wireType < 8 ∧ f.type.wireType ≠ 4 := by
    rcases h.wireType_eq with heq | heq <;> omega
  have hnum := fieldNum_ofNat h.num_lt hwt.1
  have hpos := h.num_pos
  have hlt := h.num_lt
  refine ⟨?_, ?_, ?_, hnum⟩
  · rw [h.tag_eq]
    exact yields_varint_self _
  · rw [wireType_ofNat h.num_lt hwt.1]
    exact hwt.2
  · rw [BitVec.toInt_eq_toNat_of_lt (by omega), hnum]
    omega

theorem Field.WellFormed.wireType_tag {f : Field ρ} (h : f.WellFormed) :
    wireType (BitVec.ofNat 64 (f.num * 8 + f.type.wireType)) = f.type.wireType :=
  wireType_ofNat h.num_lt (by rcases h.wireType_eq with heq | heq <;> omega)

/-! ### The records of a field -/

variable [Protohelpers]

namespace Slot

/-- The record changes the value at number `n`. -/
def Step (n : ℕ) (o : Option (Field ρ)) (v : Slot o) (record : List UInt8) (v' : Slot o) : Prop :=
  ∃ wire tag payload, record = tag ++ payload ∧ IsTag n wire tag ∧
    ∀ unknown q b, q + (record ++ b).length < 2 ^ 63 →
      Slot.read (Wire.wireType wire) unknown ⟨q, record ++ b⟩ ⟨q + tag.length, payload ++ b⟩ o v =
        .ok ((v', unknown), ⟨q + record.length, b⟩)

/-- What is written for a number is a list of records. -/
structure Encodes (n : ℕ) (o : Option (Field ρ)) (records : ρ → Slot o → List (List UInt8)) :
    Prop where
  puts : ∀ r v, Writer.Puts (Slot.write r o v) (records r v).flatten
  size_eq : ∀ r r' v, Slot.size r' o v = (records r v).flatten.length
  reads : ∀ r v, Slot.Valid o v → Chain (Step n o) (Slot.zero o) (records r v) v

theorem encodes_none (n : ℕ) : Encodes n (none : Option (Field ρ)) fun _ _ => [] where
  puts _ _ := Writer.Puts.some
  size_eq _ _ _ := rfl
  reads _ _ _ := rfl

theorem step_some {f : Field ρ} (h : f.WellFormed) {v v' : Slot (some f)} {p : List UInt8}
    (hp : Yields (f.type.read v) p v') : Step f.num (some f) v (f.tag ++ p) v' := by
  refine ⟨_, f.tag, p, rfl, h.isTag, fun unknown q b hq => ?_⟩
  have hpayload : q + f.tag.length + (p ++ b).length < 2 ^ 63 := by
    rw [List.append_assoc, List.length_append] at hq
    omega
  have hread := hp _ b hpayload
  rw [h.wireType_tag, Slot.read, if_neg (not_not.mpr rfl), List.length_append, ← Nat.add_assoc]
  exact congrArg (fun x => andThen x fun v c => .ok ((v, unknown), c)) hread

theorem encodes_some {f : Field ρ} (h : f.WellFormed)
    {payloads : ρ → f.type.Val → List (List UInt8)} (hp : f.type.Encodes payloads) :
    Encodes f.num (some f) fun r v => (payloads r v).map (f.tag ++ ·) where
  puts r v := by
    rw [← List.flatMap_def]
    exact hp.puts r f.tag v
  size_eq r r' v := by
    have hsize := hp.size_eq r r' f.tag v
    rw [← h.tagSize_eq] at hsize
    rw [← List.flatMap_def]
    exact hsize
  reads r v hv := Chain.map (f := id) (fun _ _ _ hu => step_some h hu) (hp.reads r v hv)

variable {n wt : ℕ} {o : Option (Field ρ)} {unknown : List UInt8} {c c₁ c' : Cursor} {v : Slot o}

theorem exists_encodes (h : ∀ f, o = some f → f.num = n ∧ f.WellFormed) :
    ∃ records, Encodes n o records := by
  cases o with
  | none => exact ⟨_, encodes_none n⟩
  | some f =>
    obtain ⟨rfl, hf⟩ := h f rfl
    obtain ⟨payloads, hp⟩ := hf.lawful
    exact ⟨_, encodes_some hf hp⟩

omit [Protohelpers] in
theorem valid_zero (h : ∀ f, o = some f → f.num = n ∧ f.WellFormed) :
    Slot.Valid o (Slot.zero o) := by
  cases o with
  | none => trivial
  | some f =>
    obtain ⟨payloads, hp⟩ := (h f rfl).2.lawful
    exact hp.valid_zero

theorem read_none (h : o = none) (wt : ℕ) (unknown : List UInt8) (c c' : Cursor) (v : Slot o) :
    Slot.read wt unknown c c' o v =
      andThen (skipRecord c c.len) fun record c => .ok ((v, unknown ++ record), c) := by
  subst h
  rfl

/-- What one record can do. -/
theorem read_cases {unknown unknown' : List UInt8} {v v' : Slot o}
    (h : Slot.read wt unknown c c₁ o v = .ok ((v', unknown'), c')) :
    (o = none ∧ ∃ record, skipRecord c c.len = .ok (record, c') ∧
      unknown' = unknown ++ record) ∨ unknown' = unknown := by
  cases o with
  | none =>
    obtain ⟨record, c₂, hrecord, hx⟩ := andThen_ok h
    cases hx
    exact .inl ⟨rfl, record, hrecord, rfl⟩
  | some f =>
    rw [Slot.read] at h
    split at h
    · cases h
    · obtain ⟨u, c₂, -, hx⟩ := andThen_ok h
      cases hx
      exact .inr rfl

theorem read_valid {unknown unknown' : List UInt8} {v v' : Slot o}
    (hf : ∀ f, o = some f → f.num = n ∧ f.WellFormed)
    (h : Slot.read wt unknown c c₁ o v = .ok ((v', unknown'), c')) (hv : Slot.Valid o v) :
    Slot.Valid o v' := by
  cases o with
  | none => trivial
  | some f =>
    obtain ⟨payloads, hp⟩ := (hf f rfl).2.lawful
    rw [Slot.read] at h
    split at h
    · cases h
    · obtain ⟨u, c₂, hu, hx⟩ := andThen_ok h
      cases hx
      exact hp.read_valid v _ _ _ hv hu

theorem read_advances [LawfulProtohelpers] {x : Slot o × List UInt8}
    (hf : ∀ f, o = some f → f.num = n ∧ f.WellFormed) (hless : c₁.rest.length < c.rest.length)
    (h : Slot.read wt unknown c c₁ o v = .ok (x, c')) : c'.rest.length < c.rest.length := by
  cases o with
  | none =>
    obtain ⟨record, c₂, hrecord, hx⟩ := andThen_ok h
    cases hx
    obtain ⟨hrecord, hrest⟩ := skipRecord_ok hrecord (Nat.le_refl _)
    have hpos := List.length_pos_of_ne_nil hrecord.ne_nil
    rw [hrest, List.length_append]
    omega
  | some f =>
    obtain ⟨payloads, hp⟩ := (hf f rfl).2.lawful
    rw [Slot.read] at h
    split at h
    · cases h
    · obtain ⟨u, c₂, hu, hx⟩ := andThen_ok h
      cases hx
      exact (hp.read_advances v _ _ _ hu).trans hless

end Slot

/-! ### The loop over the records -/

namespace Message

variable {F : Table ρ} {name : String}

/-- The step of the loop, for a record of a field. -/
theorem yields_readRecord {m : Message F} {n : ℕ} {record : List UInt8} {v : Slot (F n)}
    (h : Slot.Step n (F n) (m.val n) record v) :
    Yields (readRecord name m) record ⟨Function.update m.val n v, m.unknown⟩ := by
  obtain ⟨wire, tag, payload, rfl, htag, hread⟩ := h
  obtain rfl := htag.num_eq
  intro q b hq
  have hread' := hread m.unknown q b hq
  rw [List.append_assoc] at hq hread' ⊢
  rw [readRecord, htag.yields q _ hq]
  dsimp only [andThen]
  rw [if_neg htag.wireType_ne, if_neg (not_le.mpr htag.num_pos), hread']

/-- The step of the loop, for a record of no field. -/
theorem yields_readRecord_unknown [LawfulProtohelpers] (m : Message F) {record : List UInt8}
    (h : UnknownRecord F record) :
    Yields (readRecord name m) record ⟨m.val, m.unknown ++ record⟩ := by
  obtain ⟨hisRecord, n, wire, tag, payload, hrecord, htag, hnone⟩ := h
  obtain rfl := htag.num_eq
  intro q b hq
  have hskip : skipRecord ⟨q, record ++ b⟩ (q + (record ++ b).length) =
      .ok (record, ⟨q + record.length, b⟩) :=
    hisRecord.skipRecord hq (by rw [List.length_append]; omega)
  have htag' : readVarint 64 ⟨q, record ++ b⟩ = .ok (wire, ⟨q + tag.length, payload ++ b⟩) := by
    rw [hrecord, List.append_assoc] at hq ⊢
    exact htag.yields q _ hq
  rw [readRecord, htag']
  dsimp only [andThen]
  rw [if_neg htag.wireType_ne, if_neg (not_le.mpr htag.num_pos), Slot.read_none hnone]
  dsimp only [Cursor.len]
  rw [hskip]
  dsimp only [andThen]
  rw [Function.update_eq_self]

theorem readRecord_ok {m m' : Message F} {c c' : Cursor}
    (h : readRecord name m c = .ok (m', c')) : ∃ n wire c₁ v unknown,
      readVarint 64 c = .ok (wire, c₁) ∧ wireType wire ≠ 4 ∧ 0 < (fieldNum wire).toInt ∧
      (fieldNum wire).toNat = n ∧
      Slot.read (wireType wire) m.unknown c c₁ (F n) (m.val n) = .ok ((v, unknown), c') ∧
      m' = ⟨Function.update m.val n v, unknown⟩ := by
  obtain ⟨wire, c₁, hwire, h₁⟩ := andThen_ok h
  split at h₁
  · cases h₁
  · rename_i hwt
    split at h₁
    · cases h₁
    · rename_i hnum
      obtain ⟨⟨v, unknown⟩, c₂, hv, h₂⟩ := andThen_ok h₁
      cases h₂
      exact ⟨_, wire, c₁, v, unknown, hwire, hwt, not_le.mp hnum, rfl, hv, rfl⟩

theorem readRecord_advances [LawfulProtohelpers] (hF : Table.WellFormed F) (m : Message F) :
    Advances (readRecord name m) := by
  intro c m' c' h
  obtain ⟨n, wire, c₁, v, unknown, hwire, -, -, rfl, hv, rfl⟩ := readRecord_ok h
  exact Slot.read_advances (hF _) ((readVarint_local 64).advances _ _ _ hwire) hv

theorem readRecord_valid [LawfulProtohelpers] (hF : Table.WellFormed F) {m m' : Message F}
    {c c' : Cursor} (hm : m.Valid) (h : readRecord name m c = .ok (m', c')) : m'.Valid := by
  obtain ⟨n, wire, c₁, v, unknown, hwire, hwt, hnum, rfl, hv, rfl⟩ := readRecord_ok h
  refine ⟨fun k => ?_, ?_⟩
  · dsimp only
    by_cases hk : k = (fieldNum wire).toNat
    · subst hk
      rw [Function.update_self]
      exact Slot.read_valid (hF _) hv (hm.1 _)
    · rw [Function.update_of_ne hk]
      exact hm.1 k
  · obtain ⟨records, hrecords, hunknown⟩ := hm.2
    rcases Slot.read_cases hv with ⟨hnone, record, hrecord, rfl⟩ | rfl
    · refine ⟨records ++ [record], by simp [hrecords], fun x hx => ?_⟩
      rcases List.mem_append.mp hx with hx | hx
      · exact hunknown x hx
      · -- The tag that was read is a part of the record that was kept.
        obtain rfl := List.mem_singleton.mp hx
        obtain ⟨hx, hrest⟩ := skipRecord_ok hrecord (Nat.le_refl _)
        obtain ⟨wire', tag, payload, rfl, htag⟩ := hx.tag
        have hread := htag c.pos (payload ++ c'.rest)
        rw [← List.append_assoc, ← hrest] at hread
        obtain rfl : wire = wire' :=
          congrArg Prod.fst (Except.ok.inj (hwire.symm.trans hread))
        exact ⟨hx, _, wire, tag, payload, rfl, ⟨htag.yields, hwt, hnum, rfl⟩, hnone⟩
    · exact ⟨records, hrecords, hunknown⟩

end Message

end GameCluster.Lib.Wire
