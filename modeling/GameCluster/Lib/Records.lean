import GameCluster.Lib.Wire

/-!
What is written backwards is a list of records read forwards. A field type
keeps its laws if its value is a list of payloads, each of which stands behind
a tag, such that writing puts them there, the size counts them, and reading
them one after the other from the zero value gives the value.
-/

namespace GameCluster.Lib.Wire

namespace Writer

theorem back_bind_back (w : Writer) (a b : List UInt8) :
    ((w.back a).bind fun w => w.back b) = w.back (b ++ a) := by
  by_cases ha : a.length ≤ w.i ∧ w.i ≤ w.buf.length
  · have hmid : (w.buf.take (w.i - a.length) ++ a ++ w.buf.drop w.i).drop (w.i - a.length) =
        a ++ w.buf.drop w.i := by
      rw [List.append_assoc]
      exact List.drop_left' (by rw [List.length_take]; omega)
    rw [back, if_pos ha, Option.bind_some, back, back]
    by_cases hb : b.length ≤ w.i - a.length
    · have hlen : (w.buf.take (w.i - a.length) ++ a ++ w.buf.drop w.i).length = w.buf.length := by
        simp only [List.length_append, List.length_take, List.length_drop]
        omega
      have htake : (w.buf.take (w.i - a.length) ++ a ++ w.buf.drop w.i).take
          (w.i - a.length - b.length) = w.buf.take (w.i - (b.length + a.length)) := by
        rw [List.append_assoc, List.take_append_of_le_length (by rw [List.length_take]; omega),
          List.take_take, Nat.min_eq_left (by omega), Nat.sub_sub, Nat.add_comm a.length]
      rw [if_pos ⟨hb, by dsimp only; rw [hlen]; omega⟩, if_pos (by rw [List.length_append]; omega)]
      dsimp only
      rw [htake, hmid, List.length_append, Nat.sub_sub, Nat.add_comm a.length, List.append_assoc,
        List.append_assoc, List.append_assoc]
    · rw [if_neg fun h => hb h.1, if_neg (by rw [List.length_append]; omega)]
  · rw [back, if_neg ha, Option.bind_none, back, if_neg]
    intro h
    rw [List.length_append] at h
    exact ha ⟨by omega, h.2⟩

theorem back_nil (w : Writer) (h : w.i ≤ w.buf.length) : w.back [] = some w := by
  simp [back, h]

theorem back_i {w w' : Writer} {src : List UInt8} (h : w.back src = some w') :
    w'.i = w.i - src.length ∧ src.length ≤ w.i ∧ w'.i ≤ w'.buf.length := by
  unfold back at h
  split at h
  · rename_i hfits
    cases h
    refine ⟨rfl, hfits.1, ?_⟩
    simp only [List.length_append, List.length_take, List.length_drop]
    omega
  · cases h

theorem encodeVarint_eq [Protohelpers] [LawfulProtohelpers] {w : Writer}
    (h : w.i ≤ w.buf.length) (v : BitVec 64) : w.encodeVarint v = w.back (varint v) := by
  rw [encodeVarint, back]
  by_cases hfits : (varint v).length ≤ w.i
  · rw [LawfulProtohelpers.encodeVarint_eq _ _ _ h hfits, if_pos ⟨hfits, h⟩]
    rfl
  · rw [LawfulProtohelpers.encodeVarint_panics _ _ _ (not_le.mp hfits), if_neg fun hb => hfits hb.1]
    rfl

theorem putTag_eq {w : Writer} (h : w.i ≤ w.buf.length) (tag : List UInt8) :
    w.putTag tag = w.back tag := by
  induction tag generalizing w with
  | nil => exact (back_nil w h).symm
  | cons b rest ih =>
    have hsplit : w.putTag (b :: rest) = (w.putTag rest).bind fun w => w.back [b] := by
      simp [putTag, List.foldlM_append]
    rw [hsplit, ih h, back_bind_back]
    rfl

/-- A step that writes `src` in front of what is there. -/
def Puts (step : Writer → Option Writer) (src : List UInt8) : Prop :=
  ∀ w : Writer, w.i ≤ w.buf.length → step w = w.back src

theorem Puts.bind {first second : Writer → Option Writer} {a b : List UInt8} (hf : Puts first a)
    (hs : Puts second b) : Puts (fun w => (first w).bind second) (b ++ a) := by
  intro w hw
  dsimp only
  rw [hf w hw, ← back_bind_back]
  cases hback : w.back a with
  | none => rfl
  | some w' => exact hs w' (back_i hback).2.2

theorem Puts.some : Puts Option.some [] := fun w hw => (back_nil w hw).symm

theorem Puts.back (src : List UInt8) : Puts (fun w => w.back src) src := fun _ _ => rfl

theorem Puts.encodeVarint [Protohelpers] [LawfulProtohelpers] (v : BitVec 64) :
    Puts (fun w => w.encodeVarint v) (varint v) :=
  fun _ hw => encodeVarint_eq hw v

theorem Puts.putTag (tag : List UInt8) : Puts (fun w => w.putTag tag) tag :=
  fun _ hw => putTag_eq hw tag

/-- What is written into `dAtA[:i]` is written in front of what stands behind. -/
theorem Puts.inside {step : Writer → Option Writer} {src : List UInt8} (h : Puts step src) :
    Puts (Writer.inside step) src := by
  intro w hw
  have hlen : (w.buf.take w.i).length = w.i := List.length_take_of_le hw
  rw [Writer.inside, h ⟨w.buf.take w.i, w.i⟩ (Nat.le_of_eq hlen.symm), Writer.back, Writer.back]
  by_cases hfits : src.length ≤ w.i
  · rw [if_pos ⟨hfits, Nat.le_of_eq hlen.symm⟩, if_pos ⟨hfits, hw⟩, Option.map_some,
      List.take_take, Nat.min_eq_left (Nat.sub_le _ _), List.drop_eq_nil_of_le (Nat.le_of_eq hlen),
      List.append_nil]
  · rw [if_neg fun hb => hfits hb.1, if_neg fun hb => hfits hb.1]
    rfl

/-- A loop writes what its rounds write, the last round in front. -/
theorem Puts.foldlM {α : Type*} {step : Writer → α → Option Writer} {src : α → List UInt8}
    (h : ∀ x, Puts (fun w => step w x) (src x)) (xs : List α) :
    Puts (fun w => xs.foldlM step w) (xs.reverse.flatMap src) := by
  induction xs with
  | nil => exact Puts.some
  | cons x rest ih =>
    have hbind := (h x).bind ih
    rw [List.reverse_cons, List.flatMap_append, List.flatMap_singleton]
    intro w hw
    rw [← hbind w hw]
    rfl

end Writer

/-! ### Readers that look at nothing behind what they need -/

variable {α β : Type*} {bytes : List UInt8} {len : BitVec 64}

theorem andThen_ok {x : Except Err (α × Cursor)} {f : α → Cursor → Except Err β} {y : β}
    (h : andThen x f = .ok y) : ∃ a c, x = .ok (a, c) ∧ f a c = .ok y := by
  cases x with
  | error e => cases h
  | ok p => exact ⟨p.1, p.2, rfl, h⟩

/-- Between `c` and `c'` the reader takes `least` bytes or more, and these alone
decide what it reads. -/
def Took {α : Type*} (least : ℕ) (read : Cursor → Except Err (α × Cursor)) (c : Cursor) (x : α)
    (c' : Cursor) : Prop :=
  ∃ taken : List UInt8, least ≤ taken.length ∧ c.rest = taken ++ c'.rest ∧
    c'.pos = c.pos + taken.length ∧ Yields read taken x

/-- A reader that looks at nothing behind what it takes. -/
def Local {α : Type*} (least : ℕ) (read : Cursor → Except Err (α × Cursor)) : Prop :=
  ∀ c x c', read c = .ok (x, c') → Took least read c x c'

theorem Yields.andThen {first : Cursor → Except Err (α × Cursor)}
    {second : α → Cursor → Except Err (β × Cursor)} {a b : List UInt8} {x : α} {y : β}
    (hf : Yields first a x) (hs : Yields (second x) b y) :
    Yields (fun c => Wire.andThen (first c) second) (a ++ b) y := by
  intro q rest hq
  rw [List.append_assoc] at hq ⊢
  have hmid : q + a.length + (b ++ rest).length < 2 ^ 63 := by
    rw [List.length_append] at hq
    omega
  dsimp only
  rw [hf q _ hq]
  dsimp only [Wire.andThen]
  rw [hs _ rest hmid, List.length_append, Nat.add_assoc]

theorem Yields.map {read : Cursor → Except Err (α × Cursor)} {x : α} (h : Yields read bytes x)
    (f : α → β) :
    Yields (fun c => Wire.andThen (read c) fun x c => .ok (f x, c)) bytes (f x) := by
  intro q b hq
  dsimp only
  rw [h q b hq]
  rfl

theorem yields_pure (x : α) : Yields (fun c => .ok (x, c)) [] x := fun _ _ _ => rfl

theorem Local.andThen {least : ℕ} {first : Cursor → Except Err (α × Cursor)}
    {second : α → Cursor → Except Err (β × Cursor)} (hf : Local least first)
    (hs : ∀ a, Local 0 (second a)) :
    Local least fun c => Wire.andThen (first c) second := by
  intro c y c' h
  obtain ⟨a, c₁, ha, hy⟩ := andThen_ok h
  obtain ⟨t₁, hleast, hrest₁, hpos₁, hread₁⟩ := hf _ _ _ ha
  obtain ⟨t₂, -, hrest₂, hpos₂, hread₂⟩ := hs a _ _ _ hy
  refine ⟨t₁ ++ t₂, ?_, ?_, ?_, hread₁.andThen hread₂⟩
  · rw [List.length_append]
    omega
  · rw [hrest₁, hrest₂, List.append_assoc]
  · rw [hpos₂, hpos₁, List.length_append, Nat.add_assoc]

theorem local_pure (x : α) : Local 0 fun c => .ok (x, c) := by
  intro c y c' h
  cases h
  exact ⟨[], Nat.le_refl _, rfl, rfl, yields_pure x⟩

theorem Local.map {least : ℕ} {read : Cursor → Except Err (α × Cursor)} (h : Local least read)
    (f : α → β) :
    Local least fun c => Wire.andThen (read c) fun x c => .ok (f x, c) :=
  h.andThen fun x => local_pure (f x)

theorem readGroups_local {w : ℕ} (bytes : List UInt8) :
    ∀ (shift : ℕ) (acc : BitVec w) (pos : ℕ) (x : BitVec w) (c' : Cursor),
      readGroups w shift acc pos bytes = .ok (x, c') →
      ∃ taken : List UInt8, 1 ≤ taken.length ∧ bytes = taken ++ c'.rest ∧
        c'.pos = pos + taken.length ∧
        ∀ q b, readGroups w shift acc q (taken ++ b) = .ok (x, ⟨q + taken.length, b⟩) := by
  induction bytes with
  | nil =>
    intro shift acc pos x c' h
    rw [readGroups] at h
    split at h <;> cases h
  | cons byte rest ih =>
    intro shift acc pos x c' h
    rw [readGroups] at h
    by_cases hshift : 64 ≤ shift
    · rw [if_pos hshift] at h
      cases h
    · rw [if_neg hshift] at h
      dsimp only at h
      by_cases hlast : byte < 0x80
      · rw [if_pos hlast] at h
        cases h
        refine ⟨[byte], Nat.le_refl _, rfl, rfl, fun q b => ?_⟩
        rw [List.singleton_append, readGroups, if_neg hshift]
        dsimp only
        rw [if_pos hlast]
        rfl
      · rw [if_neg hlast] at h
        obtain ⟨taken, -, hrest, hpos, hread⟩ := ih _ _ _ _ _ h
        refine ⟨byte :: taken, by simp, by rw [hrest, List.cons_append], ?_, fun q b => ?_⟩
        · rw [hpos, List.length_cons]
          omega
        · rw [List.cons_append, readGroups, if_neg hshift]
          dsimp only
          rw [if_neg hlast, hread, List.length_cons, Nat.add_right_comm, Nat.add_assoc]

theorem readVarint_local (w : ℕ) : Local 1 (readVarint w) := by
  intro c x c' h
  obtain ⟨taken, hone, hrest, hpos, hread⟩ := readGroups_local c.rest _ _ _ _ _ h
  exact ⟨taken, hone, hrest, hpos, fun q b _ => hread q b⟩

theorem checkLen_ok {c : Cursor} {x : Except Err α} {y : α} (h : checkLen len c x = .ok y) :
    c.pos + len.toNat < 2 ^ 63 ∧ len.toNat ≤ c.rest.length ∧ x = .ok y := by
  unfold checkLen at h
  split at h
  · cases h
  · split at h
    · cases h
    · split at h
      · cases h
      · exact ⟨by omega, by omega, h⟩

/-- Bytes that follow their length. -/
theorem checkLen_append {src b : List UInt8} {q : ℕ} (x : Except Err α)
    (hlen : src.length = len.toNat) (hq : q + (src ++ b).length < 2 ^ 63) :
    checkLen len ⟨q, src ++ b⟩ x = x := by
  rw [List.length_append] at hq
  rw [checkLen, if_neg (by omega), if_neg (by dsimp only; omega),
    if_neg (by rw [List.length_append]; omega)]

theorem yields_slice {src : List UInt8} (hlen : src.length = len.toNat) :
    Yields (fun c => checkLen len c (.ok (c.rest.take len.toNat, c.advance len.toNat))) src
      src := by
  intro q b hq
  dsimp only
  rw [checkLen_append _ hlen hq, List.take_left' hlen, Cursor.advance, List.drop_left' hlen, hlen]

theorem readBytes_local : Local 1 readBytes := by
  apply (readVarint_local 64).andThen
  intro len c x c' h
  obtain ⟨hpos, hlen, hx⟩ := checkLen_ok h
  cases hx
  have htake : (c.rest.take len.toNat).length = len.toNat := List.length_take_of_le hlen
  refine ⟨c.rest.take len.toNat, Nat.zero_le _, (List.take_append_drop _ _).symm, ?_,
    yields_slice htake⟩
  rw [htake]
  rfl

theorem IsVarint.yields {v : BitVec 64} (h : IsVarint bytes v) :
    Yields (readVarint 64) bytes v := fun q b _ => h q b

theorem IsVarint.ne_nil {v : BitVec 64} (h : IsVarint bytes v) : bytes ≠ [] := by
  rintro rfl
  have hread := h 0 []
  cases hread

theorem IsRecord.tag {record : List UInt8} (h : IsRecord record) :
    ∃ wire tag payload, record = tag ++ payload ∧ IsVarint tag wire := by
  cases h with
  | field htag _ | group _ htag _ _ _ _ => exact ⟨_, _, _, rfl, htag⟩

theorem IsRecord.ne_nil {record : List UInt8} (h : IsRecord record) : record ≠ [] := by
  obtain ⟨wire, tag, payload, rfl, htag⟩ := h.tag
  exact List.append_ne_nil_of_left_ne_nil htag.ne_nil payload

section Skip

variable [Protohelpers] [LawfulProtohelpers]

theorem skipRecord_ok {c c' : Cursor} {limit : ℕ} {record : List UInt8}
    (h : skipRecord c limit = .ok (record, c')) (hl : limit ≤ c.len) :
    IsRecord record ∧ c.rest = record ++ c'.rest := by
  unfold skipRecord at h
  split at h
  · cases h
  · rename_i k hk
    split at h
    · cases h
    · split at h
      · cases h
      · rename_i hlimit
        cases h
        have hend : k ≤ c.rest.length := by
          rw [Cursor.len] at hl
          omega
        exact ⟨LawfulProtohelpers.record_of_skip _ _ hk hend, (List.take_append_drop k _).symm⟩

theorem IsRecord.skipRecord {record : List UInt8} (h : IsRecord record) {q limit : ℕ}
    {b : List UInt8} (hq : q + (record ++ b).length < 2 ^ 63)
    (hlimit : q + record.length ≤ limit) :
    skipRecord ⟨q, record ++ b⟩ limit = .ok (record, ⟨q + record.length, b⟩) := by
  dsimp only [Wire.skipRecord]
  rw [LawfulProtohelpers.skip_record _ _ h (by omega)]
  dsimp only
  rw [List.length_append] at hq
  rw [if_neg (by omega), if_neg (by omega), List.take_left, Cursor.advance_append]

end Skip

end GameCluster.Lib.Wire
