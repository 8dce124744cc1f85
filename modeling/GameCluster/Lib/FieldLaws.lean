import GameCluster.Lib.Records

/-!
What holds of the code of a field, for each of the field types: its value is a
list of payloads, each behind a tag. Writing puts them there, the size counts
them, and reading them one after the other from the zero value gives the value.
-/

namespace GameCluster.Lib.Wire

/-- A step whose length is measured and goes into the next step. -/
theorem Writer.Puts.measured {step : Writer → Option Writer} {a b : List UInt8} (hs : Puts step a)
    (next : ℕ → Writer → Option Writer) (hn : Puts (next a.length) b) :
    Puts (fun w => (step w).bind fun w' => next (w.i - w'.i) w') (b ++ a) := by
  intro w hw
  dsimp only
  rw [hs w hw, ← back_bind_back]
  cases hback : w.back a with
  | none => rfl
  | some w' =>
    obtain ⟨hi, hfits, hw'⟩ := back_i hback
    have hlen : w.i - w'.i = a.length := by omega
    rw [Option.bind_some, Option.bind_some, hlen]
    exact hn w' hw'

/-! ### Chains of reads -/

/-- One step for each item of a list. -/
def Chain {α β : Type*} (step : α → β → α → Prop) : α → List β → α → Prop
  | v, [], v' => v = v'
  | v, x :: xs, v' => ∃ u, step v x u ∧ Chain step u xs v'

theorem Chain.append {α β : Type*} {step : α → β → α → Prop} {first second : List β} {v u v' : α}
    (hf : Chain step v first u) (hs : Chain step u second v') :
    Chain step v (first ++ second) v' := by
  induction first generalizing v with
  | nil =>
    cases hf
    exact hs
  | cons x xs ih =>
    obtain ⟨y, hy, hrest⟩ := hf
    exact ⟨y, hy, ih hrest⟩

/-- Steps that are steps of another kind. -/
theorem Chain.map {α β α' β' : Type*} {step : α → β → α → Prop} {step' : α' → β' → α' → Prop}
    {f : α → α'} {g : β → β'} (h : ∀ v x u, step v x u → step' (f v) (g x) (f u)) {xs : List β}
    {v v' : α} (hc : Chain step v xs v') : Chain step' (f v) (xs.map g) (f v') := by
  induction xs generalizing v with
  | nil => exact congrArg f hc
  | cons x xs ih =>
    obtain ⟨u, hu, hrest⟩ := hc
    exact ⟨f u, h v x u hu, ih hrest⟩

/-- The value changes with each piece that is read. -/
abbrev Reads {α : Type*} (read : α → Cursor → Except Err (α × Cursor)) :
    α → List (List UInt8) → α → Prop :=
  Chain fun v piece u => Yields (read v) piece u

/-- The reader takes a byte or more. -/
def Advances {α : Type*} (read : Cursor → Except Err (α × Cursor)) : Prop :=
  ∀ c x c', read c = .ok (x, c') → c'.rest.length < c.rest.length

theorem Local.advances {α : Type*} {read : Cursor → Except Err (α × Cursor)}
    (h : Local 1 read) : Advances read := by
  intro c x c' hx
  obtain ⟨taken, hone, hrest, -⟩ := h c x c' hx
  rw [hrest, List.length_append]
  omega

theorem yields_varint (w : ℕ) (v : BitVec 64) : Yields (readVarint w) (varint v) (v.setWidth w) :=
  fun q b _ => readVarint_varint w v q b

theorem yields_varint_self (v : BitVec 64) : Yields (readVarint 64) (varint v) v := by
  have h := yields_varint 64 v
  rwa [BitVec.setWidth_eq] at h

/-- A length and as many bytes. -/
def delimited (src : List UInt8) : List UInt8 := varint (BitVec.ofNat 64 src.length) ++ src

theorem toNat_length (src : List UInt8) (h : src.length < 2 ^ 63) :
    src.length = (BitVec.ofNat 64 src.length).toNat := by
  rw [BitVec.toNat_ofNat, Nat.mod_eq_of_lt (by omega)]

theorem length_delimited (src : List UInt8) : (delimited src).length =
    src.length + (varint (BitVec.ofNat 64 src.length)).length := by
  rw [delimited, List.length_append, Nat.add_comm]

/-- What need not be shown of bytes that are too many. -/
theorem yields_of_short {α : Type*} {read : Cursor → Except Err (α × Cursor)}
    {bytes : List UInt8} {x : α} (h : bytes.length < 2 ^ 63 → Yields read bytes x) :
    Yields read bytes x := by
  intro q b hq
  refine h ?_ q b hq
  rw [List.length_append] at hq
  omega

theorem yields_delimited (src : List UInt8) : Yields readBytes (delimited src) src := by
  apply yields_of_short
  intro hshort
  rw [length_delimited] at hshort
  exact (yields_varint_self _).andThen (yields_slice (toNat_length _ (by omega)))

namespace FieldType

variable {ρ : Type}

/-- The code of the field is right about these payloads. -/
structure Encodes (t : FieldType ρ) (payloads : ρ → t.Val → List (List UInt8)) : Prop where
  puts : ∀ r tag v, Writer.Puts (t.write r tag v) ((payloads r v).flatMap (tag ++ ·))
  size_eq : ∀ r r' tag v,
    t.size r' tag.length v = ((payloads r v).flatMap (tag ++ ·)).length
  valid_zero : t.Valid t.zero
  reads : ∀ r v, t.Valid v → Reads t.read t.zero (payloads r v) v
  read_advances : ∀ v, Advances (t.read v)
  read_valid : ∀ v c x c', t.Valid v → t.read v c = .ok (x, c') → t.Valid x

/-- The code of the field is right. -/
def Lawful (t : FieldType ρ) : Prop := ∃ payloads, t.Encodes payloads

/-- Fields that are left out if they are zero and are one record otherwise. -/
theorem Encodes.single {t : FieldType ρ} (payload : ρ → t.Val → Option (List UInt8))
    (hnone : ∀ r v, payload r v = none →
      v = t.zero ∧ (∀ tag, t.write r tag v = some) ∧ ∀ r' n, t.size r' n v = 0)
    (hsome : ∀ r v p, payload r v = some p →
      (∀ tag, Writer.Puts (t.write r tag v) (tag ++ p)) ∧ (∀ r' n, t.size r' n v = n + p.length) ∧
      (t.Valid v → Yields (t.read t.zero) p v))
    (hzero : t.Valid t.zero) (hadvances : ∀ v, Advances (t.read v))
    (hvalid : ∀ v c x c', t.Valid v → t.read v c = .ok (x, c') → t.Valid x) :
    t.Encodes fun r v => (payload r v).toList where
  puts r tag v := by
    cases hp : payload r v with
    | none =>
      rw [(hnone r v hp).2.1 tag]
      exact Writer.Puts.some
    | some p =>
      rw [Option.toList_some, List.flatMap_singleton]
      exact (hsome r v p hp).1 tag
  size_eq r r' tag v := by
    cases hp : payload r v with
    | none => exact (hnone r v hp).2.2 r' _
    | some p =>
      rw [(hsome r v p hp).2.1 r', Option.toList_some, List.flatMap_singleton,
        List.length_append]
  valid_zero := hzero
  reads r v hv := by
    cases hp : payload r v with
    | none => exact (hnone r v hp).1.symm
    | some p => exact ⟨v, (hsome r v p hp).2.2 hv, rfl⟩
  read_advances := hadvances
  read_valid := hvalid

/-! ### Numbers -/

@[simp] theorem bool_lawful : (bool : FieldType ρ).Lawful := by
  have hone : ([1] : List UInt8) = varint 1 := rfl
  refine ⟨_, Encodes.single (fun _ (v : Bool) => if v then some [1] else none) ?_ ?_ trivial
    (fun _ => ((readVarint_local 64).map fun v => decide (v ≠ 0)).advances)
    fun _ _ _ _ _ _ => trivial⟩
  · intro r (v : Bool) hv
    cases v with
    | true => cases hv
    | false => exact ⟨rfl, fun _ => rfl, fun _ _ => rfl⟩
  · intro r (v : Bool) p hv
    cases v with
    | false => cases hv
    | true =>
      cases hv
      refine ⟨fun tag b hb => ?_, fun _ _ => rfl, fun _ => ?_⟩
      · exact (Writer.Puts.back [1]).bind (Writer.Puts.putTag tag) b hb
      · have h := (yields_varint_self 1).map fun v => decide (v ≠ 0)
        rwa [← hone] at h

section Lawful

open Protohelpers

variable [Protohelpers] [LawfulProtohelpers]

def numberPayload {w : ℕ} (toWire : BitVec w → BitVec 64) (v : BitVec w) :
    Option (List UInt8) :=
  if v = 0 then none else some (varint (toWire v))

theorem number_lawful {w : ℕ} {toWire : BitVec w → BitVec 64} {ofWire : BitVec w → BitVec w}
    {sizeOf : BitVec w → ℕ} (hof : ∀ v, ofWire ((toWire v).setWidth w) = v)
    (hsize : ∀ v, sizeOf v = sizeOfVarint (toWire v)) :
    (number w toWire ofWire sizeOf : FieldType ρ).Lawful := by
  refine ⟨_, Encodes.single (fun _ => numberPayload toWire) ?_ ?_ trivial
    (fun _ => ((readVarint_local w).map ofWire).advances) fun _ _ _ _ _ _ => trivial⟩
  · intro r (v : BitVec w) hv
    have hz : v = 0 := by
      by_contra hne
      rw [numberPayload, if_neg hne] at hv
      cases hv
    refine ⟨hz, fun tag => funext fun b => if_pos hz, fun r' n => if_pos hz⟩
  · intro r (v : BitVec w) p hv
    have hz : v ≠ 0 := by
      intro hz
      rw [numberPayload, if_pos hz] at hv
      cases hv
    rw [numberPayload, if_neg hz] at hv
    cases hv
    refine ⟨fun tag b hb => ?_, fun r' n => ?_, fun _ => ?_⟩
    · dsimp only [number]
      rw [if_neg hz]
      exact (Writer.Puts.encodeVarint _).bind (Writer.Puts.putTag tag) b hb
    · dsimp only [number]
      rw [if_neg hz, hsize, LawfulProtohelpers.sizeOfVarint_eq]
    · have h := (yields_varint w (toWire v)).map ofWire
      rwa [hof] at h

@[simp] theorem uint64_lawful : (uint64 : FieldType ρ).Lawful :=
  number_lawful (fun _ => BitVec.setWidth_eq _) fun _ => rfl

@[simp] theorem int64_lawful : (int64 : FieldType ρ).Lawful :=
  number_lawful (fun _ => BitVec.setWidth_eq _) fun _ => rfl

@[simp] theorem sint64_lawful : (sint64 : FieldType ρ).Lawful := by
  refine number_lawful (fun v => ?_) fun v => ?_
  · rw [BitVec.setWidth_eq]
    exact unzigzag_zigzag (by norm_num) v
  · rw [LawfulProtohelpers.sizeOfZigzag_eq, LawfulProtohelpers.sizeOfVarint_eq]

@[simp] theorem uint32_lawful : (uint32 : FieldType ρ).Lawful :=
  number_lawful (fun v => by simp) fun _ => rfl

@[simp] theorem int32_lawful : (int32 : FieldType ρ).Lawful := by
  refine number_lawful (fun v => ?_) fun _ => rfl
  apply BitVec.eq_of_getLsbD_eq
  intro i hi
  have hlow : i < 64 := by omega
  simp [hi, hlow, BitVec.getElem_signExtend]

/-- The size is counted on the number in 64 bits, but 32 bits are written. -/
@[simp] theorem sint32_lawful : (sint32 : FieldType ρ).Lawful := by
  refine number_lawful (fun v => ?_) fun v => ?_
  · rw [BitVec.setWidth_setWidth_of_le _ (by norm_num), BitVec.setWidth_eq]
    exact unzigzag_zigzag (by norm_num) v
  · have hlt := (zigzag v).isLt
    have hword : zigzag (v.signExtend 64) = (zigzag v).setWidth 64 := by
      apply BitVec.eq_of_toNat_eq
      rw [toNat_zigzag_signExtend, BitVec.toNat_setWidth, Nat.mod_eq_of_lt (by omega)]
    rw [LawfulProtohelpers.sizeOfZigzag_eq, LawfulProtohelpers.sizeOfVarint_eq, hword]

/-! ### Bytes, strings and messages -/

theorem puts_writeBytes (tag src : List UInt8) :
    Writer.Puts (writeBytes tag src) (tag ++ delimited src) :=
  ((Writer.Puts.back src).bind (Writer.Puts.encodeVarint _)).bind (Writer.Puts.putTag tag)

theorem sizeOfBytes_eq (n : ℕ) (src : List UInt8) :
    sizeOfBytes n src.length = n + (delimited src).length := by
  rw [sizeOfBytes, length_delimited, LawfulProtohelpers.sizeOfVarint_eq, Nat.add_assoc]

@[simp] theorem bytes_lawful : (bytes : FieldType ρ).Lawful := by
  refine ⟨_, Encodes.single
    (fun _ (v : List UInt8) => if v = [] then none else some (delimited v)) ?_ ?_ trivial
    (fun _ => readBytes_local.advances) fun _ _ _ _ _ _ => trivial⟩
  · intro r (v : List UInt8) hv
    cases v with
    | nil => exact ⟨rfl, fun _ => rfl, fun _ _ => rfl⟩
    | cons b rest => cases hv
  · intro r (v : List UInt8) p hv
    cases v with
    | nil => cases hv
    | cons b rest =>
      cases hv
      exact ⟨fun tag => puts_writeBytes tag _, fun _ n => sizeOfBytes_eq n _,
        fun _ => yields_delimited _⟩

omit [LawfulProtohelpers] in
theorem reads_strings (xs done : List (List UInt8)) :
    Reads (strings : FieldType ρ).read done (xs.map delimited) (done ++ xs) := by
  induction xs generalizing done with
  | nil => exact (List.append_nil done).symm
  | cons x rest ih =>
    have hrest := ih (done ++ [x])
    rw [List.append_assoc] at hrest
    exact ⟨done ++ [x], (yields_delimited x).map fun s => done ++ [s], hrest⟩

@[simp] theorem strings_lawful : (strings : FieldType ρ).Lawful := by
  refine ⟨fun _ (v : List (List UInt8)) => v.map delimited, ?_, ?_, trivial, ?_, ?_,
    fun _ _ _ _ _ _ => trivial⟩
  · intro r tag (v : List (List UInt8))
    have h := Writer.Puts.foldlM (fun s => puts_writeBytes tag s) v.reverse
    rw [List.reverse_reverse] at h
    rw [List.flatMap_map]
    exact h
  · intro r r' tag (v : List (List UInt8))
    rw [List.flatMap_map, List.length_flatMap]
    dsimp only [strings]
    congr 1
    apply List.map_congr_left
    intro s _
    rw [sizeOfBytes_eq, List.length_append]
  · intro r v _
    exact reads_strings v []
  · intro (v : List (List UInt8))
    exact (readBytes_local.map fun s => v ++ [s]).advances

end Lawful

end FieldType

/-- The code of the message is right about its encoding. -/
structure MsgType.Encodes {ρ : Type} (t : MsgType ρ) (enc : ρ → t.Msg → List UInt8) : Prop where
  puts : ∀ r m, Writer.Puts (t.marshal r m) (enc r m)
  size_eq : ∀ r r' m, t.size r' m = (enc r m).length
  valid_zero : t.Valid t.zero
  unmarshal_enc : ∀ r m, t.Valid m → (enc r m).length < 2 ^ 63 →
    t.unmarshal t.zero (enc r m) = .ok m
  unmarshal_valid : ∀ m m' bytes, t.Valid m → t.unmarshal m bytes = .ok m' → t.Valid m'

def MsgType.Lawful {ρ : Type} (t : MsgType ρ) : Prop := ∃ enc, t.Encodes enc

namespace FieldType

variable {ρ : Type} [Protohelpers]

theorem message_read_ok {t : MsgType ρ} {v x : Option t.Msg} {c c' : Cursor}
    (h : (message t).read v c = .ok (x, c')) : ∃ slice m, readBytes c = .ok (slice, c') ∧
      t.unmarshal (v.getD t.zero) slice = .ok m ∧ x = some m := by
  obtain ⟨slice, c₁, hslice, hx⟩ := andThen_ok h
  split at hx
  · cases hx
  · rename_i m hm
    cases hx
    exact ⟨slice, m, hslice, hm, rfl⟩

theorem yields_message {t : MsgType ρ} {v : Option t.Msg} {m : t.Msg} {slice bytes : List UInt8}
    (hslice : Yields readBytes bytes slice) (hm : t.unmarshal (v.getD t.zero) slice = .ok m) :
    Yields ((message t).read v) bytes (some m) := by
  intro q b hq
  dsimp only [message]
  rw [hslice q b hq]
  dsimp only [andThen]
  rw [hm]

theorem message_advances {t : MsgType ρ} (v : Option t.Msg) : Advances ((message t).read v) := by
  intro c x c' h
  obtain ⟨slice, m, hslice, -⟩ := message_read_ok h
  exact readBytes_local.advances _ _ _ hslice

@[simp] theorem message_lawful [LawfulProtohelpers] {t : MsgType ρ} (h : t.Lawful) :
    (message t).Lawful := by
  obtain ⟨enc, h⟩ := h
  refine ⟨_, Encodes.single (fun r (v : Option t.Msg) => v.map fun m => delimited (enc r m))
    ?_ ?_ ?_ message_advances ?_⟩
  · intro r v hv
    cases v with
    | none => exact ⟨rfl, fun _ => rfl, fun _ _ => rfl⟩
    | some m => cases hv
  · intro r v p hv
    cases v with
    | none => cases hv
    | some m =>
      cases hv
      refine ⟨fun tag b hb => ?_, fun r' n => ?_, fun hm => ?_⟩
      · have hput := (h.puts r m).inside.measured
          (fun n b => (b.encodeVarint (BitVec.ofNat 64 n)).bind (·.putTag tag))
          ((Writer.Puts.encodeVarint _).bind (Writer.Puts.putTag tag)) b hb
        rw [List.append_assoc] at hput
        exact hput
      · rw [← sizeOfBytes_eq, ← h.size_eq r r']
        rfl
      · apply yields_of_short
        intro hshort
        rw [length_delimited] at hshort
        exact yields_message (yields_delimited _) (h.unmarshal_enc r m (hm m rfl) (by omega))
  · rintro m ⟨⟩
  · intro v c x c' hv hx
    obtain ⟨slice, m, -, hm, rfl⟩ := message_read_ok hx
    rintro _ ⟨⟩
    refine h.unmarshal_valid _ _ _ ?_ hm
    cases v with
    | none => exact h.valid_zero
    | some m => exact hv m rfl

end FieldType

end GameCluster.Lib.Wire
