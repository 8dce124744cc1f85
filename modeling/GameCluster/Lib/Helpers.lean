import GameCluster.Lib.Records

/-!
The helpers of the wire format written out, and that they keep the laws. What is
skipped is taken off the front of the bytes: a varint, a payload, a record, and
the records of a group with the tag that ends it.
-/

namespace GameCluster.Lib.Wire

/-- A payload stands behind no tag that begins or ends a group. -/
theorem IsPayload.wireType_ne {wt : ℕ} {bytes : List UInt8} (h : IsPayload wt bytes) :
    wt ≠ 3 ∧ wt ≠ 4 := by
  cases h <;> decide

namespace Base128

def encodeVarint (dAtA : List UInt8) (offset : ℕ) (v : BitVec 64) : Option (List UInt8 × ℕ) :=
  let base := offset - (varint v).length
  if (varint v).length ≤ offset then (Bytes.put dAtA base (varint v)).map fun buf => (buf, base)
  else none

def dropVarint (bytes : List UInt8) : Option (BitVec 64 × List UInt8) :=
  match readVarint 64 (Cursor.start bytes) with
  | .ok (v, c) => some (v, c.rest)
  | .error _ => none

def dropBytes (n : ℕ) (bytes : List UInt8) : Option (List UInt8) :=
  if n ≤ bytes.length then some (bytes.drop n) else none

def dropPayload (wireType : ℕ) (bytes : List UInt8) : Option (List UInt8) :=
  match wireType with
  | 0 => (dropVarint bytes).map (·.2)
  | 1 => dropBytes 8 bytes
  | 2 => (dropVarint bytes).bind fun len => dropBytes len.1.toNat len.2
  | 5 => dropBytes 4 bytes
  | _ => none

/-- The records of a group and its end. -/
def dropRecords : ℕ → List UInt8 → Option (List UInt8)
  | 0, _ => none
  | fuel + 1, bytes =>
    (dropVarint bytes).bind fun tag =>
      if wireType tag.1 = 4 then some tag.2
      else if wireType tag.1 = 3 then (dropRecords fuel tag.2).bind (dropRecords fuel)
      else (dropPayload (wireType tag.1) tag.2).bind (dropRecords fuel)

def dropRecord (bytes : List UInt8) : Option (List UInt8) :=
  (dropVarint bytes).bind fun tag =>
    if wireType tag.1 = 3 then dropRecords bytes.length tag.2
    else dropPayload (wireType tag.1) tag.2

def skip (dAtA : List UInt8) : Except Err ℕ :=
  match dropRecord dAtA with
  | some rest => .ok (dAtA.length - rest.length)
  | none => .error .unexpectedEOF

@[reducible] def helpers : Protohelpers where
  encodeVarint := encodeVarint
  sizeOfVarint x := (varint x).length
  sizeOfZigzag x := (varint (zigzag x)).length
  skip := skip

variable {bytes rest stop : List UInt8} {wire : BitVec 64} {records : List (List UInt8)}

theorem dropVarint_append (h : IsVarint bytes wire) (rest : List UInt8) :
    dropVarint (bytes ++ rest) = some (wire, rest) := by
  rw [dropVarint, Cursor.start, h 0 rest]

theorem dropVarint_some (h : dropVarint bytes = some (wire, rest)) :
    ∃ tag, IsVarint tag wire ∧ bytes = tag ++ rest := by
  unfold dropVarint at h
  split at h
  · rename_i hread
    cases h
    obtain ⟨taken, -, hrest, -, hvarint⟩ := readGroups_local _ _ _ _ _ _ hread
    exact ⟨taken, hvarint, hrest⟩
  · cases h

theorem dropBytes_append {n : ℕ} (h : bytes.length = n) (rest : List UInt8) :
    dropBytes n (bytes ++ rest) = some rest := by
  rw [dropBytes, if_pos (by rw [List.length_append]; omega), List.drop_left' h]

theorem dropBytes_some {n : ℕ} (h : dropBytes n bytes = some rest) :
    ∃ taken, taken.length = n ∧ bytes = taken ++ rest := by
  obtain ⟨hle, hx⟩ := Option.ite_none_right_eq_some.mp h
  cases hx
  exact ⟨bytes.take n, List.length_take_of_le hle, (List.take_append_drop n bytes).symm⟩

theorem dropPayload_append {wt : ℕ} (h : IsPayload wt bytes) (rest : List UInt8) :
    dropPayload wt (bytes ++ rest) = some rest := by
  cases h with
  | varint hvarint => rw [dropPayload, dropVarint_append hvarint, Option.map_some]
  | fixed64 hlen | fixed32 hlen => exact dropBytes_append hlen rest
  | delimited hlen hsrc =>
    rw [dropPayload, List.append_assoc, dropVarint_append hlen, Option.bind_some]
    exact dropBytes_append hsrc rest

theorem dropPayload_some {wt : ℕ} (h : dropPayload wt bytes = some rest) :
    ∃ payload, IsPayload wt payload ∧ bytes = payload ++ rest := by
  unfold dropPayload at h
  split at h
  · obtain ⟨⟨v, b⟩, hdrop, rfl⟩ := Option.map_eq_some_iff.mp h
    obtain ⟨payload, hvarint, rfl⟩ := dropVarint_some hdrop
    exact ⟨payload, .varint hvarint, rfl⟩
  · obtain ⟨payload, hlen, rfl⟩ := dropBytes_some h
    exact ⟨payload, .fixed64 hlen, rfl⟩
  · obtain ⟨⟨n, b⟩, hdrop, hbytes⟩ := Option.bind_eq_some_iff.mp h
    obtain ⟨len, hvarint, rfl⟩ := dropVarint_some hdrop
    obtain ⟨src, hsrc, rfl⟩ := dropBytes_some hbytes
    exact ⟨len ++ src, .delimited hvarint hsrc, (List.append_assoc _ _ _).symm⟩
  · obtain ⟨payload, hlen, rfl⟩ := dropBytes_some h
    exact ⟨payload, .fixed32 hlen, rfl⟩
  · cases h

theorem dropRecords_append {fuel : ℕ} (hrecords : ∀ x ∈ records, IsRecord x)
    (hstop : IsVarint stop wire) (hwt : wireType wire = 4)
    (hfuel : (records.flatten ++ stop).length ≤ fuel) (rest : List UInt8) :
    dropRecords fuel (records.flatten ++ (stop ++ rest)) = some rest := by
  induction fuel generalizing records stop wire rest with
  | zero =>
    have hpos := List.length_pos_of_ne_nil hstop.ne_nil
    rw [List.length_append] at hfuel
    omega
  | succ fuel ih =>
    cases records with
    | nil =>
      rw [List.flatten_nil, List.nil_append, dropRecords, dropVarint_append hstop,
        Option.bind_some, if_pos hwt]
    | cons x records =>
      obtain ⟨hx, hrest⟩ := List.forall_mem_cons.mp hrecords
      cases hx with
      | field htag hpayload =>
        have hpos := List.length_pos_of_ne_nil htag.ne_nil
        obtain ⟨hthree, hfour⟩ := hpayload.wireType_ne
        simp only [List.flatten_cons, List.append_assoc, List.length_append] at hfuel ⊢
        rw [dropRecords, dropVarint_append htag, Option.bind_some, if_neg hfour, if_neg hthree,
          dropPayload_append hpayload, Option.bind_some]
        exact ih hrest hstop hwt (by rw [List.length_append]; omega) rest
      | group inner hstart hthree hinner hend hfour =>
        have hpos := List.length_pos_of_ne_nil hstart.ne_nil
        simp only [List.flatten_cons, List.append_assoc, List.length_append] at hfuel ⊢
        have hgroup := ih hinner hend hfour (by rw [List.length_append]; omega)
        rw [dropRecords, dropVarint_append hstart, Option.bind_some,
          if_neg (by rw [hthree]; decide), if_pos hthree, hgroup, Option.bind_some]
        exact ih hrest hstop hwt (by rw [List.length_append]; omega) rest

/-- What a group holds up to its end. -/
def Ends (bytes rest : List UInt8) : Prop :=
  ∃ (records : List (List UInt8)) (stop : List UInt8) (wire : BitVec 64),
    (∀ x ∈ records, IsRecord x) ∧ IsVarint stop wire ∧ wireType wire = 4 ∧
      bytes = records.flatten ++ (stop ++ rest)

theorem Ends.group (h : Ends bytes rest) {tag : List UInt8} (htag : IsVarint tag wire)
    (hwt : wireType wire = 3) : ∃ record, IsRecord record ∧ tag ++ bytes = record ++ rest := by
  obtain ⟨records, stop, wire', hrecords, hstop, hwt', rfl⟩ := h
  exact ⟨_, .group records htag hwt hrecords hstop hwt', by simp only [List.append_assoc]⟩

theorem Ends.cons {record : List UInt8} (hrecord : IsRecord record) (h : Ends bytes rest) :
    Ends (record ++ bytes) rest := by
  obtain ⟨records, stop, wire, hrecords, hstop, hwt, rfl⟩ := h
  refine ⟨record :: records, stop, wire, List.forall_mem_cons.mpr ⟨hrecord, hrecords⟩, hstop,
    hwt, ?_⟩
  rw [List.flatten_cons, List.append_assoc]

theorem dropRecords_some {fuel : ℕ} (h : dropRecords fuel bytes = some rest) : Ends bytes rest := by
  induction fuel generalizing bytes rest with
  | zero => cases h
  | succ fuel ih =>
    rw [dropRecords] at h
    obtain ⟨⟨wire, b⟩, hdrop, htail⟩ := Option.bind_eq_some_iff.mp h
    obtain ⟨tag, htag, rfl⟩ := dropVarint_some hdrop
    dsimp only at htail
    split at htail
    · rename_i hwt
      cases htail
      exact ⟨[], tag, wire, by simp, htag, hwt, rfl⟩
    · split at htail
      · rename_i hwt
        obtain ⟨b', hgroup, hrest⟩ := Option.bind_eq_some_iff.mp htail
        obtain ⟨record, hrecord, heq⟩ := (ih hgroup).group htag hwt
        exact heq ▸ (ih hrest).cons hrecord
      · obtain ⟨b', hvalue, hrest⟩ := Option.bind_eq_some_iff.mp htail
        obtain ⟨payload, hpayload, rfl⟩ := dropPayload_some hvalue
        rw [← List.append_assoc]
        exact (ih hrest).cons (.field htag hpayload)

theorem dropRecord_append (h : IsRecord bytes) (rest : List UInt8) :
    dropRecord (bytes ++ rest) = some rest := by
  cases h with
  | field htag hpayload =>
    rw [List.append_assoc, dropRecord, dropVarint_append htag, Option.bind_some,
      if_neg hpayload.wireType_ne.1, dropPayload_append hpayload]
  | group records hstart hwt hrecords hstop hwt' =>
    simp only [List.append_assoc]
    rw [dropRecord, dropVarint_append hstart, Option.bind_some, if_pos hwt]
    refine dropRecords_append hrecords hstop hwt' ?_ rest
    simp only [List.length_append]
    omega

theorem dropRecord_some (h : dropRecord bytes = some rest) :
    ∃ record, IsRecord record ∧ bytes = record ++ rest := by
  obtain ⟨⟨wire, b⟩, hdrop, htail⟩ := Option.bind_eq_some_iff.mp h
  obtain ⟨tag, htag, rfl⟩ := dropVarint_some hdrop
  dsimp only at htail
  split at htail
  · rename_i hwt
    exact (dropRecords_some htail).group htag hwt
  · obtain ⟨payload, hpayload, rfl⟩ := dropPayload_some htail
    exact ⟨_, .field htag hpayload, (List.append_assoc _ _ _).symm⟩

theorem encodeVarint_of_le {dAtA : List UInt8} {offset : ℕ} {v : BitVec 64}
    (hoffset : offset ≤ dAtA.length) (hfits : (varint v).length ≤ offset) :
    encodeVarint dAtA offset v =
      some (dAtA.take (offset - (varint v).length) ++ varint v ++ dAtA.drop offset,
        offset - (varint v).length) := by
  rw [encodeVarint, if_pos hfits, Bytes.put, if_pos (by omega), Nat.sub_add_cancel hfits]
  rfl

theorem skip_of_isRecord (h : IsRecord bytes) (rest : List UInt8) :
    skip (bytes ++ rest) = .ok bytes.length := by
  rw [skip, dropRecord_append h]
  simp

theorem isRecord_of_skip {n : ℕ} (h : skip bytes = .ok n) : IsRecord (bytes.take n) := by
  unfold skip at h
  split at h
  · rename_i rest hdrop
    obtain ⟨record, hrecord, rfl⟩ := dropRecord_some hdrop
    obtain rfl : record.length = n := by simpa using h
    rwa [List.take_left]
  · cases h

theorem lawful : @LawfulProtohelpers helpers :=
  letI := helpers
  { encodeVarint_eq := fun _ _ _ hoffset hfits => encodeVarint_of_le hoffset hfits
    encodeVarint_panics := fun _ _ _ hshort => if_neg (not_le.mpr hshort)
    sizeOfVarint_eq := fun _ => rfl
    sizeOfZigzag_eq := fun _ => rfl
    skip_record := fun _ rest hrecord _ => skip_of_isRecord hrecord rest
    record_of_skip := fun _ _ hskip _ => isRecord_of_skip hskip }

end Base128

end GameCluster.Lib.Wire
