import GameCluster.Lib.FieldLaws

/-!
The code of a `map<string, sint64>`, whose entries are written in the order in
which the runtime ranges over the map. An entry is read by a loop that may look
beyond the entry's end, but not if the entry was written as here.
-/

namespace GameCluster.Lib.Wire.FieldType

theorem lookup_foldl_insert (f : List UInt8 → BitVec 64) (keys : List (List UInt8))
    (m : Map (List UInt8) (BitVec 64)) (k : List UInt8) :
    (keys.foldl (fun m key => m.insert key (f key)) m).lookup k =
      if k ∈ keys then some (f k) else m.lookup k := by
  induction keys generalizing m with
  | nil => simp
  | cons key rest ih =>
    rw [List.foldl_cons, ih, Map.lookup_insert_ite]
    by_cases hk : k = key
    · subst hk
      simp
    · simp [hk]

/-- All entries of a map, in any order, make the map. -/
theorem foldl_insert_range {order : List (List UInt8)} {m : Map (List UInt8) (BitVec 64)}
    (h : Map.Enumerates order m) :
    order.reverse.foldl (fun m' key => m'.insert key ((m.lookup key).getD 0)) ∅ = m := by
  apply Finmap.ext_lookup
  intro k
  rw [lookup_foldl_insert]
  have hk : k ∈ order.reverse ↔ (m.lookup k).isSome := List.mem_reverse.trans (h.mem_iff k)
  cases hm : m.lookup k with
  | none =>
    rw [hm] at hk
    rw [if_neg (by simpa using hk), Finmap.lookup_empty]
  | some v =>
    rw [hm] at hk
    rw [if_pos (hk.mpr rfl), Option.getD_some]

variable [Protohelpers]

/-! ### Writing -/

/-- The two records of an entry. -/
def entryBody (key : List UInt8) (value : BitVec 64) : List UInt8 :=
  (0xa :: delimited key) ++ (0x10 :: varint (zigzag value))

def entryWriter (key : List UInt8) (value : BitVec 64) (b : Writer) : Option Writer :=
  ((((b.encodeVarint (zigzag value)).bind (·.back [0x10])).bind (·.back key)).bind
    (·.encodeVarint (BitVec.ofNat 64 key.length))).bind (·.back [0xa])

theorem puts_entryWriter [LawfulProtohelpers] (key : List UInt8) (value : BitVec 64) :
    Writer.Puts (entryWriter key value) (entryBody key value) := by
  have h := ((((Writer.Puts.encodeVarint (zigzag value)).bind (Writer.Puts.back [0x10])).bind
    (Writer.Puts.back key)).bind (Writer.Puts.encodeVarint (BitVec.ofNat 64 key.length))).bind
    (Writer.Puts.back [0xa])
  have hbody : entryBody key value =
      [0xa] ++ (varint (BitVec.ofNat 64 key.length) ++ (key ++ ([0x10] ++ varint (zigzag value))))
      := by
    simp [entryBody, delimited]
  rw [hbody]
  exact h

theorem writeEntry_eq (tag key : List UInt8) (value : BitVec 64) (b : Writer) :
    writeEntry tag key value b = (entryWriter key value b).bind fun b' =>
      (b'.encodeVarint (BitVec.ofNat 64 (b.i - b'.i))).bind (·.putTag tag) := by
  simp only [entryWriter, Option.bind_assoc]
  rfl

theorem puts_writeEntry [LawfulProtohelpers] (tag key : List UInt8) (value : BitVec 64) :
    Writer.Puts (writeEntry tag key value) (tag ++ delimited (entryBody key value)) := by
  intro b hb
  have h := (puts_entryWriter key value).measured
    (fun n b => (b.encodeVarint (BitVec.ofNat 64 n)).bind (·.putTag tag))
    ((Writer.Puts.encodeVarint _).bind (Writer.Puts.putTag tag)) b hb
  rw [List.append_assoc] at h
  rw [writeEntry_eq]
  exact h

theorem entrySize_eq [LawfulProtohelpers] (key : List UInt8) (value : BitVec 64) :
    entrySize key value = (entryBody key value).length := by
  simp only [entrySize, entryBody, List.length_append, List.length_cons, length_delimited,
    LawfulProtohelpers.sizeOfVarint_eq, LawfulProtohelpers.sizeOfZigzag_eq]
  omega

/-! ### Reading -/

theorem entryLoop_key {fuel post q : ℕ} {key₀ : List UInt8} {value₀ : BitVec 64}
    {key b : List UInt8} (hpost : q < post)
    (hq : q + ((0xa :: delimited key) ++ b).length < 2 ^ 63) :
    entryLoop (fuel + 1) post key₀ value₀ ⟨q, (0xa :: delimited key) ++ b⟩ =
      entryLoop fuel post key value₀ ⟨q + (0xa :: delimited key).length, b⟩ := by
  have htag : (0xa :: delimited key : List UInt8) = varint 10 ++ delimited key := rfl
  have hnum : fieldNum 10 = 1 := by decide
  rw [htag, List.append_assoc] at hq ⊢
  have hrest : q + (varint 10).length + (delimited key ++ b).length < 2 ^ 63 := by
    rw [List.length_append] at hq
    omega
  rw [entryLoop, if_neg (not_le.mpr hpost), yields_varint_self 10 q _ hq]
  dsimp only [andThen]
  rw [if_pos hnum, yields_delimited key _ b hrest, List.length_append, Nat.add_assoc]

theorem entryLoop_value {fuel post q : ℕ} {key : List UInt8} {value₀ value : BitVec 64}
    {b : List UInt8} (hpost : q < post)
    (hq : q + ((0x10 :: varint (zigzag value)) ++ b).length < 2 ^ 63) :
    entryLoop (fuel + 1) post key value₀ ⟨q, (0x10 :: varint (zigzag value)) ++ b⟩ =
      entryLoop fuel post key value ⟨q + (0x10 :: varint (zigzag value)).length, b⟩ := by
  have htag : (0x10 :: varint (zigzag value) : List UInt8) = varint 16 ++ varint (zigzag value) :=
    rfl
  have hnum : fieldNum 16 ≠ 1 ∧ fieldNum 16 = 2 := by decide
  rw [htag, List.append_assoc] at hq ⊢
  have hrest : q + (varint 16).length + (varint (zigzag value) ++ b).length < 2 ^ 63 := by
    rw [List.length_append] at hq
    omega
  rw [entryLoop, if_neg (not_le.mpr hpost), yields_varint_self 16 q _ hq]
  dsimp only [andThen]
  rw [if_neg hnum.1, if_pos hnum.2, yields_varint_self _ _ b hrest]
  dsimp only
  rw [unzigzag_zigzag (by norm_num), List.length_append, Nat.add_assoc]

theorem entryLoop_body {key b : List UInt8} {value : BitVec 64} {q : ℕ}
    (hq : q + (entryBody key value ++ b).length < 2 ^ 63) :
    entryLoop (entryBody key value).length (q + (entryBody key value).length) [] 0
      ⟨q, entryBody key value ++ b⟩ = .ok (key, value) := by
  have hkey : 1 ≤ (delimited key).length := by
    rw [length_delimited]
    have := List.length_pos_of_ne_nil (varint_ne_nil (BitVec.ofNat 64 key.length))
    omega
  have hlen : (entryBody key value).length =
      (0xa :: delimited key).length + (0x10 :: varint (zigzag value)).length := List.length_append
  have hcons : (0xa :: delimited key).length = (delimited key).length + 1 := List.length_cons
  have hcons' : (0x10 :: varint (zigzag value)).length = (varint (zigzag value)).length + 1 :=
    List.length_cons
  rw [List.length_append] at hq
  -- Two rounds read the key and the value, and the third sees the end.
  obtain ⟨fuel, hfuel⟩ : ∃ fuel, (entryBody key value).length = fuel + 1 + 1 + 1 :=
    ⟨(entryBody key value).length - 3, by omega⟩
  rw [hfuel, entryBody, List.append_assoc,
    entryLoop_key (by omega) (by simp only [List.length_append]; omega),
    entryLoop_value (by omega) (by simp only [List.length_append]; omega), entryLoop, if_pos]
  dsimp only
  omega

theorem yields_entry (m : Map (List UInt8) (BitVec 64)) (key : List UInt8) (value : BitVec 64) :
    Yields (stringMap.read m) (delimited (entryBody key value)) (m.insert key value) := by
  intro q b hq
  rw [delimited, List.append_assoc] at hq ⊢
  rw [List.length_append] at hq
  have hlen := toNat_length (entryBody key value) (by rw [List.length_append] at hq; omega)
  dsimp only [stringMap]
  rw [readVarint_varint]
  dsimp only [andThen]
  rw [BitVec.setWidth_eq, checkLen_append _ hlen (by omega), ← hlen, entryLoop_body (by omega)]
  dsimp only
  rw [Cursor.advance_append, List.length_append, Nat.add_assoc]

theorem reads_entries (f : List UInt8 → BitVec 64) (keys : List (List UInt8))
    (m m' : Map (List UInt8) (BitVec 64))
    (h : keys.foldl (fun m key => m.insert key (f key)) m = m') :
    Reads stringMap.read m (keys.map fun key => delimited (entryBody key (f key))) m' := by
  induction keys generalizing m with
  | nil => exact h
  | cons key rest ih => exact ⟨_, yields_entry m key (f key), ih _ h⟩

theorem stringMap_advances (m : Map (List UInt8) (BitVec 64)) : Advances (stringMap.read m) := by
  intro c x c' h
  obtain ⟨msglen, c₁, hlen, h₁⟩ := andThen_ok h
  have hless := (readVarint_local 64).advances _ _ _ hlen
  obtain ⟨-, -, h₂⟩ := checkLen_ok h₁
  split at h₂
  · cases h₂
  · cases h₂
    refine lt_of_le_of_lt ?_ hless
    rw [Cursor.advance, List.length_drop]
    omega

@[simp] theorem stringMap_lawful [LawfulProtohelpers] : stringMap.Lawful := by
  refine ⟨fun range (m : Map (List UInt8) (BitVec 64)) => (range m).1.reverse.map fun key =>
    delimited (entryBody key ((m.lookup key).getD 0)), ?_, ?_, trivial, ?_, stringMap_advances,
    fun _ _ _ _ _ _ => trivial⟩
  · intro range tag (m : Map (List UInt8) (BitVec 64))
    rw [List.flatMap_map]
    exact Writer.Puts.foldlM (fun key => puts_writeEntry tag key ((m.lookup key).getD 0)) _
  · intro range range' tag (m : Map (List UInt8) (BitVec 64))
    -- Two orders of the keys are permutations of each other, so the sums agree.
    have hperm : (range' m).1.Perm (range m).1.reverse := by
      refine (List.perm_of_nodup_nodup_toFinset_eq (range' m).2.1 (range m).2.1 ?_).trans
        (List.reverse_perm _).symm
      rw [(range' m).2.2, (range m).2.2]
    rw [List.flatMap_map, List.length_flatMap, ← (hperm.map _).sum_eq]
    dsimp only [stringMap]
    congr 1
    apply List.map_congr_left
    intro key _
    rw [List.length_append, length_delimited, entrySize_eq, LawfulProtohelpers.sizeOfVarint_eq]
    omega
  · intro range (m : Map (List UInt8) (BitVec 64)) _
    exact reads_entries _ _ ∅ m (foldl_insert_range (range m).2)

end GameCluster.Lib.Wire.FieldType
