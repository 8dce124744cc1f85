import Mathlib.Data.List.Basic
import Mathlib.Tactic.NormNum
import Mathlib.Tactic.Ring

/-!
Numbers in groups of seven bits, least significant group first, every byte but
the last with its high bit set, and the mapping of signed to unsigned numbers
that keeps small ones short. A reader has a variable of some width: bits that
do not fit it are lost, but ten bytes are read whatever the width.

A reader stands at an index of a buffer, since what does not fit the type of
the index is an error of its own.
-/

namespace GameCluster.Lib.Wire

inductive Err where
  | intOverflow
  | unexpectedEOF
  | invalidLength
  | unexpectedEndOfGroup
  | illegalWireType (wireType : ℕ)
  | endGroup (message : String)
  | illegalTag (message : String) (fieldNum : ℤ) (wire : ℕ)
  | wrongWireType (wireType : ℕ) (field : String)
  deriving DecidableEq, Repr

/-- An index into a buffer and the bytes from it on. -/
structure Cursor where
  pos : ℕ
  rest : List UInt8
  deriving DecidableEq, Repr

namespace Cursor

def start (bytes : List UInt8) : Cursor := ⟨0, bytes⟩

/-- The length of the buffer. -/
def len (c : Cursor) : ℕ := c.pos + c.rest.length

def advance (c : Cursor) (k : ℕ) : Cursor := ⟨c.pos + k, c.rest.drop k⟩

@[simp] theorem advance_append (pos : ℕ) (read rest : List UInt8) :
    advance ⟨pos, read ++ rest⟩ read.length = ⟨pos + read.length, rest⟩ := by
  simp [advance]

end Cursor

/-! ### Groups of seven bits -/

/-- At most `more + 1` bytes. -/
def groups : ℕ → ℕ → List UInt8
  | 0, n => [UInt8.ofNat n]
  | more + 1, n =>
    if n < 128 then [UInt8.ofNat n] else UInt8.ofNat (n % 128 + 128) :: groups more (n / 128)

/-- The encoding of a number of 64 bits. -/
def varint (v : BitVec 64) : List UInt8 := groups 9 v.toNat

theorem toNat_lt_groups (v : BitVec 64) : v.toNat < 128 ^ (9 + 1) :=
  lt_of_lt_of_le v.isLt (by norm_num)

theorem varint_ne_nil (v : BitVec 64) : varint v ≠ [] := by
  unfold varint groups
  split <;> simp

/-- The loop that reads a number into a variable of `w` bits. -/
def readGroups (w shift : ℕ) (acc : BitVec w) (pos : ℕ) :
    List UInt8 → Except Err (BitVec w × Cursor)
  | [] => if 64 ≤ shift then .error .intOverflow else .error .unexpectedEOF
  | b :: rest =>
    if 64 ≤ shift then .error .intOverflow
    else
      let acc := acc ||| (BitVec.ofNat w (b &&& 0x7F).toNat <<< shift)
      if b < 0x80 then .ok (acc, ⟨pos + 1, rest⟩)
      else readGroups w (shift + 7) acc (pos + 1) rest

def readVarint (w : ℕ) (c : Cursor) : Except Err (BitVec w × Cursor) :=
  readGroups w 0 0 c.pos c.rest

theorem ofNat_split (w n : ℕ) :
    BitVec.ofNat w (n % 128) ||| (BitVec.ofNat w (n / 128) <<< 7) = BitVec.ofNat w n := by
  have hn : n = (n / 128) <<< 7 ||| n % 128 := by
    rw [← Nat.shiftLeft_add_eq_or_of_lt (by omega : n % 128 < 2 ^ 7), Nat.shiftLeft_eq]
    omega
  have hshift : BitVec.ofNat w ((n / 128) <<< 7) = BitVec.ofNat w (n / 128) <<< 7 := by
    apply BitVec.eq_of_toNat_eq
    simp [Nat.shiftLeft_eq]
  conv_rhs => rw [hn, BitVec.ofNat_or, hshift]
  rw [BitVec.or_comm]

theorem low_bits {n : ℕ} (h : n < 256) : (UInt8.ofNat n &&& 0x7F).toNat = n % 128 := by
  rw [UInt8.toNat_and, UInt8.toNat_ofNat', Nat.mod_eq_of_lt h]
  exact Nat.and_two_pow_sub_one_eq_mod n 7

theorem ofNat_lt_iff {n : ℕ} (h : n < 256) : UInt8.ofNat n < 0x80 ↔ n < 128 := by
  rw [UInt8.lt_iff_toNat_lt, UInt8.toNat_ofNat', Nat.mod_eq_of_lt h]
  rfl

theorem readGroups_groups {w : ℕ} (more n shift pos : ℕ) (acc : BitVec w) (rest : List UInt8)
    (hn : n < 128 ^ (more + 1)) (hshift : shift + 7 * more < 64) :
    readGroups w shift acc pos (groups more n ++ rest) =
      .ok (acc ||| (BitVec.ofNat w n <<< shift), ⟨pos + (groups more n).length, rest⟩) := by
  have hlast : ∀ (n pos : ℕ) (acc : BitVec w) (shift : ℕ), n < 128 → shift < 64 →
      readGroups w shift acc pos ([UInt8.ofNat n] ++ rest) =
        .ok (acc ||| (BitVec.ofNat w n <<< shift), ⟨pos + 1, rest⟩) := by
    intro n pos acc shift hn hs
    rw [List.singleton_append, readGroups, if_neg (by omega)]
    dsimp only
    rw [if_pos ((ofNat_lt_iff (by omega)).mpr hn), low_bits (by omega), Nat.mod_eq_of_lt hn]
  induction more generalizing n shift pos acc with
  | zero => exact hlast n pos acc shift (by simpa using hn) (by omega)
  | succ more ih =>
    by_cases hsmall : n < 128
    · rw [groups, if_pos hsmall]
      exact hlast n pos acc shift hsmall (by omega)
    · have hdiv : n / 128 < 128 ^ (more + 1) := by
        rw [pow_succ] at hn
        omega
      have hlow : (n % 128 + 128) % 128 = n % 128 := by omega
      rw [groups, if_neg hsmall, List.cons_append, readGroups, if_neg (by omega)]
      dsimp only
      rw [if_neg (by rw [ofNat_lt_iff (by omega)]; omega), low_bits (by omega), hlow,
        ih _ _ _ _ hdiv (by omega), BitVec.or_assoc, Nat.add_comm shift 7, BitVec.shiftLeft_add,
        ← BitVec.shiftLeft_or_distrib, ofNat_split, List.length_cons, Nat.add_assoc pos,
        Nat.add_comm 1]

/-- What was written is read back, up to the width of the variable. -/
theorem readVarint_varint (w : ℕ) (v : BitVec 64) (pos : ℕ) (rest : List UInt8) :
    readVarint w ⟨pos, varint v ++ rest⟩ =
      .ok (v.setWidth w, ⟨pos + (varint v).length, rest⟩) := by
  have h := readGroups_groups 9 v.toNat 0 pos (0 : BitVec w) rest (toNat_lt_groups v) (by norm_num)
  rw [readVarint, varint, h]
  simp

/-! ### Signed numbers -/

/-- `(v << 1) ^ (v >> (w - 1))`, the second shift arithmetic. -/
def zigzag {w : ℕ} (v : BitVec w) : BitVec w := (v <<< 1) ^^^ v.sshiftRight (w - 1)

/-- `(v >> 1) ^ (((v & 1) << (w - 1)) >> (w - 1))`, the last shift arithmetic. -/
def unzigzag {w : ℕ} (v : BitVec w) : BitVec w :=
  (v >>> 1) ^^^ ((v &&& 1) <<< (w - 1)).sshiftRight (w - 1)

theorem sshiftRight_eq_zero {w : ℕ} {v : BitVec w} (hw : 0 < w) (h : v.msb = false) :
    v.sshiftRight (w - 1) = 0 := by
  apply BitVec.eq_of_toNat_eq
  have hlt := BitVec.msb_eq_false_iff_two_mul_lt.mp h
  have hpow : 2 ^ w = 2 * 2 ^ (w - 1) := by rw [← pow_succ', Nat.sub_add_cancel hw]
  rw [BitVec.toNat_sshiftRight, if_neg (by simp [h]), Nat.shiftRight_eq_div_pow,
    Nat.div_eq_of_lt (by omega)]
  rfl

theorem sshiftRight_eq_allOnes {w : ℕ} {v : BitVec w} (hw : 0 < w) (h : v.msb = true) :
    v.sshiftRight (w - 1) = BitVec.allOnes w := by
  apply BitVec.eq_of_toNat_eq
  have hle := BitVec.msb_eq_true_iff_two_mul_ge.mp h
  have hlt := v.isLt
  have hpow : 2 ^ w = 2 * 2 ^ (w - 1) := by rw [← pow_succ', Nat.sub_add_cancel hw]
  rw [BitVec.toNat_sshiftRight, if_pos h, Nat.shiftRight_eq_div_pow, Nat.div_eq_of_lt (by omega),
    BitVec.toNat_allOnes, Nat.sub_zero]

theorem toNat_zigzag {w : ℕ} (hw : 0 < w) (v : BitVec w) :
    (zigzag v).toNat = if v.msb then 2 * (2 ^ w - 1 - v.toNat) + 1 else 2 * v.toNat := by
  have hlt := v.isLt
  cases hmsb : v.msb with
  | false =>
    have h := BitVec.msb_eq_false_iff_two_mul_lt.mp hmsb
    rw [zigzag, sshiftRight_eq_zero hw hmsb]
    simp only [BitVec.ofNat_eq_ofNat, BitVec.xor_zero, BitVec.toNat_shiftLeft, Nat.shiftLeft_eq]
    rw [Nat.mod_eq_of_lt (by omega), if_neg (by simp)]
    omega
  | true =>
    have h := BitVec.msb_eq_true_iff_two_mul_ge.mp hmsb
    rw [zigzag, sshiftRight_eq_allOnes hw hmsb, BitVec.xor_allOnes, BitVec.toNat_not,
      BitVec.toNat_shiftLeft, Nat.shiftLeft_eq, if_pos rfl]
    have hmod : v.toNat * 2 ^ 1 % 2 ^ w = 2 * v.toNat - 2 ^ w := by
      rw [Nat.mod_eq_sub_mod (by omega), Nat.mod_eq_of_lt (by omega)]
      omega
    omega

/-- The bit that is spread over the word. -/
theorem toNat_unzigzag {w : ℕ} (hw : 0 < w) (u : BitVec w) :
    (unzigzag u).toNat = if u.toNat % 2 = 1 then 2 ^ w - 1 - u.toNat / 2 else u.toNat / 2 := by
  have hone : (1 : BitVec w).toNat = 1 := by
    simp [Nat.mod_eq_of_lt (Nat.one_lt_two_pow (by omega : w ≠ 0))]
  have hand : (u &&& 1).toNat = u.toNat % 2 := by
    rw [BitVec.toNat_and, hone]
    exact Nat.and_two_pow_sub_one_eq_mod u.toNat 1
  have hbit : ((u &&& 1) <<< (w - 1)).msb = decide (u.toNat % 2 = 1) := by
    rw [BitVec.msb_eq_decide, BitVec.toNat_shiftLeft, hand, Nat.shiftLeft_eq, Nat.mod_eq_of_lt]
    · have hpos : 0 < 2 ^ (w - 1) := Nat.two_pow_pos _
      rcases Nat.mod_two_eq_zero_or_one u.toNat with h | h <;> simp [h]
    · have hpow : 2 ^ w = 2 * 2 ^ (w - 1) := by rw [← pow_succ', Nat.sub_add_cancel hw]
      have hpos : 0 < 2 ^ (w - 1) := Nat.two_pow_pos _
      rcases Nat.mod_two_eq_zero_or_one u.toNat with h | h <;> rw [h] <;> omega
  by_cases hodd : u.toNat % 2 = 1
  · rw [unzigzag, sshiftRight_eq_allOnes hw (by rw [hbit, hodd]; rfl), BitVec.xor_allOnes,
      BitVec.toNat_not, BitVec.toNat_ushiftRight, Nat.shiftRight_eq_div_pow, if_pos hodd, pow_one]
  · rw [unzigzag, sshiftRight_eq_zero hw (by rw [hbit]; simpa using hodd), if_neg hodd]
    simp [Nat.shiftRight_eq_div_pow]

theorem unzigzag_zigzag {w : ℕ} (hw : 0 < w) (v : BitVec w) : unzigzag (zigzag v) = v := by
  have hlt := v.isLt
  apply BitVec.eq_of_toNat_eq
  rw [toNat_unzigzag hw, toNat_zigzag hw]
  cases v.msb with
  | false =>
    rw [if_neg Bool.false_ne_true, if_neg (by omega)]
    omega
  | true =>
    rw [if_pos rfl, if_pos (by omega)]
    omega

/-- The sign is lost in no wider word. -/
theorem toNat_zigzag_signExtend (v : BitVec 32) :
    (zigzag (v.signExtend 64)).toNat = (zigzag v).toNat := by
  have hlt := v.isLt
  have hmsb : (v.signExtend 64).msb = v.msb := by simp [BitVec.msb_signExtend]
  rw [toNat_zigzag (by norm_num), toNat_zigzag (by norm_num), hmsb, BitVec.toNat_signExtend,
    BitVec.toNat_setWidth, Nat.mod_eq_of_lt (lt_trans hlt (by norm_num))]
  cases v.msb <;> simp

end GameCluster.Lib.Wire
