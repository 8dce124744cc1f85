import Mathlib.Data.Int.ModEq
import Mathlib.Tactic.Common

/-!
The fixed-width integer types, signed and unsigned, with their conversions to and from
64 bits. A value is its bits, and `toInt` the integer it stands for. Widening extends the
sign of a signed value; narrowing cuts bits off. Both keep the value modulo a power of
two, which is all that arithmetic at 64 bits needs: `toInt_ofBits64` gives the result
back once it is known to be in the range of the type.
-/

namespace GameCluster.Lib

inductive Width where
  | w8
  | w16
  | w32
  | w64
  deriving DecidableEq, Repr

def Width.bits : Width → ℕ
  | .w8 => 8
  | .w16 => 16
  | .w32 => 32
  | .w64 => 64

structure IntType where
  width : Width
  signed : Bool
  deriving DecidableEq, Repr

namespace IntType

variable (T : IntType)

abbrev bits : ℕ := T.width.bits

abbrev Value : Type := BitVec T.bits

def toInt (v : T.Value) : ℤ := if T.signed then v.toInt else v.toNat

def minVal : ℤ := if T.signed then -2 ^ (T.bits - 1) else 0

def maxVal : ℤ := if T.signed then 2 ^ (T.bits - 1) - 1 else 2 ^ T.bits - 1

/-- The conversion to a 64-bit type, signed or not. -/
def toBits64 (v : T.Value) : BitVec 64 := if T.signed then v.signExtend 64 else v.setWidth 64

/-- The conversion from a 64-bit type, signed or not. -/
def ofBits64 (n : BitVec 64) : T.Value := n.setWidth T.bits

def lt (a b : T.Value) : Bool := if T.signed then a.slt b else a.ult b

variable {T}

theorem bits_pos : 0 < T.bits := by
  rw [bits]
  cases T.width <;> decide

theorem bits_le : T.bits ≤ 64 := by
  rw [bits]
  cases T.width <;> decide

theorem two_pow_bits : (2 : ℤ) ^ T.bits = 2 * 2 ^ (T.bits - 1) := by
  rw [← pow_succ', Nat.sub_add_cancel bits_pos]

theorem two_pow_bits_dvd : (2 : ℤ) ^ T.bits ∣ 2 ^ 64 := pow_dvd_pow 2 bits_le

theorem two_pow_bits_le : (2 : ℤ) ^ T.bits ≤ 2 ^ 64 :=
  Int.le_of_dvd (by decide) two_pow_bits_dvd

theorem maxVal_sub_minVal : T.maxVal - T.minVal = 2 ^ T.bits - 1 := by
  rw [maxVal, minVal, two_pow_bits]
  split <;> omega

theorem minVal_le (v : T.Value) : T.minVal ≤ T.toInt v := by
  rw [minVal, toInt]
  split
  · exact v.le_toInt
  · exact Int.natCast_nonneg _

theorem le_maxVal (v : T.Value) : T.toInt v ≤ T.maxVal := by
  rw [maxVal, toInt]
  split
  · exact Int.le_sub_one_of_lt v.toInt_lt
  · exact Int.le_sub_one_of_lt (by exact_mod_cast v.isLt)

theorem toInt_inj {a b : T.Value} : T.toInt a = T.toInt b ↔ a = b := by
  rw [toInt, toInt]
  split
  · exact BitVec.toInt_inj
  · rw [Int.natCast_inj, BitVec.toNat_inj]

theorem lt_iff {a b : T.Value} : T.lt a b = true ↔ T.toInt a < T.toInt b := by
  rw [lt, toInt, toInt]
  split
  · exact BitVec.slt_iff_toInt_lt
  · rw [BitVec.ult_iff_toNat_lt, Int.ofNat_lt]

/-- Widening keeps the value up to multiples of `2 ^ 64`. -/
theorem toBits64_modEq (v : T.Value) : ((T.toBits64 v).toNat : ℤ) ≡ T.toInt v [ZMOD 2 ^ 64] := by
  rw [toBits64, toInt]
  split
  · rw [← BitVec.toInt_signExtend_of_le bits_le, BitVec.toInt_eq_toNat_bmod]
    exact (Int.bmod_emod).symm
  · have hlt : v.toNat < 2 ^ 64 :=
      v.isLt.trans_le (Nat.pow_le_pow_right (by decide) bits_le)
    rw [BitVec.toNat_setWidth, Nat.mod_eq_of_lt hlt]

/-- Narrowing gives the value of the type that is the same up to multiples of
`2 ^ bits`. -/
theorem toInt_ofBits64 {n : BitVec 64} {z : ℤ} (hlow : T.minVal ≤ z) (hhigh : z ≤ T.maxVal)
    (hmod : (n.toNat : ℤ) ≡ z [ZMOD 2 ^ T.bits]) : T.toInt (T.ofBits64 n) = z := by
  have hpow := two_pow_bits (T := T)
  rw [minVal] at hlow
  rw [maxVal] at hhigh
  rw [toInt, ofBits64]
  have hcast : ((2 ^ T.bits : ℕ) : ℤ) = 2 ^ T.bits := by push_cast; rfl
  split
  · rename_i hsigned
    rw [if_pos hsigned] at hlow hhigh
    rw [BitVec.toInt_setWidth, ← Int.emod_bmod, hcast, hmod, ← hcast, Int.emod_bmod]
    exact Int.bmod_eq_of_le (by omega) (by omega)
  · rename_i hsigned
    rw [if_neg hsigned] at hlow hhigh
    rw [BitVec.toNat_setWidth, Int.natCast_emod, hcast, hmod, Int.emod_eq_of_lt hlow (by omega)]

end IntType

end GameCluster.Lib
