import Mathlib.Data.List.Basic
import Mathlib.Tactic.NormNum

/-!
Byte buffers: numbers of a fixed width written least significant byte first,
and writes into a buffer at an offset. A write that does not fit has no result.
-/

namespace GameCluster.Lib.Bytes

instance (priority := high) decidableForallUInt8 (P : UInt8 → Prop) [DecidablePred P] :
    Decidable (∀ b, P b) :=
  decidable_of_iff (∀ k : Fin UInt8.size, P (UInt8.ofFin k))
    ⟨fun h b => h b.toFin, fun h k => h (UInt8.ofFin k)⟩

/-- The `w` bytes of `n`, least significant first. Higher bits are dropped. -/
def le : ℕ → ℕ → List UInt8
  | 0, _ => []
  | w + 1, n => UInt8.ofNat n :: le w (n / 256)

/-- The number with the given bytes, least significant first. -/
def ofLe : List UInt8 → ℕ
  | [] => 0
  | b :: bs => b.toNat + 256 * ofLe bs

@[simp] theorem length_le (w n : ℕ) : (le w n).length = w := by
  induction w generalizing n with
  | zero => rfl
  | succ w ih => simp [le, ih]

/-- What is read back is the number up to the width. -/
theorem ofLe_le (w n : ℕ) : ofLe (le w n) = n % 256 ^ w := by
  induction w generalizing n with
  | zero => simp [le, ofLe, Nat.mod_one]
  | succ w ih =>
    have hpow : 256 ^ (w + 1) = 256 * 256 ^ w := pow_succ' 256 w
    rw [le, ofLe, ih, UInt8.toNat_ofNat', hpow, Nat.mod_mul]

/-- Only the bits within the width are written. -/
theorem le_mod (w n : ℕ) : le w (n % 256 ^ w) = le w n := by
  induction w generalizing n with
  | zero => rfl
  | succ w ih =>
    have hpow : 256 ^ (w + 1) = 256 * 256 ^ w := pow_succ' 256 w
    have hbyte : UInt8.ofNat (n % (256 * 256 ^ w)) = UInt8.ofNat n := by
      apply UInt8.toNat_inj.mp
      rw [UInt8.toNat_ofNat', UInt8.toNat_ofNat']
      exact Nat.mod_mod_of_dvd n (Dvd.intro _ rfl)
    rw [hpow, le, le, hbyte, Nat.mod_mul_right_div_self, ih]

theorem ofLe_lt (bytes : List UInt8) : ofLe bytes < 256 ^ bytes.length := by
  induction bytes with
  | nil => simp [ofLe]
  | cons b bs ih =>
    have hb : b.toNat < 256 := b.toNat_lt
    rw [ofLe, List.length_cons, pow_succ]
    omega

/-- Bytes that were read are written back as they were. -/
theorem le_ofLe (bytes : List UInt8) : le bytes.length (ofLe bytes) = bytes := by
  induction bytes with
  | nil => rfl
  | cons b bs ih =>
    have hb : b.toNat < 256 := b.toNat_lt
    have hdiv : (b.toNat + 256 * ofLe bs) / 256 = ofLe bs := by omega
    have hmod : UInt8.ofNat (b.toNat + 256 * ofLe bs) = b := by
      apply UInt8.toNat_inj.mp
      rw [UInt8.toNat_ofNat']
      omega
    rw [List.length_cons, ofLe, le, hdiv, hmod, ih]

/-- Writes `src` over the bytes of `dst` from `off` on. -/
def put (dst : List UInt8) (off : ℕ) (src : List UInt8) : Option (List UInt8) :=
  if off + src.length ≤ dst.length then
    some (dst.take off ++ src ++ dst.drop (off + src.length))
  else none

/-- A write that begins where the finished part of a buffer ends. -/
theorem put_next {done dst src : List UInt8} {off : ℕ} (hoff : done.length = off)
    (hfits : off + src.length ≤ dst.length) :
    put (done ++ dst.drop off) off src =
      some (done ++ src ++ dst.drop (off + src.length)) := by
  subst hoff
  have hlen : (done ++ dst.drop done.length).length = dst.length := by
    rw [List.length_append, List.length_drop]
    omega
  have hdrop : (done ++ dst.drop done.length).drop (done.length + src.length) =
      dst.drop (done.length + src.length) := by
    rw [List.drop_append, List.drop_eq_nil_of_le (by omega), List.nil_append, List.drop_drop,
      Nat.add_sub_cancel_left]
  rw [put, if_pos (hlen ▸ hfits), List.take_left, hdrop]

/-- The number in the first `w` bytes. -/
def get (w : ℕ) (bytes : List UInt8) : ℕ := ofLe (bytes.take w)

theorem get_le_append (w n : ℕ) (rest : List UInt8) : get w (le w n ++ rest) = n % 256 ^ w := by
  rw [get, List.take_left' (length_le w n), ofLe_le]

theorem get_lt (w : ℕ) (bytes : List UInt8) : get w bytes < 256 ^ w := by
  have hlt := ofLe_lt (bytes.take w)
  have hpow : 256 ^ (bytes.take w).length ≤ 256 ^ w :=
    Nat.pow_le_pow_right (by norm_num) (List.length_take_le w bytes)
  exact lt_of_lt_of_le hlt hpow

/-- Writing the number that was read gives back the bytes it was read from. -/
theorem le_get {w : ℕ} {bytes : List UInt8} (h : w ≤ bytes.length) :
    le w (get w bytes) = bytes.take w := by
  have hle := le_ofLe (bytes.take w)
  rw [List.length_take_of_le h] at hle
  exact hle

theorem drop_le_append {w k : ℕ} (n : ℕ) (rest : List UInt8) (h : w ≤ k) :
    (le w n ++ rest).drop k = rest.drop (k - w) := by
  rw [List.drop_append, List.drop_eq_nil_of_le (by rw [length_le]; exact h), List.nil_append,
    length_le]

end GameCluster.Lib.Bytes
