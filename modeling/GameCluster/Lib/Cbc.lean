import Mathlib.Data.List.Basic
import Mathlib.Tactic.Common
import Mathlib.Tactic.Ring

/-!
Cipher block chaining over a permutation of blocks of `n` bytes. Each block is combined
with the ciphertext of the one before it. For every permutation and every initial block
the mode keeps the length of what consists of whole blocks, and decryption and encryption
undo each other.
-/

namespace GameCluster.Lib

/-- A permutation of the blocks of `n` bytes with its inverse. -/
structure BlockCipher (n : ℕ) where
  enc : List UInt8 → List UInt8
  dec : List UInt8 → List UInt8
  length_enc : ∀ b, b.length = n → (enc b).length = n
  length_dec : ∀ b, b.length = n → (dec b).length = n
  dec_enc : ∀ b, b.length = n → dec (enc b) = b
  enc_dec : ∀ b, b.length = n → enc (dec b) = b

/-- Byte by byte. -/
def xorBlock (a b : List UInt8) : List UInt8 := List.zipWith (· ^^^ ·) a b

theorem length_xorBlock {a b : List UInt8} (h : a.length = b.length) :
    (xorBlock a b).length = a.length := by
  rw [xorBlock, List.length_zipWith, h, Nat.min_self]

theorem xorBlock_undo {a b : List UInt8} (h : a.length = b.length) :
    xorBlock (xorBlock a b) b = a := by
  induction a generalizing b with
  | nil => rfl
  | cons x a ih =>
    cases b with
    | nil => simp at h
    | cons y b =>
      have hlen : a.length = b.length := by simpa using h
      have hbyte : x ^^^ y ^^^ y = x := by rw [UInt8.xor_assoc, UInt8.xor_self, UInt8.xor_zero]
      simp only [xorBlock, List.zipWith_cons_cons, hbyte]
      exact congrArg (x :: ·) (ih hlen)

variable {n : ℕ} (c : BlockCipher n)

/-- The first `k` blocks of `src` after the ciphertext block `iv`. -/
def cbcEncrypt (iv : List UInt8) : ℕ → List UInt8 → List UInt8
  | 0, _ => []
  | k + 1, src =>
    let block := c.enc (xorBlock (src.take n) iv)
    block ++ cbcEncrypt block k (src.drop n)

def cbcDecrypt (iv : List UInt8) : ℕ → List UInt8 → List UInt8
  | 0, _ => []
  | k + 1, src =>
    xorBlock (c.dec (src.take n)) iv ++ cbcDecrypt (src.take n) k (src.drop n)

section

variable {iv : List UInt8} {k : ℕ} {src : List UInt8}

/-- The first of `k + 1` blocks, and what is left for the others. -/
theorem length_blocks (h : src.length = (k + 1) * n) :
    (src.take n).length = n ∧ (src.drop n).length = k * n := by
  have hsum : (k + 1) * n = k * n + n := by ring
  rw [List.length_take, List.length_drop, h, hsum]
  omega

variable {c}

theorem length_cbcEncrypt (hiv : iv.length = n) (h : src.length = k * n) :
    (cbcEncrypt c iv k src).length = k * n := by
  induction k generalizing iv src with
  | zero => simp [cbcEncrypt]
  | succ k ih =>
    obtain ⟨hblock, hrest⟩ := length_blocks h
    have hxor := length_xorBlock (hblock.trans hiv.symm)
    have henc := c.length_enc _ (hxor.trans hblock)
    rw [cbcEncrypt, List.length_append, henc, ih henc hrest]
    ring

theorem length_cbcDecrypt (hiv : iv.length = n) (h : src.length = k * n) :
    (cbcDecrypt c iv k src).length = k * n := by
  induction k generalizing iv src with
  | zero => simp [cbcDecrypt]
  | succ k ih =>
    obtain ⟨hblock, hrest⟩ := length_blocks h
    have hdec := c.length_dec _ hblock
    rw [cbcDecrypt, List.length_append, length_xorBlock (hdec.trans hiv.symm), hdec,
      ih hblock hrest]
    ring

theorem cbcDecrypt_cbcEncrypt (hiv : iv.length = n) (h : src.length = k * n) :
    cbcDecrypt c iv k (cbcEncrypt c iv k src) = src := by
  induction k generalizing iv src with
  | zero =>
    rw [Nat.zero_mul, List.length_eq_zero_iff] at h
    rw [h]
    rfl
  | succ k ih =>
    obtain ⟨hblock, hrest⟩ := length_blocks h
    have hxor := length_xorBlock (hblock.trans hiv.symm)
    have henc := c.length_enc _ (hxor.trans hblock)
    rw [cbcEncrypt, cbcDecrypt, List.take_left' henc, List.drop_left' henc,
      c.dec_enc _ (hxor.trans hblock), xorBlock_undo (hblock.trans hiv.symm), ih henc hrest,
      List.take_append_drop]

theorem cbcEncrypt_cbcDecrypt (hiv : iv.length = n) (h : src.length = k * n) :
    cbcEncrypt c iv k (cbcDecrypt c iv k src) = src := by
  induction k generalizing iv src with
  | zero =>
    rw [Nat.zero_mul, List.length_eq_zero_iff] at h
    rw [h]
    rfl
  | succ k ih =>
    obtain ⟨hblock, hrest⟩ := length_blocks h
    have hdec := c.length_dec _ hblock
    have hlen := (length_xorBlock (hdec.trans hiv.symm)).trans hdec
    rw [cbcDecrypt, cbcEncrypt, List.take_left' hlen, List.drop_left' hlen,
      xorBlock_undo (hdec.trans hiv.symm), c.enc_dec _ hblock, ih hblock hrest,
      List.take_append_drop]

end

end GameCluster.Lib
