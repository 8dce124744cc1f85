import GameCluster.Lib.Bytes
import GameCluster.Lib.Cbc

/-!
`pkg/crypt/gaes`: AES in CBC mode with the padding of PKCS7, and the functions that encrypt
and decrypt one message with the global key. AES itself is any permutation of blocks of 16
bytes that `newCipher` gives for a key. The globals are passed along: `Init` overwrites the
key and the initial block before it checks them, and `getBlock` makes the block cipher on
the first use.
-/

namespace GameCluster.Crypt

open Lib

/-- `block.BlockSize()` -/
def blockSize : ℕ := 16

def pkcs7Padding (ciphertext : List UInt8) (blockSize : ℕ) : List UInt8 :=
  let padding := blockSize - ciphertext.length % blockSize
  ciphertext ++ List.replicate padding (UInt8.ofNat padding)

def pkcs7UnPadding (plaintext : List UInt8) : Except String (List UInt8) :=
  match plaintext.getLast? with
  | none => .error "plaintext is empty"
  | some last =>
    let unpadding := last.toNat
    if plaintext.length < unpadding ∨ unpadding = 0 then .error "invalid padding length"
    else
      let padStart := plaintext.length - unpadding
      if (plaintext.drop padStart).all (· == last) then .ok (plaintext.take padStart)
      else .error "invalid padding bytes"

/-- How a call fails: with an error or a panic. -/
inductive Failure where
  | err (text : String)
  | panic
  deriving DecidableEq, Repr

/-- The package variables. -/
structure Globals where
  aesKey : List UInt8
  aesIV : List UInt8
  globalBlock : Option (BlockCipher blockSize) := none

section Source

variable (newCipher : List UInt8 → Option (BlockCipher blockSize))

/-- The assignments at the start of `Init`. -/
def setKeys (g : Globals) (key iv : List UInt8) : Globals :=
  let g := if key ≠ [] then { g with aesKey := key } else g
  if iv ≠ [] then { g with aesIV := iv } else g

/-- `Init`, with the text of its error. -/
def init (g : Globals) (key iv : List UInt8) : Globals × Option String :=
  let g := setKeys g key iv
  match newCipher g.aesKey with
  | none => (g, some ("crypto/aes: invalid key size " ++ toString g.aesKey.length))
  | some block =>
    if g.aesIV.length ≠ blockSize then (g, some "IV length must equal block size")
    else ({ g with globalBlock := some block }, none)

def getBlock (g : Globals) : Option (BlockCipher blockSize) × Globals :=
  match g.globalBlock with
  | some block => (some block, g)
  | none => (newCipher g.aesKey, { g with globalBlock := newCipher g.aesKey })

/-- `CryptBlocks` of a new `CBCEncrypter`, which panics for an initial block of another
length. -/
def cryptBlocks (crypt : ℕ → List UInt8 → List UInt8) (iv src : List UInt8) :
    Except Failure (List UInt8) :=
  if iv.length ≠ blockSize then .error .panic else .ok (crypt (src.length / blockSize) src)

def enCryptOnce (g : Globals) (src : List UInt8) : Except Failure (List UInt8) × Globals :=
  if src.length = 0 then (.ok [], g)
  else
    match getBlock newCipher g with
    -- a method call on a nil interface
    | (none, g) => (.error .panic, g)
    | (some block, g) =>
      (cryptBlocks (cbcEncrypt block g.aesIV) g.aesIV (pkcs7Padding src blockSize), g)

def deCryptOnce (g : Globals) (src : List UInt8) : Except Failure (List UInt8) × Globals :=
  match getBlock newCipher g with
  | (none, g) => (.error .panic, g)
  | (some block, g) =>
    if src.length = 0 ∨ src.length % blockSize ≠ 0 then
      (.error (.err "invalid ciphertext length"), g)
    else
      match cryptBlocks (cbcDecrypt block g.aesIV) g.aesIV src with
      | .error e => (.error e, g)
      | .ok dst => ((pkcs7UnPadding dst).mapError .err, g)

end Source

/-! ### The padding -/

section Padding

variable {x p : List UInt8}

/-- What is accepted is some text followed by a positive number of bytes that all hold
that number. -/
theorem pkcs7UnPadding_eq_ok_iff :
    pkcs7UnPadding p = .ok x ↔ ∃ b : UInt8, 0 < b.toNat ∧ p = x ++ List.replicate b.toNat b := by
  constructor
  · intro h
    unfold pkcs7UnPadding at h
    split at h
    · cases h
    · rename_i last hlast
      simp only at h
      split at h
      · cases h
      · rename_i hlen
        split at h
        · rename_i hall
          obtain rfl := Except.ok.inj h
          refine ⟨last, by omega, ?_⟩
          have hrest : p.drop (p.length - last.toNat) = List.replicate last.toNat last := by
            rw [List.eq_replicate_iff]
            refine ⟨by rw [List.length_drop]; omega, fun b hb => ?_⟩
            exact eq_of_beq (List.all_eq_true.mp hall b hb)
          rw [← hrest, List.take_append_drop]
        · cases h
  · rintro ⟨b, hb, rfl⟩
    have hlast : (x ++ List.replicate b.toNat b).getLast? = some b := by
      rw [List.getLast?_append, List.getLast?_replicate, if_neg (by omega), Option.some_or]
    have hstart : (x ++ List.replicate b.toNat b).length - b.toNat = x.length := by simp
    have hok : ¬((x ++ List.replicate b.toNat b).length < b.toNat ∨ b.toNat = 0) := by
      rw [List.length_append, List.length_replicate]
      omega
    simp only [pkcs7UnPadding, hlast, if_neg hok, hstart, List.drop_left, List.take_left]
    simp

/-- The padding as the number of bytes that it adds. -/
theorem pkcs7Padding_eq (x : List UInt8) :
    ∃ b : UInt8, b.toNat = blockSize - x.length % blockSize ∧ 0 < b.toNat ∧ b.toNat ≤ blockSize ∧
      pkcs7Padding x blockSize = x ++ List.replicate b.toNat b := by
  have hmod : x.length % blockSize < blockSize := Nat.mod_lt _ (by decide)
  have hnat : (UInt8.ofNat (blockSize - x.length % blockSize)).toNat =
      blockSize - x.length % blockSize := by
    rw [UInt8.toNat_ofNat', Nat.mod_eq_of_lt]
    simp only [blockSize] at hmod ⊢
    omega
  refine ⟨UInt8.ofNat (blockSize - x.length % blockSize), hnat, by omega, by omega, ?_⟩
  rw [pkcs7Padding, hnat]

theorem pkcs7UnPadding_pkcs7Padding (x : List UInt8) :
    pkcs7UnPadding (pkcs7Padding x blockSize) = .ok x := by
  obtain ⟨b, -, hpos, -, heq⟩ := pkcs7Padding_eq x
  exact pkcs7UnPadding_eq_ok_iff.mpr ⟨b, hpos, heq⟩

theorem length_pkcs7Padding (x : List UInt8) :
    ∃ k, 0 < k ∧ (pkcs7Padding x blockSize).length = k * blockSize := by
  obtain ⟨b, hb, -, -, heq⟩ := pkcs7Padding_eq x
  refine ⟨x.length / blockSize + 1, Nat.succ_pos _, ?_⟩
  rw [heq, List.length_append, List.length_replicate, hb]
  simp only [blockSize]
  omega

/-- A text of whole blocks that ends in bytes which all hold their number is what padding
gives if they are at most one block. -/
theorem append_replicate_eq_pkcs7Padding_iff {b : UInt8}
    (hblocks : (x ++ List.replicate b.toNat b).length % blockSize = 0) (hb : 0 < b.toNat) :
    x ++ List.replicate b.toNat b = pkcs7Padding x blockSize ↔ b.toNat ≤ blockSize := by
  obtain ⟨b', hb', -, hle', heq⟩ := pkcs7Padding_eq x
  rw [List.length_append, List.length_replicate] at hblocks
  rw [heq, List.append_cancel_left_eq]
  constructor
  · intro hpad
    have hlen := congrArg List.length hpad
    rw [List.length_replicate, List.length_replicate] at hlen
    omega
  · intro hle
    have hnat : b.toNat = b'.toNat := by
      rw [hb']
      simp only [blockSize] at hblocks hle ⊢
      omega
    rw [UInt8.toNat_inj.mp hnat]

/-- Among texts of whole blocks, only padding is accepted unless the text ends in more bytes
than a block that all hold their number. -/
theorem pkcs7UnPadding_only_padding_iff (hblocks : p.length % blockSize = 0) :
    (∀ y, pkcs7UnPadding p = .ok y → ∃ x, p = pkcs7Padding x blockSize) ↔
      ∀ b : UInt8, List.replicate b.toNat b <:+ p → b.toNat ≤ blockSize := by
  constructor
  · rintro honly b ⟨y, rfl⟩
    by_cases hb : b.toNat = 0
    · omega
    · have hb : 0 < b.toNat := Nat.pos_of_ne_zero hb
      have hunpad : pkcs7UnPadding (y ++ List.replicate b.toNat b) = .ok y :=
        pkcs7UnPadding_eq_ok_iff.mpr ⟨b, hb, rfl⟩
      obtain ⟨x, hx⟩ := honly y hunpad
      rw [hx, pkcs7UnPadding_pkcs7Padding] at hunpad
      obtain rfl := Except.ok.inj hunpad
      exact (append_replicate_eq_pkcs7Padding_iff hblocks hb).mp hx
  · intro hshort y hunpad
    obtain ⟨b, hb, rfl⟩ := pkcs7UnPadding_eq_ok_iff.mp hunpad
    have hle := hshort b (List.suffix_append _ _)
    exact ⟨y, (append_replicate_eq_pkcs7Padding_iff hblocks hb).mpr hle⟩

/-- The same for the padding of a text that is not empty. -/
theorem pkcs7UnPadding_only_text_iff (hp : p ≠ []) (hblocks : p.length % blockSize = 0) :
    (∀ y, pkcs7UnPadding p = .ok y → ∃ x, x ≠ [] ∧ p = pkcs7Padding x blockSize) ↔
      ∀ b : UInt8, List.replicate b.toNat b <:+ p → b.toNat ≤ blockSize ∧ b.toNat ≠ p.length := by
  constructor
  · intro honly b hb
    have hpadding : ∀ y, pkcs7UnPadding p = .ok y → ∃ x, p = pkcs7Padding x blockSize := by
      intro y hy
      obtain ⟨x, -, hx⟩ := honly y hy
      exact ⟨x, hx⟩
    refine ⟨(pkcs7UnPadding_only_padding_iff hblocks).mp hpadding b hb, fun hlen => ?_⟩
    have hwhole : p = [] ++ List.replicate b.toNat b :=
      (hb.eq_of_length (by rw [List.length_replicate, hlen])).symm
    have hpos : 0 < b.toNat := hlen ▸ List.length_pos_iff.mpr hp
    have hunpad := pkcs7UnPadding_eq_ok_iff.mpr ⟨b, hpos, hwhole⟩
    obtain ⟨x, hx, rfl⟩ := honly [] hunpad
    rw [pkcs7UnPadding_pkcs7Padding] at hunpad
    exact hx (Except.ok.inj hunpad)
  · intro hshort y hy
    obtain ⟨x, rfl⟩ := (pkcs7UnPadding_only_padding_iff hblocks).mpr
      (fun b hb => (hshort b hb).1) y hy
    refine ⟨x, ?_, rfl⟩
    rintro rfl
    exact (hshort 16 (by decide)).2 (by decide)

end Padding

/-! ### One message -/

section Once

variable {newCipher : List UInt8 → Option (BlockCipher blockSize)} {g : Globals}
  {block : BlockCipher blockSize}

/-- The globals with a usable key and initial block; `block` is the cipher that is used. -/
structure Ready (newCipher : List UInt8 → Option (BlockCipher blockSize)) (g : Globals)
    (block : BlockCipher blockSize) : Prop where
  block : (getBlock newCipher g).1 = some block
  iv : g.aesIV.length = blockSize

/-- A successful `Init` leaves globals that are ready. -/
theorem ready_of_init {key iv : List UInt8} (h : (init newCipher g key iv).2 = none) :
    ∃ block, Ready newCipher (init newCipher g key iv).1 block := by
  unfold init at h ⊢
  generalize setKeys g key iv = g' at h ⊢
  simp only at h ⊢
  cases hblock : newCipher g'.aesKey with
  | none => simp [hblock] at h
  | some block =>
    by_cases hiv : g'.aesIV.length ≠ blockSize
    · simp [hblock, hiv] at h
    · simp only [if_neg hiv]
      exact ⟨block, rfl, not_not.mp hiv⟩

/-- The first use keeps the cipher for the next ones. -/
theorem Ready.getBlock (hr : Ready newCipher g block) :
    ∃ g', Crypt.getBlock newCipher g = (some block, g') ∧ g'.aesIV = g.aesIV ∧
      Ready newCipher g' block := by
  obtain ⟨hblock, hiv⟩ := hr
  unfold Crypt.getBlock at hblock ⊢
  split at hblock
  · rename_i b hglobal
    obtain rfl := Option.some.inj hblock
    refine ⟨g, rfl, rfl, ?_, hiv⟩
    simp [Crypt.getBlock, hglobal]
  · have hblock : newCipher g.aesKey = some block := hblock
    refine ⟨{ g with globalBlock := some block }, by rw [hblock], rfl, rfl, hiv⟩

theorem cryptBlocks_of_length {crypt : ℕ → List UInt8 → List UInt8} {iv : List UInt8}
    (hiv : iv.length = blockSize) (src : List UInt8) :
    cryptBlocks crypt iv src = .ok (crypt (src.length / blockSize) src) :=
  if_neg (not_not.mpr hiv)

theorem enCryptOnce_nil : enCryptOnce newCipher g [] = (.ok [], g) := rfl

theorem Ready.enCryptOnce (hr : Ready newCipher g block) {x : List UInt8} (hx : x ≠ []) :
    ∃ g', Crypt.enCryptOnce newCipher g x =
        (.ok (cbcEncrypt block g.aesIV ((pkcs7Padding x blockSize).length / blockSize)
          (pkcs7Padding x blockSize)), g') ∧ g'.aesIV = g.aesIV ∧ Ready newCipher g' block := by
  obtain ⟨g', hget, hiv, hr'⟩ := hr.getBlock
  refine ⟨g', ?_, hiv, hr'⟩
  have hlen : x.length ≠ 0 := fun hzero => hx (List.length_eq_zero_iff.mp hzero)
  rw [Crypt.enCryptOnce, if_neg hlen, hget]
  simp only [hiv, cryptBlocks_of_length hr.iv]

theorem Ready.deCryptOnce_eq_ok_iff (hr : Ready newCipher g block) {c y : List UInt8} :
    (deCryptOnce newCipher g c).1 = .ok y ↔ c ≠ [] ∧ c.length % blockSize = 0 ∧
      pkcs7UnPadding (cbcDecrypt block g.aesIV (c.length / blockSize) c) = .ok y := by
  obtain ⟨g', hget, hiv, hr'⟩ := hr.getBlock
  rw [deCryptOnce, hget]
  by_cases hlen : c.length = 0 ∨ c.length % blockSize ≠ 0
  · simp only [if_pos hlen, reduceCtorEq, false_iff]
    rintro ⟨hne, hmod, -⟩
    rcases hlen with hzero | hmod'
    · exact hne (List.length_eq_zero_iff.mp hzero)
    · exact hmod' hmod
  · have hne : c ≠ [] := by
      rintro rfl
      exact hlen (Or.inl rfl)
    have hmod : c.length % blockSize = 0 := by
      by_contra hmod
      exact hlen (Or.inr hmod)
    simp only [if_neg hlen, hiv, cryptBlocks_of_length hr.iv]
    cases pkcs7UnPadding (cbcDecrypt block g.aesIV (c.length / blockSize) c) <;>
      simp [Except.mapError, hne, hmod]

/-- What was encrypted is decrypted again, with the same cipher and initial block. -/
theorem Ready.deCryptOnce_enCryptOnce (hr : Ready newCipher g block) {x c : List UInt8}
    (hx : x ≠ []) (henc : (Crypt.enCryptOnce newCipher g x).1 = .ok c) {g' : Globals}
    (hr' : Ready newCipher g' block) (hiv : g'.aesIV = g.aesIV) :
    (deCryptOnce newCipher g' c).1 = .ok x := by
  obtain ⟨k, hk, hlen⟩ := length_pkcs7Padding x
  have hdiv : (pkcs7Padding x blockSize).length / blockSize = k := by
    rw [hlen, Nat.mul_div_cancel _ (by decide)]
  obtain ⟨_, hcall, -, -⟩ := hr.enCryptOnce hx
  rw [hcall, hdiv] at henc
  obtain rfl := Except.ok.inj henc
  have hclen := length_cbcEncrypt (c := block) hr.iv hlen
  rw [hr'.deCryptOnce_eq_ok_iff, hclen, hiv, Nat.mul_div_cancel _ (by decide),
    cbcDecrypt_cbcEncrypt hr.iv hlen]
  refine ⟨?_, Nat.mul_mod_left _ _, pkcs7UnPadding_pkcs7Padding x⟩
  intro hnil
  rw [hnil, List.length_nil] at hclen
  simp only [blockSize] at hclen
  omega

/-- A ciphertext of whole blocks is the encryption of `x` if it is decrypted to the padding
of `x`, which is not empty. -/
theorem Ready.enCryptOnce_eq_ok_iff (hr : Ready newCipher g block) {c x : List UInt8}
    (hc : c ≠ []) (hmod : c.length % blockSize = 0) :
    (Crypt.enCryptOnce newCipher g x).1 = .ok c ↔
      x ≠ [] ∧ cbcDecrypt block g.aesIV (c.length / blockSize) c = pkcs7Padding x blockSize := by
  have hblocks : c.length = c.length / blockSize * blockSize :=
    (Nat.div_mul_cancel (Nat.dvd_of_mod_eq_zero hmod)).symm
  by_cases hx : x = []
  · subst hx
    rw [enCryptOnce_nil]
    simp [Ne.symm hc]
  · obtain ⟨g', hcall, -, -⟩ := hr.enCryptOnce hx
    obtain ⟨k, -, hlen⟩ := length_pkcs7Padding x
    rw [hcall, Except.ok.injEq, hlen, Nat.mul_div_cancel _ (by decide)]
    constructor
    · rintro rfl
      rw [length_cbcEncrypt hr.iv hlen, Nat.mul_div_cancel _ (by decide)]
      exact ⟨hx, cbcDecrypt_cbcEncrypt hr.iv hlen⟩
    · rintro ⟨-, hdec⟩
      have hclen := length_cbcDecrypt (c := block) hr.iv hblocks
      rw [hdec, hlen] at hclen
      rw [← hdec, Nat.eq_of_mul_eq_mul_right (by decide) hclen]
      exact cbcEncrypt_cbcDecrypt hr.iv hblocks

theorem Ready.decrypted_only_text_iff (hr : Ready newCipher g block) {c : List UInt8}
    (hc : c ≠ []) (hmod : c.length % blockSize = 0) :
    let p := cbcDecrypt block g.aesIV (c.length / blockSize) c
    (∀ y, pkcs7UnPadding p = .ok y → ∃ x, x ≠ [] ∧ p = pkcs7Padding x blockSize) ↔
      ∀ b : UInt8, List.replicate b.toNat b <:+ p → b.toNat ≤ blockSize ∧ b.toNat ≠ c.length := by
  intro p
  have hblocks := Nat.div_mul_cancel (Nat.dvd_of_mod_eq_zero hmod)
  have hlen : p.length = c.length := (length_cbcDecrypt hr.iv hblocks.symm).trans hblocks
  have hp : p ≠ [] := by
    rwa [ne_eq, ← List.length_eq_zero_iff, hlen, List.length_eq_zero_iff]
  have honly := pkcs7UnPadding_only_text_iff hp (by rw [hlen, hmod])
  rwa [hlen] at honly

/-- A text that is encrypted comes back unless it is empty. Only encryptions are decrypted
unless the decrypted text ends in more bytes than a block that all hold their number, or in
nothing but such bytes; and the same for the padding alone. -/
theorem crypt_once_inverse_iff (hr : Ready newCipher g block) :
    (∀ x, ∃ c, (Crypt.enCryptOnce newCipher g x).1 = .ok c ∧
      ((deCryptOnce newCipher (Crypt.enCryptOnce newCipher g x).2 c).1 = .ok x ↔ x ≠ [])) ∧
    (∀ c, (∀ y, (deCryptOnce newCipher g c).1 = .ok y →
        ∃ x, (Crypt.enCryptOnce newCipher g x).1 = .ok c) ↔
      (c ≠ [] → c.length % blockSize = 0 → ∀ b : UInt8,
        List.replicate b.toNat b <:+ cbcDecrypt block g.aesIV (c.length / blockSize) c →
          b.toNat ≤ blockSize ∧ b.toNat ≠ c.length)) ∧
    (∀ p, p.length % blockSize = 0 →
      ((∀ y, pkcs7UnPadding p = .ok y → ∃ x, p = pkcs7Padding x blockSize) ↔
        ∀ b : UInt8, List.replicate b.toNat b <:+ p → b.toNat ≤ blockSize)) ∧
    ∀ x, pkcs7UnPadding (pkcs7Padding x blockSize) = .ok x := by
  refine ⟨?_, ?_, fun p => pkcs7UnPadding_only_padding_iff, pkcs7UnPadding_pkcs7Padding⟩
  · intro x
    by_cases hx : x = []
    · subst hx
      refine ⟨[], rfl, ?_⟩
      rw [enCryptOnce_nil, hr.deCryptOnce_eq_ok_iff]
      simp
    · obtain ⟨g', hcall, hiv, hr'⟩ := hr.enCryptOnce hx
      have henc := congrArg Prod.fst hcall
      have hstate := congrArg Prod.snd hcall
      rw [hstate]
      exact ⟨_, henc, iff_of_true (hr.deCryptOnce_enCryptOnce hx henc hr' hiv) hx⟩
  · intro c
    constructor
    · intro honly hc hmod
      refine (hr.decrypted_only_text_iff hc hmod).mp fun y hy => ?_
      obtain ⟨x, hx⟩ := honly y (hr.deCryptOnce_eq_ok_iff.mpr ⟨hc, hmod, hy⟩)
      exact ⟨x, (hr.enCryptOnce_eq_ok_iff hc hmod).mp hx⟩
    · intro hshort y hdec
      obtain ⟨hc, hmod, hy⟩ := hr.deCryptOnce_eq_ok_iff.mp hdec
      obtain ⟨x, hx⟩ := (hr.decrypted_only_text_iff hc hmod).mpr (hshort hc hmod) y hy
      exact ⟨x, (hr.enCryptOnce_eq_ok_iff hc hmod).mpr hx⟩

end Once

/-- The text of a key. -/
def keyBytes (key : String) : List UInt8 := key.toList.map fun c => UInt8.ofNat c.toNat

/-- The globals before any call. -/
def initial : Globals := ⟨keyBytes "56pol1234kij78hu", keyBytes "093po54iuy876tre", none⟩

/-- The permutation that changes nothing. -/
def plain : BlockCipher blockSize :=
  ⟨id, id, fun _ h => h, fun _ h => h, fun _ _ => rfl, fun _ _ => rfl⟩

theorem initial_ready : Ready (fun _ => some plain) initial plain := ⟨rfl, by decide +kernel⟩

/-- After an `Init` that keeps the default key, a text of five bytes comes back. -/
theorem five_bytes_return : let g := (init (fun _ => some plain) initial [] []).1
    ∃ c, (enCryptOnce (fun _ => some plain) g [1, 2, 3, 4, 5]).1 = .ok c ∧
      (deCryptOnce (fun _ => some plain)
        (enCryptOnce (fun _ => some plain) g [1, 2, 3, 4, 5]).2 c).1 = .ok [1, 2, 3, 4, 5] := by
  intro g
  have hinit : (init (fun _ => some plain) initial [] []).2 = none := by decide +kernel
  obtain ⟨block, hready⟩ := ready_of_init hinit
  obtain ⟨c, henc, hdec⟩ := (crypt_once_inverse_iff hready).1 [1, 2, 3, 4, 5]
  exact ⟨c, henc, hdec.mpr (by decide)⟩

/-- Two blocks of bytes that all hold 32. -/
def longPadding : List UInt8 := List.replicate 32 32

/-- The empty text is encrypted to nothing, which is not decrypted. Two blocks that hold
32 in every byte pass for padding of the empty text, and so does their ciphertext, which
no text is encrypted to. -/
theorem empty_text_and_long_padding :
    (enCryptOnce (fun _ => some plain) initial []).1 = .ok [] ∧
    (deCryptOnce (fun _ => some plain) initial []).1 =
      .error (.err "invalid ciphertext length") ∧
    pkcs7UnPadding longPadding = .ok [] ∧ (∀ x, pkcs7Padding x blockSize ≠ longPadding) ∧
    ∃ c, (deCryptOnce (fun _ => some plain) initial c).1 = .ok [] ∧
      ∀ x, (enCryptOnce (fun _ => some plain) initial x).1 ≠ .ok c := by
  have hunpad : pkcs7UnPadding longPadding = .ok [] :=
    pkcs7UnPadding_eq_ok_iff.mpr ⟨32, by decide, rfl⟩
  have hiv := initial_ready.iv
  have hlen : longPadding.length = 2 * blockSize := by decide
  have hclen := length_cbcEncrypt (c := plain) hiv hlen
  have hdec : (deCryptOnce (fun _ => some plain) initial
      (cbcEncrypt plain initial.aesIV 2 longPadding)).1 = .ok [] := by
    rw [initial_ready.deCryptOnce_eq_ok_iff, hclen, Nat.mul_div_cancel _ (by decide),
      cbcDecrypt_cbcEncrypt hiv hlen]
    refine ⟨?_, by decide, hunpad⟩
    intro hnil
    rw [hnil] at hclen
    cases hclen
  refine ⟨rfl, rfl, hunpad, ?_, _, hdec, ?_⟩
  · intro x hx
    obtain rfl : x = [] :=
      Except.ok.inj ((pkcs7UnPadding_pkcs7Padding x).symm.trans (by rw [hx, hunpad]))
    exact absurd hx (by decide)
  · intro x henc
    by_cases hx : x = []
    · subst hx
      have hnil := Except.ok.inj henc
      rw [← hnil] at hclen
      cases hclen
    · have hdec' := initial_ready.deCryptOnce_enCryptOnce hx henc initial_ready rfl
      exact hx (Except.ok.inj (hdec'.symm.trans hdec))

end GameCluster.Crypt
