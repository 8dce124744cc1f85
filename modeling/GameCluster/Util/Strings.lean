import GameCluster.Lib.Integer
import GameCluster.Lib.Strconv

/-!
The conversions between integers and texts of `pkg/util/strings.go`, at every integer
type. All of them go through 64 bits: a text is read as an `int64` or `uint64`, and what
was read is then converted to the type, which cuts off the bits that do not fit.
-/

namespace GameCluster.Strings

open Lib

section Source

variable (T : IntType)

def iToString (n : T.Value) : String :=
  if T.lt n 0 then (T.toBits64 n).toInt.repr else (T.toBits64 n).toNat.repr

def parseInt (s : String) : T.Value × Option NumError :=
  let (n, err) := parseInt64 s.toList
  (T.ofBits64 (BitVec.ofInt 64 n), err)

def parseUint (s : String) : T.Value × Option NumError :=
  let (n, err) := parseUint64 s.toList
  (T.ofBits64 (BitVec.ofNat 64 n), err)

/-- The first of the values given as default, or 0. -/
def defaultVal (dflt : List T.Value) : T.Value := dflt.headD 0

/-- `ParseIntDef` and `ParseUintDef` by the way in which they read a text. -/
def parseDef (read : String → T.Value × Option NumError) (s : String) (dflt : List T.Value) :
    T.Value :=
  if s = "" then defaultVal T dflt
  else
    let (n, err) := read s
    if err ≠ none then defaultVal T dflt else n

def parseIntDef (s : String) (dflt : List T.Value) : T.Value := parseDef T (parseInt T) s dflt

def parseUintDef (s : String) (dflt : List T.Value) : T.Value := parseDef T (parseUint T) s dflt

end Source

variable {T : IntType}

/-! ### Through 64 bits and back -/

theorem minVal_of_signed (hsigned : T.signed = true) : -2 ^ 63 ≤ T.minVal ∧ T.maxVal < 2 ^ 63 := by
  have hpow := IntType.two_pow_bits_le (T := T)
  have hhalf := IntType.two_pow_bits (T := T)
  rw [IntType.minVal, IntType.maxVal, if_pos hsigned, if_pos hsigned]
  omega

theorem minVal_of_unsigned (hsigned : T.signed = false) : T.minVal = 0 ∧ T.maxVal < 2 ^ 64 := by
  have hpow := IntType.two_pow_bits_le (T := T)
  rw [IntType.minVal, IntType.maxVal, hsigned]
  simp only [Bool.false_eq_true, if_false, true_and]
  omega

/-- Converting a number to the type keeps it exactly if it is in the range of the type. -/
theorem toInt_ofInt64_iff (z : ℤ) :
    T.toInt (T.ofBits64 (BitVec.ofInt 64 z)) = z ↔ T.minVal ≤ z ∧ z ≤ T.maxVal := by
  constructor
  · intro h
    rw [← h]
    exact ⟨IntType.minVal_le _, IntType.le_maxVal _⟩
  · rintro ⟨hlow, hhigh⟩
    refine IntType.toInt_ofBits64 hlow hhigh ?_
    have hmod : ((BitVec.ofInt 64 z).toNat : ℤ) ≡ z [ZMOD 2 ^ 64] := by
      rw [BitVec.toNat_ofInt, Int.ModEq]
      omega
    exact hmod.of_dvd IntType.two_pow_bits_dvd

theorem toInt_zero : T.toInt 0 = 0 := by
  rw [IntType.toInt]
  split <;> simp

theorem iToString_of_neg {n : T.Value} (h : T.toInt n < 0) : iToString T n = (T.toInt n).repr := by
  have hlt : T.lt n 0 = true := IntType.lt_iff.mpr (by rwa [toInt_zero])
  have hsigned : T.signed = true := by
    by_contra hunsigned
    rw [IntType.toInt, if_neg hunsigned] at h
    omega
  rw [iToString, if_pos hlt, IntType.toBits64, if_pos hsigned, IntType.toInt, if_pos hsigned,
    BitVec.toInt_signExtend_of_le IntType.bits_le]

theorem iToString_of_nonneg {n : T.Value} (h : 0 ≤ T.toInt n) :
    iToString T n = (T.toInt n).toNat.repr := by
  have hlt : ¬T.lt n 0 = true := fun hlt => by
    have := IntType.lt_iff.mp hlt
    rw [toInt_zero] at this
    omega
  have hmod := T.toBits64_modEq n
  have hisLt := (T.toBits64 n).isLt
  have hbound : T.toInt n < 2 ^ 64 := by
    have hle := IntType.le_maxVal n
    cases hsigned : T.signed with
    | true =>
      have := minVal_of_signed hsigned
      omega
    | false =>
      have := minVal_of_unsigned hsigned
      omega
  rw [Int.ModEq] at hmod
  rw [iToString, if_neg hlt]
  congr 1
  omega

theorem decimalInt_iToString (n : T.Value) :
    decimalInt (iToString T n).toList = some (T.toInt n) := by
  by_cases h : T.toInt n < 0
  · rw [iToString_of_neg h]
    exact decimalInt_repr _
  · rw [iToString_of_nonneg (by omega), decimalInt_of_decimalNat (decimalNat_repr _)]
    congr 1
    omega

/-! ### What is read -/

/-- The number is not a value of the type. -/
def Outside (T : IntType) (z : ℤ) : Prop := z < T.minVal ∨ T.maxVal < z

/-- What was read without an error is what the text denotes, and a text that denotes no
value of the type gives an error. -/
structure Exact (T : IntType) (s : String) (out : T.Value × Option NumError) : Prop where
  value : out.2 = none → decimalInt s.toList = some (T.toInt out.1)
  range : ∀ z, decimalInt s.toList = some z → Outside T z → out.2 ≠ none

/-- The same for a result that is the default in place of an error. -/
structure ExactDef (T : IntType) (s : String) (out dflt : T.Value) : Prop where
  value : out = dflt ∨ decimalInt s.toList = some (T.toInt out)
  range : ∀ z, decimalInt s.toList = some z → Outside T z → out = dflt

variable {s : String}

theorem Exact.withDefault {out : T.Value × Option NumError} (h : Exact T s out) (dflt : T.Value) :
    ExactDef T s (if out.2 = none then out.1 else dflt) dflt := by
  by_cases herr : out.2 = none
  · rw [if_pos herr]
    exact ⟨Or.inr (h.value herr), fun z hz hout => absurd herr (h.range z hz hout)⟩
  · rw [if_neg herr]
    exact ⟨Or.inl rfl, fun _ _ _ => rfl⟩

theorem parseDef_eq {read : String → T.Value × Option NumError} (hempty : (read "").2 ≠ none)
    (s : String) (dflt : List T.Value) :
    parseDef T read s dflt = if (read s).2 = none then (read s).1 else defaultVal T dflt := by
  rw [parseDef]
  by_cases hs : s = ""
  · subst hs
    rw [if_pos rfl, if_neg hempty]
  · rw [if_neg hs]
    by_cases herr : (read s).2 = none <;> simp [herr]

theorem exactDef_parseInt (h : Exact T s (parseInt T s)) (dflt : List T.Value) :
    ExactDef T s (parseIntDef T s dflt) (defaultVal T dflt) := by
  have hempty : (parseInt T "").2 ≠ none := by simp [parseInt, parseInt64]
  rw [parseIntDef, parseDef_eq hempty]
  exact h.withDefault _

theorem exactDef_parseUint (h : Exact T s (parseUint T s)) (dflt : List T.Value) :
    ExactDef T s (parseUintDef T s dflt) (defaultVal T dflt) := by
  have hempty : (parseUint T "").2 ≠ none := by simp [parseUint, parseUint64]
  rw [parseUintDef, parseDef_eq hempty]
  exact h.withDefault _

/-- A signed value is read without an error if the text denotes an `int64`. -/
theorem parseInt_of_denoted {z : ℤ} (hz : decimalInt s.toList = some z) (hlow : -2 ^ 63 ≤ z)
    (hhigh : z < 2 ^ 63) :
    parseInt T s = (T.ofBits64 (BitVec.ofInt 64 z), none) := by
  rw [parseInt, parseInt64_eq_iff.mpr ⟨hz, hlow, hhigh⟩]

theorem parseUint_of_denoted {n : ℕ} (hn : decimalNat s.toList = some n) (hlt : n < 2 ^ 64) :
    parseUint T s = (T.ofBits64 (BitVec.ofInt 64 n), none) := by
  rw [parseUint, parseUint64_eq_iff.mpr ⟨hn, hlt⟩, BitVec.ofInt_natCast]

theorem denoted_of_parseInt (h : (parseInt T s).2 = none) :
    ∃ z, decimalInt s.toList = some z ∧ -2 ^ 63 ≤ z ∧ z < 2 ^ 63 := by
  have hread : parseInt64 s.toList = ((parseInt64 s.toList).1, none) := Prod.ext rfl h
  exact ⟨_, parseInt64_eq_iff.mp hread⟩

theorem denoted_of_parseUint (h : (parseUint T s).2 = none) :
    ∃ n, decimalNat s.toList = some n ∧ n < 2 ^ 64 := by
  have hread : parseUint64 s.toList = ((parseUint64 s.toList).1, none) := Prod.ext rfl h
  exact ⟨_, parseUint64_eq_iff.mp hread⟩

theorem exact_parseInt_iff (s : String) :
    Exact T s (parseInt T s) ↔
      ∀ z, decimalInt s.toList = some z → -2 ^ 63 ≤ z → z < 2 ^ 63 → ¬Outside T z := by
  constructor
  · intro h z hz hlow hhigh hout
    refine h.range z hz hout ?_
    rw [parseInt_of_denoted hz hlow hhigh]
  · intro h
    refine ⟨fun herr => ?_, fun z hz hout herr => ?_⟩
    · obtain ⟨z, hz, hlow, hhigh⟩ := denoted_of_parseInt herr
      have hin := h z hz hlow hhigh
      rw [Outside] at hin
      rw [parseInt_of_denoted hz hlow hhigh, (toInt_ofInt64_iff z).mpr (by omega), hz]
    · obtain ⟨y, hy, hlow, hhigh⟩ := denoted_of_parseInt herr
      obtain rfl : z = y := Option.some.inj (hz.symm.trans hy)
      exact h z hz hlow hhigh hout

theorem exact_parseUint_iff (s : String) :
    Exact T s (parseUint T s) ↔
      ∀ n : ℕ, decimalNat s.toList = some n → n < 2 ^ 64 → ¬Outside T n := by
  constructor
  · intro h n hn hlt hout
    refine h.range n (decimalInt_of_decimalNat hn) hout ?_
    rw [parseUint_of_denoted hn hlt]
  · intro h
    refine ⟨fun herr => ?_, fun z hz hout herr => ?_⟩
    · obtain ⟨n, hn, hlt⟩ := denoted_of_parseUint herr
      have hin := h n hn hlt
      rw [Outside] at hin
      rw [parseUint_of_denoted hn hlt, (toInt_ofInt64_iff (n : ℤ)).mpr (by omega),
        decimalInt_of_decimalNat hn]
    · obtain ⟨n, hn, hlt⟩ := denoted_of_parseUint herr
      obtain rfl : (n : ℤ) = z := Option.some.inj ((decimalInt_of_decimalNat hn).symm.trans hz)
      exact h n hn hlt hout

/-! ### Writing and reading back -/

theorem parseInt_iToString (hsigned : T.signed = true) (n : T.Value) :
    parseInt T (iToString T n) = (n, none) := by
  have hbounds := minVal_of_signed hsigned
  have hlow := IntType.minVal_le n
  have hhigh := IntType.le_maxVal n
  rw [parseInt_of_denoted (decimalInt_iToString n) (by omega) (by omega)]
  refine Prod.ext (IntType.toInt_inj.mp ?_) rfl
  exact (toInt_ofInt64_iff _).mpr ⟨hlow, hhigh⟩

theorem parseUint_iToString (hsigned : T.signed = false) (n : T.Value) :
    parseUint T (iToString T n) = (n, none) := by
  have hbounds := minVal_of_unsigned hsigned
  have hlow := IntType.minVal_le n
  have hhigh := IntType.le_maxVal n
  have hdec : decimalNat (iToString T n).toList = some (T.toInt n).toNat := by
    rw [iToString_of_nonneg (by omega)]
    exact decimalNat_repr _
  have hcast : ((T.toInt n).toNat : ℤ) = T.toInt n := Int.toNat_of_nonneg (by omega)
  rw [parseUint_of_denoted hdec (by omega), hcast]
  refine Prod.ext (IntType.toInt_inj.mp ?_) rfl
  exact (toInt_ofInt64_iff _).mpr ⟨hlow, hhigh⟩

/-- A number is read back from its text, and a text is parsed into the number it is, with
or without a default, just when it is not a number of 64 bits that the type cannot
hold. -/
theorem parsed_values_exact_iff (T : IntType) (s : String) :
    (T.signed = true → (∀ n : T.Value, parseInt T (iToString T n) = (n, none)) ∧
      ((Exact T s (parseInt T s) ∧
          ∀ dflt, ExactDef T s (parseIntDef T s dflt) (defaultVal T dflt)) ↔
        ∀ z, decimalInt s.toList = some z → -2 ^ 63 ≤ z → z < 2 ^ 63 → ¬Outside T z)) ∧
    (T.signed = false → (∀ n : T.Value, parseUint T (iToString T n) = (n, none)) ∧
      ((Exact T s (parseUint T s) ∧
          ∀ dflt, ExactDef T s (parseUintDef T s dflt) (defaultVal T dflt)) ↔
        ∀ n : ℕ, decimalNat s.toList = some n → n < 2 ^ 64 → ¬Outside T n)) := by
  refine ⟨fun hsigned => ⟨parseInt_iToString hsigned, ?_⟩,
    fun hsigned => ⟨parseUint_iToString hsigned, ?_⟩⟩
  · rw [← exact_parseInt_iff]
    exact ⟨And.left, fun h => ⟨h, exactDef_parseInt h⟩⟩
  · rw [← exact_parseUint_iff]
    exact ⟨And.left, fun h => ⟨h, exactDef_parseUint h⟩⟩

/-- In `int16` the text 300 is read as 300. -/
theorem int16_reads_300 : Exact ⟨.w16, true⟩ "300" (parseInt ⟨.w16, true⟩ "300") := by
  refine (((parsed_values_exact_iff ⟨.w16, true⟩ "300").1 rfl).2.mpr ?_).1
  intro z hz _ _
  obtain rfl : 300 = z := Option.some.inj hz
  rintro (hlow | hhigh)
  · exact absurd hlow (by decide)
  · exact absurd hhigh (by decide)

/-- In `int8` it is read as 44 and in `uint8` 256 as 0, without an error and in place of
the default. -/
theorem int8_reads_300_as_44 :
    decimalInt "300".toList = some 300 ∧ Outside ⟨.w8, true⟩ 300 ∧
      parseInt ⟨.w8, true⟩ "300" = (44, none) ∧
      parseIntDef ⟨.w8, true⟩ "300" [7] = 44 ∧
      parseUint ⟨.w8, false⟩ "256" = (0, none) ∧
      parseUintDef ⟨.w8, false⟩ "256" [7] = 0 := by
  refine ⟨by decide +kernel, Or.inr (by decide), by decide +kernel, by decide +kernel,
    by decide +kernel, by decide +kernel⟩

end GameCluster.Strings
