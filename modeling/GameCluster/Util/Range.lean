import GameCluster.Lib.Draw
import GameCluster.Lib.Integer
import Mathlib.Data.Set.Function
import Mathlib.Order.Interval.Set.Defs

/-!
`RandRange` and `RandRangeInc` of `pkg/util/rand.go`, at every integer type. Both take
the difference of their arguments and add the draw to the smaller one in `uint64`, so a
negative bound is a number close to `2 ^ 64` and the sums wrap around.
-/

namespace GameCluster.Range

open Lib

variable (T : IntType)

/-- The smaller and the larger argument. -/
def ordered (min max : T.Value) : T.Value × T.Value :=
  if T.lt max min then (max, min) else (min, max)

def randRange (min max : T.Value) : Draw T.Value :=
  if min = max then .done min
  else
    let (min, max) := ordered T min max
    let diff := T.toBits64 max - T.toBits64 min
    .below diff.toNat fun n => T.ofBits64 (T.toBits64 min + BitVec.ofNat 64 n)

def randRangeInc (min max : T.Value) : Draw T.Value :=
  if min = max then .done min
  else
    let (min, max) := ordered T min max
    let diff := T.toBits64 max - T.toBits64 min
    if diff = BitVec.allOnes 64 then
      .below (2 ^ 64) fun n => T.ofBits64 (BitVec.ofNat 64 n)
    else
      .below (diff + 1).toNat fun n => T.ofBits64 (T.toBits64 min + BitVec.ofNat 64 n)

variable {T}

/-! ### Sums and differences modulo `2 ^ 64` -/

theorem toNat_sub_modEq (a b : BitVec 64) :
    ((a - b).toNat : ℤ) ≡ a.toNat - b.toNat [ZMOD 2 ^ 64] := by
  have hb := b.isLt
  rw [BitVec.toNat_sub, Int.ModEq]
  omega

theorem toNat_add_ofNat_modEq (a : BitVec 64) (n : ℕ) :
    ((a + BitVec.ofNat 64 n).toNat : ℤ) ≡ a.toNat + n [ZMOD 2 ^ 64] := by
  rw [BitVec.toNat_add, BitVec.toNat_ofNat, Int.ModEq]
  omega

/-- The difference in `uint64` is the difference of the integers. -/
theorem toNat_diff {lo hi : T.Value} (h : T.toInt lo ≤ T.toInt hi) :
    ((T.toBits64 hi - T.toBits64 lo).toNat : ℤ) = T.toInt hi - T.toInt lo := by
  have hmod : ((T.toBits64 hi - T.toBits64 lo).toNat : ℤ) ≡ T.toInt hi - T.toInt lo [ZMOD 2 ^ 64] :=
    (toNat_sub_modEq _ _).trans ((T.toBits64_modEq hi).sub (T.toBits64_modEq lo))
  have hlow := IntType.minVal_le lo
  have hhigh := IntType.le_maxVal hi
  have hspan := IntType.maxVal_sub_minVal (T := T)
  have hle := IntType.two_pow_bits_le (T := T)
  have hlt := (T.toBits64 hi - T.toBits64 lo).isLt
  rw [Int.ModEq] at hmod
  omega

variable {lo min max : T.Value}

/-- Adding a draw in `uint64` adds it to the integer, as long as the sum is a value of
the type. -/
theorem toInt_add_draw {n : ℕ} (h : T.toInt lo + n ≤ T.maxVal) :
    T.toInt (T.ofBits64 (T.toBits64 lo + BitVec.ofNat 64 n)) = T.toInt lo + n := by
  have hlow := IntType.minVal_le lo
  refine IntType.toInt_ofBits64 (by omega) h ?_
  refine ((toNat_add_ofNat_modEq _ n).of_dvd IntType.two_pow_bits_dvd).trans ?_
  exact ((T.toBits64_modEq lo).of_dvd IntType.two_pow_bits_dvd).add_right _

/-- Draws that are added to a lower bound are as many values in a row. -/
theorem bijOn_of_add (lo : ℤ) (bound : ℕ) {next : ℕ → T.Value}
    (h : ∀ n < bound, T.toInt (next n) = lo + n) :
    Set.BijOn next (Set.Iio bound) {v | lo ≤ T.toInt v ∧ T.toInt v < lo + bound} := by
  refine ⟨?_, ?_, ?_⟩
  · intro n hn
    have hn : n < bound := hn
    simp only [Set.mem_ofPred_eq, h n hn]
    omega
  · intro m hm n hn heq
    have hint := congrArg T.toInt heq
    rw [h m hm, h n hn] at hint
    omega
  · rintro v ⟨hlow, hhigh⟩
    refine ⟨(T.toInt v - lo).toNat, ?_, ?_⟩
    · simp only [Set.mem_Iio]
      omega
    · rw [← IntType.toInt_inj, h _ (by omega)]
      omega

/-- At 64 bits every draw is a value and every value is drawn. -/
theorem bijOn_of_full (h : T.bits = 64) :
    Set.BijOn (fun n => T.ofBits64 (BitVec.ofNat 64 n)) (Set.Iio (2 ^ 64)) Set.univ := by
  have hnat : ∀ n < 2 ^ 64, (T.ofBits64 (BitVec.ofNat 64 n)).toNat = n := by
    intro n hn
    rw [IntType.ofBits64, BitVec.toNat_setWidth, BitVec.toNat_ofNat, h, Nat.mod_mod,
      Nat.mod_eq_of_lt hn]
  refine ⟨fun n _ => Set.mem_univ _, ?_, ?_⟩
  · intro m hm n hn heq
    have heq := congrArg BitVec.toNat heq
    rwa [hnat m hm, hnat n hn] at heq
  · intro v _
    have hlt : v.toNat < 2 ^ 64 := h ▸ v.isLt
    exact ⟨v.toNat, hlt, BitVec.eq_of_toNat_eq (hnat _ hlt)⟩

/-- The smaller argument. -/
def lower (min max : T.Value) : ℤ := Min.min (T.toInt min) (T.toInt max)

/-- The larger argument. -/
def upper (min max : T.Value) : ℤ := Max.max (T.toInt min) (T.toInt max)

/-- The arguments are swapped where needed, and their difference is taken without loss. -/
theorem exists_ordered (hne : min ≠ max) :
    ∃ lo hi, ordered T min max = (lo, hi) ∧ T.toInt lo = lower min max ∧
      T.toInt hi = upper min max ∧ lower min max < upper min max ∧
      ((T.toBits64 hi - T.toBits64 lo).toNat : ℤ) = upper min max - lower min max := by
  have hint : T.toInt min ≠ T.toInt max := fun h => hne (IntType.toInt_inj.mp h)
  rw [ordered, lower, upper]
  split
  · rename_i h
    have h := IntType.lt_iff.mp h
    have hdiff := toNat_diff (le_of_lt h)
    exact ⟨max, min, rfl, by omega, by omega, by omega, by omega⟩
  · rename_i h
    have h := mt IntType.lt_iff.mpr h
    have hdiff := toNat_diff (T := T) (Int.not_lt.mp h)
    exact ⟨min, max, rfl, by omega, by omega, by omega, by omega⟩

theorem upper_le_maxVal (min max : T.Value) : upper min max ≤ T.maxVal :=
  max_le (IntType.le_maxVal min) (IntType.le_maxVal max)

theorem minVal_le_lower (min max : T.Value) : T.minVal ≤ lower min max :=
  le_min (IntType.minVal_le min) (IntType.minVal_le max)

/-- The draws below a bound, added to the smaller argument. -/
theorem bijOn_offsets (hlo : T.toInt lo = lower min max) {bound : ℕ}
    (hbound : lower min max + bound ≤ T.maxVal + 1) :
    Set.BijOn (fun n => T.ofBits64 (T.toBits64 lo + BitVec.ofNat 64 n)) (Set.Iio bound)
      {v | lower min max ≤ T.toInt v ∧ T.toInt v < lower min max + bound} := by
  refine bijOn_of_add _ _ fun n hn => ?_
  rw [toInt_add_draw (by omega), hlo]

theorem randRange_bijOn (hne : min ≠ max) :
    ∃ next, randRange T min max = .below (upper min max - lower min max).toNat next ∧
      Set.BijOn next (Set.Iio (upper min max - lower min max).toNat)
        {v | lower min max ≤ T.toInt v ∧ T.toInt v < upper min max} := by
  obtain ⟨lo, hi, hordered, hlo, -, hlt, hdiff⟩ := exists_ordered hne
  have hmax := upper_le_maxVal min max
  rw [← hdiff, Int.toNat_natCast]
  refine ⟨fun n => T.ofBits64 (T.toBits64 lo + BitVec.ofNat 64 n), ?_, ?_⟩
  · simp only [randRange, if_neg hne, hordered]
  · have hupper : upper min max = lower min max + (T.toBits64 hi - T.toBits64 lo).toNat := by omega
    rw [hupper]
    exact bijOn_offsets hlo (by omega)

/-- Arguments that are as far apart as they can be are the bounds of a 64-bit type. -/
theorem bijOn_whole (hall : upper min max - lower min max = 2 ^ 64 - 1) :
    Set.BijOn (fun n => T.ofBits64 (BitVec.ofNat 64 n)) (Set.Iio (2 ^ 64))
      {v | lower min max ≤ T.toInt v ∧ T.toInt v ≤ upper min max} := by
  have hmax := upper_le_maxVal min max
  have hmin := minVal_le_lower min max
  have hspan := IntType.maxVal_sub_minVal (T := T)
  have hwidth := IntType.two_pow_bits_le (T := T)
  have huniv : {v : T.Value | lower min max ≤ T.toInt v ∧ T.toInt v ≤ upper min max} =
      Set.univ := by
    ext v
    have hv := IntType.minVal_le v
    have hv' := IntType.le_maxVal v
    simp only [Set.mem_ofPred_eq, Set.mem_univ, iff_true]
    omega
  have hpow : (2 : ℤ) ^ T.bits = 2 ^ 64 := by omega
  rw [huniv]
  exact bijOn_of_full (Int.pow_right_injective (by decide) hpow)

theorem toNat_add_one {x : BitVec 64} (h : x ≠ BitVec.allOnes 64) :
    (x + 1).toNat = x.toNat + 1 := by
  have hne : x.toNat ≠ 2 ^ 64 - 1 := by
    intro heq
    exact h (BitVec.eq_of_toNat_eq (by rw [heq]; rfl))
  have hlt := x.isLt
  have hone : (1 : BitVec 64).toNat = 1 := rfl
  rw [BitVec.toNat_add, hone]
  omega

/-- The bound of `RandRangeInc` is 0 in `uint64` only for the whole range of a 64-bit
type, which it treats apart. -/
theorem randRangeInc_bijOn (hne : min ≠ max) :
    ∃ next, randRangeInc T min max = .below (upper min max - lower min max + 1).toNat next ∧
      Set.BijOn next (Set.Iio (upper min max - lower min max + 1).toNat)
        {v | lower min max ≤ T.toInt v ∧ T.toInt v ≤ upper min max} := by
  obtain ⟨lo, hi, hordered, hlo, -, hlt, hdiff⟩ := exists_ordered hne
  by_cases hfull : T.toBits64 hi - T.toBits64 lo = BitVec.allOnes 64
  · have hall : upper min max - lower min max = 2 ^ 64 - 1 := by
      rw [← hdiff, hfull]
      decide
    have hbound : (upper min max - lower min max + 1).toNat = 2 ^ 64 := by omega
    rw [hbound]
    refine ⟨fun n => T.ofBits64 (BitVec.ofNat 64 n), ?_, bijOn_whole hall⟩
    simp only [randRangeInc, if_neg hne, hordered, if_pos hfull]
  · have hnext := toNat_add_one hfull
    have hmax := upper_le_maxVal min max
    have hbound : (upper min max - lower min max + 1).toNat =
        (T.toBits64 hi - T.toBits64 lo + 1).toNat := by omega
    rw [hbound]
    refine ⟨fun n => T.ofBits64 (T.toBits64 lo + BitVec.ofNat 64 n), ?_, ?_⟩
    · simp only [randRangeInc, if_neg hne, hordered, if_neg hfull]
    · have hset : {v : T.Value | lower min max ≤ T.toInt v ∧ T.toInt v ≤ upper min max} =
          {v | lower min max ≤ T.toInt v ∧
            T.toInt v < lower min max + (T.toBits64 hi - T.toBits64 lo + 1).toNat} := by
        ext v
        simp only [Set.mem_ofPred_eq]
        omega
      rw [hset]
      exact bijOn_offsets hlo (by omega)

/-- Both functions return, and for different arguments the generator's answers stand for the
numbers between them one to one, without the larger argument or with it. -/
theorem ranges_sampled_exactly (T : IntType) (min max : T.Value) :
    (randRange T min max).Always (fun _ => True) ∧
    (randRangeInc T min max).Always (fun _ => True) ∧
    (min ≠ max → ∃ next,
      randRange T min max = .below (upper min max - lower min max).toNat next ∧
      Set.BijOn next (Set.Iio (upper min max - lower min max).toNat)
        {v | lower min max ≤ T.toInt v ∧ T.toInt v < upper min max}) ∧
    (min ≠ max → ∃ next,
      randRangeInc T min max = .below (upper min max - lower min max + 1).toNat next ∧
      Set.BijOn next (Set.Iio (upper min max - lower min max + 1).toNat)
        {v | lower min max ≤ T.toInt v ∧ T.toInt v ≤ upper min max}) ∧
    (min = max → randRange T min max = .done min ∧ randRangeInc T min max = .done min) := by
  by_cases heq : min = max
  · have hrange : randRange T min max = .done min := if_pos heq
    have hinc : randRangeInc T min max = .done min := if_pos heq
    rw [hrange, hinc]
    exact ⟨trivial, trivial, fun hne => absurd heq hne, fun hne => absurd heq hne,
      fun _ => ⟨rfl, rfl⟩⟩
  · obtain ⟨lo, hi, -, -, -, hlt, -⟩ := exists_ordered heq
    obtain ⟨next, hrange, hbij⟩ := randRange_bijOn heq
    obtain ⟨next', hinc, hbij'⟩ := randRangeInc_bijOn heq
    refine ⟨?_, ?_, fun _ => ⟨next, hrange, hbij⟩, fun _ => ⟨next', hinc, hbij'⟩,
      fun h => absurd h heq⟩
    · rw [hrange]
      exact ⟨by omega, fun _ _ => trivial⟩
    · rw [hinc]
      exact ⟨by omega, fun _ _ => trivial⟩

/-- The range from 100 down to -100 in `int8`, wider than its largest value. -/
theorem int8_range_sampled :
    ∃ next, randRangeInc ⟨.w8, true⟩ 100#8 (-100#8) = .below 201 next ∧
      Set.BijOn next (Set.Iio 201) {v : BitVec 8 | -100 ≤ v.toInt ∧ v.toInt ≤ 100} := by
  have hne : 100#8 ≠ -100#8 := by decide
  exact (ranges_sampled_exactly ⟨.w8, true⟩ 100#8 (-100#8)).2.2.2.1 hne

end GameCluster.Range
