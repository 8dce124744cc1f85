import GameCluster.Lib.Decimal

/-!
Reading decimal numbers at 64 bits with a loop that stops at the first character that is
no digit and at the first digit that makes the number too large. The loop is needed for
the value that comes with an error; without one it returns the number that is denoted and
fits, as `parseUint` and `parseInt` do.
-/

namespace GameCluster.Lib

inductive NumError where
  | notANumber
  | outOfRange
  deriving DecidableEq, Repr

/-- The loop of `strconv.ParseUint` with base 10 and 64 bits, after digits of value `n`. -/
def parseUintLoop : ℕ → List Char → ℕ × Option NumError
  | n, [] => (n, none)
  | n, c :: cs =>
    if c.isDigit then
      -- from here on `n * 10` overflows
      if (2 ^ 64 - 1) / 10 + 1 ≤ n then (2 ^ 64 - 1, some .outOfRange)
      else
        let n1 := 10 * n + (c.toNat - '0'.toNat)
        if 2 ^ 64 ≤ n1 then (2 ^ 64 - 1, some .outOfRange) else parseUintLoop n1 cs
    else (0, some .notANumber)

/-- `strconv.ParseUint(s, 10, 64)` -/
def parseUint64 (cs : List Char) : ℕ × Option NumError :=
  if cs = [] then (0, some .notANumber) else parseUintLoop 0 cs

/-- `strconv.ParseInt(s, 10, 64)` after the sign. -/
def parseSigned (neg : Bool) (digits : List Char) : ℤ × Option NumError :=
  let (un, err) := parseUint64 digits
  if err = some .notANumber then (0, err)
  else if neg = false ∧ 2 ^ 63 ≤ un then (2 ^ 63 - 1, some .outOfRange)
  else if neg = true ∧ 2 ^ 63 < un then (-2 ^ 63, some .outOfRange)
  else (withSign neg un, none)

/-- `strconv.ParseInt(s, 10, 64)` -/
def parseInt64 : List Char → ℤ × Option NumError
  | [] => (0, some .notANumber)
  | '+' :: cs => parseSigned false cs
  | '-' :: cs => parseSigned true cs
  | cs => parseSigned false cs

section Uint

variable {cs : List Char} {n v : ℕ}

theorem le_ofDigitChars (cs : List Char) (n : ℕ) : n ≤ Nat.ofDigitChars 10 cs n := by
  induction cs generalizing n with
  | nil => exact Nat.le_refl n
  | cons c cs ih =>
    rw [Nat.ofDigitChars_cons]
    exact le_trans (by omega) (ih _)

/-- The loop returns the value of the digits unless it gets too large, in which case it
stops early. -/
theorem parseUintLoop_of_digits (hdigits : cs.all Char.isDigit = true) (hn : n < 2 ^ 64) :
    parseUintLoop n cs =
      if Nat.ofDigitChars 10 cs n < 2 ^ 64 then (Nat.ofDigitChars 10 cs n, none)
      else (2 ^ 64 - 1, some .outOfRange) := by
  induction cs generalizing n with
  | nil => rw [Nat.ofDigitChars_nil, if_pos hn, parseUintLoop]
  | cons c cs ih =>
    rw [List.all_cons, Bool.and_eq_true] at hdigits
    rw [parseUintLoop, if_pos hdigits.1, Nat.ofDigitChars_cons]
    have hle := le_ofDigitChars cs (10 * n + (c.toNat - '0'.toNat))
    by_cases hcut : (2 ^ 64 - 1) / 10 + 1 ≤ n
    · rw [if_pos hcut, if_neg (by omega)]
    · rw [if_neg hcut]
      by_cases hlarge : 2 ^ 64 ≤ 10 * n + (c.toNat - '0'.toNat)
      · have hvalue : ¬Nat.ofDigitChars 10 cs (10 * n + (c.toNat - '0'.toNat)) < 2 ^ 64 := by
          omega
        simp only [if_pos hlarge, if_neg hvalue]
      · simp only [if_neg hlarge]
        exact ih hdigits.2 (by omega)

theorem parseUintLoop_of_not_digits (hdigits : ¬cs.all Char.isDigit = true) (n : ℕ) :
    (parseUintLoop n cs).2 ≠ none := by
  induction cs generalizing n with
  | nil => simp at hdigits
  | cons c cs ih =>
    rw [parseUintLoop]
    by_cases hc : c.isDigit
    · have hrest : ¬cs.all Char.isDigit = true := by simpa [hc] using hdigits
      rw [if_pos hc]
      split
      · simp
      · simp only
        split
        · simp
        · exact ih hrest _
    · simp [hc]

/-- A number that is too large comes back as the largest one. -/
theorem fst_parseUintLoop (h : (parseUintLoop n cs).2 = some .outOfRange) :
    (parseUintLoop n cs).1 = 2 ^ 64 - 1 := by
  fun_induction parseUintLoop n cs with
  | case1 n => cases h
  | case2 n c cs hc hcut | case3 n c cs hc hcut n1 hlarge => rfl
  | case4 n c cs hc hcut n1 hlarge ih => exact ih h
  | case5 n c cs hc => cases h

theorem fst_parseUint64 (h : (parseUint64 cs).2 = some .outOfRange) :
    (parseUint64 cs).1 = 2 ^ 64 - 1 := by
  unfold parseUint64 at h ⊢
  split at h
  · cases h
  · rename_i hne
    rw [if_neg hne]
    exact fst_parseUintLoop h

theorem parseUint64_of_decimal (h : decimalNat cs = some n) :
    parseUint64 cs = if n < 2 ^ 64 then (n, none) else (2 ^ 64 - 1, some .outOfRange) := by
  obtain ⟨⟨hne, hdigits⟩, hn⟩ := Option.ite_none_right_eq_some.mp h
  obtain rfl := Option.some.inj hn
  rw [parseUint64, if_neg hne, parseUintLoop_of_digits hdigits (by decide)]

theorem parseUint64_of_none (h : decimalNat cs = none) : (parseUint64 cs).2 ≠ none := by
  rw [parseUint64]
  by_cases hne : cs = []
  · simp [hne]
  · have hdigits : ¬cs.all Char.isDigit = true := fun hd => by simp [decimalNat, hne, hd] at h
    rw [if_neg hne]
    exact parseUintLoop_of_not_digits hdigits 0

/-- A number is read if it is denoted and has at most 64 bits. -/
theorem parseUint64_eq_iff : parseUint64 cs = (n, none) ↔ decimalNat cs = some n ∧ n < 2 ^ 64 := by
  constructor
  · intro h
    cases hdec : decimalNat cs with
    | none => exact absurd (congrArg Prod.snd h) (parseUint64_of_none hdec)
    | some m =>
      rw [parseUint64_of_decimal hdec] at h
      split at h
      · rename_i hm
        obtain rfl := congrArg Prod.fst h
        exact ⟨rfl, hm⟩
      · simp at h
  · rintro ⟨hdec, hn⟩
    rw [parseUint64_of_decimal hdec, if_pos hn]

end Uint

section Int

variable {cs : List Char} {z : ℤ} {neg : Bool}

/-- The error of a number that is too large as such is found again by the checks for the
sign, since the value that comes with it is the largest one. -/
theorem parseSigned_of_error (h : (parseUint64 cs).2 ≠ none) : (parseSigned neg cs).2 ≠ none := by
  have hmax : (parseUint64 cs).2 = some .outOfRange → (parseUint64 cs).1 = 2 ^ 64 - 1 :=
    fst_parseUint64
  rw [parseSigned]
  generalize parseUint64 cs = out at h hmax
  obtain ⟨un, err⟩ := out
  match err with
  | none => exact absurd rfl h
  | some .notANumber => simp
  | some .outOfRange =>
    obtain rfl := hmax rfl
    cases neg <;> decide

theorem parseSigned_eq_iff {n : ℕ} (hdec : decimalNat cs = some n) :
    parseSigned neg cs = (z, none) ↔ withSign neg n = z ∧ -2 ^ 63 ≤ z ∧ z < 2 ^ 63 := by
  have hread := parseUint64_of_decimal hdec
  by_cases hn : n < 2 ^ 64
  · rw [if_pos hn] at hread
    simp only [parseSigned, hread, reduceCtorEq, if_false]
    cases neg with
    | false =>
      simp only [withSign, true_and, false_and, Bool.false_eq_true, if_false]
      split
      · simp only [Prod.mk.injEq, reduceCtorEq, and_false, false_iff]
        omega
      · simp only [Prod.mk.injEq, and_true]
        omega
    | true =>
      simp only [withSign, true_and, false_and, reduceCtorEq, if_false, if_true]
      split
      · simp only [Prod.mk.injEq, reduceCtorEq, and_false, false_iff]
        omega
      · simp only [Prod.mk.injEq, and_true]
        omega
  · rw [if_neg hn] at hread
    have herr : (parseSigned neg cs).2 ≠ none := parseSigned_of_error (by simp [hread])
    constructor
    · intro h
      exact absurd (congrArg Prod.snd h) herr
    · rintro ⟨rfl, hlow, hhigh⟩
      rw [withSign] at hlow hhigh
      split at hlow
      · omega
      · rename_i hneg
        rw [if_neg hneg] at hhigh
        omega

/-- What is read with a sign is what is denoted with it, as long as that is an `int64`. -/
theorem parseSigned_iff_denoted :
    parseSigned neg cs = (z, none) ↔
      (decimalNat cs).map (withSign neg) = some z ∧ -2 ^ 63 ≤ z ∧ z < 2 ^ 63 := by
  cases hdec : decimalNat cs with
  | none =>
    have herr : (parseSigned neg cs).2 ≠ none := parseSigned_of_error (parseUint64_of_none hdec)
    constructor
    · intro h
      exact absurd (congrArg Prod.snd h) herr
    · rintro ⟨hdenoted, -⟩
      cases hdenoted
  | some n => rw [parseSigned_eq_iff hdec, Option.map_some, Option.some.injEq]

/-- A number is read if it is denoted and an `int64`. -/
theorem parseInt64_eq_iff :
    parseInt64 cs = (z, none) ↔ decimalInt cs = some z ∧ -2 ^ 63 ≤ z ∧ z < 2 ^ 63 := by
  match cs with
  | [] => simp [parseInt64, decimalInt, decimalNat]
  | c :: cs =>
    by_cases hplus : c = '+'
    · subst hplus
      exact parseSigned_iff_denoted
    · by_cases hminus : c = '-'
      · subst hminus
        exact parseSigned_iff_denoted
      · have hint : parseInt64 (c :: cs) = parseSigned false (c :: cs) := by
          simp [parseInt64, hplus, hminus]
        have hdec : decimalInt (c :: cs) = (decimalNat (c :: cs)).map (withSign false) := by
          simp [decimalInt, hplus, hminus]
        rw [hint, hdec]
        exact parseSigned_iff_denoted

example : parseInt64 "-9223372036854775808".toList = (-2 ^ 63, none) ∧
    parseInt64 "9223372036854775808".toList = (2 ^ 63 - 1, some .outOfRange) ∧
    parseInt64 "99999999999999999999x".toList = (2 ^ 63 - 1, some .outOfRange) ∧
    parseInt64 "1x".toList = (0, some .notANumber) := by
  decide +kernel

end Int

end GameCluster.Lib
