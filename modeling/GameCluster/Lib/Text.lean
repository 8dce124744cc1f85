import Mathlib.Data.List.DropRight
import Mathlib.Tactic.Common

/-!
Operations on texts as lists of characters: the place of a character, what is left without
an end, and the first letters of words in upper case. Upper case is that of ASCII; letters
beyond it stay as they are.
-/

namespace GameCluster.Lib

/-- A text, character by character. -/
abbrev Chars := List Char

instance (priority := high) decidableForallMemChars (P : Char → Prop) [DecidablePred P]
    (s : Chars) : Decidable (∀ c ∈ s, P c) :=
  List.decidableBAll P s

variable {s t : Chars} {c : Char}

/-- The place of the first `c`. -/
def index (c : Char) (s : Chars) : Option ℕ := s.findIdx? (· == c)

/-- The text without the longest end all of whose characters are in `cutset`. -/
def trimRight (cutset s : Chars) : Chars := s.rdropWhile (cutset.contains ·)

/-- The text without `suffix` if it ends in it. -/
def trimSuffix (suffix s : Chars) : Chars :=
  if suffix.isSuffixOf s then s.take (s.length - suffix.length) else s

/-- No letter, digit or underscore. -/
def isSeparator (c : Char) : Bool := c.toNat < 128 && !(c.isAlphanum || c == '_')

/-- The rest of a text after the character `prev`, with words capitalised. -/
def titleFrom (prev : Char) : Chars → Chars
  | [] => []
  | c :: cs => (if isSeparator prev then c.toUpper else c) :: titleFrom c cs

/-- The text with every word capitalised. -/
def title (s : Chars) : Chars := titleFrom ' ' s

/-- A word with its first letter in upper case. -/
def capitalize : Chars → Chars
  | [] => []
  | c :: cs => c.toUpper :: cs

/-- The text between two quotes. -/
def quote (s : Chars) : Chars := '"' :: (s ++ ['"'])

/-- White space between the tokens of a language. -/
def isSpace (c : Char) : Bool := c == ' ' || c == '\t' || c == '\r' || c == '\n'

/-! ### Letters -/

theorem forall_ascii {P : Char → Prop} (h : ∀ n < 128, P (Char.ofNat n)) (hc : c.toNat < 128) :
    P c := by
  have hP := h c.toNat hc
  rwa [Char.ofNat_toNat] at hP

theorem isLower_iff : c.isLower = true ↔ 'a'.val ≤ c.val ∧ c.val ≤ 'z'.val := by
  show (decide ('a'.val ≤ c.val) && decide (c.val ≤ 'z'.val)) = true ↔ _
  rw [Bool.and_eq_true, decide_eq_true_eq, decide_eq_true_eq]

theorem toNat_lt_of_isLower (hc : c.isLower = true) : c.toNat < 128 := by
  have hle : c.toNat ≤ 'z'.toNat := (isLower_iff.mp hc).2
  exact lt_of_le_of_lt hle (by decide)

theorem toUpper_of_not_isLower (hc : c.isLower = false) : c.toUpper = c := by
  refine dif_neg fun hlower => ?_
  rw [isLower_iff.mpr hlower] at hc
  cases hc

theorem isUpper_toUpper (hc : c.isLower = true) : c.toUpper.isUpper = true :=
  forall_ascii (P := fun c => c.isLower = true → c.toUpper.isUpper = true) (by decide +kernel)
    (toNat_lt_of_isLower hc) hc

theorem toLower_toUpper (hc : c.isLower = true) : c.toUpper.toLower = c :=
  forall_ascii (P := fun c => c.isLower = true → c.toUpper.toLower = c) (by decide +kernel)
    (toNat_lt_of_isLower hc) hc

theorem isLower_toUpper (c : Char) : c.toUpper.isLower = false := by
  cases hc : c.isLower with
  | false => rwa [toUpper_of_not_isLower hc]
  | true =>
    exact forall_ascii (P := fun c => c.isLower = true → c.toUpper.isLower = false)
      (by decide +kernel) (toNat_lt_of_isLower hc) hc

theorem isAlphanum_toUpper (hc : c.isAlphanum = true) : c.toUpper.isAlphanum = true := by
  cases hlower : c.isLower with
  | false => rwa [toUpper_of_not_isLower hlower]
  | true =>
    show (c.toUpper.isUpper || c.toUpper.isLower || c.toUpper.isDigit) = true
    rw [isUpper_toUpper hlower, Bool.true_or, Bool.true_or]

theorem toUpper_toUpper (c : Char) : c.toUpper.toUpper = c.toUpper :=
  toUpper_of_not_isLower (isLower_toUpper c)

/-- Only an underscore becomes one. -/
theorem toUpper_ne_underscore (hc : c ≠ '_') : c.toUpper ≠ '_' := by
  cases hlower : c.isLower with
  | false => rwa [toUpper_of_not_isLower hlower]
  | true =>
    intro heq
    have hupper := isUpper_toUpper hlower
    rw [heq] at hupper
    exact absurd hupper (by decide)

/-! ### Ends and places -/

theorem index_append (h : c ∉ s) (t : Chars) : index c (s ++ c :: t) = some s.length := by
  have hnone : s.findIdx? (· == c) = none := by
    rw [List.findIdx?_eq_none_iff]
    intro x hx
    exact beq_false_of_ne fun heq => h (heq ▸ hx)
  rw [index, List.findIdx?_append, hnone, List.findIdx?_cons]
  simp

theorem trimSuffix_append (s suffix : Chars) : trimSuffix suffix (s ++ suffix) = s := by
  rw [trimSuffix, if_pos (by simp), List.length_append, Nat.add_sub_cancel, List.take_left]

/-- An end of characters from the set is cut off, and whatever the set takes before it. -/
theorem trimRight_append {cutset : Chars} (ht : ∀ c ∈ t, c ∈ cutset) :
    trimRight cutset (s ++ t) = trimRight cutset s := by
  induction t using List.reverseRecOn with
  | nil => rw [List.append_nil]
  | append_singleton t c ih =>
    have hc : cutset.contains c = true := by simpa using ht c (by simp)
    have hrest := ih fun d hd => ht d (by simp [hd])
    rw [trimRight] at hrest ⊢
    rw [← List.append_assoc, List.rdropWhile_concat_pos _ _ _ hc, hrest]

theorem trimRight_append_cons {cutset : Chars} (hc : c ∉ cutset) (s t : Chars) :
    trimRight cutset (s ++ c :: t) = s ++ c :: trimRight cutset t := by
  have hkeep : ¬ cutset.contains c = true := by simpa using hc
  induction t using List.reverseRecOn with
  | nil => rw [trimRight, List.rdropWhile_concat_neg _ _ _ hkeep, trimRight, List.rdropWhile_nil]
  | append_singleton t d ih =>
    rw [trimRight] at ih
    rw [← List.cons_append, ← List.append_assoc, trimRight, trimRight]
    by_cases hd : cutset.contains d = true
    · rw [List.rdropWhile_concat_pos _ _ _ hd, List.rdropWhile_concat_pos _ _ _ hd, ih,
        trimRight]
    · rw [List.rdropWhile_concat_neg _ _ _ hd, List.rdropWhile_concat_neg _ _ _ hd]
      simp

theorem trimRight_eq_self_iff {cutset : Chars} :
    trimRight cutset s = s ↔ ∀ c ∈ s.getLast?, c ∉ cutset := by
  rw [trimRight, List.rdropWhile_eq_self_iff]
  cases s using List.reverseRecOn with
  | nil | append_singleton s c => simp

/-! ### Words -/

theorem titleFrom_of_word {prev : Char} (hprev : isSeparator prev = false)
    (hs : ∀ c ∈ s, isSeparator c = false) : titleFrom prev s = s := by
  induction s generalizing prev with
  | nil => rfl
  | cons c s ih =>
    obtain ⟨hc, hs⟩ := List.forall_mem_cons.mp hs
    simp [titleFrom, hprev, ih hc hs]

/-- Of a single word only the first letter changes. -/
theorem title_of_word (hc : isSeparator c = false) (hs : ∀ d ∈ s, isSeparator d = false) :
    title (c :: s) = c.toUpper :: s := by
  have hspace : isSeparator ' ' = true := by decide
  rw [title, titleFrom, if_pos hspace, titleFrom_of_word hc hs]

/-- The parts of a text have its characters without the separator. -/
theorem of_mem_splitOn {part : Chars} (h : part ∈ s.splitOn c) {d : Char} (hd : d ∈ part) :
    d ∈ s ∧ d ≠ c := by
  induction s generalizing part with
  | nil =>
    obtain rfl : part = [] := by simpa using h
    cases hd
  | cons x s ih =>
    have hstep {part : Chars} (hmem : part ∈ s.splitOn c) (hd : d ∈ part) :
        d ∈ x :: s ∧ d ≠ c := by
      obtain ⟨hs, hne⟩ := ih hmem hd
      exact ⟨List.mem_cons_of_mem x hs, hne⟩
    rw [List.splitOn_cons_eq_if_modifyHead] at h
    by_cases hx : x = c
    · rw [if_pos (by simpa using hx)] at h
      rcases List.mem_cons.mp h with rfl | h
      · cases hd
      · exact hstep h hd
    · rw [if_neg (by simpa using hx)] at h
      obtain ⟨first, rest, hsplit⟩ : ∃ first rest, s.splitOn c = first :: rest :=
        List.exists_cons_of_ne_nil (List.splitOn_ne_nil _ _)
      rw [hsplit, List.modifyHead_cons] at h
      rw [hsplit] at hstep
      rcases List.mem_cons.mp h with rfl | h
      · rcases List.mem_cons.mp hd with rfl | hd
        · exact ⟨by simp, hx⟩
        · exact hstep (by simp) hd
      · exact hstep (by simp [h]) hd

end GameCluster.Lib
