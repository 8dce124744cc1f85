import Mathlib.Data.List.Forall2
import GameCluster.Lib.Parse

/-!
JSON texts. The parser takes what `encoding/json` takes: white space between tokens, the
escapes of strings with pairs of surrogates, numbers kept as they are written, and at most a
given depth of arrays and objects. A string is read one character at a time; a text pasted
between two quotes is read as itself exactly if no character of it has a meaning there.
-/

namespace GameCluster.Lib

inductive Json where
  | null
  | bool (b : Bool)
  | num (literal : Chars)
  | str (s : Chars)
  | arr (items : List Json)
  | obj (members : List (Chars × Json))

namespace Json

open GameCluster.Lib.Parser

/-! ### Strings -/

/-- A character of a string, or a code unit written with `\u`. -/
inductive Part where
  | char (c : Char)
  | code (n : ℕ)
  deriving DecidableEq

/-- Where in a string the parser is: `hex n left` has read digits of value `n` and waits for
`left` more. -/
inductive Mode where
  | plain
  | escaped
  | hex (n left : ℕ)

def escape : Char → Option Char
  | '"' => some '"'
  | '\\' => some '\\'
  | '/' => some '/'
  | 'b' => some '\x08'
  | 'f' => some '\x0c'
  | 'n' => some '\n'
  | 'r' => some '\r'
  | 't' => some '\t'
  | _ => none

def hexDigit (c : Char) : Option ℕ :=
  if c.isDigit then some (c.toNat - '0'.toNat)
  else if 'a' ≤ c ∧ c ≤ 'f' then some (c.toNat - 'a'.toNat + 10)
  else if 'A' ≤ c ∧ c ≤ 'F' then some (c.toNat - 'A'.toNat + 10)
  else none

/-- A part before the parts of the rest. -/
def addPart (part : Part) (res : Option (List Part × Chars)) : Option (List Part × Chars) :=
  res.map fun (parts, r) => (part :: parts, r)

/-- The parts of a string up to its closing quote. -/
def scan : Mode → Parser (List Part)
  | _, [] => none
  | .plain, c :: s =>
    if c = '"' then some ([], s)
    else if c = '\\' then scan .escaped s
    else if c.toNat < 0x20 then none
    else addPart (.char c) (scan .plain s)
  | .escaped, c :: s =>
    if c = 'u' then scan (.hex 0 4) s
    else
      match escape c with
      | none => none
      | some e => addPart (.char e) (scan .plain s)
  | .hex n left, c :: s =>
    match hexDigit c with
    | none => none
    | some d =>
      if left = 1 then addPart (.code (16 * n + d)) (scan .plain s)
      else scan (.hex (16 * n + d) (left - 1)) s

def isHigh (n : ℕ) : Bool := 0xD800 ≤ n && n < 0xDC00

def isLow (n : ℕ) : Bool := 0xDC00 ≤ n && n < 0xE000

/-- The text of the parts. A surrogate that is not part of a pair is replaced. -/
def join : List Part → Chars
  | [] => []
  | .char c :: parts => c :: join parts
  | .code n :: .code m :: parts =>
    if isHigh n && isLow m then
      Char.ofNat ((n - 0xD800) * 0x400 + (m - 0xDC00) + 0x10000) :: join parts
    else if isHigh n || isLow n then '\ufffd' :: join (.code m :: parts)
    else Char.ofNat n :: join (.code m :: parts)
  | .code n :: parts =>
    (if isHigh n || isLow n then '\ufffd' else Char.ofNat n) :: join parts

def string : Parser Chars := (char '"').bind fun _ => (scan .plain).map join

/-! ### Numbers -/

def digits : Parser Chars := many1 Char.isDigit

/-- `c` and what `p` reads after it, or nothing. -/
def opt (c : Char) (p : Parser Chars) : Parser Chars :=
  peek (· == c) ((char c).bind fun _ => p.map (c :: ·)) (pure [])

def power : Parser Chars :=
  (peek (· == '+') (opt '+' (pure [])) (opt '-' (pure []))).bind fun sign =>
    digits.map (sign ++ ·)

def number : Parser Chars :=
  (opt '-' (pure [])).bind fun sign =>
    (peek (· == '0') (opt '0' (pure [])) digits).bind fun whole =>
      (opt '.' digits).bind fun fraction =>
        (peek (· == 'e') (opt 'e' power) (opt 'E' power)).map fun exponent =>
          sign ++ whole ++ fraction ++ exponent

/-! ### Values -/

def scalar : Parser Json :=
  peek (· == '"') (string.map .str) <|
    peek (· == 't') ((word "true".toList).map fun _ => .bool true) <|
      peek (· == 'f') ((word "false".toList).map fun _ => .bool false) <|
        peek (· == 'n') ((word "null".toList).map fun _ => .null) (number.map .num)

def member (p : Parser Json) : Parser (Chars × Json) :=
  (many isSpace).bind fun _ => string.bind fun key =>
    (many isSpace).bind fun _ => (char ':').bind fun _ => p.map (key, ·)

/-- A value in which arrays and objects are nested at most `n` deep. -/
def value : ℕ → Parser Json
  | 0 => (many isSpace).bind fun _ => scalar
  | n + 1 => (many isSpace).bind fun _ =>
    peek (· == '[')
      ((char '[').bind fun _ => (items isSpace ',' ']' (value n)).map .arr)
      (peek (· == '\x7b')
        ((char '\x7b').bind fun _ =>
          (items isSpace ',' '\x7d' (member (value n))).map .obj)
        scalar)

/-- The value that all of the text is. -/
def parse (maxDepth : ℕ) (s : Chars) : Option Json :=
  match value maxDepth s with
  | none => none
  | some (j, rest) => if rest.all isSpace then some j else none

/-! ### What may follow a value -/

/-- The characters that follow a value in an array or an object. -/
def Stop (c : Char) : Prop := c = ',' ∨ c = ']' ∨ c = '\x7d'

theorem of_stop {cls : Char → Bool}
    (h : cls ',' = false ∧ cls ']' = false ∧ cls '\x7d' = false) (c : Char) (hc : Stop c) :
    cls c = false := by
  obtain ⟨hcomma, hbracket, hbrace⟩ := h
  rcases hc with rfl | rfl | rfl
  · exact hcomma
  · exact hbracket
  · exact hbrace

theorem isSpace_of_stop : ∀ c, Stop c → isSpace c = false := of_stop (by decide)

theorem extends_space : Extends Stop (many isSpace) (many isSpace) := extends_many isSpace_of_stop

theorem addPart_eq_some {part : Part} {res : Option (List Part × Chars)} {parts : List Part}
    {r : Chars} : addPart part res = some (parts, r) ↔
      ∃ rest, res = some (rest, r) ∧ parts = part :: rest := by
  cases res with
  | none => simp [addPart]
  | some x =>
    obtain ⟨a, t⟩ := x
    simp [addPart, eq_comm, and_comm]

theorem extends_scan (m : Mode) : Extends Stop (scan m) (scan m) := by
  intro s
  induction s generalizing m with
  | nil =>
    intro a r h
    cases m <;> cases h
  | cons d s ih =>
    intro a r h c rest hc
    have hadd {part : Part} (h : addPart part (scan .plain s) = some (a, r)) :
        addPart part (scan .plain (s ++ c :: rest)) = some (a, r ++ c :: rest) := by
      obtain ⟨parts, hscan, rfl⟩ := addPart_eq_some.mp h
      exact addPart_eq_some.mpr ⟨parts, ih .plain parts r hscan c rest hc, rfl⟩
    rw [List.cons_append]
    cases m with
    | plain =>
      simp only [scan] at h ⊢
      split_ifs at h ⊢
      · obtain ⟨rfl, rfl⟩ := Prod.mk.inj (Option.some.inj h)
        rfl
      · exact ih .escaped a r h c rest hc
      · exact hadd h
    | escaped =>
      simp only [scan] at h ⊢
      split_ifs at h ⊢
      · exact ih _ a r h c rest hc
      · cases he : escape d with
        | none => simp [he] at h
        | some e =>
          simp only [he] at h ⊢
          exact hadd h
    | hex n left =>
      simp only [scan] at h ⊢
      cases hd : hexDigit d with
      | none => simp [hd] at h
      | some k =>
        simp only [hd] at h ⊢
        split_ifs at h ⊢
        · exact hadd h
        · exact ih _ a r h c rest hc

theorem extends_string : Extends Stop string string :=
  (extends_char _).bind fun _ => (extends_scan .plain).map join

theorem extends_digits : Extends Stop digits digits := extends_many1 (of_stop (by decide))

theorem extends_opt {c : Char} (hc : ',' ≠ c ∧ ']' ≠ c ∧ '\x7d' ≠ c) {p : Parser Chars}
    (hp : Extends Stop p p) : Extends Stop (opt c p) (opt c p) :=
  .peek (.inr (of_stop (by simpa using hc))) ((extends_char c).bind fun _ => hp.map _)
    (extends_pure [])

theorem extends_power : Extends Stop power power :=
  (Extends.peek (.inr (of_stop (by decide))) (extends_opt (by decide) (extends_pure []))
    (extends_opt (by decide) (extends_pure []))).bind fun _ => extends_digits.map _

theorem extends_number : Extends Stop number number := by
  have hsign : Extends Stop (opt '-' (pure [])) (opt '-' (pure [])) :=
    extends_opt (by decide) (extends_pure [])
  have hzero : Extends Stop (opt '0' (pure [])) (opt '0' (pure [])) :=
    extends_opt (by decide) (extends_pure [])
  have hfraction : Extends Stop (opt '.' digits) (opt '.' digits) :=
    extends_opt (by decide) extends_digits
  have hlower : Extends Stop (opt 'e' power) (opt 'e' power) :=
    extends_opt (by decide) extends_power
  have hupper : Extends Stop (opt 'E' power) (opt 'E' power) :=
    extends_opt (by decide) extends_power
  exact hsign.bind fun _ =>
    (Extends.peek (.inr (of_stop (by decide))) hzero extends_digits).bind fun _ =>
      hfraction.bind fun _ =>
        (Extends.peek (.inr (of_stop (by decide))) hlower hupper).map _

theorem extends_scalar : Extends Stop scalar scalar :=
  .peek (.inr (of_stop (by decide))) (extends_string.map _) <|
    .peek (.inr (of_stop (by decide))) ((extends_word _).map _) <|
      .peek (.inr (of_stop (by decide))) ((extends_word _).map _) <|
        .peek (.inr (of_stop (by decide))) ((extends_word _).map _) (extends_number.map _)

theorem extends_member {p : Parser Json} (hp : Extends Stop p p) :
    Extends Stop (member p) (member p) :=
  extends_space.bind fun _ => extends_string.bind fun _ =>
    extends_space.bind fun _ => (extends_char ':').bind fun _ => hp.map _

/-- A value ends where the next comma or bracket stands, whatever comes after it. -/
theorem extends_value (n : ℕ) : Extends Stop (value n) (value n) := by
  induction n with
  | zero => exact extends_space.bind fun _ => extends_scalar
  | succ n ih =>
    have harr : Extends Stop (items isSpace ',' ']' (value n))
        (items isSpace ',' ']' (value n)) :=
      ih.items isSpace_of_stop
    have hobj : Extends Stop (items isSpace ',' '\x7d' (member (value n)))
        (items isSpace ',' '\x7d' (member (value n))) :=
      (extends_member ih).items isSpace_of_stop
    exact extends_space.bind fun _ =>
      .peek (.inr (of_stop (by decide))) ((extends_char _).bind fun _ => harr.map _) <|
        .peek (.inr (of_stop (by decide))) ((extends_char _).bind fun _ => hobj.map _)
          extends_scalar

/-! ### Pasted strings -/

/-- No character of the text has a meaning in a string, and none is refused there. -/
def Plain (s : Chars) : Prop := ∀ c ∈ s, c ≠ '"' ∧ c ≠ '\\' ∧ 0x20 ≤ c.toNat

instance (s : Chars) : Decidable (Plain s) := inferInstanceAs (Decidable (∀ c ∈ s, _))

variable {s r : Chars}

theorem scan_plain (hs : Plain s) (r : Chars) :
    scan .plain (s ++ '"' :: r) = some (s.map .char, r) := by
  induction s with
  | nil => simp [scan]
  | cons c s ih =>
    obtain ⟨⟨hquote, hslash, hspace⟩, hs⟩ := List.forall_mem_cons.mp hs
    rw [List.cons_append, scan, if_neg hquote, if_neg hslash, if_neg (by omega)]
    exact addPart_eq_some.mpr ⟨_, ih hs, rfl⟩

theorem join_chars (s : Chars) : join (s.map .char) = s := by
  induction s with
  | nil => rfl
  | cons c s ih => rw [List.map_cons, join, ih]

theorem string_quote (hs : Plain s) (r : Chars) : string (quote s ++ r) = some (s, r) := by
  have hscan : scan .plain (s ++ ['"'] ++ r) = some (s.map .char, r) := by
    rw [List.append_assoc]
    exact scan_plain hs r
  rw [string, quote, List.cons_append, bind_of_some (char_cons _ _)]
  exact map_eq_some.mpr ⟨_, hscan, join_chars s⟩

/-! ### Putting values together -/

/-- Leading white space changes nothing. -/
theorem value_space {w : Chars} (hw : ∀ c ∈ w, isSpace c = true) (n : ℕ) (s : Chars) :
    value n (w ++ s) = value n s := by
  have hdrop : (w ++ s).dropWhile isSpace = s.dropWhile isSpace :=
    List.dropWhile_append_of_pos hw
  cases n with
  | zero | succ n => simp only [value, Parser.bind, many, hdrop]

theorem value_quote (hs : Plain s) (n : ℕ) : value n (quote s) = some (.str s, []) := by
  have hspace : many isSpace (quote s) = some ([], quote s) :=
    many_cons_of_neg (by decide) _
  have hscalar : scalar (quote s) = some (.str s, []) := by
    have hstring : string (quote s) = some (s, []) := by simpa using string_quote hs []
    rw [scalar, quote, peek_of_pos (by decide)]
    exact map_eq_some.mpr ⟨s, hstring, rfl⟩
  cases n with
  | zero => rw [value, bind_of_some hspace, hscalar]
  | succ n =>
    rw [value, bind_of_some hspace, quote, peek_of_neg (by decide), peek_of_neg (by decide)]
    exact hscalar

/-- A key, a colon and the text of a value. -/
theorem reads_member {key t : Chars} (hkey : Plain key) {p : Parser Json} {j : Json}
    (hread : Reads Stop isSpace p t j) :
    Reads Stop isSpace (member p) (quote key ++ ':' :: t) (key, j) := by
  intro c rest hc
  obtain ⟨w, hw, hp⟩ := hread c rest hc
  refine ⟨w, hw, ?_⟩
  have hspace : many isSpace (quote key ++ ':' :: (t ++ c :: rest)) =
      some ([], quote key ++ ':' :: (t ++ c :: rest)) := many_cons_of_neg (by decide) _
  have hcolon : many isSpace (':' :: (t ++ c :: rest)) = some ([], ':' :: (t ++ c :: rest)) :=
    many_cons_of_neg (by decide) _
  rw [List.append_assoc, List.cons_append, member, bind_of_some hspace,
    bind_of_some (string_quote hkey _), bind_of_some hcolon, bind_of_some (char_cons _ _)]
  exact map_eq_some.mpr ⟨j, hp, rfl⟩

/-- An object whose members are written with nothing between them but commas. -/
theorem value_obj {n : ℕ} {ts : List Chars} {members : List (Chars × Json)}
    (hread : List.Forall₂ (Reads Stop isSpace (member (value n))) ts members)
    (hhead : ∀ t ∈ ts, ∃ t', t = '"' :: t') (r : Chars) :
    value (n + 1) ('\x7b' :: (",".toList.intercalate ts ++ '\x7d' :: r)) =
      some (.obj members, r) := by
  have hnil : ∀ x ∈ ([] : Chars), isSpace x = true := by simp
  have hstart : ∀ t ∈ ts, ∃ c t', t = c :: t' ∧ isSpace c = false ∧ c ≠ '\x7d' := by
    intro t ht
    obtain ⟨t', rfl⟩ := hhead t ht
    exact ⟨'"', t', rfl, by decide, by decide⟩
  have hreads : List.Forall₂ (fun t m => Reads Stop isSpace (member (value n)) t m ∧
      Reads Stop isSpace (member (value n)) (t ++ []) m) ts members :=
    hread.imp fun t m h => ⟨h, by rwa [List.append_nil]⟩
  have hitems : items isSpace ',' '\x7d' (member (value n))
      ([] ++ (",".toList.intercalate ts ++ [] ++ '\x7d' :: r)) = some (members, r) :=
    items_intercalate isSpace_of_stop (.inl rfl) (.inr (.inr rfl)) (by decide) (fun _ => rfl)
      hreads hstart hnil hnil r
  rw [List.nil_append, List.append_nil] at hitems
  rw [value, bind_of_some (many_cons_of_neg (by decide) _), peek_of_neg (by decide),
    peek_of_pos (by decide), bind_of_some (char_cons _ _)]
  exact map_eq_some.mpr ⟨members, hitems, rfl⟩

/-- An array of objects with white space before, between and after them. -/
theorem value_arr {n : ℕ} {ts : List Chars} {js : List Json}
    (hread : List.Forall₂ (fun t j => ∀ r, value n (t ++ r) = some (j, r)) ts js)
    (hhead : ∀ t ∈ ts, ∃ t', t = '\x7b' :: t') {u v w : Chars} (hu : ∀ x ∈ u, isSpace x = true)
    (hv : ∀ x ∈ v, isSpace x = true) (hw : ∀ x ∈ w, isSpace x = true) (r : Chars) :
    value (n + 1) ('[' :: (u ++ ((',' :: w).intercalate ts ++ v ++ ']' :: r))) =
      some (.arr js, r) := by
  have hstart : ∀ t ∈ ts, ∃ c t', t = c :: t' ∧ isSpace c = false ∧ c ≠ ']' := by
    intro t ht
    obtain ⟨t', rfl⟩ := hhead t ht
    exact ⟨'\x7b', t', rfl, by decide, by decide⟩
  have hreads : List.Forall₂ (fun t j => Reads Stop isSpace (value n) t j ∧
      Reads Stop isSpace (value n) (t ++ v) j) ts js := by
    refine hread.imp fun t j h => ⟨?_, reads_of_forall h hv⟩
    have hbare : Reads Stop isSpace (value n) (t ++ []) j := reads_of_forall h (by simp)
    rwa [List.append_nil] at hbare
  have hitems := items_intercalate isSpace_of_stop (.inl rfl) (.inr (.inl rfl)) (by decide)
    (value_space hw n) hreads hstart hv hu r
  rw [value, bind_of_some (many_cons_of_neg (by decide) _), peek_of_pos (by decide),
    bind_of_some (char_cons _ _)]
  exact map_eq_some.mpr ⟨js, hitems, rfl⟩

/-! ### How long a text has to be -/

def charCost (c : Char) : ℕ := if c ≠ '"' ∧ c ≠ '\\' ∧ 0x20 ≤ c.toNat then 1 else 2

/-- What a text takes at least between two quotes: a character that does not stand for itself
takes two or more. -/
def cost (s : Chars) : ℕ := (s.map charCost).sum

theorem charCost_bounds (c : Char) : 1 ≤ charCost c ∧ charCost c ≤ 2 := by
  rw [charCost]
  split_ifs <;> decide

theorem length_le_cost (s : Chars) : s.length ≤ cost s := by
  induction s with
  | nil => exact Nat.le_refl 0
  | cons c s ih =>
    have hc := (charCost_bounds c).1
    rw [cost, List.map_cons, List.sum_cons, List.length_cons, ← cost]
    omega

/-- Only a plain text takes no more than its length. -/
theorem plain_of_cost_le (h : cost s ≤ s.length) : Plain s := by
  induction s with
  | nil => exact List.forall_mem_nil _
  | cons c s ih =>
    have hs := length_le_cost s
    rw [cost, List.map_cons, List.sum_cons, List.length_cons, ← cost] at h
    by_cases hc : c ≠ '"' ∧ c ≠ '\\' ∧ 0x20 ≤ c.toNat
    · rw [charCost, if_pos hc] at h
      exact List.forall_mem_cons.mpr ⟨hc, ih (by omega)⟩
    · rw [charCost, if_neg hc] at h
      omega

def partCost : Part → ℕ
  | .char c => charCost c
  | .code _ => 2

theorem cost_join_le (parts : List Part) : cost (join parts) ≤ (parts.map partCost).sum := by
  have hcost (c : Char) (s : Chars) : cost (c :: s) ≤ 2 + cost s := by
    have hc := (charCost_bounds c).2
    rw [cost, List.map_cons, List.sum_cons, ← cost]
    omega
  fun_induction join parts with
  | case1 => exact Nat.le_refl 0
  | case2 c parts ih =>
    rw [cost, List.map_cons, List.sum_cons, ← cost, List.map_cons, List.sum_cons]
    exact Nat.add_le_add_left ih _
  | case3 n m parts _ ih =>
    refine (hcost _ _).trans ?_
    simp only [List.map_cons, List.sum_cons, partCost]
    omega
  | case4 n m parts _ _ ih | case5 n m parts _ _ ih | case6 n parts _ ih =>
    exact (hcost _ _).trans (Nat.add_le_add_left ih 2)

/-- The characters of an escape that were read already. -/
def Mode.credit : Mode → ℕ
  | .plain => 0
  | .escaped => 1
  | .hex _ _ => 2

/-- A character of a string closes it, goes on with an escape or completes a part. None is a
line break. -/
theorem scan_cons {m : Mode} {c : Char} {parts : List Part}
    (h : scan m (c :: s) = some (parts, r)) :
    (c = '"' ∧ parts = [] ∧ s = r) ∨
      c ≠ '\n' ∧ ((∃ m' : Mode, m'.credit ≤ m.credit + 1 ∧ scan m' s = some (parts, r)) ∨
        ∃ part rest, partCost part ≤ m.credit + 1 ∧ scan .plain s = some (rest, r) ∧
          parts = part :: rest) := by
  cases m with
  | plain =>
    simp only [scan] at h
    split_ifs at h with hquote hslash hspace
    · obtain ⟨rfl, rfl⟩ := Prod.mk.inj (Option.some.inj h)
      exact .inl ⟨hquote, rfl, rfl⟩
    · have hc : c ≠ '\n' := by
        rintro rfl
        cases hslash
      exact .inr ⟨hc, .inl ⟨.escaped, Nat.le_refl 1, h⟩⟩
    · have hc : c ≠ '\n' := by
        rintro rfl
        exact hspace (by decide)
      obtain ⟨rest, hrest, rfl⟩ := addPart_eq_some.mp h
      have hcost : partCost (.char c) ≤ 1 := by
        rw [partCost, charCost, if_pos ⟨hquote, hslash, by omega⟩]
      exact .inr ⟨hc, .inr ⟨_, rest, hcost, hrest, rfl⟩⟩
  | escaped =>
    simp only [scan] at h
    split_ifs at h with hu
    · have hc : c ≠ '\n' := by
        rintro rfl
        cases hu
      exact .inr ⟨hc, .inl ⟨.hex 0 4, Nat.le_refl 2, h⟩⟩
    · cases he : escape c with
      | none => simp [he] at h
      | some e =>
        have hc : c ≠ '\n' := by
          rintro rfl
          cases he
        simp only [he] at h
        obtain ⟨rest, hrest, rfl⟩ := addPart_eq_some.mp h
        exact .inr ⟨hc, .inr ⟨.char e, rest, (charCost_bounds e).2, hrest, rfl⟩⟩
  | hex n left =>
    simp only [scan] at h
    cases hd : hexDigit c with
    | none => simp [hd] at h
    | some k =>
      have hc : c ≠ '\n' := by
        rintro rfl
        cases hd
      simp only [hd] at h
      split_ifs at h
      · obtain ⟨rest, hrest, rfl⟩ := addPart_eq_some.mp h
        exact .inr ⟨hc, .inr ⟨.code _, rest, Nat.le_succ 2, hrest, rfl⟩⟩
      · exact .inr ⟨hc, .inl ⟨.hex _ _, Nat.le_succ 2, h⟩⟩

/-- Every part of a string takes its cost. -/
theorem spends_scan (m : Mode) :
    Spends '\n' m.credit (fun parts => (parts.map partCost).sum + 1) (scan m) := by
  intro s
  induction s generalizing m with
  | nil =>
    intro parts r h
    cases m <;> cases h
  | cons c s ih =>
    intro parts r h
    rcases scan_cons h with ⟨rfl, rfl, rfl⟩ | ⟨hc, hmore⟩
    · exact ⟨['"'], rfl, Nat.le_add_right 1 _⟩
    · rcases hmore with ⟨m', hcredit, hscan⟩ | ⟨part, rest, hcost, hscan, rfl⟩
      · obtain ⟨t, rfl, hle⟩ := ih m' parts r hscan
        refine ⟨c :: t, rfl, ?_⟩
        rw [List.countP_cons_of_pos (by simpa using hc)]
        omega
      · obtain ⟨t, rfl, hle⟩ := ih .plain rest r hscan
        refine ⟨c :: t, rfl, ?_⟩
        simp only [Mode.credit] at hle
        rw [List.countP_cons_of_pos (by simpa using hc)]
        simp only [List.map_cons, List.sum_cons]
        omega

theorem spends_string : Spends '\n' 0 (fun s => cost s + 2) string := by
  refine (spends_char (by decide) 0).bind fun _ => ?_
  have hscan := (spends_scan .plain).add 1
  exact hscan.map fun parts => by
    have hjoin := cost_join_le parts
    omega

theorem spends_opt (c : Char) (hc : c ≠ '\n') {p : Parser Chars}
    (hp : ∀ credit, Spends '\n' credit (fun _ => credit) p) (credit : ℕ) :
    Spends '\n' credit (fun _ => credit) (opt c p) :=
  .peek ((spends_char hc credit).bind fun _ => (hp _).map fun _ => Nat.le_succ credit)
    (spends_pure (Nat.le_refl credit))

theorem spends_power (credit : ℕ) : Spends '\n' credit (fun _ => credit) power := by
  have hsign (c : Char) (hc : c ≠ '\n') :
      Spends '\n' credit (fun _ => credit) (opt c (pure [])) :=
    spends_opt c hc (fun _ => spends_pure (Nat.le_refl _)) credit
  exact (Spends.peek (hsign '+' (by decide)) (hsign '-' (by decide))).bind fun _ =>
    (spends_many1 Char.isDigit credit).map fun _ => Nat.le_refl credit

theorem spends_number (credit : ℕ) : Spends '\n' credit (fun _ => credit) number := by
  have hone (c : Char) (hc : c ≠ '\n') :
      Spends '\n' credit (fun _ => credit) (opt c (pure [])) :=
    spends_opt c hc (fun _ => spends_pure (Nat.le_refl _)) credit
  have hexponent (c : Char) (hc : c ≠ '\n') :
      Spends '\n' credit (fun _ => credit) (opt c power) :=
    spends_opt c hc spends_power credit
  exact (hone '-' (by decide)).bind fun _ =>
    (Spends.peek (hone '0' (by decide)) (spends_many1 Char.isDigit credit)).bind fun _ =>
      (spends_opt '.' (by decide) (spends_many1 Char.isDigit) credit).bind fun _ =>
        (Spends.peek (hexponent 'e' (by decide)) (hexponent 'E' (by decide))).map
          fun _ => Nat.le_refl credit

/-- The cost of a value whose parts cost `u`. -/
def outerCost (u : Json → ℕ) : Json → ℕ
  | .str s => cost s + 2
  | .arr items => (items.map (u · + 1)).sum + 1
  | .obj members => (members.map fun m => cost m.1 + 3 + u m.2 + 1).sum + 1
  | _ => 0

/-- The cost of a value, down to the depth `k`. -/
def costAt : ℕ → Json → ℕ
  | 0 => fun _ => 0
  | k + 1 => outerCost (costAt k)

theorem spends_scalar (u : Json → ℕ) : Spends '\n' 0 (outerCost u) scalar := by
  have hword (t : Chars) (j : Json) (hj : outerCost u j = 0) :
      Spends '\n' 0 (outerCost u) ((word t).map fun _ => j) :=
    (spends_word t 0).map fun _ => hj.le
  exact .peek (spends_string.map fun s => Nat.le_refl (cost s + 2)) <|
    .peek (hword _ _ rfl) <| .peek (hword _ _ rfl) <|
      .peek (hword _ _ rfl) ((spends_number 0).map fun _ => Nat.le_refl 0)

theorem spends_member {u : Json → ℕ} {p : Parser Json} (hp : Spends '\n' 0 u p) :
    Spends '\n' 0 (fun m => cost m.1 + 3 + u m.2) (member p) := by
  refine (spends_many isSpace 0).bind fun _ => spends_string.bind fun key =>
    (spends_many isSpace _).bind fun _ => (spends_char (by decide) _).bind fun _ => ?_
  have hvalue := hp.add (cost key + 3)
  rw [Nat.zero_add] at hvalue
  exact hvalue.map fun j => (Nat.add_comm (cost key + 3) (u j)).le

/-- A value takes its cost, not counting line breaks. -/
theorem spends_value (k n : ℕ) : Spends '\n' 0 (costAt k) (value n) := by
  induction n generalizing k with
  | zero =>
    have hvalue (u : Json → ℕ) : Spends '\n' 0 (outerCost u) (value 0) :=
      (spends_many isSpace 0).bind fun _ => spends_scalar u
    cases k with
    | zero => exact (hvalue (costAt 0)).mono fun _ => Nat.zero_le _
    | succ k => exact hvalue (costAt k)
  | succ n ih =>
    have hvalue (k : ℕ) : Spends '\n' 0 (outerCost (costAt k)) (value (n + 1)) := by
      have harr : Spends '\n' 1 _ (items isSpace ',' ']' (value n)) :=
        (ih k).items (by decide) (by decide) 1
      have hobj : Spends '\n' 1 _ (items isSpace ',' '\x7d' (member (value n))) :=
        (spends_member (ih k)).items (by decide) (by decide) 1
      exact (spends_many isSpace 0).bind fun _ =>
        .peek ((spends_char (by decide) 0).bind fun _ => harr.map fun _ => Nat.le_refl _) <|
          .peek ((spends_char (by decide) 0).bind fun _ => hobj.map fun _ => Nat.le_refl _)
            (spends_scalar _)
    cases k with
    | zero => exact (hvalue 0).mono fun _ => Nat.zero_le _
    | succ k => exact hvalue k

end Json

end GameCluster.Lib
