import Mathlib.Algebra.GroupWithZero.Nat
import GameCluster.Lib.Text

/-!
Parsers of texts: what is read from the front of a text and what is left. A parser that
looks no further than the next character reads the same when the text goes on, as long as
the character that follows is one that ends what was read; `Extends` says so, for a set of
such characters, and is kept by every way to put parsers together. `Reads` is the same for a
text that is read whole, up to white space.
-/

namespace GameCluster.Lib

/-- Reads a value from the front of a text and leaves the rest. -/
abbrev Parser (α : Type) := Chars → Option (α × Chars)

namespace Parser

variable {α β : Type}

def pure (a : α) : Parser α := fun s => some (a, s)

def bind (p : Parser α) (f : α → Parser β) : Parser β := fun s =>
  match p s with
  | none => none
  | some (a, r) => f a r

def map (f : α → β) (p : Parser α) : Parser β := p.bind fun a => pure (f a)

/-- The character `c`. -/
def char (c : Char) : Parser Unit
  | [] => none
  | d :: r => if d = c then some ((), r) else none

/-- The characters of `word`. -/
def word : Chars → Parser Unit
  | [] => pure ()
  | c :: cs => (char c).bind fun _ => word cs

/-- The longest start of characters in the class, which may be empty. -/
def many (cls : Char → Bool) : Parser Chars := fun s => some (s.takeWhile cls, s.dropWhile cls)

/-- The longest start of characters in the class, at least one. -/
def many1 (cls : Char → Bool) : Parser Chars := fun s =>
  if s.takeWhile cls = [] then none else some (s.takeWhile cls, s.dropWhile cls)

/-- Goes on with `yes` if the next character is in the class, and with `no` otherwise. -/
def peek (cls : Char → Bool) (yes no : Parser α) : Parser α
  | [] => no []
  | c :: r => if cls c then yes (c :: r) else no (c :: r)

/-- Values with `sep` between them and `close` at the end, at most `n` of them. -/
def sepBy (space : Char → Bool) (sep close : Char) (p : Parser α) : ℕ → Parser (List α)
  | 0 => fun _ => none
  | n + 1 => p.bind fun a => (many space).bind fun _ =>
    peek (· == sep) ((char sep).bind fun _ => (sepBy space sep close p n).map (a :: ·))
      ((char close).bind fun _ => pure [a])

/-- Any number of values with `sep` between them and `close` at the end. -/
def items (space : Char → Bool) (sep close : Char) (p : Parser α) : Parser (List α) :=
  (many space).bind fun _ =>
    peek (· == close) ((char close).bind fun _ => pure [])
      -- a value takes a character, so there are no more of them than characters
      fun s => sepBy space sep close p s.length s

/-! ### Results -/

variable {p : Parser α} {f : α → Parser β} {s r : Chars} {b : β}

theorem bind_eq_some :
    p.bind f s = some (b, r) ↔ ∃ a t, p s = some (a, t) ∧ f a t = some (b, r) := by
  rw [bind]
  cases p s with
  | none => simp
  | some x => simp [Prod.ext_iff]

theorem bind_of_some {a : α} {t : Chars} (h : p s = some (a, t)) : p.bind f s = f a t := by
  rw [bind, h]

theorem map_eq_some {g : α → β} : p.map g s = some (b, r) ↔ ∃ a, p s = some (a, r) ∧ g a = b := by
  rw [map, bind_eq_some]
  constructor
  · rintro ⟨a, t, hp, hpure⟩
    obtain ⟨rfl, rfl⟩ : g a = b ∧ t = r := by simpa [pure] using hpure
    exact ⟨a, hp, rfl⟩
  · rintro ⟨a, hp, rfl⟩
    exact ⟨a, r, hp, rfl⟩

theorem char_cons (c : Char) (r : Chars) : char c (c :: r) = some ((), r) := if_pos rfl

variable {c : Char} {cls : Char → Bool}

theorem char_eq_some {u : Unit} : char c s = some (u, r) ↔ s = c :: r := by
  cases s with
  | nil => simp [char]
  | cons d s =>
    by_cases h : d = c
    · simp [char, h]
    · simp [char, h]

theorem peek_of_pos {yes no : Parser α} (h : cls c = true) (r : Chars) :
    peek cls yes no (c :: r) = yes (c :: r) := if_pos h

theorem peek_of_neg {yes no : Parser α} (h : cls c = false) (r : Chars) :
    peek cls yes no (c :: r) = no (c :: r) := by
  rw [peek, h, if_neg (by decide)]

theorem many_of_all {w : Chars} (hw : ∀ c ∈ w, cls c = true) (hc : cls c = false) (r : Chars) :
    many cls (w ++ c :: r) = some (w, c :: r) := by
  rw [many, List.takeWhile_append_of_pos hw, List.dropWhile_append_of_pos hw]
  simp [hc]

theorem many_cons_of_neg (hc : cls c = false) (r : Chars) : many cls (c :: r) = some ([], c :: r) :=
  many_of_all (w := []) (by simp) hc r

/-! ### Texts that go on -/

section Extends

variable {stop : Char → Prop} {q : Parser α} {g : α → Parser β}

/-- What `p` reads, `q` reads if the text goes on with a character that stops it. -/
def Extends (stop : Char → Prop) (p q : Parser α) : Prop :=
  ∀ (s : Chars) (a : α) (r : Chars), p s = some (a, r) →
    ∀ (c : Char) (rest : Chars), stop c → q (s ++ c :: rest) = some (a, r ++ c :: rest)

theorem extends_pure (a : α) : Extends stop (pure a) (pure a) := by
  intro s a r h c rest _
  obtain ⟨rfl, rfl⟩ := Prod.mk.inj (Option.some.inj h)
  rfl

theorem Extends.bind (hp : Extends stop p q) (hf : ∀ a, Extends stop (f a) (g a)) :
    Extends stop (p.bind f) (q.bind g) := by
  intro s b r h c rest hc
  obtain ⟨a, t, hpa, hfa⟩ := bind_eq_some.mp h
  exact bind_eq_some.mpr ⟨a, _, hp _ _ _ hpa c rest hc, hf a _ _ _ hfa c rest hc⟩

theorem Extends.map (hp : Extends stop p q) (k : α → β) : Extends stop (p.map k) (q.map k) :=
  hp.bind fun _ => extends_pure _

theorem extends_char (c : Char) : Extends stop (char c) (char c) := by
  intro s a r h d rest _
  obtain rfl := char_eq_some.mp h
  exact char_cons c _

theorem extends_word (w : Chars) : Extends stop (word w) (word w) := by
  induction w with
  | nil => exact extends_pure ()
  | cons c w ih => exact (extends_char c).bind fun _ => ih

variable {cls : Char → Bool}

theorem takeWhile_append_stop (s rest : Chars) {c : Char} (hc : cls c = false) :
    (s ++ c :: rest).takeWhile cls = s.takeWhile cls ∧
      (s ++ c :: rest).dropWhile cls = s.dropWhile cls ++ c :: rest := by
  induction s with
  | nil => simp [hc]
  | cons d s ih =>
    cases hd : cls d with
    | true => simpa [hd] using ih
    | false => simp [hd]

theorem extends_many (hstop : ∀ c, stop c → cls c = false) :
    Extends stop (many cls) (many cls) := by
  intro s a r h c rest hc
  obtain ⟨htake, hdrop⟩ := takeWhile_append_stop s rest (hstop c hc)
  obtain ⟨rfl, rfl⟩ := Prod.mk.inj (Option.some.inj h)
  rw [many, htake, hdrop]

theorem extends_many1 (hstop : ∀ c, stop c → cls c = false) :
    Extends stop (many1 cls) (many1 cls) := by
  intro s a r h c rest hc
  obtain ⟨htake, hdrop⟩ := takeWhile_append_stop s rest (hstop c hc)
  by_cases hnil : s.takeWhile cls = []
  · simp [many1, hnil] at h
  · rw [many1, if_neg hnil] at h
    obtain ⟨rfl, rfl⟩ := Prod.mk.inj (Option.some.inj h)
    rw [many1, htake, hdrop, if_neg hnil]

/-- A stop in the class does no harm where nothing could be read at the end of the text. -/
theorem Extends.peek {yes yes' no no' : Parser α}
    (hstop : no [] = none ∨ ∀ c, stop c → cls c = false)
    (hyes : Extends stop yes yes') (hno : Extends stop no no') :
    Extends stop (peek cls yes no) (peek cls yes' no') := by
  intro s a r h c rest hc
  cases s with
  | nil =>
    have hread : no [] = some (a, r) := h
    rcases hstop with hnone | hstop
    · rw [hnone] at hread
      cases hread
    · rw [List.nil_append, peek_of_neg (hstop c hc)]
      exact hno _ _ _ hread c rest hc
  | cons d s =>
    cases hd : cls d with
    | true =>
      rw [peek_of_pos hd] at h
      rw [List.cons_append, peek_of_pos hd]
      exact hyes _ _ _ h c rest hc
    | false =>
      rw [peek_of_neg hd] at h
      rw [List.cons_append, peek_of_neg hd]
      exact hno _ _ _ h c rest hc

variable {space : Char → Bool} {sep close : Char}

/-- The longer text may also be given more fuel. -/
theorem Extends.sepBy (hp : Extends stop p q) (hspace : ∀ c, stop c → space c = false)
    {n m : ℕ} (hnm : n ≤ m) :
    Extends stop (sepBy space sep close p n) (sepBy space sep close q m) := by
  induction n generalizing m with
  | zero =>
    intro s a r h
    cases h
  | succ n ih =>
    obtain ⟨m, rfl⟩ : ∃ k, m = k + 1 := ⟨m - 1, by omega⟩
    have hrest := ih (m := m) (by omega)
    exact hp.bind fun a => (extends_many hspace).bind fun _ =>
      .peek (.inl rfl) ((extends_char sep).bind fun _ => hrest.map (a :: ·))
        ((extends_char close).bind fun _ => extends_pure [a])

theorem Extends.items (hp : Extends stop p p) (hspace : ∀ c, stop c → space c = false) :
    Extends stop (items space sep close p) (items space sep close p) := by
  have hsome : Extends stop (fun s => Parser.sepBy space sep close p s.length s)
      (fun s => Parser.sepBy space sep close p s.length s) := by
    intro s a r h c rest hc
    have hlen : s.length ≤ (s ++ c :: rest).length := by simp
    exact hp.sepBy hspace hlen s a r h c rest hc
  exact (extends_many hspace).bind fun _ =>
    .peek (.inl rfl) ((extends_char close).bind fun _ => extends_pure []) hsome

/-! ### Whole texts -/

/-- Whatever stops it, `p` reads all of `t` but white space, and gives `a`. -/
def Reads (stop : Char → Prop) (space : Char → Bool) (p : Parser α) (t : Chars) (a : α) : Prop :=
  ∀ (c : Char) (rest : Chars), stop c →
    ∃ w, (∀ x ∈ w, space x = true) ∧ p (t ++ c :: rest) = some (a, w ++ c :: rest)

variable {t : Chars} {a : α}

theorem Extends.reads (hp : Extends stop p p) {w : Chars} (h : p t = some (a, w))
    (hw : ∀ x ∈ w, space x = true) : Reads stop space p t a :=
  fun c rest hc => ⟨w, hw, hp _ _ _ h c rest hc⟩

/-- A text that is read whatever follows it may be followed by white space. -/
theorem reads_of_forall (h : ∀ r, p (t ++ r) = some (a, r)) {v : Chars}
    (hv : ∀ x ∈ v, space x = true) : Reads stop space p (t ++ v) a := by
  intro c rest _
  exact ⟨v, hv, by rw [List.append_assoc]; exact h _⟩

theorem Reads.sepBy_last (hread : Reads stop space p t a) (hspace : ∀ c, stop c → space c = false)
    (hclose : stop close) (hne : close ≠ sep) (n : ℕ) (rest : Chars) :
    sepBy space sep close p (n + 1) (t ++ close :: rest) = some ([a], rest) := by
  obtain ⟨w, hw, hp⟩ := hread close rest hclose
  have hmany := many_of_all hw (hspace close hclose) rest
  rw [Parser.sepBy, bind_of_some hp, bind_of_some hmany, peek_of_neg (by simpa using hne),
    bind_of_some (char_cons close rest)]
  rfl

theorem Reads.sepBy_cons (hread : Reads stop space p t a) (hspace : ∀ c, stop c → space c = false)
    (hsep : stop sep) {n : ℕ} {as : List α} (h : sepBy space sep close p n s = some (as, r)) :
    sepBy space sep close p (n + 1) (t ++ sep :: s) = some (a :: as, r) := by
  obtain ⟨w, hw, hp⟩ := hread sep s hsep
  have hmany := many_of_all hw (hspace sep hsep) s
  rw [Parser.sepBy, bind_of_some hp, bind_of_some hmany, peek_of_pos (by simp),
    bind_of_some (char_cons sep s)]
  exact map_eq_some.mpr ⟨as, h, rfl⟩

theorem sepBy_skip {w : Chars} (hw : ∀ s, p (w ++ s) = p s) (n : ℕ) (s : Chars) :
    sepBy space sep close p n (w ++ s) = sepBy space sep close p n s := by
  cases n with
  | zero => rfl
  | succ n => rw [Parser.sepBy, Parser.bind, hw, ← Parser.bind]

theorem items_nil {w : Chars} (hw : ∀ x ∈ w, space x = true) (hclose : space close = false)
    (rest : Chars) : items space sep close p (w ++ close :: rest) = some ([], rest) := by
  rw [items, bind_of_some (many_of_all hw hclose rest), peek_of_pos (by simp),
    bind_of_some (char_cons close rest)]
  rfl

theorem items_cons {w : Chars} (hw : ∀ x ∈ w, space x = true) {c : Char} (hc : space c = false)
    (hne : c ≠ close) (s : Chars) :
    items space sep close p (w ++ c :: s) =
      sepBy space sep close p (c :: s).length (c :: s) := by
  rw [items, bind_of_some (many_of_all hw hc s), peek_of_neg (by simpa using hne)]

theorem length_le_intercalate (sep : Chars) {ts : List Chars} (hts : ∀ t ∈ ts, t ≠ []) :
    ts.length ≤ (sep.intercalate ts).length := by
  induction ts with
  | nil => simp
  | cons t ts ih =>
    obtain ⟨ht, hts⟩ := List.forall_mem_cons.mp hts
    have hpos := List.length_pos_of_ne_nil ht
    cases ts with
    | nil =>
      rw [List.intercalate_singleton]
      exact hpos
    | cons t' ts =>
      have hrest := ih hts
      rw [List.intercalate_cons_cons]
      simp only [List.length_append, List.length_cons] at hrest ⊢
      omega

/-- A class that the separator meets once is met once for each text on top, but for the last. -/
theorem countP_intercalate {cls : Char → Bool} {sep : Chars} (hsep : sep.countP cls = 1)
    {ts : List Chars} (hts : ts ≠ []) :
    (sep.intercalate ts).countP cls + 1 = (ts.map fun t => t.countP cls + 1).sum := by
  induction ts with
  | nil => exact absurd rfl hts
  | cons t ts ih =>
    cases ts with
    | nil => simp
    | cons t' ts =>
      have hrest := ih (by simp)
      rw [List.intercalate_cons_cons, List.countP_append, List.countP_append, hsep,
        List.map_cons, List.sum_cons, ← hrest]
      omega

section Intercalate

variable (hspace : ∀ c, stop c → space c = false) (hsep : stop sep) (hclose : stop close)
  (hne : close ≠ sep) {w v : Chars} (hw : ∀ s, p (w ++ s) = p s) {ts : List Chars} {as : List α}
  (hread : List.Forall₂ (fun t a => Reads stop space p t a ∧ Reads stop space p (t ++ v) a) ts as)

include hspace hsep hclose hne hw hread

/-- Values with `sep` and `w` between them and `v` before the end, where `p` skips `w`. -/
theorem sepBy_intercalate (hts : ts ≠ []) {n : ℕ} (hn : ts.length ≤ n) (rest : Chars) :
    sepBy space sep close p n ((sep :: w).intercalate ts ++ v ++ close :: rest) =
      some (as, rest) := by
  induction hread generalizing n with
  | nil => exact absurd rfl hts
  | @cons t a ts as hta hread ih =>
    obtain ⟨n, rfl⟩ : ∃ k, n = k + 1 := ⟨n - 1, by rw [List.length_cons] at hn; omega⟩
    cases hread with
    | nil =>
      rw [List.intercalate_singleton]
      exact hta.2.sepBy_last hspace hclose hne n rest
    | @cons t' a' ts as hta' hread =>
      have hrest := ih (by simp) (Nat.le_of_succ_le_succ hn)
      rw [← sepBy_skip hw] at hrest
      rw [List.intercalate_cons_cons]
      simp only [List.append_assoc, List.cons_append] at hrest ⊢
      exact hta.1.sepBy_cons hspace hsep hrest

/-- The same with any number of values, and `u` before the first. -/
theorem items_intercalate (hhead : ∀ t ∈ ts, ∃ c t', t = c :: t' ∧ space c = false ∧ c ≠ close)
    (hv : ∀ x ∈ v, space x = true) {u : Chars} (hu : ∀ x ∈ u, space x = true) (rest : Chars) :
    items space sep close p (u ++ ((sep :: w).intercalate ts ++ v ++ close :: rest)) =
      some (as, rest) := by
  cases ts with
  | nil =>
    cases hread
    have huv : ∀ x ∈ u ++ v, space x = true := List.forall_mem_append.mpr ⟨hu, hv⟩
    rw [List.intercalate_nil, List.nil_append, ← List.append_assoc]
    exact items_nil huv (hspace close hclose) rest
  | cons t ts =>
    have hnil : ∀ t' ∈ t :: ts, t' ≠ [] := by
      intro t' ht'
      obtain ⟨c, s, rfl, -⟩ := hhead t' ht'
      simp
    have hlen := length_le_intercalate (sep :: w) hnil
    obtain ⟨c, s, rfl, hc, hcclose⟩ := hhead t (by simp)
    obtain ⟨s', hs'⟩ : ∃ s', (sep :: w).intercalate ((c :: s) :: ts) = c :: s' := by
      cases ts with
      | nil => exact ⟨s, List.intercalate_singleton⟩
      | cons t' ts => exact ⟨_, List.intercalate_cons_cons⟩
    have hsep := sepBy_intercalate hspace hsep hclose hne hw hread (by simp)
      (n := (c :: (s' ++ v ++ close :: rest)).length) (by
        rw [hs'] at hlen
        simp only [List.length_cons, List.length_append] at hlen ⊢
        omega) rest
    rw [hs'] at hsep ⊢
    exact (items_cons hu hc hcclose _).trans hsep

end Intercalate

end Extends

/-! ### How much is read -/

section Spends

variable {free : Char} {credit k : ℕ} {v : α → ℕ} {w : β → ℕ}

/-- The text that `p` reads has at least as many characters other than `free` as its value
weighs, with `credit` on top. -/
def Spends (free : Char) (credit : ℕ) (v : α → ℕ) (p : Parser α) : Prop :=
  ∀ (s : Chars) (a : α) (r : Chars), p s = some (a, r) →
    ∃ t, s = t ++ r ∧ v a ≤ t.countP (· != free) + credit

theorem spends_pure {a : α} (h : v a ≤ credit) : Spends free credit v (pure a) := by
  intro s a r hread
  obtain ⟨rfl, rfl⟩ := Prod.mk.inj (Option.some.inj hread)
  exact ⟨[], rfl, by simpa using h⟩

/-- What the first value weighs is the credit of the second parser. -/
theorem Spends.bind (hp : Spends free credit v p) (hf : ∀ a, Spends free (v a) w (f a)) :
    Spends free credit w (p.bind f) := by
  intro s b r h
  obtain ⟨a, t, hpa, hfa⟩ := bind_eq_some.mp h
  obtain ⟨t₁, rfl, hfirst⟩ := hp _ _ _ hpa
  obtain ⟨t₂, rfl, hsecond⟩ := hf a _ _ _ hfa
  refine ⟨t₁ ++ t₂, (List.append_assoc _ _ _).symm, ?_⟩
  rw [List.countP_append]
  omega

theorem Spends.map (hp : Spends free credit v p) {g : α → β} (h : ∀ a, w (g a) ≤ v a) :
    Spends free credit w (p.map g) :=
  hp.bind fun a => spends_pure (h a)

theorem Spends.mono (hp : Spends free credit v p) {v' : α → ℕ} (h : ∀ a, v' a ≤ v a) :
    Spends free credit v' p := by
  intro s a r hread
  obtain ⟨t, rfl, hle⟩ := hp _ _ _ hread
  exact ⟨t, rfl, (h a).trans hle⟩

theorem Spends.add (hp : Spends free credit v p) (k : ℕ) :
    Spends free (credit + k) (fun a => v a + k) p := by
  intro s a r h
  obtain ⟨t, rfl, hle⟩ := hp _ _ _ h
  exact ⟨t, rfl, by dsimp only; omega⟩

theorem spends_char {c : Char} (hc : c ≠ free) (credit : ℕ) :
    Spends free credit (fun _ => credit + 1) (char c) := by
  intro s a r h
  obtain rfl := char_eq_some.mp h
  exact ⟨[c], rfl, by simp [hc, Nat.add_comm]⟩

theorem spends_many (cls : Char → Bool) (credit : ℕ) :
    Spends free credit (fun _ => credit) (many cls) := by
  intro s a r h
  obtain ⟨rfl, rfl⟩ := Prod.mk.inj (Option.some.inj h)
  exact ⟨s.takeWhile cls, List.takeWhile_append_dropWhile.symm, Nat.le_add_left _ _⟩

theorem spends_many1 (cls : Char → Bool) (credit : ℕ) :
    Spends free credit (fun _ => credit) (many1 cls) := by
  intro s a r h
  by_cases hnil : s.takeWhile cls = []
  · simp [many1, hnil] at h
  · rw [many1, if_neg hnil] at h
    exact spends_many cls credit s a r h

theorem spends_word (t : Chars) (credit : ℕ) : Spends free credit (fun _ => credit) (word t) := by
  induction t with
  | nil => exact spends_pure (Nat.le_refl credit)
  | cons c t ih =>
    have hchar : Spends free credit (fun _ => credit) (char c) := by
      intro s a r h
      obtain rfl := char_eq_some.mp h
      exact ⟨[c], rfl, Nat.le_add_left _ _⟩
    exact hchar.bind fun _ => ih

theorem Spends.peek {cls : Char → Bool} {yes no : Parser α} (hyes : Spends free credit v yes)
    (hno : Spends free credit v no) : Spends free credit v (peek cls yes no) := by
  intro s a r h
  cases s with
  | nil => exact hno _ _ _ h
  | cons c s =>
    cases hc : cls c with
    | true => exact hyes _ _ _ ((peek_of_pos hc s).symm.trans h)
    | false => exact hno _ _ _ ((peek_of_neg hc s).symm.trans h)

variable {space : Char → Bool} {sep close : Char}

/-- Each value comes with a separator or the closing character. -/
theorem Spends.sepBy (hp : Spends free 0 v p) (hsep : sep ≠ free) (hclose : close ≠ free)
    (n credit : ℕ) :
    Spends free credit (fun as => (as.map (v · + 1)).sum + credit)
      (sepBy space sep close p n) := by
  induction n generalizing credit with
  | zero =>
    intro s a r h
    cases h
  | succ n ih =>
    have hfirst := hp.add credit
    rw [Nat.zero_add] at hfirst
    refine hfirst.bind fun a => (spends_many space _).bind fun _ => .peek ?_ ?_
    · refine (spends_char hsep _).bind fun _ => (ih _).map fun as => ?_
      rw [List.map_cons, List.sum_cons]
      omega
    · refine (spends_char hclose _).bind fun _ => spends_pure ?_
      rw [List.map_singleton, List.sum_singleton]
      omega

theorem Spends.items (hp : Spends free 0 v p) (hsep : sep ≠ free) (hclose : close ≠ free)
    (credit : ℕ) :
    Spends free credit (fun as => (as.map (v · + 1)).sum + credit)
      (items space sep close p) := by
  refine (spends_many space credit).bind fun _ => .peek ?_ ?_
  · exact (spends_char hclose credit).bind fun _ => spends_pure (by simp)
  · intro s a r h
    exact hp.sepBy hsep hclose _ credit s a r h

end Spends

end Parser

end GameCluster.Lib
