import Mathlib.Data.List.DropRight
import Mathlib.Data.String.Basic

/-!
Texts made of fields with one character between them. A field in which that
character does not occur can be read back from either end of the text, and a
list of such fields that were joined can be split again.
-/

namespace GameCluster.Lib

variable {τ : Type*} [DecidableEq τ] {sep : τ}

omit [DecidableEq τ] in
/-- A text is cut in one way before its first marked character. -/
theorem append_marked_inj {marked : τ → Prop} {a b x y : List τ} {c d : τ}
    (ha : ∀ e ∈ a, ¬ marked e) (hb : ∀ e ∈ b, ¬ marked e) (hc : marked c) (hd : marked d)
    (h : a ++ c :: x = b ++ d :: y) : a = b ∧ c = d ∧ x = y := by
  induction a generalizing b with
  | nil =>
    cases b with
    | nil =>
      obtain ⟨rfl, rfl⟩ := List.cons.inj h
      exact ⟨rfl, rfl, rfl⟩
    | cons e b =>
      obtain ⟨rfl, -⟩ := List.cons.inj h
      exact absurd hc (hb c (by simp))
  | cons e a ih =>
    cases b with
    | nil =>
      obtain ⟨rfl, -⟩ := List.cons.inj h
      exact absurd hd (ha e (by simp))
    | cons e' b =>
      obtain ⟨rfl, htail⟩ := List.cons.inj h
      obtain ⟨rfl, hrest⟩ :=
        ih (List.forall_mem_cons.mp ha).2 (List.forall_mem_cons.mp hb).2 htail
      exact ⟨rfl, hrest⟩

omit [DecidableEq τ] in
/-- The first field and what follows it are determined by the text. -/
theorem append_sep_inj {a b x y : List τ} (ha : sep ∉ a) (hb : sep ∉ b)
    (h : a ++ sep :: x = b ++ sep :: y) : a = b ∧ x = y := by
  have hmark {l : List τ} (hl : sep ∉ l) : ∀ e ∈ l, ¬ (· = sep) e := by
    rintro e he rfl
    exact hl he
  obtain ⟨hab, -, hxy⟩ := append_marked_inj (hmark ha) (hmark hb) rfl rfl h
  exact ⟨hab, hxy⟩

/-- Splitting from the end gives the last two fields first. -/
theorem splitOn_reverse_two (rest : List τ) {a b : List τ} (ha : sep ∉ a) (hb : sep ∉ b) :
    ((rest ++ sep :: (a ++ sep :: b)).splitOn sep).reverse =
      b :: a :: (rest.splitOn sep).reverse := by
  rw [List.splitOn_append_cons_self, List.splitOn_append_cons_self, List.splitOn_eq_singleton ha,
    List.splitOn_eq_singleton hb]
  simp

/-- The text without the separators at its two ends. -/
def trim (sep : τ) (l : List τ) : List τ := (l.dropWhile (· == sep)).rdropWhile (· == sep)

theorem trim_sep_cons (l : List τ) : trim sep (sep :: l) = trim sep l := by
  rw [trim, List.dropWhile_cons_of_pos (by simp), trim]

/-- A text that begins with another character and ends with a field. -/
theorem trim_of_ends {c : τ} (hc : c ≠ sep) (l : List τ) {a : List τ} (hne : a ≠ [])
    (ha : sep ∉ a) : trim sep (c :: (l ++ a)) = c :: (l ++ a) := by
  have hlast : a.getLast hne ≠ sep := fun heq => ha (heq ▸ List.getLast_mem hne)
  rw [trim, List.dropWhile_cons_of_neg (by simpa using hc), List.rdropWhile_eq_self_iff]
  intro hl
  rw [List.getLast_cons (List.append_ne_nil_of_right_ne_nil l hne),
    List.getLast_append_of_ne_nil _ hne]
  simpa using hlast

theorem notMem_of_mem_splitOn {l x : List τ} (h : x ∈ l.splitOn sep) : sep ∉ x := by
  induction l generalizing x with
  | nil =>
    obtain rfl : x = [] := by simpa [List.splitOn] using h
    exact List.not_mem_nil
  | cons c l ih =>
    obtain ⟨first, rest, hl⟩ := List.exists_cons_of_ne_nil (List.splitOn_ne_nil sep l)
    rw [List.splitOn, List.splitOnP_cons_eq_if_modifyHead, ← List.splitOn, hl] at h
    rw [hl] at ih
    split at h
    · obtain rfl | hx := List.mem_cons.mp h
      · exact List.not_mem_nil
      · exact ih hx
    · rename_i hc
      obtain rfl | hx := List.mem_cons.mp h
      · have hne : sep ≠ c := fun heq => hc (by simp [heq])
        simpa [hne] using ih List.mem_cons_self
      · exact ih (List.mem_cons_of_mem _ hx)

section Strings

open String

theorem unoffsetBy_add (a b : ℕ) : (⟨a + b⟩ : Pos.Raw).unoffsetBy ⟨b⟩ = ⟨a⟩ := by
  rw [Pos.Raw.unoffsetBy, Nat.add_sub_cancel]

/-- The loop of `String.splitOn` between two characters: `l` has been split off, `m` is
the field so far and `r` is to come. -/
theorem splitOnAux_singleton (c : Char) (l m r : List Char) (acc : List String) :
    splitOnAux (ofList (l ++ m ++ r)) (singleton c) ⟨utf8Len l⟩ ⟨utf8Len l + utf8Len m⟩ 0 acc =
      acc.reverse ++ (r.splitOnPPrepend (· == c) m.reverse).map ofList := by
  induction r generalizing l m acc with
  | nil =>
    have hend : Pos.Raw.atEnd (ofList (l ++ m ++ [])) ⟨utf8Len l + utf8Len m⟩ = true := by
      rw [← utf8Len_append]
      exact (atEnd_of_valid (l ++ m) []).mpr rfl
    rw [splitOnAux, if_pos hend, extract_of_valid l m []]
    simp
  | cons d r ih =>
    have hend : ¬Pos.Raw.atEnd (ofList (l ++ m ++ d :: r)) ⟨utf8Len l + utf8Len m⟩ = true := by
      rw [← utf8Len_append]
      exact mt (atEnd_of_valid (l ++ m) (d :: r)).mp (List.cons_ne_nil d r)
    have hget : Pos.Raw.get (ofList (l ++ m ++ d :: r)) ⟨utf8Len l + utf8Len m⟩ = d := by
      rw [← utf8Len_append]
      exact get_of_valid (l ++ m) (d :: r)
    have hnext : Pos.Raw.next (ofList (l ++ m ++ d :: r)) ⟨utf8Len l + utf8Len m⟩ =
        ⟨utf8Len l + utf8Len m + d.utf8Size⟩ := by
      rw [← utf8Len_append]
      exact next_of_valid (l ++ m) d r
    have hsep : Pos.Raw.get (singleton c) 0 = c := get_of_valid [] [c]
    have hsepNext : Pos.Raw.next (singleton c) 0 = ⟨c.utf8Size⟩ := by
      simpa using next_of_valid [] c []
    have hsepEnd : Pos.Raw.atEnd (singleton c) ⟨c.utf8Size⟩ = true := by
      simpa using atEnd_of_valid [c] []
    rw [splitOnAux, if_neg hend, hget, hsep, hnext, hsepNext]
    dsimp only
    rw [hsepEnd, if_pos rfl, List.splitOnPPrepend_cons_eq_if]
    by_cases hd : d = c
    · subst hd
      have hrest := ih (l ++ m ++ [d]) [] (ofList m :: acc)
      rw [if_pos (by simp), if_pos (by simp), unoffsetBy_add, extract_of_valid]
      simpa [Nat.add_assoc] using hrest
    · have hrest := ih l (m ++ [d]) acc
      have hstay : (⟨utf8Len l + utf8Len m⟩ : Pos.Raw).unoffsetBy 0 =
          ⟨utf8Len l + utf8Len m⟩ := unoffsetBy_add _ 0
      rw [if_neg (by simpa using hd), if_neg (by simpa using hd), hstay, hnext]
      simpa [Nat.add_assoc] using hrest

theorem splitOn_singleton (s : String) (c : Char) :
    s.splitOn (singleton c) = (s.toList.splitOn c).map ofList := by
  have hloop := splitOnAux_singleton c [] [] s.toList []
  simp only [List.nil_append, ofList_toList, List.reverse_nil] at hloop
  rw [splitOn, if_neg (by simp)]
  exact hloop

/-- Fields come back from a text they were joined into exactly if none has the separator. -/
theorem splitOn_intercalate_singleton {c : Char} {fields : List String} (hne : fields ≠ []) :
    (String.intercalate (singleton c) fields).splitOn (singleton c) = fields ↔
      ∀ f ∈ fields, c ∉ f.toList := by
  rw [splitOn_singleton]
  constructor
  · intro heq f hf
    rw [← heq] at hf
    obtain ⟨piece, hpiece, rfl⟩ := List.mem_map.mp hf
    rw [toList_ofList]
    exact notMem_of_mem_splitOn hpiece
  · intro hsep
    rw [toList_intercalate, toList_singleton, List.splitOn_intercalate]
    · simp
    · simpa using hsep
    · simpa using hne

end Strings

end GameCluster.Lib
