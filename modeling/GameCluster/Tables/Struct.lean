import GameCluster.Lib.Text

/-!
The structure descriptions of `tb_load/make_cfg`: what the first two rows of a sheet say
about its columns, and the protobuf messages that are generated from them. A sheet gets a
message for its rows and a message for the table, and `Data` has one field per table.
-/

namespace GameCluster.Tables

open Lib

structure FieldDesc where
  name : Chars
  typ : Chars
  deriving DecidableEq, Repr

structure StructDesc where
  field : List FieldDesc
  name : Chars
  parent : Chars
  deriving DecidableEq, Repr

/-- `util.ToString` of a number. -/
def number (n : ℕ) : Chars := n.repr.toList

def snakeToCamel (s : Chars) : Chars := (s.splitOn '_').flatMap capitalize

/-- The description of a sheet, or the text of the error. The caller sets the parent. -/
def makeOneStruct (sheetName : Chars) (typ name : List Chars) : Except String StructDesc :=
  if typ.length ≠ name.length then .error "type and name length do not match"
  else .ok {
    field := List.zipWith (fun t n => { name := snakeToCamel n, typ := t }) typ name
    name := sheetName
    parent := [] }

/-- The name of a description's message. -/
def StructDesc.message (o : StructDesc) : Chars := snakeToCamel (title o.parent ++ title o.name)

/-- The lines of a message's fields, numbered from 1. -/
def fieldLines (field : List FieldDesc) : Chars :=
  (field.zipIdx.map fun (f, i) =>
    "\t".toList ++ f.typ ++ "\t".toList ++ title f.name ++ "\t\t\t = ".toList ++ number (i + 1) ++
      ";\n".toList).flatten

/-- The messages of a sheet as written, and the name of the table's message. -/
def writeOneProto (o : StructDesc) : Chars × Chars :=
  let name := o.message
  let nameRow := name ++ "Row".toList
  ("\nmessage ".toList ++ nameRow ++ " \x7b\n".toList ++ fieldLines o.field ++ "\x7d\n".toList ++
    "\nmessage ".toList ++ name ++ " \x7b\n".toList ++
    "\trepeated\t".toList ++ nameRow ++ "\t List = 1;\n".toList ++
    "\tmap<string, ".toList ++ nameRow ++ ">\t Map = 2;\n".toList ++ "\x7d\n".toList, name)

def writeDataStruct (o : StructDesc) : Chars × Chars :=
  let name := o.message
  ("\nmessage ".toList ++ name ++ " \x7b\n".toList ++ fieldLines o.field ++ "\x7d\n".toList, name)

/-- `cfg.proto`, for the sheets in the order in which the map of directories is walked. -/
def writeProtoFile (desc : List (List StructDesc)) : Chars :=
  let tables := desc.flatten.map writeOneProto
  let fDesc : StructDesc := {
    field := tables.map fun table => { name := table.2, typ := table.2 }
    name := "Data".toList
    parent := [] }
  "syntax = \"proto3\";\n".toList ++ "package tb;\n".toList ++
    "option go_package = \"./;tb\";\n".toList ++ (tables.map (·.1)).flatten ++
    (writeDataStruct fDesc).1

/-! ### Names -/

/-- The name of a workbook or a sheet: a letter, then letters, digits and underscores. -/
structure Name where
  first : Char
  rest : Chars
  alpha : first.isAlpha = true
  word : ∀ c ∈ rest, c.isAlphanum = true ∨ c = '_'
  deriving DecidableEq

namespace Name

def text (n : Name) : Chars := n.first :: n.rest

variable {n : Name} {c : Char}

theorem text_inj {n' : Name} (h : n.text = n'.text) : n = n' := by
  cases n
  cases n'
  obtain ⟨rfl, rfl⟩ := List.cons.inj h
  rfl

theorem alphanum_or (hc : c ∈ n.text) : c.isAlphanum = true ∨ c = '_' := by
  rcases List.mem_cons.mp hc with rfl | hc
  · left
    rw [Char.isAlphanum, n.alpha, Bool.true_or]
  · exact n.word c hc

theorem isSeparator_eq_false (hc : c ∈ n.text) : isSeparator c = false := by
  rcases alphanum_or hc with h | rfl
  · simp [isSeparator, h]
  · decide

theorem title_text (n : Name) : title n.text = n.first.toUpper :: n.rest :=
  title_of_word (isSeparator_eq_false (n := n) (by simp [text]))
    fun _ hd => isSeparator_eq_false (n := n) (by simp [text, hd])

theorem first_ne_underscore (n : Name) : n.first ≠ '_' := by
  intro heq
  have halpha := n.alpha
  rw [heq] at halpha
  exact absurd halpha (by decide)

end Name

theorem capitalize_of_not_underscore {s : Chars} (hs : '_' ∉ s) : '_' ∉ capitalize s := by
  cases s with
  | nil => simp [capitalize]
  | cons c s =>
    rw [List.mem_cons, not_or] at hs
    rw [capitalize, List.mem_cons, not_or]
    exact ⟨(toUpper_ne_underscore (Ne.symm hs.1)).symm, hs.2⟩

/-- The camel-cased name has no underscore left. -/
theorem underscore_notMem_snakeToCamel (s : Chars) : '_' ∉ snakeToCamel s := by
  rw [snakeToCamel, List.mem_flatMap]
  rintro ⟨part, hpart, hmem⟩
  exact capitalize_of_not_underscore (fun hd => (of_mem_splitOn hpart hd).2 rfl) hmem

theorem snakeToCamel_of_notMem {s : Chars} (hs : '_' ∉ s) : snakeToCamel s = capitalize s := by
  rw [snakeToCamel, List.splitOn_eq_singleton hs, List.flatMap_singleton]

/-- A camel-cased name begins in upper case. -/
theorem snakeToCamel_cases (s : Chars) :
    snakeToCamel s = [] ∨ ∃ c t, snakeToCamel s = Char.toUpper c :: t := by
  rw [snakeToCamel]
  induction s.splitOn '_' with
  | nil => exact .inl rfl
  | cons part parts ih =>
    cases part with
    | nil => exact ih
    | cons c part => exact .inr ⟨c, part ++ parts.flatMap capitalize, rfl⟩

theorem isAlphanum_of_mem_camel {s : Chars} {c : Char}
    (hs : ∀ d ∈ s, d.isAlphanum = true ∨ d = '_') (hc : c ∈ snakeToCamel s) :
    c.isAlphanum = true := by
  rw [snakeToCamel, List.mem_flatMap] at hc
  obtain ⟨part, hpart, hc⟩ := hc
  have hword : ∀ d ∈ part, d.isAlphanum = true := by
    intro d hd
    obtain ⟨hmem, hne⟩ := of_mem_splitOn hpart hd
    exact (hs d hmem).resolve_right hne
  cases part with
  | nil => cases hc
  | cons d part =>
    rcases List.mem_cons.mp hc with rfl | hc
    · exact isAlphanum_toUpper (hword d (by simp))
    · exact hword c (by simp [hc])

/-- It is a word that `strings.Title` leaves alone. -/
theorem title_camel {s : Chars} (hs : ∀ d ∈ s, d.isAlphanum = true ∨ d = '_') :
    title (snakeToCamel s) = snakeToCamel s := by
  have hword : ∀ c ∈ snakeToCamel s, isSeparator c = false := by
    intro c hc
    simp [isSeparator, isAlphanum_of_mem_camel hs hc]
  rcases snakeToCamel_cases s with hnil | ⟨c, t, ht⟩
  · rw [hnil]
    rfl
  · rw [ht] at hword ⊢
    obtain ⟨hfirst, hrest⟩ := List.forall_mem_cons.mp hword
    rw [title_of_word hfirst hrest, toUpper_toUpper]

end GameCluster.Tables
