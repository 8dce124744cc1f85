import GameCluster.Lib.Fields
import GameCluster.Tables.Load

/-!
The names of a table. The generator names a sheet's message after the workbook and the
sheet, and the loader takes the name of the table's field from the path of its file. The two
go different ways: `getFileName` cuts every last letter of `.xlsx` off the workbook's name,
and only the generator takes underscores out. They agree on names without either, and lower
case keeps the names of different sheets apart.
-/

namespace GameCluster.Tables

open Lib

/-- The path of a workbook, as `walkFiles` has it below `./data`. -/
def workbookPath (file : Chars) : Chars := "data/".toList ++ file ++ ".xlsx".toList

/-- The path of a sheet's file, as the loader has it below `../target`. -/
def loadPath (file sheet : Chars) : Chars := "../".toList ++ jsonPath (getTargetPath file) sheet

/-- The path of the file that is written for a description. -/
def StructDesc.path (d : StructDesc) : Chars := jsonPath (getTargetPath d.parent) d.name

/-- The messages that are written for a description. -/
def StructDesc.messages (d : StructDesc) : List Chars := [d.message ++ "Row".toList, d.message]

/-- The generator made `table` from the sheet of the workbook. -/
def Made (file sheet : Name) (table : (Chars × Chars) × StructDesc) : Prop :=
  ∃ sheets w, readOneExcel (workbookPath file.text) sheets = .ok w ∧ table ∈ w.tables ∧
    table.2.name = sheet.text

def Name.EndsInXls (n : Name) : Prop := n.text.getLast? ∈ [some 'x', some 'l', some 's']

instance (n : Name) : Decidable n.EndsInXls := inferInstanceAs (Decidable (_ ∈ _))

/-- No letter is in upper case and there is no underscore. -/
def Name.Lower (n : Name) : Prop := ∀ c ∈ n.text, c.isUpper = false ∧ c ≠ '_'

instance (n : Name) : Decidable n.Lower := inferInstanceAs (Decidable (∀ c ∈ n.text, _))

/-! ### What the generator makes -/

variable {sheet file n : Name} {table : (Chars × Chars) × StructDesc}

theorem readSheet_ok {fileName : Chars} {sheet : Sheet} (h : readSheet fileName sheet = .ok table) :
    table.2.parent = fileName ∧ table.1.1 = jsonPath (getTargetPath fileName) table.2.name := by
  cases sheet with
  | mk name rows =>
    match rows with
    | [] => simp [readSheet] at h
    | [_] => simp [readSheet] at h
    | nameRow :: typeRow :: rows =>
      by_cases hlen : typeRow.length = nameRow.length
      · simp only [readSheet, makeOneStruct, hlen, ne_eq, not_true_eq_false, if_false] at h
        split at h
        · cases h
        · obtain rfl := Except.ok.inj h
          exact ⟨rfl, rfl⟩
      · simp [readSheet, makeOneStruct, hlen] at h

/-- Every description has the workbook's name as its parent, and a file below it. -/
theorem readSheets_ok {fileName : Chars} {sheets : List Sheet}
    {tables : List ((Chars × Chars) × StructDesc)} (h : readSheets fileName sheets = .ok tables)
    (htable : table ∈ tables) :
    table.2.parent = fileName ∧ table.1.1 = jsonPath (getTargetPath fileName) table.2.name := by
  induction sheets generalizing tables with
  | nil =>
    obtain rfl : [] = tables := by simpa [readSheets] using h
    cases htable
  | cons sheet sheets ih =>
    rw [readSheets] at h
    split_ifs at h
    · exact ih h htable
    · cases hsheet : readSheet fileName sheet with
      | error err => simp [hsheet] at h
      | ok first =>
        cases hrest : readSheets fileName sheets with
        | error err => simp [hsheet, hrest] at h
        | ok rest =>
          obtain rfl : first :: rest = tables := by simpa [hsheet, hrest] using h
          rcases List.mem_cons.mp htable with rfl | hmem
          · exact readSheet_ok hsheet
          · exact ih hrest hmem

theorem Made.parent (h : Made file sheet table) :
    table.2.parent = getFileName (workbookPath file.text) ∧ table.2.name = sheet.text ∧
      table.1.1 = jsonPath (getTargetPath table.2.parent) sheet.text := by
  obtain ⟨sheets, w, hw, htable, hname⟩ := h
  rw [readOneExcel] at hw
  split_ifs at hw
  cases hsetup : readSetupSheet sheets with
  | error err => simp [hsetup] at hw
  | ok setups =>
    cases hsheets : readSheets (getFileName (workbookPath file.text)) sheets with
    | error err => simp [hsetup, hsheets] at hw
    | ok tables =>
      obtain rfl : Workbook.mk setups tables = w := by simpa [hsetup, hsheets] using hw
      obtain ⟨hparent, hpath⟩ := readSheets_ok hsheets htable
      exact ⟨hparent, hname, by rw [hpath, hparent, hname]⟩

/-! ### The workbook's name -/

theorem Name.notMem_text (n : Name) {c : Char} (hword : c.isAlphanum = false) (hne : c ≠ '_') :
    c ∉ n.text := by
  intro hmem
  rcases Name.alphanum_or hmem with h | h
  · rw [hword] at h
    cases h
  · exact hne h

theorem slash_notMem (n : Name) : '/' ∉ n.text := n.notMem_text (by decide) (by decide)

/-- The name without the letters of `.xlsx` at its end, however many there are. -/
theorem getFileName_workbookPath (file : Chars) :
    getFileName (workbookPath file) = trimRight ".xlsx".toList file := by
  have hpath : workbookPath file = "data".toList ++ '/' :: (file ++ ".xlsx".toList) := rfl
  have hindex : index '/' (workbookPath file) = some 4 := by
    rw [hpath, index_append (by decide)]
    rfl
  rw [getFileName, hindex, hpath]
  simp only
  rw [trimRight_append_cons (by decide), trimRight_append (by simp)]
  rfl

theorem getFileName_eq_iff (file : Name) :
    getFileName (workbookPath file.text) = file.text ↔ ¬ file.EndsInXls := by
  rw [getFileName_workbookPath, trimRight_eq_self_iff, Name.EndsInXls]
  obtain ⟨last, hlast⟩ : ∃ c, file.text.getLast? = some c :=
    ⟨_, List.getLast?_eq_some_getLast (by simp [Name.text])⟩
  have hdot : last ≠ '.' := by
    rintro rfl
    exact file.notMem_text (by decide) (by decide) (List.mem_of_getLast? hlast)
  simp +contextual [hlast, hdot]

/-! ### The name of a table -/

theorem jsonPath_target (file sheet : Chars) : jsonPath (getTargetPath file) sheet =
    "target".toList ++ '/' :: (file ++ '/' :: sheet ++ ".json".toList) := by
  simp only [jsonPath, getTargetPath, List.append_assoc]
  rfl

theorem fieldNameByPath_loadPath (file sheet : Name) :
    fieldNameByPath (loadPath file.text sheet.text) = title file.text ++ title sheet.text := by
  let names : Chars := file.text ++ '/' :: sheet.text
  have hpath : loadPath file.text sheet.text =
      "..".toList ++ '/' :: ("target".toList ++ '/' :: (names ++ ".json".toList)) := by
    rw [loadPath, jsonPath_target]
    rfl
  have hfirst : index '/' (loadPath file.text sheet.text) = some 2 := by
    rw [hpath, index_append (by decide)]
    rfl
  have hrest : (loadPath file.text sheet.text).drop 3 =
      "target".toList ++ '/' :: (names ++ ".json".toList) := by
    rw [hpath]
    rfl
  have hsecond : index '/' ("target".toList ++ '/' :: (names ++ ".json".toList)) = some 6 := by
    rw [index_append (by decide)]
    rfl
  have htrim : trimSuffix ".json".toList ("target".toList ++ '/' :: (names ++ ".json".toList)) =
      "target".toList ++ '/' :: names := by
    rw [← List.cons_append, ← List.append_assoc, trimSuffix_append]
  have hdrop : ("target".toList ++ '/' :: names).drop 7 = names := rfl
  have hsplit : names.splitOn '/' = [file.text, sheet.text] := by
    rw [List.splitOn_append_cons_self, List.splitOn_eq_singleton (slash_notMem file),
      List.splitOn_eq_singleton (slash_notMem sheet)]
    rfl
  rw [fieldNameByPath, hfirst]
  simp only [Nat.reduceAdd, hrest, hsecond, htrim, hdrop, hsplit]
  simp

/-- The two capital letters of a table's name. -/
theorem title_append (file sheet : Name) : title file.text ++ title sheet.text =
    file.first.toUpper :: (file.rest ++ sheet.first.toUpper :: sheet.rest) := by
  rw [Name.title_text, Name.title_text, List.cons_append]

theorem Name.underscore_mem_rest (n : Name) : '_' ∈ n.text ↔ '_' ∈ n.rest := by
  rw [Name.text, List.mem_cons, or_iff_right n.first_ne_underscore.symm]

theorem underscore_notMem_title (file sheet : Name) :
    '_' ∉ title file.text ++ title sheet.text ↔ '_' ∉ file.text ∧ '_' ∉ sheet.text := by
  have hfile := (toUpper_ne_underscore file.first_ne_underscore).symm
  have hsheet := (toUpper_ne_underscore sheet.first_ne_underscore).symm
  rw [title_append, file.underscore_mem_rest, sheet.underscore_mem_rest]
  simp [hfile, hsheet]

theorem message_of_notMem (hfile : '_' ∉ file.text) (hsheet : '_' ∉ sheet.text) :
    snakeToCamel (title file.text ++ title sheet.text) = title file.text ++ title sheet.text := by
  have hmem := (underscore_notMem_title file sheet).mpr ⟨hfile, hsheet⟩
  rw [snakeToCamel_of_notMem hmem, title_append, capitalize, toUpper_toUpper]

/-- The generated name is the loader's exactly if there is no underscore to take out. -/
theorem snakeToCamel_title_eq_iff (file sheet : Name) :
    title file.text ++ title sheet.text = snakeToCamel (title file.text ++ title sheet.text) ↔
      '_' ∉ file.text ∧ '_' ∉ sheet.text := by
  constructor
  · intro h
    rw [← underscore_notMem_title, h]
    exact underscore_notMem_snakeToCamel _
  · rintro ⟨hfile, hsheet⟩
    exact (message_of_notMem hfile hsheet).symm

/-! ### Different sheets -/

theorem jsonPath_inj {file file' sheet sheet' : Name}
    (h : jsonPath (getTargetPath file.text) sheet.text =
      jsonPath (getTargetPath file'.text) sheet'.text) : file = file' ∧ sheet = sheet' := by
  rw [jsonPath_target, jsonPath_target] at h
  have hnames : file.text ++ '/' :: sheet.text = file'.text ++ '/' :: sheet'.text :=
    List.append_cancel_right (List.cons.inj (List.append_cancel_left h)).2
  obtain ⟨hfile, hsheet⟩ := append_sep_inj (slash_notMem file) (slash_notMem file') hnames
  exact ⟨Name.text_inj hfile, Name.text_inj hsheet⟩

theorem Name.Lower.isLower_first (h : n.Lower) : n.first.isLower = true := by
  have halpha : (n.first.isUpper || n.first.isLower) = true := n.alpha
  rw [(h n.first (by simp [Name.text])).1, Bool.false_or] at halpha
  exact halpha

theorem Name.Lower.not_isUpper (h : n.Lower) : ∀ c ∈ n.rest, ¬ c.isUpper = true := by
  intro c hc
  rw [(h c (by simp [Name.text, hc])).1]
  decide

theorem Name.Lower.underscore_notMem (h : n.Lower) : '_' ∉ n.text :=
  fun hmem => (h '_' hmem).2 rfl

section Lower

variable {file sheet file' sheet' : Name} (hfile : file.Lower) (hsheet : sheet.Lower)
  (hfile' : file'.Lower) (hsheet' : sheet'.Lower)

include hfile hsheet hfile' hsheet'

/-- The capitals show where the sheet's name begins. -/
theorem title_append_inj {x y : Chars}
    (h : title file.text ++ title sheet.text ++ x = title file'.text ++ title sheet'.text ++ y) :
    file = file' ∧ sheet.first = sheet'.first ∧ sheet.rest ++ x = sheet'.rest ++ y := by
  simp only [title_append, List.cons_append, List.append_assoc] at h
  obtain ⟨hfirst, hrest⟩ := List.cons.inj h
  obtain ⟨hname, hmark, htail⟩ := append_marked_inj hfile.not_isUpper hfile'.not_isUpper
    (isUpper_toUpper hsheet.isLower_first) (isUpper_toUpper hsheet'.isLower_first) hrest
  refine ⟨Name.text_inj ?_, ?_, htail⟩
  · rw [Name.text, Name.text, hname, ← toLower_toUpper hfile.isLower_first, hfirst,
      toLower_toUpper hfile'.isLower_first]
  · rw [← toLower_toUpper hsheet.isLower_first, hmark, toLower_toUpper hsheet'.isLower_first]

/-- The third capital tells the message of the rows from a table's. -/
theorem title_append_row_ne :
    title file.text ++ title sheet.text ++ "Row".toList ≠
      title file'.text ++ title sheet'.text := by
  intro heq
  rw [← List.append_nil (title file'.text ++ _)] at heq
  obtain ⟨-, -, hrest⟩ := title_append_inj hfile hsheet hfile' hsheet' heq
  have hmem : 'R' ∈ sheet'.rest := by
    rw [← List.append_nil sheet'.rest, ← hrest, List.mem_append]
    exact .inr (by decide)
  exact hsheet'.not_isUpper 'R' hmem (by decide)

theorem title_append_ne (hne : ¬ (file = file' ∧ sheet = sheet')) :
    title file.text ++ title sheet.text ≠ title file'.text ++ title sheet'.text := by
  intro heq
  rw [← List.append_nil (_ ++ _), ← List.append_nil (title file'.text ++ _)] at heq
  obtain ⟨hf, hfirst, hrest⟩ := title_append_inj hfile hsheet hfile' hsheet' heq
  rw [List.append_nil, List.append_nil] at hrest
  exact hne ⟨hf, Name.text_inj (by rw [Name.text, Name.text, hfirst, hrest])⟩

/-- Different sheets have no message in common. -/
theorem messages_disjoint {d d' : StructDesc}
    (hd : d.message = title file.text ++ title sheet.text)
    (hd' : d'.message = title file'.text ++ title sheet'.text)
    (hne : ¬ (file = file' ∧ sheet = sheet')) : d.messages.Disjoint d'.messages := by
  have hname := title_append_ne hfile hsheet hfile' hsheet' hne
  have hrow := title_append_row_ne hfile hsheet hfile' hsheet'
  have hrow' := title_append_row_ne hfile' hsheet' hfile hsheet
  intro m hm hm'
  simp only [StructDesc.messages, hd, hd', List.mem_cons, List.not_mem_nil, or_false] at hm hm'
  rcases hm with rfl | rfl <;> rcases hm' with h | h
  · exact hname (List.append_cancel_right h)
  · exact hrow h
  · exact hrow' h.symm
  · exact hname h

end Lower

/-- No table is called like the message that holds them all. -/
theorem data_notMem_messages (hsheet : sheet.Lower) {d : StructDesc}
    (hd : d.message = title file.text ++ title sheet.text) : "Data".toList ∉ d.messages := by
  have hcapital (x : Chars) : "Data".toList ≠ title file.text ++ title sheet.text ++ x := by
    intro heq
    rw [title_append] at heq
    have hmem : sheet.first.toUpper ∈ "ata".toList := by
      rw [show "ata".toList = file.rest ++ sheet.first.toUpper :: sheet.rest ++ x from
        (List.cons.inj heq).2]
      simp
    have hupper := isUpper_toUpper hsheet.isLower_first
    have hnone : ∀ c ∈ "ata".toList, c.isUpper = false := by decide
    rw [hnone _ hmem] at hupper
    cases hupper
  intro hmem
  simp only [StructDesc.messages, hd, List.mem_cons, List.not_mem_nil, or_false] at hmem
  rcases hmem with h | h
  · exact hcapital _ h
  · exact hcapital [] (by rw [List.append_nil, h])

theorem Made.message (h : Made file sheet table) (hkept : ¬ file.EndsInXls) :
    table.2.message = snakeToCamel (title file.text ++ title sheet.text) := by
  obtain ⟨hparent, hname, -⟩ := h.parent
  rw [StructDesc.message, hparent, hname, (getFileName_eq_iff file).mpr hkept]

/-- A workbook keeps its name, and the loader finds a table under the name that the generator
gave it, exactly if the workbook's name ends in none of the letters of `.xlsx` and no name has
an underscore. Such sheets have files of their own. If their names are in lower case their
messages also have names of their own. -/
theorem table_names_agree_iff (file sheet : Name) (table : (Chars × Chars) × StructDesc)
    (h : Made file sheet table) :
    (getFileName (workbookPath file.text) = file.text ∧
        "../".toList ++ table.1.1 = loadPath file.text sheet.text ∧
        fieldNameByPath (loadPath file.text sheet.text) = (writeOneProto table.2).2 ↔
      ¬ file.EndsInXls ∧ '_' ∉ file.text ∧ '_' ∉ sheet.text) ∧
    (¬ file.EndsInXls → ∀ (file' sheet' : Name) (table' : (Chars × Chars) × StructDesc),
      Made file' sheet' table' → ¬ file'.EndsInXls →
        (table.1.1 = table'.1.1 ↔ file = file' ∧ sheet = sheet') ∧
        (file.Lower → sheet.Lower → file'.Lower → sheet'.Lower →
          ¬ (file = file' ∧ sheet = sheet') → table.2.messages.Disjoint table'.2.messages)) ∧
    (¬ file.EndsInXls → file.Lower → sheet.Lower → "Data".toList ∉ table.2.messages) := by
  obtain ⟨hparent, hname, hpath⟩ := h.parent
  refine ⟨?_, ?_, ?_⟩
  · rw [fieldNameByPath_loadPath, getFileName_eq_iff]
    constructor
    · rintro ⟨hkept, -, heq⟩
      have hmessage : (writeOneProto table.2).2 = _ := h.message hkept
      exact ⟨hkept, (snakeToCamel_title_eq_iff file sheet).mp (heq.trans hmessage)⟩
    · rintro ⟨hkept, hplain⟩
      refine ⟨hkept, ?_, ?_⟩
      · rw [hpath, hparent, (getFileName_eq_iff file).mpr hkept, loadPath]
      · exact ((snakeToCamel_title_eq_iff file sheet).mpr hplain).trans (h.message hkept).symm
  · intro hkept file' sheet' table' h' hkept'
    obtain ⟨hparent', -, hpath'⟩ := h'.parent
    refine ⟨?_, ?_⟩
    · rw [hpath, hpath', hparent, hparent', (getFileName_eq_iff file).mpr hkept,
        (getFileName_eq_iff file').mpr hkept']
      constructor
      · exact jsonPath_inj
      · rintro ⟨rfl, rfl⟩
        rfl
    · intro hf hs hf' hs' hne
      have hmessage := message_of_notMem hf.underscore_notMem hs.underscore_notMem
      have hmessage' := message_of_notMem hf'.underscore_notMem hs'.underscore_notMem
      exact messages_disjoint hf hs hf' hs' ((h.message hkept).trans hmessage)
        ((h'.message hkept').trans hmessage') hne
  · intro hkept hf hs
    have hmessage := message_of_notMem hf.underscore_notMem hs.underscore_notMem
    exact data_notMem_messages hs ((h.message hkept).trans hmessage)

/-- A workbook with one sheet, which has one column and one row. -/
def oneRow (sheet : Name) : List Sheet :=
  [{ name := sheet.text, rows := [["id".toList], ["int32".toList], ["1".toList]] }]

/-- What is made of it. -/
def oneRowTable (file sheet : Name) : (Chars × Chars) × StructDesc :=
  let desc := {
    field := [{ name := "Id".toList, typ := "int32".toList }]
    name := sheet.text
    parent := getFileName (workbookPath file.text) }
  ((desc.path, "[\n\x7b\"Id\":1\x7d\n]".toList), desc)

theorem made_oneRowTable (file sheet : Name) (hsheet : sheet.text ≠ setupSheet) :
    Made file sheet (oneRowTable file sheet) := by
  refine ⟨oneRow sheet, { setups := ∅, tables := [oneRowTable file sheet] }, ?_, by simp, rfl⟩
  simp only [readOneExcel, readSetupSheet, oneRow, readSheets, List.getLast?_singleton,
    if_neg hsheet, reduceCtorEq, if_false]
  rfl

theorem login_condition_agrees :
    ∃ table, Made ⟨'l', "ogin".toList, by decide, by decide⟩
        ⟨'c', "ondition".toList, by decide, by decide⟩ table ∧
      fieldNameByPath "../target/login/condition.json".toList = (writeOneProto table.2).2 := by
  have hmade := made_oneRowTable ⟨'l', "ogin".toList, by decide, by decide⟩
    ⟨'c', "ondition".toList, by decide, by decide⟩ (by decide)
  exact ⟨_, hmade, ((table_names_agree_iff _ _ _ hmade).1.mpr (by decide)).2.2⟩

/-- The workbook `levels` becomes `leve`, the table of `a` and `b_c` is looked for under
`AB_c`, `tables` and `table` have one file, and `aB`, `c` have the name of `a`, `bC`. -/
theorem names_disagree :
    (∃ table, Made ⟨'l', "evels".toList, by decide, by decide⟩
        ⟨'b', "ase".toList, by decide, by decide⟩ table ∧
      getFileName (workbookPath "levels".toList) = "leve".toList) ∧
    (∃ table, Made ⟨'a', [], by decide, by decide⟩ ⟨'b', "_c".toList, by decide, by decide⟩ table ∧
      fieldNameByPath "../target/a/b_c.json".toList = "AB_c".toList ∧
      (writeOneProto table.2).2 = "ABC".toList) ∧
    (∃ table table', Made ⟨'t', "ables".toList, by decide, by decide⟩
          ⟨'b', "ase".toList, by decide, by decide⟩ table ∧
        Made ⟨'t', "able".toList, by decide, by decide⟩
          ⟨'b', "ase".toList, by decide, by decide⟩ table' ∧ table.1.1 = table'.1.1) ∧
    ∃ table table', Made ⟨'a', "B".toList, by decide, by decide⟩ ⟨'c', [], by decide, by decide⟩
          table ∧
        Made ⟨'a', [], by decide, by decide⟩ ⟨'b', "C".toList, by decide, by decide⟩ table' ∧
        (writeOneProto table.2).2 = (writeOneProto table'.2).2 := by
  refine ⟨⟨_, made_oneRowTable _ _ (by decide), by decide⟩,
    ⟨_, made_oneRowTable _ _ (by decide), by decide, by decide⟩,
    ⟨_, _, made_oneRowTable _ _ (by decide), made_oneRowTable _ _ (by decide), by decide⟩,
    ⟨_, _, made_oneRowTable _ _ (by decide), made_oneRowTable _ _ (by decide), by decide⟩⟩

end GameCluster.Tables
