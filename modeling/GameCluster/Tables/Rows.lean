import GameCluster.Tables.Load

/-!
The way of a sheet's rows through its JSON file. The writer puts the text together by hand and
pastes the cells of string columns between quotes as they are. A sheet whose string cells have
no character with a meaning there comes back row by row, whatever the number of rows and
columns; one cell with a quote is enough to make the file unreadable, and one with a
backslash comes back as another text.
-/

namespace GameCluster.Tables

open Lib
open GameCluster.Lib.Json hiding join
open GameCluster.Lib.Parser hiding pure bind map

/-- A column's name, of letters, digits and underscores, and its type, from the first
two rows of a sheet. -/
structure Column where
  name : Chars
  typ : Chars
  word : ∀ c ∈ name, c.isAlphanum = true ∨ c = '_'

/-- How deep the value of a cell may be nested, which is in a row of the list. -/
def cellDepth : ℕ := maxNestingDepth - 2

section Sheet

variable {V : Type} (types : Types V)

/-- The field that a cell stands for. -/
def cellField (typ cell : Chars) : Option (Field V) :=
  if typ = "string".toList then some (.str cell)
  else (Json.parse cellDepth cell).bind (types.decode typ (types.zero typ))

/-- A row of cells, one for each column and none empty, and the fields they stand for. -/
inductive RowOf : List Column → List Chars → Row V → Prop where
  | nil : RowOf [] [] []
  | cons {column : Column} {columns : List Column} {cell : Chars} {cells : List Chars}
      {field : Field V} {row : Row V} (hne : cell ≠ [])
      (hcell : cellField types column.typ cell = some field) (hrest : RowOf columns cells row) :
      RowOf (column :: columns) (cell :: cells) (field :: row)

end Sheet

/-- No string cell has a character with a meaning in a JSON string. -/
def PlainStrings (columns : List Column) (cells : List Chars) : Prop :=
  ∀ x ∈ columns.zip cells, x.1.typ = "string".toList → Plain x.2

instance (columns : List Column) (cells : List Chars) : Decidable (PlainStrings columns cells) :=
  inferInstanceAs (Decidable (∀ x ∈ columns.zip cells, _ → Plain x.2))

/-- All rows of a sheet. -/
def sheetRows (columns : List Column) (data : List (List Chars)) : List (List Chars) :=
  columns.map (·.name) :: columns.map (·.typ) :: data

def columnFields (columns : List Column) : List FieldDesc :=
  columns.map fun c => { name := snakeToCamel c.name, typ := c.typ }

theorem makeOneStruct_columns (sheetName : Chars) (columns : List Column) :
    makeOneStruct sheetName (columns.map (·.typ)) (columns.map (·.name)) =
      .ok { field := columnFields columns, name := sheetName, parent := [] } := by
  rw [makeOneStruct, if_neg (by simp), List.zipWith_map, List.zipWith_self]
  rfl

theorem structFields_columns {desc : StructDesc} {columns : List Column}
    (hdesc : desc.field = columnFields columns) : structFields desc = columnFields columns := by
  rw [structFields, hdesc, columnFields, List.map_map]
  refine List.map_congr_left fun c _ => ?_
  simp only [Function.comp_apply, title_camel c.word]

/-! ### The written text -/

section Text

variable {desc : StructDesc}

/-- The cells of a row as they are written. -/
def cellTexts (fields : List FieldDesc) (row : List Chars) : List Chars :=
  (fields.zip row).map fun x => writeCell x.1 x.2

/-- A row as it is written. -/
def rowText (desc : StructDesc) (row : List Chars) : Chars :=
  '\x7b' :: (",".toList.intercalate (cellTexts desc.field row) ++ "\x7d".toList)

theorem writeCells_eq {i : ℕ} {row : List Chars} (hlen : i + row.length = desc.field.length)
    (hne : ∀ cell ∈ row, cell ≠ []) :
    writeCells desc i row =
      (",".toList.intercalate (cellTexts (desc.field.drop i) row) ++ "\x7d".toList, none) := by
  induction row generalizing i with
  | nil =>
    rw [writeCells, cellTexts, List.zip_nil_right, List.map_nil, List.intercalate_nil,
      List.nil_append]
  | cons data row ih =>
    obtain ⟨hdata, hne⟩ := List.forall_mem_cons.mp hne
    rw [List.length_cons] at hlen
    have hi : i < desc.field.length := by omega
    rw [writeCells, if_neg hdata, List.getElem?_eq_getElem hi, List.drop_eq_getElem_cons hi,
      cellTexts, List.zip_cons_cons, List.map_cons, ih (by omega) hne]
    cases row with
    | nil =>
      have hlast : i = desc.field.length - 1 := by simp at hlen; omega
      simp [← hlast, cellTexts]
    | cons data' row =>
      have hmore : i ≠ desc.field.length - 1 := by simp at hlen; omega
      have hi' : i + 1 < desc.field.length := by simp at hlen; omega
      rw [cellTexts, List.drop_eq_getElem_cons hi', List.zip_cons_cons, List.map_cons,
        List.intercalate_cons_cons]
      simp [hmore]

theorem writeRow_eq {row : List Chars} (hlen : row.length = desc.field.length)
    (hne : ∀ cell ∈ row, cell ≠ []) : writeRow desc row = (rowText desc row, none) := by
  rw [writeRow, writeCells_eq (by omega) hne, List.drop_zero]
  rfl

theorem writeRows_eq {n i : ℕ} {rows : List (List Chars)} (hn : n = i + rows.length)
    (hrows : ∀ row ∈ rows, row.length = desc.field.length ∧ ∀ cell ∈ row, cell ≠ []) :
    writeRows desc n i rows =
      (",\n".toList.intercalate (rows.map (rowText desc)) ++ "\n]".toList, none) := by
  induction rows generalizing i with
  | nil => rw [writeRows, List.map_nil, List.intercalate_nil, List.nil_append]
  | cons row rows ih =>
    obtain ⟨⟨hlen, hne⟩, hrows⟩ := List.forall_mem_cons.mp hrows
    rw [List.length_cons] at hn
    rw [writeRows, if_neg (by simpa using hlen), writeRow_eq hlen hne, ih (by omega) hrows]
    cases rows with
    | nil =>
      have hlast : i = n - 1 := by simp at hn; omega
      simp [← hlast]
    | cons row' rows =>
      have hmore : i ≠ n - 1 := by simp at hn; omega
      simp only [List.map_cons, List.intercalate_cons_cons]
      simp [hmore]

theorem writeJsonData_eq {columns : List Column} (hdesc : desc.field = columnFields columns)
    {data : List (List Chars)}
    (hdata : ∀ row ∈ data, row.length = columns.length ∧ ∀ cell ∈ row, cell ≠ []) :
    writeJsonData desc (sheetRows columns data) =
      ('[' :: ("\n".toList ++
        (",\n".toList.intercalate (data.map (rowText desc)) ++ "\n".toList ++ "]".toList)),
        none) := by
  have hlen : desc.field.length = columns.length := by rw [hdesc, columnFields, List.length_map]
  have hrows : writeRows desc (sheetRows columns data).length 2 data = _ :=
    writeRows_eq (by simp [sheetRows]; omega) (by rwa [hlen])
  have hdrop : (sheetRows columns data).drop 2 = data := rfl
  rw [writeJsonData, hdrop, hrows, List.append_assoc]
  rfl

end Text

/-! ### The parsed text -/

theorem plain_camel (column : Column) : Plain (snakeToCamel column.name) := by
  intro c hc
  have halnum := isAlphanum_of_mem_camel column.word hc
  refine ⟨?_, ?_, ?_⟩
  · rintro rfl
    exact absurd halnum (by decide)
  · rintro rfl
    exact absurd halnum (by decide)
  · by_contra hlt
    have hsmall : ∀ n < 128, (Char.ofNat n).isAlphanum = true → 0x20 ≤ (Char.ofNat n).toNat := by
      decide +kernel
    exact hlt (forall_ascii (P := fun c => c.isAlphanum = true → 0x20 ≤ c.toNat) hsmall
      (by omega) halnum)

theorem writeCell_string {f : FieldDesc} (h : f.typ = "string".toList) (data : Chars) :
    writeCell f data = quote f.name ++ ':' :: quote data := by
  rw [writeCell, if_pos h, quote, quote]
  simp only [List.append_assoc, List.cons_append]
  rfl

theorem writeCell_other {f : FieldDesc} (h : f.typ ≠ "string".toList) (data : Chars) :
    writeCell f data = quote f.name ++ ':' :: data := by
  rw [writeCell, if_neg h, quote]
  simp only [List.append_assoc, List.cons_append]
  rfl

section Parsed

variable {V : Type} {types : Types V}

/-- A member for each field, each with the value of its field. -/
inductive Decodes (types : Types V) : List FieldDesc → List (Chars × Json) → Row V → Prop where
  | nil : Decodes types [] [] []
  | cons {f : FieldDesc} {fields : List FieldDesc} {j : Json} {members : List (Chars × Json)}
      {field : Field V} {row : Row V}
      (hfield : decodeField types f.typ (zeroField types f.typ) j = some field)
      (hrest : Decodes types fields members row) :
      Decodes types (f :: fields) ((f.name, j) :: members) (field :: row)

/-- A cell is read as a member whatever follows it. -/
theorem reads_writeCell {column : Column} {cell : Chars} {field : Field V}
    (hcell : cellField types column.typ cell = some field)
    (hplain : column.typ = "string".toList → Plain cell) :
    ∃ j, Reads Stop isSpace (member (value cellDepth))
        (writeCell { name := snakeToCamel column.name, typ := column.typ } cell)
        (snakeToCamel column.name, j) ∧
      decodeField types column.typ (zeroField types column.typ) j = some field := by
  have hkey := plain_camel column
  by_cases hstring : column.typ = "string".toList
  · rw [cellField, if_pos hstring] at hcell
    refine ⟨.str cell, ?_, by rw [decodeField, if_pos hstring, ← hcell]⟩
    rw [writeCell_string hstring]
    have hread : Reads Stop isSpace (value cellDepth) (quote cell) (.str cell) :=
      (extends_value cellDepth).reads (value_quote (hplain hstring) cellDepth) (by simp)
    exact reads_member hkey hread
  · rw [cellField, if_neg hstring] at hcell
    obtain ⟨j, hj, hdecode⟩ := Option.bind_eq_some_iff.mp hcell
    refine ⟨j, ?_, by simp only [decodeField, zeroField, if_neg hstring, hdecode]⟩
    rw [writeCell_other hstring]
    obtain ⟨w, hvalue, hw⟩ :
        ∃ w, value cellDepth cell = some (j, w) ∧ ∀ x ∈ w, isSpace x = true := by
      rw [Json.parse] at hj
      split at hj
      · cases hj
      · rename_i j' w hvalue
        split_ifs at hj with hw
        obtain rfl := Option.some.inj hj
        exact ⟨w, hvalue, by simpa using hw⟩
    exact reads_member hkey ((extends_value cellDepth).reads hvalue hw)

variable {columns : List Column} {cells : List Chars} {row : Row V} {fields : List FieldDesc}
  {desc : StructDesc} {data : List (List Chars)} {list : List (Row V)}

/-- The cells of a row are read as members, and these have the values of the fields. -/
theorem RowOf.members (h : RowOf types columns cells row) (hplain : PlainStrings columns cells) :
    ∃ members, List.Forall₂ (Reads Stop isSpace (member (value cellDepth)))
        (cellTexts (columnFields columns) cells) members ∧
      Decodes types (columnFields columns) members row := by
  induction h with
  | nil => exact ⟨[], .nil, .nil⟩
  | @cons column columns cell cells field row hne hcell hrest ih =>
    obtain ⟨hfirst, hplain⟩ := List.forall_mem_cons.mp hplain
    obtain ⟨j, hread, hdecode⟩ := reads_writeCell hcell hfirst
    obtain ⟨members, hreads, hdecodes⟩ := ih hplain
    exact ⟨_, .cons hread hreads, .cons hdecode hdecodes⟩

/-- A key finds the field of its own name. -/
theorem fieldOf_append {before fields : List FieldDesc} {f : FieldDesc}
    (hnames : ((before ++ f :: fields).map (·.name)).Nodup) :
    fieldOf (before ++ f :: fields) f.name = some before.length := by
  have hnone : before.findIdx? (·.name = f.name) = none := by
    rw [List.findIdx?_eq_none_iff]
    intro g hg
    rw [List.map_append, List.map_cons, List.nodup_append] at hnames
    exact decide_eq_false (hnames.2.2 _ (List.mem_map_of_mem hg) _ (by simp))
  rw [fieldOf, List.findIdx?_append, hnone, List.findIdx?_cons]
  simp

/-- The members set the fields one after the other. -/
theorem Decodes.decodeMembers {members : List (Chars × Json)}
    (h : Decodes types fields members row) (before : List FieldDesc) (done : Row V)
    (hlen : done.length = before.length) (hnames : ((before ++ fields).map (·.name)).Nodup) :
    Tables.decodeMembers types (before ++ fields) members
      (done ++ fields.map fun f => zeroField types f.typ) = some (done ++ row) := by
  induction h generalizing before done with
  | nil => rfl
  | @cons f fields j members field row hfield hrest ih =>
    have hget : (before ++ f :: fields)[before.length]? = some f := by simp
    have hold : (done ++ zeroField types f.typ :: fields.map fun f => zeroField types f.typ)[
        before.length]? = some (zeroField types f.typ) := by simp [← hlen]
    have hset : (done ++ zeroField types f.typ :: fields.map fun f => zeroField types f.typ).set
        before.length field = done ++ [field] ++ fields.map fun f => zeroField types f.typ := by
      simp [← hlen]
    have hrest := ih (before ++ [f]) (done ++ [field]) (by simp [hlen]) (by simpa using hnames)
    rw [Tables.decodeMembers, fieldOf_append hnames]
    simp only [List.map_cons, hget, hold, hfield, hset]
    simpa using hrest

/-- A row is read as an object whatever follows it. -/
theorem value_rowText (hdesc : desc.field = columnFields columns) {members : List (Chars × Json)}
    (hreads : List.Forall₂ (Reads Stop isSpace (member (value cellDepth)))
      (cellTexts (columnFields columns) cells) members) (r : Chars) :
    value (cellDepth + 1) (rowText desc cells ++ r) = some (.obj members, r) := by
  have hhead : ∀ t ∈ cellTexts (columnFields columns) cells, ∃ t', t = '"' :: t' := by
    intro t ht
    obtain ⟨⟨f, cell⟩, -, rfl⟩ := List.mem_map.mp ht
    by_cases hstring : f.typ = "string".toList
    · exact ⟨_, writeCell_string hstring cell⟩
    · exact ⟨_, writeCell_other hstring cell⟩
  have hobj := value_obj hreads hhead r
  rw [rowText, hdesc, List.cons_append, List.append_assoc]
  exact hobj

/-- Each row of the list is an object that decodes to the row's fields. -/
theorem RowOf.objects (hdesc : desc.field = columnFields columns)
    (hnames : (columns.map fun c => snakeToCamel c.name).Nodup)
    (hdata : List.Forall₂ (RowOf types columns) data list)
    (hplain : ∀ cells ∈ data, PlainStrings columns cells) :
    ∃ js, List.Forall₂ (fun t j => ∀ r, value (cellDepth + 1) (t ++ r) = some (j, r))
        (data.map (rowText desc)) js ∧
      List.Forall₂ (fun j row => decodeRow types (columnFields columns) j = some (some row))
        js list := by
  induction hdata with
  | nil => exact ⟨[], .nil, .nil⟩
  | @cons cells row data list hrow hdata ih =>
    obtain ⟨hfirst, hplain⟩ := List.forall_mem_cons.mp hplain
    obtain ⟨members, hreads, hdecodes⟩ := hrow.members hfirst
    obtain ⟨js, hvalues, hrows⟩ := ih hplain
    have hfields := hdecodes.decodeMembers [] [] rfl (by
      rw [List.nil_append, columnFields, List.map_map]
      exact hnames)
    have hdecode : decodeRow types (columnFields columns) (.obj members) = some (some row) := by
      simp only [List.nil_append] at hfields
      rw [decodeRow, hfields, Option.map_some]
    exact ⟨.obj members :: js, .cons (value_rowText hdesc hreads) hvalues, .cons hdecode hrows⟩

theorem mapM_decodeRow {js : List Json}
    (h : List.Forall₂ (fun j row => decodeRow types fields j = some (some row)) js list) :
    js.mapM (decodeRow types fields) = some (list.map some) := by
  induction h with
  | nil => rfl
  | cons hrow _ ih => simp [List.mapM_cons, hrow, ih]

theorem RowOf.length (h : RowOf types columns cells row) :
    cells.length = columns.length ∧ ∀ cell ∈ cells, cell ≠ [] := by
  induction h with
  | nil => simp
  | cons hne _ _ ih =>
    exact ⟨by simp [ih.1], List.forall_mem_cons.mpr ⟨hne, ih.2⟩⟩

theorem RowOf.forall_length (hdata : List.Forall₂ (RowOf types columns) data list) :
    ∀ cells ∈ data, cells.length = columns.length ∧ ∀ cell ∈ cells, cell ≠ [] := by
  induction hdata with
  | nil => simp
  | cons hrow _ ih => exact List.forall_mem_cons.mpr ⟨hrow.length, ih⟩

/-- The file of a sheet with plain strings is read as the list of its rows. -/
theorem unmarshal_writeJsonData (hdesc : desc.field = columnFields columns)
    (hnames : (columns.map fun c => snakeToCamel c.name).Nodup)
    (hdata : List.Forall₂ (RowOf types columns) data list)
    (hplain : ∀ cells ∈ data, PlainStrings columns cells) :
    unmarshal types (structFields desc) (writeJsonData desc (sheetRows columns data)).1 =
      some (list.map some) := by
  obtain ⟨js, hvalues, hrows⟩ := RowOf.objects hdesc hnames hdata hplain
  have hhead : ∀ t ∈ data.map (rowText desc), ∃ t', t = '\x7b' :: t' := by
    intro t ht
    obtain ⟨cells, -, rfl⟩ := List.mem_map.mp ht
    exact ⟨_, rfl⟩
  have hspace : ∀ x ∈ "\n".toList, isSpace x = true := by decide
  have harr : value maxNestingDepth ('[' :: ("\n".toList ++
      (",\n".toList.intercalate (data.map (rowText desc)) ++ "\n".toList ++ "]".toList))) =
        some (.arr js, []) := value_arr hvalues hhead hspace hspace hspace []
  rw [structFields_columns hdesc, writeJsonData_eq hdesc (RowOf.forall_length hdata), unmarshal,
    Json.parse, harr]
  exact mapM_decodeRow hrows

end Parsed

end GameCluster.Tables
