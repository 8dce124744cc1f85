import Mathlib.Algebra.Order.BigOperators.Group.List
import GameCluster.Tables.Rows

/-!
When the rows of a sheet come back from its file. For string columns plain cells are also
necessary: the text has room for the cells as they are and nothing more, so a file that is read
as the rows again cannot have spent two characters on one of a cell.
-/

namespace GameCluster.Tables

open Lib
open GameCluster.Lib.Json hiding join
open GameCluster.Lib.Parser hiding pure bind map

section Cost

variable {V : Type} {types : Types V} {fields : List FieldDesc} {row : Row V}

/-- What a member with the string of a field takes, with a comma or a brace. -/
def fieldCost (f : FieldDesc) : Field V → ℕ
  | .str s => if s = [] then 0 else f.name.length + 6 + cost s
  | _ => 0

def rowCost (fields : List FieldDesc) (row : Row V) : ℕ :=
  ((fields.zip row).map fun x => fieldCost x.1 x.2).sum

theorem rowCost_set {i : ℕ} {f : FieldDesc} (hf : fields[i]? = some f) (row : Row V)
    (field : Field V) :
    rowCost fields (row.set i field) ≤ rowCost fields row + fieldCost f field := by
  induction fields generalizing i row with
  | nil => simp at hf
  | cons g fields ih =>
    cases row with
    | nil => exact Nat.le_add_right _ _
    | cons old row =>
      cases i with
      | zero =>
        obtain rfl : g = f := by simpa using hf
        simp only [rowCost, List.set_cons_zero, List.zip_cons_cons, List.map_cons,
          List.sum_cons]
        omega
      | succ i =>
        have hrest := ih (by simpa using hf) row
        simp only [rowCost, List.set_cons_succ, List.zip_cons_cons, List.map_cons,
          List.sum_cons] at hrest ⊢
        omega

/-- A key is as long as the name of its field. -/
theorem length_of_fieldOf {key : Chars} {i : ℕ} {f : FieldDesc}
    (hkey : fieldOf fields key = some i) (hf : fields[i]? = some f) :
    f.name.length = key.length := by
  obtain ⟨hi, rfl⟩ := List.getElem?_eq_some_iff.mp hf
  rcases Option.or_eq_some_iff.mp hkey with hexact | ⟨-, hfold⟩
  · obtain ⟨_, hname, -⟩ := List.findIdx?_eq_some_iff_getElem.mp hexact
    rw [of_decide_eq_true hname]
  · obtain ⟨_, hname, -⟩ := List.findIdx?_eq_some_iff_getElem.mp hfold
    simpa using congrArg List.length (of_decide_eq_true hname)

variable (hstrings : ∀ f ∈ fields, f.typ = "string".toList)

include hstrings

/-- A member sets its field to a string that has taken its cost in the text. -/
theorem rowCost_decodeField {key : Chars} {i : ℕ} {f : FieldDesc} {old field : Field V} {j : Json}
    (hkey : fieldOf fields key = some i) (hf : fields[i]? = some f) (hold : row[i]? = some old)
    (hdecode : decodeField types f.typ old j = some field) :
    rowCost fields (row.set i field) ≤ rowCost fields row + (cost key + 3 + costAt 1 j + 1) := by
  simp only [decodeField, if_pos (hstrings f (List.mem_of_getElem? hf))] at hdecode
  cases j with
  | str s =>
    obtain rfl := Option.some.inj hdecode
    have hset := rowCost_set hf row (.str s)
    have hlen := length_of_fieldOf hkey hf
    have hcost := length_le_cost key
    have hfield : fieldCost f (.str s : Field V) ≤ f.name.length + 6 + cost s := by
      rw [fieldCost]
      split_ifs
      · exact Nat.zero_le _
      · exact Nat.le_refl _
    have hstr : costAt 1 (.str s) = cost s + 2 := rfl
    omega
  | null =>
    obtain rfl := Option.some.inj hdecode
    obtain ⟨hi, rfl⟩ := List.getElem?_eq_some_iff.mp hold
    rw [List.set_getElem_self]
    exact Nat.le_add_right _ _
  | _ => cases hdecode

theorem rowCost_decodeMembers {members : List (Chars × Json)} {row' : Row V}
    (h : decodeMembers types fields members row = some row') :
    rowCost fields row' ≤
      rowCost fields row + (members.map fun m => cost m.1 + 3 + costAt 1 m.2 + 1).sum := by
  induction members generalizing row with
  | nil =>
    obtain rfl := Option.some.inj h
    exact Nat.le_refl _
  | cons m members ih =>
    obtain ⟨key, j⟩ := m
    simp only [List.map_cons, List.sum_cons]
    rw [decodeMembers] at h
    split at h
    · have hrest := ih h
      omega
    · rename_i i hkey
      split at h
      · rename_i f old hf hold
        split at h
        · cases h
        · rename_i field hdecode
          have hset := rowCost_decodeField hstrings hkey hf hold hdecode
          have hrest := ih h
          omega
      · cases h

theorem rowCost_decodeRow {j : Json} (h : decodeRow types fields j = some (some row)) :
    rowCost fields row + 1 ≤ costAt 2 j := by
  have hzero : rowCost fields (fields.map fun f => zeroField types f.typ) = 0 := by
    rw [rowCost, List.zip_map_right, List.map_map]
    refine List.sum_eq_zero fun n hn => ?_
    obtain ⟨x, hx, rfl⟩ := List.mem_map.mp hn
    have hempty : zeroField types x.2.typ = .str [] := if_pos (hstrings _ (List.of_mem_zip hx).2)
    show fieldCost x.1 (zeroField types x.2.typ) = 0
    rw [hempty, fieldCost, if_pos rfl]
  cases j with
  | obj members =>
    obtain ⟨row', hmembers, hrow⟩ := Option.map_eq_some_iff.mp h
    obtain rfl := Option.some.inj hrow
    have hcost := rowCost_decodeMembers hstrings hmembers
    rw [hzero, Nat.zero_add] at hcost
    exact Nat.succ_le_succ hcost
  | _ => simp [decodeRow] at h

theorem sum_rowCost_le {items : List Json} {list : List (Row V)}
    (h : items.mapM (decodeRow types fields) = some (list.map some)) :
    (list.map fun row => rowCost fields row + 2).sum ≤
      (items.map fun j => costAt 2 j + 1).sum := by
  induction items generalizing list with
  | nil =>
    obtain rfl : list = [] := by simpa using h
    exact Nat.le_refl 0
  | cons j items ih =>
    rw [List.mapM_cons] at h
    obtain ⟨row, hrow, hrest⟩ := Option.bind_eq_some_iff.mp h
    obtain ⟨rows, hrows, hcons⟩ := Option.bind_eq_some_iff.mp hrest
    cases list with
    | nil => simp at hcons
    | cons first list =>
      obtain ⟨rfl, rfl⟩ : row = some first ∧ rows = list.map some := by simpa using hcons
      have hfirst := rowCost_decodeRow hstrings hrow
      have hlist := ih hrows
      simp only [List.map_cons, List.sum_cons]
      omega

end Cost

/-! ### The room in the text -/

section Room

variable {V : Type} {types : Types V} {desc : StructDesc} {fields : List FieldDesc}
  {cells : List Chars}

/-- What the cells of a row take when they are written. -/
def rowLength (fields : List FieldDesc) (cells : List Chars) : ℕ :=
  ((fields.zip cells).map fun x => x.1.name.length + 6 + x.2.length).sum

theorem rowCost_str (fields : List FieldDesc) (hne : ∀ cell ∈ cells, cell ≠ []) :
    rowCost fields (cells.map (Field.str : Chars → Field V)) =
      ((fields.zip cells).map fun x => x.1.name.length + 6 + cost x.2).sum := by
  rw [rowCost, List.zip_map_right, List.map_map]
  refine congrArg List.sum (List.map_congr_left fun x hx => ?_)
  exact if_neg (hne _ (List.of_mem_zip hx).2)

theorem rowLength_le_rowCost (fields : List FieldDesc) (hne : ∀ cell ∈ cells, cell ≠ []) :
    rowLength fields cells ≤ rowCost fields (cells.map (Field.str : Chars → Field V)) := by
  rw [rowCost_str fields hne]
  refine List.sum_le_sum fun x _ => ?_
  have hcost := length_le_cost x.2
  omega

/-- A row that takes no more than its cells has plain cells. -/
theorem plain_of_rowCost_le (hne : ∀ cell ∈ cells, cell ≠ [])
    (h : rowCost fields (cells.map (Field.str : Chars → Field V)) ≤ rowLength fields cells) :
    ∀ x ∈ fields.zip cells, Plain x.2 := by
  intro x hx
  by_contra hplain
  have hlt : x.2.length < cost x.2 := Nat.lt_of_not_le fun hle => hplain (plain_of_cost_le hle)
  rw [rowCost_str fields hne] at h
  refine absurd h (Nat.not_le_of_lt (List.sum_lt_sum _ _ (fun y _ => ?_) ⟨x, hx, ?_⟩))
  · have hcost := length_le_cost y.2
    omega
  · omega

variable (hstrings : ∀ f ∈ desc.field, f.typ = "string".toList)

include hstrings

theorem countP_rowText_le (hne : desc.field.zip cells ≠ []) :
    (rowText desc cells).countP (· != '\n') ≤ rowLength desc.field cells + 1 := by
  have htexts : cellTexts desc.field cells ≠ [] := by
    rw [cellTexts]
    exact fun h => hne (List.map_eq_nil_iff.mp h)
  have hcomma : ",".toList.countP (· != '\n') = 1 := rfl
  have hcount := countP_intercalate hcomma htexts
  have hcells : ((cellTexts desc.field cells).map fun t => t.countP (· != '\n') + 1).sum ≤
      rowLength desc.field cells := by
    rw [cellTexts, List.map_map, rowLength]
    refine List.sum_le_sum fun x hx => ?_
    have hlen : (writeCell x.1 x.2).length = x.1.name.length + 5 + x.2.length := by
      rw [writeCell_string (hstrings _ (List.of_mem_zip hx).1)]
      simp only [quote, List.length_cons, List.length_append, List.length_nil]
      omega
    have hle := List.countP_le_length (p := (· != '\n')) (l := writeCell x.1 x.2)
    show (writeCell x.1 x.2).countP (· != '\n') + 1 ≤ _
    omega
  rw [rowText, List.countP_cons_of_pos (by decide), List.countP_append]
  have hbrace : "\x7d".toList.countP (· != '\n') = 1 := rfl
  omega

/-- The line breaks apart, the file has room for its rows and not more. -/
theorem countP_writeJsonData_le {columns : List Column} (hdesc : desc.field = columnFields columns)
    (hcolumns : columns ≠ []) {data : List (List Chars)} (hne : data ≠ [])
    (hdata : ∀ row ∈ data, row.length = columns.length ∧ ∀ cell ∈ row, cell ≠ []) :
    (writeJsonData desc (sheetRows columns data)).1.countP (· != '\n') ≤
      (data.map fun cells => rowLength desc.field cells + 2).sum + 1 := by
  have hsep : ",\n".toList.countP (· != '\n') = 1 := rfl
  have hcount := countP_intercalate hsep (fun h => hne (List.map_eq_nil_iff.mp h) :
    data.map (rowText desc) ≠ [])
  have hrows : ((data.map (rowText desc)).map fun t => t.countP (· != '\n') + 1).sum ≤
      (data.map fun cells => rowLength desc.field cells + 2).sum := by
    rw [List.map_map]
    refine List.sum_le_sum fun cells hcells => ?_
    have hzip : desc.field.zip cells ≠ [] := by
      intro h
      have hlen := congrArg List.length h
      rw [hdesc, columnFields, List.length_zip, List.length_map, (hdata cells hcells).1] at hlen
      exact hcolumns (List.length_eq_zero_iff.mp (by simpa using hlen))
    exact Nat.succ_le_succ (countP_rowText_le hstrings hzip)
  have hbreak : "\n".toList.countP (· != '\n') = 0 := rfl
  have hclose : "]".toList.countP (· != '\n') = 1 := rfl
  rw [writeJsonData_eq hdesc hdata, List.countP_cons_of_pos (by decide)]
  simp only [List.countP_append]
  omega

end Room

section Exact

variable {V : Type} {types : Types V} {desc : StructDesc} {columns : List Column}
  {data : List (List Chars)} {list : List (Row V)}

theorem RowOf.eq_str (hstrings : ∀ c ∈ columns, c.typ = "string".toList) {cells : List Chars}
    {row : Row V} (h : RowOf types columns cells row) : row = cells.map .str := by
  induction h with
  | nil => rfl
  | cons hne hcell hrest ih =>
    obtain ⟨htyp, hstrings⟩ := List.forall_mem_cons.mp hstrings
    rw [cellField, if_pos htyp] at hcell
    rw [← Option.some.inj hcell, ih hstrings, List.map_cons]

theorem RowOf.map_str (hstrings : ∀ c ∈ columns, c.typ = "string".toList)
    (hdata : List.Forall₂ (RowOf types columns) data list) :
    list = data.map fun cells => cells.map .str := by
  induction hdata with
  | nil => rfl
  | cons hrow _ ih => rw [hrow.eq_str hstrings, ih, List.map_cons]

/-- The rows that are read take no more than the file has room for. -/
theorem sum_rowCost_le_of_unmarshal (hdesc : desc.field = columnFields columns)
    (hcolumns : columns ≠ []) (hstrings : ∀ f ∈ desc.field, f.typ = "string".toList)
    (hne : data ≠ [])
    (hdata : ∀ row ∈ data, row.length = columns.length ∧ ∀ cell ∈ row, cell ≠ [])
    (hlist : list ≠ [])
    (h : unmarshal types desc.field (writeJsonData desc (sheetRows columns data)).1 =
      some (list.map some)) :
    (list.map fun row => rowCost desc.field row + 2).sum ≤
      (data.map fun cells => rowLength desc.field cells + 2).sum := by
  have hroom := countP_writeJsonData_le hstrings hdesc hcolumns hne hdata
  rw [unmarshal, Json.parse] at h
  cases hvalue : value maxNestingDepth (writeJsonData desc (sheetRows columns data)).1 with
  | none => simp [hvalue] at h
  | some read =>
    obtain ⟨j, rest⟩ := read
    obtain ⟨t, htext, hcost⟩ := spends_value 3 maxNestingDepth _ _ _ hvalue
    rw [htext, List.countP_append] at hroom
    simp only [hvalue] at h
    by_cases hrest : rest.all isSpace = true
    · rw [if_pos hrest] at h
      cases j with
      | arr items =>
        have hsum := sum_rowCost_le hstrings h
        have harr : costAt 3 (.arr items) = (items.map fun j => costAt 2 j + 1).sum + 1 := rfl
        omega
      | null => exact absurd (by simpa using h) hlist
      | _ => simp at h
    · rw [if_neg hrest] at h
      cases h

/-- A sheet of string columns that is read as its rows has plain cells. -/
theorem plain_of_unmarshal (hdesc : desc.field = columnFields columns)
    (hstrings : ∀ c ∈ columns, c.typ = "string".toList)
    (hdata : List.Forall₂ (RowOf types columns) data list)
    (h : unmarshal types (structFields desc) (writeJsonData desc (sheetRows columns data)).1 =
      some (list.map some)) :
    ∀ cells ∈ data, PlainStrings columns cells := by
  have hrows := RowOf.forall_length hdata
  have hfields : ∀ f ∈ desc.field, f.typ = "string".toList := by
    rw [hdesc, columnFields, List.forall_mem_map]
    exact hstrings
  obtain rfl := RowOf.map_str hstrings hdata
  rw [structFields_columns hdesc, ← hdesc] at h
  intro cells hcells x hx _
  have hcolumns : columns ≠ [] := by
    rintro rfl
    simp at hx
  have hne := List.ne_nil_of_mem hcells
  have hsum := sum_rowCost_le_of_unmarshal hdesc hcolumns hfields hne hrows
    (fun h => hne (List.map_eq_nil_iff.mp h)) h
  have hrow : rowCost desc.field (cells.map (Field.str : Chars → Field V)) ≤
      rowLength desc.field cells := by
    by_contra hlt
    refine absurd hsum (Nat.not_le_of_lt ?_)
    rw [List.map_map]
    refine List.sum_lt_sum _ _ (fun row hrow => ?_) ⟨cells, hcells, ?_⟩
    · exact Nat.add_le_add_right (rowLength_le_rowCost desc.field (hrows row hrow).2) 2
    · exact Nat.add_lt_add_right (Nat.lt_of_not_le hlt) 2
  have hplain := plain_of_rowCost_le (hrows cells hcells).2 hrow
  rw [hdesc, columnFields, List.zip_map_left, List.forall_mem_map] at hplain
  exact hplain x hx

end Exact

/-- The rows of a sheet and its JSON file. The file is written for every sheet with one
non-empty cell for each column, and it is decoded into one record for each row, in order, with
the texts of the string cells and the values of the others, if no string cell has a quote, a
backslash or a control character. Where all columns are strings it is decoded so only then. -/
theorem sheet_rows_come_back {V : Type} (types : Types V) {columns : List Column}
    (hnames : (columns.map fun c => snakeToCamel c.name).Nodup) (sheetName parent : Chars)
    {data : List (List Chars)} {list : List (Row V)}
    (hdata : List.Forall₂ (RowOf types columns) data list) :
    ∃ desc text,
      makeOneStruct sheetName (columns.map (·.typ)) (columns.map (·.name)) = .ok desc ∧
      writeJsonData { desc with parent } (sheetRows columns data) = (text, none) ∧
      ((∀ cells ∈ data, PlainStrings columns cells) →
        unmarshal types (structFields { desc with parent }) text = some (list.map some)) ∧
      ((∀ c ∈ columns, c.typ = "string".toList) →
        (unmarshal types (structFields { desc with parent }) text = some (list.map some) ↔
          ∀ cells ∈ data, PlainStrings columns cells)) := by
  let desc : StructDesc := { field := columnFields columns, name := sheetName, parent }
  have hwritten : (writeJsonData desc (sheetRows columns data)).2 = none := by
    rw [writeJsonData_eq rfl (RowOf.forall_length hdata)]
  have hread (hplain : ∀ cells ∈ data, PlainStrings columns cells) :
      unmarshal types (structFields desc) (writeJsonData desc (sheetRows columns data)).1 =
        some (list.map some) :=
    unmarshal_writeJsonData rfl hnames hdata hplain
  exact ⟨_, _, makeOneStruct_columns sheetName columns, Prod.ext rfl hwritten, hread,
    fun hstrings => ⟨plain_of_unmarshal rfl hstrings hdata, hread⟩⟩

def idColumn : Column := ⟨"id".toList, "int32".toList, by decide⟩

def nameColumn : Column := ⟨"name".toList, "string".toList, by decide⟩

/-- Two rows with a number and a plain text. -/
theorem plain_rows_come_back :
    ∃ desc text, makeOneStruct "item".toList ["int32".toList, "string".toList]
        ["id".toList, "name".toList] = .ok desc ∧
      writeJsonData { desc with parent := "bag".toList } (sheetRows [idColumn, nameColumn]
        [["1".toList, "sword".toList], ["2".toList, "a b".toList]]) = (text, none) ∧
      unmarshal int32Types (structFields { desc with parent := "bag".toList }) text =
        some [some [.int 1, .str "sword".toList], some [.int 2, .str "a b".toList]] := by
  have hrow (cell name : Chars) (i : ℤ) (hname : name ≠ []) (hcell : cell ≠ [])
      (hint : cellField int32Types "int32".toList cell = some (.int i)) :
      RowOf int32Types [idColumn, nameColumn] [cell, name] [.int i, .str name] :=
    .cons hcell hint (.cons hname (if_pos rfl) .nil)
  have hfirst := hrow "1".toList "sword".toList 1 (by decide) (by decide) (by decide +kernel)
  have hsecond := hrow "2".toList "a b".toList 2 (by decide) (by decide) (by decide +kernel)
  obtain ⟨desc, text, hdesc, hwritten, hread, -⟩ := sheet_rows_come_back int32Types
    (by decide) "item".toList "bag".toList (.cons hfirst (.cons hsecond .nil))
  exact ⟨desc, text, hdesc, hwritten, hread (by decide)⟩

/-- A quote in a cell makes the file unreadable, and the two characters of an escape come back
as a line break. -/
theorem pasted_strings_differ :
    ∃ desc, makeOneStruct "item".toList ["string".toList] ["name".toList] = .ok desc ∧
      unmarshal int32Types (structFields desc)
        (writeJsonData desc (sheetRows [nameColumn] [["a\"b".toList]])).1 = none ∧
      unmarshal int32Types (structFields desc)
        (writeJsonData desc (sheetRows [nameColumn] [["\\n".toList]])).1 =
          some [some [.str "\n".toList]] :=
  ⟨{ field := columnFields [nameColumn], name := "item".toList, parent := [] }, by decide +kernel,
    by decide +kernel, by decide +kernel⟩

end GameCluster.Tables
