import GameCluster.Lib.Map
import GameCluster.Tables.Struct

/-!
The files that `tb_load/make_cfg` writes for a workbook: one JSON file per sheet, put
together by hand, and the setup of the tables' keys from the sheet `setup`. The first row
of a sheet has the names of its columns, the second their types, the others are data.
Directories and opened files are taken to be writable; a row that is refused leaves the file
with what was written before it.
-/

namespace GameCluster.Tables

open Lib

/-- `targetRoot` -/
def targetRoot : Chars := "target/".toList

/-- The name `setupSheet` of the sheet that holds the keys. -/
def setupSheet : Chars := "setup".toList

def getFileName (path : Chars) : Chars :=
  match index '/' path with
  | none => path
  | some idx => (trimRight ".xlsx".toList path).drop (idx + 1)

def getTargetPath (path : Chars) : Chars := targetRoot ++ path

/-- The path of a sheet's file below its directory. -/
def jsonPath (path sheetName : Chars) : Chars := path ++ "/".toList ++ sheetName ++ ".json".toList

/-- What was written and the text of the error, if there was one. -/
abbrev Output := Chars × Option String

/-- One column of a row. -/
def writeCell (field : FieldDesc) (data : Chars) : Chars :=
  if field.typ = "string".toList then
    "\"".toList ++ field.name ++ "\":\"".toList ++ data ++ "\"".toList
  else "\"".toList ++ field.name ++ "\":".toList ++ data

/-- The loop of `writeRow` from column `i`, and the closing brace. -/
def writeCells (desc : StructDesc) : ℕ → List Chars → Output
  | _, [] => ("\x7d".toList, none)
  | i, data :: row =>
    if data = [] then
      ([], some (String.ofList desc.name ++ " row[" ++ i.repr ++ "] has no data"))
    else
      match desc.field[i]? with
      | none => ([], some "index out of range")
      | some field =>
        let comma := if i ≠ desc.field.length - 1 then ",".toList else []
        let (rest, err) := writeCells desc (i + 1) row
        (writeCell field data ++ comma ++ rest, err)

def writeRow (desc : StructDesc) (row : List Chars) : Output :=
  let (cells, err) := writeCells desc 0 row
  ("\x7b".toList ++ cells, err)

/-- The loop of `writeJsonData` from row `i` of `n`, and the closing bracket. -/
def writeRows (desc : StructDesc) (n : ℕ) : ℕ → List (List Chars) → Output
  | _, [] => ("\n]".toList, none)
  | i, row :: rows =>
    if row.length ≠ desc.field.length then
      ([], some ("row[" ++ i.repr ++ "] has " ++ row.length.repr ++ " fields, want " ++
        desc.field.length.repr))
    else
      match writeRow desc row with
      | (text, some err) => (text, some err)
      | (text, none) =>
        let comma := if i ≠ n - 1 then ",\n".toList else []
        let (rest, err) := writeRows desc n (i + 1) rows
        (text ++ comma ++ rest, err)

/-- The contents of the file at `jsonPath path sheetName`. -/
def writeJsonData (desc : StructDesc) (rows : List (List Chars)) : Output :=
  let (text, err) := writeRows desc rows.length 2 (rows.drop 2)
  ("[\n".toList ++ text, err)

/-- The key columns of each table with a setup. -/
abbrev Setups := Map Chars (Finset Chars)

/-- The loop of `buildSetups`. A later row for the same table replaces an earlier one. -/
def setupRows : List (List Chars) → Setups → Except String Setups
  | [], ret => .ok ret
  | row :: rows, ret =>
    match row with
    | [name, keys] => setupRows rows (ret.insert name (keys.splitOn ',').toFinset)
    | _ => .error ("setup row length error:[" ++ " ".intercalate (row.map String.ofList) ++ "]")

def buildSetups (rows : List (List Chars)) : Except String Setups := setupRows (rows.drop 1) ∅

structure Sheet where
  name : Chars
  rows : List (List Chars)

/-- What a workbook is turned into: each sheet's file, with its path, and description. -/
structure Workbook where
  setups : Setups
  tables : List ((Chars × Chars) × StructDesc)

/-- The body of the loop of `readOneExcel` for a sheet other than the setup. -/
def readSheet (fileName : Chars) (sheet : Sheet) : Except String ((Chars × Chars) × StructDesc) :=
  match sheet.rows with
  | nameRow :: typeRow :: _ =>
    match makeOneStruct sheet.name typeRow nameRow with
    | .error err => .error err
    | .ok desc =>
      let desc := { desc with parent := fileName }
      match writeJsonData desc sheet.rows with
      | (_, some err) => .error err
      | (text, none) => .ok ((jsonPath (getTargetPath fileName) sheet.name, text), desc)
  | _ => .error "file is empty"

/-- The loop of `readOneExcel` over the sheets. -/
def readSheets (fileName : Chars) :
    List Sheet → Except String (List ((Chars × Chars) × StructDesc))
  | [] => .ok []
  | sheet :: sheets =>
    if sheet.name = setupSheet then readSheets fileName sheets
    else
      match readSheet fileName sheet with
      | .error err => .error err
      | .ok table =>
        match readSheets fileName sheets with
        | .error err => .error err
        | .ok tables => .ok (table :: tables)

/-- The setup, which has to be the last sheet. -/
def readSetupSheet (sheets : List Sheet) : Except String Setups :=
  match sheets.getLast? with
  | some last => if last.name = setupSheet then buildSetups last.rows else .ok ∅
  | none => .ok ∅

def readOneExcel (path : Chars) (sheets : List Sheet) : Except String Workbook :=
  if sheets = [] then .error "file is empty"
  else
    match readSetupSheet sheets with
    | .error err => .error err
    | .ok setups =>
      match readSheets (getFileName path) sheets with
      | .error err => .error err
      | .ok tables => .ok { setups, tables }

end GameCluster.Tables
