import GameCluster.Lib.Json
import GameCluster.Lib.Strconv
import GameCluster.Tables.Make

/-!
How a server loads the tables (`tb_load/read`): a sheet's file is decoded into the list of
its table, and every row is stored in the table's map under the text of its key columns.
The generated structs have the columns as fields, under the names in `cfg.proto`, after three
fields of their own; `protoc` is taken to keep the names. What JSON a type other than
`string` takes is a parameter. The order in which Go walks the map of the keys is another
one, chosen anew for every row.
-/

namespace GameCluster.Tables

open Lib

def fieldNameByPath (path : Chars) : Chars :=
  match index '/' path with
  | none => path
  | some idx =>
    let path := path.drop (idx + 1)
    match index '/' path with
    | none => path
    | some idx =>
      let path := trimSuffix ".json".toList path
      (((path.drop (idx + 1)).splitOn '/').map title).flatten

/-- A field of a row; `other` is a value of a type that is no key. -/
inductive Field (V : Type) where
  | int (i : ℤ)
  | uint (n : ℕ)
  | str (s : Chars)
  | other (v : V)
  deriving DecidableEq

/-- A row, field by field in the order of the columns. -/
abbrev Row (V : Type) := List (Field V)

/-- The zero value of a type other than `string`, and what a JSON value makes of a field. -/
structure Types (V : Type) where
  zero : Chars → Field V
  decode : Chars → Field V → Json → Option (Field V)

/-- The most that arrays and objects may be nested in `encoding/json`. -/
def maxNestingDepth : ℕ := 10000

/-- The fields of the struct generated for a description. -/
def structFields (desc : StructDesc) : List FieldDesc :=
  desc.field.map fun f => { f with name := title f.name }

section Source

variable {V : Type} (types : Types V)

def zeroField (typ : Chars) : Field V :=
  if typ = "string".toList then .str [] else types.zero typ

def decodeField (typ : Chars) (old : Field V) (j : Json) : Option (Field V) :=
  if typ = "string".toList then
    match j with
    | .str s => some (.str s)
    | .null => some old
    | _ => none
  else types.decode typ old j

/-- The field for a key of an object: the one of that name, or one that differs in case. -/
def fieldOf (fields : List FieldDesc) (key : Chars) : Option ℕ :=
  (fields.findIdx? (·.name = key)).or
    (fields.findIdx? fun f => f.name.map Char.toUpper = key.map Char.toUpper)

def decodeMembers (fields : List FieldDesc) : List (Chars × Json) → Row V → Option (Row V)
  | [], row => some row
  | (key, j) :: members, row =>
    match fieldOf fields key with
    | none => decodeMembers fields members row
    | some i =>
      match fields[i]?, row[i]? with
      | some f, some old =>
        match decodeField types f.typ old j with
        | none => none
        | some field => decodeMembers fields members (row.set i field)
      | _, _ => none

/-- An element of the list, `none` for a nil pointer. -/
def decodeRow (fields : List FieldDesc) : Json → Option (Option (Row V))
  | .null => some none
  | .obj members =>
    (decodeMembers types fields members (fields.map fun f => zeroField types f.typ)).map some
  | _ => none

/-- `json.Unmarshal` into a list of rows. -/
def unmarshal (fields : List FieldDesc) (b : Chars) : Option (List (Option (Row V))) :=
  match Json.parse maxNestingDepth b with
  | some .null => some []
  | some (.arr items) => items.mapM (decodeRow types fields)
  | _ => none

/-- The text of a field in a key; there is none for a field that does not exist. -/
def fieldStrValue : Option (Field V) → Chars
  | some (.int i) => i.repr.toList
  | some (.uint n) => n.repr.toList
  | some (.str s) => s
  | _ => []

def fieldByName (fields : List FieldDesc) (row : Row V) (name : Chars) : Option (Field V) :=
  (fields.findIdx? (·.name = name)).bind (row[·]?)

/-- The loop over the map of the keys, in the order in which they come up. -/
def keyLoop (fields : List FieldDesc) (row : Row V) : List Chars → ℕ → Chars → Chars
  | [], _, key => key
  | k :: ks, cnt, key =>
    let key := if cnt > 0 then key ++ ",".toList else key
    keyLoop fields row ks (cnt + 1)
      (key ++ fieldStrValue (fieldByName fields row (title k)))

/-- The key of a row, from a setup or from the first column; a panic is `none`. -/
def rowKey (fields : List FieldDesc) (order : Option (List Chars)) (row : Row V) : Option Chars :=
  match order with
  | some ks => some (keyLoop fields row ks 0 [])
  | none =>
    match row with
    | [] => none
    | first :: _ => some (fieldStrValue (some first))

/-- The loop of `readOne` over the list from row `i`. -/
def storeRows (fields : List FieldDesc) (order : ℕ → Option (List Chars)) :
    ℕ → List (Option (Row V)) → Map Chars (Row V) → Option (Map Chars (Row V))
  | _, [], m => some m
  | i, row :: rows, m =>
    match row with
    | none => none
    | some row =>
      match rowKey fields (order i) row with
      | none => none
      | some key => storeRows fields order (i + 1) rows (m.insert key row)

/-- A table as it is in `Data`. -/
structure Table (V : Type) where
  list : List (Option (Row V))
  map : Map Chars (Row V)

/-- Loads the file at `path` with contents `b`. `data` has the row structs of the tables in
`Data` and `order` the order of the keys at each row. -/
def readOne (data : Chars → Option (List FieldDesc)) (setups : Setups) (path b : Chars)
    (order : ℕ → List Chars) : Option (Table V) :=
  match data (fieldNameByPath path) with
  | none => none
  | some fields =>
    match unmarshal types fields b with
    | none => none
    | some list =>
      let order := fun i => if (setups.lookup path).isSome then some (order i) else none
      (storeRows fields order 0 list ∅).map fun map => { list, map }

/-- Every type other than `string` taken for `int32`. -/
def int32Types : Types Unit where
  zero := fun _ => .int 0
  decode := fun _ old j =>
    match j with
    | .null => some old
    | .num literal =>
      match decimalInt literal with
      | some i => if -2 ^ 31 ≤ i ∧ i < 2 ^ 31 then some (.int i) else none
      | none => none
    | _ => none

end Source

end GameCluster.Tables
