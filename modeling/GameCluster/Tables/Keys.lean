import GameCluster.Tables.Load

/-!
The keys of a table's map. `readOne` joins the texts of the key columns with commas, in the
order in which Go walks the map of the keys, which it chooses anew for every row. If the keys
name one column the text is that of its value whatever the order, and the map has the last
row of each value. Two columns are too many: their order changes the key, and so does a comma
in a value.
-/

namespace GameCluster.Tables

open Lib

/-- What a key makes of a field. -/
inductive Kind where
  | int
  | uint
  | str
  deriving DecidableEq

/-- The kind of the Go type of a column, if it can be part of a key. -/
def kindOf (typ : Chars) : Option Kind :=
  if typ = "string".toList then some .str
  else if typ ∈ ["int32", "int64", "sint32", "sint64", "sfixed32", "sfixed64"].map String.toList
    then some .int
  else if typ ∈ ["uint32", "uint64", "fixed32", "fixed64"].map String.toList then some .uint
  else none

section Keys

variable {V : Type}

def Field.kind : Field V → Option Kind
  | .int _ => some .int
  | .uint _ => some .uint
  | .str _ => some .str
  | .other _ => none

/-- A row of integers and strings, as the types of the columns say. -/
def RowFits (fields : List FieldDesc) (row : Row V) : Prop :=
  List.Forall₂ (fun f x => x.kind.isSome ∧ x.kind = kindOf f.typ) fields row

/-- `ks` is an order in which Go may walk the keys. -/
def Orders (keys : Finset Chars) (ks : List Chars) : Prop := ks.Nodup ∧ ks.toFinset = keys

instance (keys : Finset Chars) (ks : List Chars) : Decidable (Orders keys ks) :=
  inferInstanceAs (Decidable (_ ∧ _))

/-- The rows have the same values in the key columns. -/
def SameKeys (fields : List FieldDesc) (keys : Finset Chars) (row row' : Row V) : Prop :=
  ∀ k ∈ keys, fieldByName fields row (title k) = fieldByName fields row' (title k)

/-- The keys of a table are well defined. -/
structure KeysWellDefined (types : Types V) (fields : List FieldDesc) (keys : Finset Chars) :
    Prop where
  /-- The order does not matter. -/
  order_free : ∀ (row : Row V) (ks ks' : List Chars), RowFits fields row → Orders keys ks →
    Orders keys ks' → rowKey fields (some ks) row = rowKey fields (some ks') row
  /-- Rows with different values have different keys. -/
  separates : ∀ (row row' : Row V) (ks ks' : List Chars), RowFits fields row →
    RowFits fields row' → Orders keys ks → Orders keys ks' → ¬ SameKeys fields keys row row' →
    rowKey fields (some ks) row ≠ rowKey fields (some ks') row'
  /-- The map has the last row of each tuple of values. -/
  last : ∀ (data : Chars → Option (List FieldDesc)) (setups : Setups) (path b : Chars)
    (order : ℕ → List Chars) (rows : List (Row V)), data (fieldNameByPath path) = some fields →
    setups.lookup path = some keys → unmarshal types fields b = some (rows.map some) →
    (∀ row ∈ rows, RowFits fields row) → (∀ i, Orders keys (order i)) →
    ∃ map, readOne types data setups path b order = some { list := rows.map some, map } ∧
      ∀ (text : Chars) (row : Row V), map.lookup text = some row ↔
        ∃ i, rows[i]? = some row ∧ rowKey fields (some (order i)) row = some text ∧
          ∀ (j : ℕ) (row' : Row V), i < j → rows[j]? = some row' →
            ¬ SameKeys fields keys row row'

/-! ### The text of a key -/

variable {fields : List FieldDesc} {keys : Finset Chars} {row row' : Row V}

/-- The text of the field that a key names. -/
def keyPart (fields : List FieldDesc) (row : Row V) (k : Chars) : Chars :=
  fieldStrValue (fieldByName fields row (title k))

theorem keyLoop_pos (ks : List Chars) {cnt : ℕ} (hcnt : 0 < cnt) (key : Chars) :
    keyLoop fields row ks cnt key =
      key ++ (ks.map fun k => ',' :: keyPart fields row k).flatten := by
  induction ks generalizing cnt key with
  | nil => simp [keyLoop]
  | cons k ks ih =>
    rw [keyLoop, if_pos hcnt, ih (Nat.succ_pos cnt), List.map_cons, List.flatten_cons,
      List.append_assoc, List.append_assoc]
    rfl

theorem rowKey_cons (k : Chars) (ks : List Chars) : rowKey fields (some (k :: ks)) row =
    some (keyPart fields row k ++ (ks.map fun k => ',' :: keyPart fields row k).flatten) := by
  rw [rowKey, keyLoop, if_neg (by decide), keyLoop_pos ks (by decide)]
  rfl

/-! ### The map -/

/-- The keys and rows of a list. -/
def keyed (fields : List FieldDesc) (order : ℕ → List Chars) (i : ℕ) (rows : List (Row V)) :
    List (Chars × Row V) :=
  (rows.zipIdx i).map fun x => (keyLoop fields x.1 (order x.2) 0 [], x.1)

theorem storeRows_eq (order : ℕ → List Chars) (i : ℕ) (rows : List (Row V))
    (m : Map Chars (Row V)) :
    storeRows fields (fun j => some (order j)) i (rows.map some) m =
      some (Map.insertAll (keyed fields order i rows) m) := by
  induction rows generalizing i m with
  | nil => rfl
  | cons row rows ih =>
    rw [List.map_cons, storeRows]
    exact ih (i + 1) _

theorem keyed_getElem? (order : ℕ → List Chars) (rows : List (Row V)) (i : ℕ)
    (x : Chars × Row V) : (keyed fields order 0 rows)[i]? = some x ↔
      rows[i]? = some x.2 ∧ rowKey fields (some (order i)) x.2 = some x.1 := by
  obtain ⟨text, row⟩ := x
  rw [keyed, List.getElem?_map, List.getElem?_zipIdx, Nat.zero_add]
  cases rows[i]? with
  | none => simp
  | some r =>
    simp only [Option.map_some, Option.some.injEq, Prod.mk.injEq, rowKey]
    constructor
    · rintro ⟨rfl, rfl⟩
      exact ⟨rfl, rfl⟩
    · rintro ⟨rfl, rfl⟩
      exact ⟨rfl, rfl⟩

/-- A file that decodes is loaded, and a text has the last row with that key. -/
theorem readOne_lookup {types : Types V} {data : Chars → Option (List FieldDesc)}
    {setups : Setups} {path b : Chars} (order : ℕ → List Chars) {rows : List (Row V)}
    (hdata : data (fieldNameByPath path) = some fields) (hsetup : setups.lookup path = some keys)
    (hlist : unmarshal types fields b = some (rows.map some)) :
    ∃ map, readOne types data setups path b order = some { list := rows.map some, map } ∧
      ∀ (text : Chars) (row : Row V), map.lookup text = some row ↔
        ∃ i, rows[i]? = some row ∧ rowKey fields (some (order i)) row = some text ∧
          ∀ (j : ℕ) (row' : Row V), i < j → rows[j]? = some row' →
            rowKey fields (some (order j)) row' ≠ some text := by
  refine ⟨Map.insertAll (keyed fields order 0 rows) ∅, ?_, fun text row => ?_⟩
  · simp only [readOne, hdata, hlist, hsetup, Option.isSome_some, if_true, storeRows_eq,
      Option.map_some]
  · rw [Map.lookup_insertAll]
    constructor
    · rintro ⟨i, hi, hafter⟩
      obtain ⟨hrow, hkey⟩ := (keyed_getElem? order rows i _).mp hi
      refine ⟨i, hrow, hkey, fun j row' hj hrow' hkey' => ?_⟩
      exact hafter j (text, row') hj ((keyed_getElem? order rows j _).mpr ⟨hrow', hkey'⟩) rfl
    · rintro ⟨i, hrow, hkey, hafter⟩
      refine ⟨i, (keyed_getElem? order rows i _).mpr ⟨hrow, hkey⟩, fun j x hj hx heq => ?_⟩
      obtain ⟨hrow', hkey'⟩ := (keyed_getElem? order rows j x).mp hx
      exact hafter j x.2 hj hrow' (heq ▸ hkey')

/-! ### One column -/

theorem fieldStrValue_inj {x y : Field V} (hx : x.kind.isSome) (hkind : x.kind = y.kind)
    (h : fieldStrValue (some x) = fieldStrValue (some y)) : x = y := by
  cases x <;> cases y <;> simp only [Field.kind, Option.some.injEq, reduceCtorEq] at hx hkind
  · rename_i i j
    have hvalue := congrArg decimalInt h
    rw [fieldStrValue, fieldStrValue, decimalInt_repr, decimalInt_repr] at hvalue
    rw [Option.some.inj hvalue]
  · rename_i m n
    rw [repr_eq_repr_iff.mp (String.toList_inj.mp h)]
  · exact congrArg Field.str h
  · cases hx

theorem exists_column {name : Chars} (hname : name ∈ fields.map (·.name)) :
    ∃ (i : ℕ) (hlt : i < fields.length), fields.findIdx? (·.name = name) = some i ∧
      fields[i].name = name := by
  obtain ⟨g, hg, hgname⟩ := List.mem_map.mp hname
  obtain ⟨i, hi⟩ : ∃ i, fields.findIdx? (·.name = name) = some i := by
    rw [← Option.isSome_iff_exists, List.findIdx?_isSome, List.any_eq_true]
    exact ⟨g, hg, decide_eq_true hgname⟩
  obtain ⟨hlt, hfound, -⟩ := List.findIdx?_eq_some_iff_getElem.mp hi
  exact ⟨i, hlt, hi, of_decide_eq_true hfound⟩

/-- A column has a field in every row, of one kind. -/
theorem fieldByName_fits {name : Chars} (hname : name ∈ fields.map (·.name)) :
    ∃ kind, ∀ row : Row V, RowFits fields row →
      ∃ x, fieldByName fields row name = some x ∧ x.kind.isSome ∧ x.kind = kind := by
  obtain ⟨i, hlt, hi, -⟩ := exists_column hname
  refine ⟨kindOf fields[i].typ, fun row hrow => ?_⟩
  have hlt' : i < row.length := hrow.length_eq ▸ hlt
  refine ⟨row[i], ?_, hrow.get hlt hlt'⟩
  rw [fieldByName, hi, Option.bind_some, List.getElem?_eq_getElem hlt']

theorem keyPart_inj (hkey : ∀ k ∈ keys, title k ∈ fields.map (·.name)) (hrow : RowFits fields row)
    (hrow' : RowFits fields row') {k : Chars} (hk : k ∈ keys)
    (h : keyPart fields row k = keyPart fields row' k) :
    fieldByName fields row (title k) = fieldByName fields row' (title k) := by
  obtain ⟨kind, hfits⟩ := fieldByName_fits (V := V) (hkey k hk)
  obtain ⟨x, hx, hsome, hkind⟩ := hfits row hrow
  obtain ⟨y, hy, -, hkind'⟩ := hfits row' hrow'
  rw [keyPart, keyPart, hx, hy] at h
  rw [hx, hy, fieldStrValue_inj hsome (hkind.trans hkind'.symm) h]

/-- The text of one value for `n + 1` keys. -/
def repeated (n : ℕ) (v : Chars) : Chars := v ++ (List.replicate n (',' :: v)).flatten

theorem repeated_inj {n : ℕ} {v w : Chars} (h : repeated n v = repeated n w) : v = w := by
  have hlength : v.length = w.length := by
    have hlen := congrArg List.length h
    simp only [repeated, List.length_append, List.length_flatten, List.map_replicate,
      List.length_cons, List.sum_replicate_nat] at hlen
    have hmul : (n + 1) * (v.length + 1) = (n + 1) * (w.length + 1) := by
      rw [Nat.add_mul, Nat.add_mul, Nat.one_mul, Nat.one_mul]
      omega
    exact Nat.succ.inj (Nat.eq_of_mul_eq_mul_left n.succ_pos hmul)
  exact (List.append_inj h hlength).1

section OneColumn

variable (hone : ∀ k ∈ keys, ∀ k' ∈ keys, title k = title k')

include hone

theorem rowKey_one {ks : List Chars} (hks : Orders keys ks) {k : Chars} (hk : k ∈ keys)
    (row : Row V) :
    rowKey fields (some ks) row = some (repeated (keys.card - 1) (keyPart fields row k)) := by
  obtain ⟨hnodup, rfl⟩ := hks
  have hpart : ∀ k' ∈ ks, keyPart fields row k' = keyPart fields row k := by
    intro k' hk'
    rw [keyPart, hone k' (List.mem_toFinset.mpr hk') k hk, keyPart]
  cases ks with
  | nil => cases List.mem_toFinset.mp hk
  | cons k' ks =>
    have hrest : (ks.map fun k => ',' :: keyPart fields row k) =
        List.replicate ks.length (',' :: keyPart fields row k) := by
      rw [List.eq_replicate_iff, List.length_map]
      refine ⟨rfl, fun t ht => ?_⟩
      obtain ⟨k', hk', rfl⟩ := List.mem_map.mp ht
      rw [hpart k' (by simp [hk'])]
    rw [rowKey_cons, hrest, hpart k' (by simp), List.toFinset_card_of_nodup hnodup, repeated]
    rfl

/-- Rows have one key exactly if they have the same values in the key columns. -/
theorem rowKey_eq_iff (hkey : ∀ k ∈ keys, title k ∈ fields.map (·.name))
    (hrow : RowFits fields row) (hrow' : RowFits fields row') {ks ks' : List Chars}
    (hks : Orders keys ks) (hks' : Orders keys ks') :
    rowKey fields (some ks) row = rowKey fields (some ks') row' ↔
      SameKeys fields keys row row' := by
  constructor
  · intro h k hk
    rw [rowKey_one hone hks hk, rowKey_one hone hks' hk] at h
    exact keyPart_inj hkey hrow hrow' hk (repeated_inj (Option.some.inj h))
  · intro h
    rcases keys.eq_empty_or_nonempty with rfl | ⟨k, hk⟩
    · obtain rfl : ks = [] := List.toFinset_eq_empty_iff ks |>.mp hks.2
      obtain rfl : ks' = [] := List.toFinset_eq_empty_iff ks' |>.mp hks'.2
      rfl
    · rw [rowKey_one hone hks hk, rowKey_one hone hks' hk, keyPart, keyPart, h k hk]

end OneColumn

/-! ### Two columns -/

/-- A field of a kind that has the text of `n` in a key. -/
def Field.ofNat (kind : Option Kind) (n : ℕ) : Field V :=
  match kind with
  | some .int => .int n
  | some .uint => .uint n
  | _ => .str n.repr.toList

/-- A row that has the given numbers in its columns. -/
def numberRow (fields : List FieldDesc) (num : Chars → ℕ) : Row V :=
  fields.map fun f => .ofNat (kindOf f.typ) (num f.name)

theorem numberRow_fits (hkinds : ∀ f ∈ fields, (kindOf f.typ).isSome) (num : Chars → ℕ) :
    RowFits fields (numberRow fields num : Row V) := by
  rw [RowFits, numberRow, List.forall₂_map_right_iff, List.forall₂_same]
  intro f hf
  obtain ⟨kind, hkind⟩ := Option.isSome_iff_exists.mp (hkinds f hf)
  rw [hkind]
  cases kind <;> exact ⟨rfl, rfl⟩

theorem fieldStrValue_ofNat (kind : Option Kind) (n : ℕ) :
    fieldStrValue (some (.ofNat kind n : Field V)) = n.repr.toList := by
  cases kind with
  | none => rfl
  | some kind => cases kind <;> rfl

theorem keyPart_numberRow (num : Chars → ℕ) {k : Chars} (hname : title k ∈ fields.map (·.name)) :
    keyPart fields (numberRow fields num : Row V) k = (num (title k)).repr.toList := by
  obtain ⟨i, hlt, hi, hfound⟩ := exists_column hname
  rw [keyPart, fieldByName, hi, Option.bind_some, numberRow, List.getElem?_map,
    List.getElem?_eq_getElem hlt, Option.map_some, fieldStrValue_ofNat, hfound]

theorem Orders.perm {ks ks' : List Chars} (h : Orders keys ks) (hperm : ks.Perm ks') :
    Orders keys ks' :=
  ⟨hperm.nodup_iff.mp h.1, (List.toFinset_eq_of_perm _ _ hperm).symm.trans h.2⟩

/-- Two keys may come up first, in either order. -/
theorem exists_orders {k k' : Chars} (hk : k ∈ keys) (hk' : k' ∈ keys) (hne : k ≠ k') :
    ∃ rest, Orders keys (k :: k' :: rest) ∧ Orders keys (k' :: k :: rest) := by
  let rest : List Chars := ((keys.erase k).erase k').toList
  have horder : Orders keys (k :: k' :: rest) := by
    have hmem : k' ∈ keys.erase k := Finset.mem_erase.mpr ⟨hne.symm, hk'⟩
    refine ⟨?_, ?_⟩
    · have hrest : k ∉ rest ∧ k' ∉ rest := by simp [rest]
      rw [List.nodup_cons, List.nodup_cons, List.mem_cons]
      exact ⟨not_or.mpr ⟨hne, hrest.1⟩, hrest.2, Finset.nodup_toList _⟩
    · rw [List.toFinset_cons, List.toFinset_cons, Finset.toList_toFinset,
        Finset.insert_erase hmem, Finset.insert_erase hk]
  exact ⟨rest, horder, horder.perm (.swap _ _ _)⟩

/-- Two columns make a key that depends on the order. -/
theorem rowKey_depends (hkinds : ∀ f ∈ fields, (kindOf f.typ).isSome) {k k' : Chars}
    (hk : k ∈ keys) (hk' : k' ∈ keys) (hname : title k ∈ fields.map (·.name))
    (hname' : title k' ∈ fields.map (·.name)) (hne : title k ≠ title k') :
    ∃ (row : Row V) (ks ks' : List Chars), RowFits fields row ∧ Orders keys ks ∧
      Orders keys ks' ∧ rowKey fields (some ks) row ≠ rowKey fields (some ks') row := by
  let num : Chars → ℕ := fun name => if name = title k then 1 else 2
  have hone : num (title k) = 1 := if_pos rfl
  have htwo : num (title k') = 2 := if_neg hne.symm
  obtain ⟨rest, horder, horder'⟩ := exists_orders hk hk' fun h => hne (congrArg title h)
  refine ⟨numberRow fields num, _, _, numberRow_fits hkinds num, horder, horder', ?_⟩
  rw [rowKey_cons, rowKey_cons, keyPart_numberRow num hname, keyPart_numberRow num hname', hone,
    htwo]
  intro heq
  exact absurd (List.cons.inj (Option.some.inj heq)).1 (by decide)

end Keys

/-- A table with the columns `A` and `B`. -/
def columnsAB (typ : String) : List FieldDesc :=
  [{ name := "A".toList, typ := typ.toList }, { name := "B".toList, typ := typ.toList }]

/-- The table `AB` in `Data`. -/
def dataAB (typ : String) (name : Chars) : Option (List FieldDesc) :=
  if name = "AB".toList then some (columnsAB typ) else none

/-- What the map has at `texts` once the file of the table is loaded. -/
def loaded (typ b : String) (order : ℕ → List Chars) (texts : List String) :
    Option (ℕ × List (Option (Row Unit))) :=
  let path := "../target/a/b.json".toList
  let setups : Setups := Finmap.singleton path {"a".toList, "b".toList}
  (readOne int32Types (dataAB typ) setups path b.toList order).map fun table =>
    (table.map.len, texts.map fun text => table.map.lookup text.toList)

end GameCluster.Tables
