import Mathlib.Data.Int.Interval
import Mathlib.Data.List.Nodup
import GameCluster.Proto.Lines

/-!
The generator of message numbers, `tools/proto`: it collects the messages of the proto files by
their prefix and gives those without a number the next ones in the enum of the prefix, whose
file it writes anew. A number that was given stays as long as the count does not wrap around and
the written file can be read.
-/

namespace GameCluster.Proto

open Lib

/-! ### Collecting the messages -/

/-- The prefixes of messages. -/
inductive MsgType where
  | c2s
  | s2c
  | s2s
  deriving DecidableEq

def MsgType.text : MsgType → Chars
  | .c2s => "C2S".toList
  | .s2c => "S2C".toList
  | .s2s => "S2S".toList

def targetPrefixes : List MsgType := [.c2s, .s2c, .s2s]

/-- `"MsgID" + typ`. -/
def MsgType.enumName (typ : MsgType) : Ident where
  first := 'M'
  rest := "sgID".toList ++ typ.text
  start := by decide
  word := by cases typ <;> decide

/-- The first of the prefixes that a name has. -/
def msgType (name : Ident) : Option MsgType :=
  targetPrefixes.find? fun typ => typ.text.isPrefixOf name.text

/-- The messages of a prefix, over the files in the order of the walk; one that cannot be
parsed is passed over. -/
def collectAllMessages (files : List (Option Definition)) (typ : MsgType) : List Ident :=
  files.flatMap fun file => (file.getD []).flatMap fun element =>
    match element with
    | .message name => if msgType name = some typ then [name] else []
    | _ => []

/-! ### Giving out numbers -/

def Element.enumOf (name : Ident) : Element → Option Enum
  | .enum e => if e.name = name then some e else none
  | _ => none

/-- The enum of a name with what is before and after it: `enums[name]` is the last one. -/
def findEnum (name : Ident) : Definition → Option (Definition × Enum × Definition)
  | [] => none
  | element :: rest =>
    match findEnum name rest with
    | some (before, e, after) => some (element :: before, e, after)
    | none => (element.enumOf name).map fun e => ([], e, rest)

def maxID (fields : List (Ident × Int64)) : Int64 :=
  fields.foldl (fun maxID field => if field.2 > maxID then field.2 else maxID) (-1)

/-- The fields for the messages that have none. `existingFields` is not extended on the way. -/
def addMissing (existingFields : List Ident) : Int64 → List Ident → List EnumField
  | _, [] => []
  | maxID, msg :: msgMap =>
    if msg ∈ existingFields then addMissing existingFields maxID msgMap
    else
      let maxID := maxID + 1
      { name := msg, integer := maxID, inlineComment := none } ::
        addMissing existingFields maxID msgMap

/-- The definition with its new fields, and whether it was modified. -/
def updateEnum (typ : MsgType) (msgMap : List Ident) (definition : Definition) (modified : Bool) :
    Definition × Bool :=
  let (before, targetEnum, after, modified) :=
    match findEnum typ.enumName definition with
    | some (before, e, after) => (before, e, after, modified)
    | none => (definition, { name := typ.enumName, elements := [] }, [], true)
  let fields := fieldsOf targetEnum.elements
  let added := addMissing (fields.map Prod.fst) (maxID fields) msgMap
  (before ++ .enum { targetEnum with elements := targetEnum.elements ++ added.map .field } :: after,
    modified || !added.isEmpty)

/-! ### The file -/

section File

variable (p : ProtoParser)

/-- The definition to work on, and whether it is a new one. A file that cannot be parsed gives
none. -/
def load : Option Chars → Option (Definition × Bool)
  | none => some ([.syntaxDecl "proto3".toList], true)
  | some text => (p.parse text).map (·, false)

/-- The text that is written to the file of a prefix, if any. -/
def updateTargetEnumFile (typ : MsgType) (msgMap : List Ident) (file : Option Chars) :
    Option Chars :=
  match load p file with
  | none => none
  | some (definition, created) =>
    let (definition, modified) := updateEnum typ msgMap definition created
    if modified then some (writeProto definition) else none

/-- The file after an update. -/
def updated (typ : MsgType) (msgMap : List Ident) (file : Option Chars) : Option Chars :=
  (updateTargetEnumFile p typ msgMap file).or file

/-- One run of the generator over the proto files. -/
def main (files : MsgType → Option Chars) (sources : List (Option Definition)) :
    MsgType → Option Chars :=
  let globalMsgMap := collectAllMessages sources
  if ∀ typ ∈ targetPrefixes, globalMsgMap typ = [] then files
  else fun typ => updated p typ (globalMsgMap typ) (files typ)

end File

/-! ### The numbers of a file -/

def ids (typ : MsgType) (d : Definition) : List (Ident × Int64) :=
  match findEnum typ.enumName d with
  | some (_, e, _) => fieldsOf e.elements
  | none => []

/-- No name and no number stands twice. -/
def Distinct (fields : List (Ident × Int64)) : Prop :=
  (fields.map Prod.fst).Nodup ∧ (fields.map Prod.snd).Nodup

instance (fields : List (Ident × Int64)) : Decidable (Distinct fields) :=
  inferInstanceAs (Decidable (_ ∧ _))

/-- What an update is for: the old numbers stay, and each message without a number gets one
above them. -/
structure Assigned (old : List (Ident × Int64)) (msgs : List Ident) (new : List (Ident × Int64)) :
    Prop where
  extends_old : ∃ added, new = old ++ added ∧
    added.map Prod.fst = msgs.filter (· ∉ old.map Prod.fst) ∧ ∀ a ∈ added, ∀ o ∈ old, o.2 < a.2
  distinct : Distinct new

theorem Assigned.of_mem {old new : List (Ident × Int64)} {msgs : List Ident}
    (h : Assigned old msgs new) {msg : Ident} (hmsg : msg ∈ msgs) : msg ∈ new.map Prod.fst := by
  obtain ⟨added, rfl, hadded, -⟩ := h.extends_old
  rw [List.map_append, List.mem_append, hadded]
  by_cases hold : msg ∈ old.map Prod.fst
  · exact Or.inl hold
  · exact Or.inr (List.mem_filter.mpr ⟨hmsg, by simpa using hold⟩)

theorem Assigned.isPrefix {old new : List (Ident × Int64)} {msgs : List Ident}
    (h : Assigned old msgs new) : old <+: new := by
  obtain ⟨added, rfl, -⟩ := h.extends_old
  exact List.prefix_append old added

section Numbers

variable {typ : MsgType} {msgs : List Ident} {fields : List (Ident × Int64)} {m : Int64}

/-- The messages that have no number. -/
def missing (fields : List (Ident × Int64)) (msgs : List Ident) : List Ident :=
  msgs.filter (· ∉ fields.map Prod.fst)

theorem foldl_maxID_le_iff {bound : Int64} :
    fields.foldl (fun maxID field => if field.2 > maxID then field.2 else maxID) m ≤ bound ↔
      m ≤ bound ∧ ∀ f ∈ fields, f.2 ≤ bound := by
  simp only [Int64.le_iff_toInt_le, gt_iff_lt, Int64.lt_iff_toInt_lt]
  induction fields generalizing m with
  | nil => simp
  | cons f fields ih =>
    rw [List.foldl_cons, ih, List.forall_mem_cons]
    split_ifs with h
    · exact ⟨fun ⟨hf, hall⟩ => ⟨by omega, hf, hall⟩, fun ⟨_, hf, hall⟩ => ⟨hf, hall⟩⟩
    · exact ⟨fun ⟨hm, hall⟩ => ⟨hm, by omega, hall⟩, fun ⟨hm, _, hall⟩ => ⟨hm, hall⟩⟩

theorem maxID_le_iff {bound : Int64} :
    maxID fields ≤ bound ↔ -1 ≤ bound ∧ ∀ f ∈ fields, f.2 ≤ bound :=
  foldl_maxID_le_iff

theorem neg_one_le_maxID (fields : List (Ident × Int64)) : -1 ≤ (maxID fields).toInt :=
  Int64.le_iff_toInt_le.mp (maxID_le_iff.mp (Int64.le_refl _)).1

theorem le_maxID {f : Ident × Int64} (hf : f ∈ fields) : f.2.toInt ≤ (maxID fields).toInt :=
  Int64.le_iff_toInt_le.mp ((maxID_le_iff.mp (Int64.le_refl _)).2 f hf)

/-- The largest number is -1 or the number of a field. -/
theorem maxID_mem (fields : List (Ident × Int64)) :
    maxID fields = -1 ∨ ∃ f ∈ fields, f.2 = maxID fields := by
  refine List.foldlRecOn (motive := fun m => m = -1 ∨ ∃ f ∈ fields, f.2 = m) fields _
    (Or.inl rfl) fun m hm f hf => ?_
  split_ifs
  · exact Or.inr ⟨f, hf, rfl⟩
  · exact hm

/-- The pair of a field, as `fieldsOf` gives it. -/
def EnumField.pair (f : EnumField) : Ident × Int64 := (f.name, f.integer)

theorem fieldsOf_append_fields (els : List EnumElement) (added : List EnumField) :
    fieldsOf (els ++ added.map .field) = fieldsOf els ++ added.map EnumField.pair := by
  rw [fieldsOf, List.filterMap_append, List.filterMap_map]
  exact congrArg _ (congrFun List.filterMap_eq_map _)

/-- Without a wrap, the new numbers count up from the largest one. -/
theorem addMissing_numbers (existing : List Ident) (hlow : -1 ≤ m.toInt)
    (hroom : m.toInt + (msgs.filter (· ∉ existing)).length < 2 ^ 63) :
    (∀ f ∈ addMissing existing m msgs, m.toInt < f.integer.toInt ∧
        f.integer.toInt ≤ m.toInt + (msgs.filter (· ∉ existing)).length) ∧
      (addMissing existing m msgs).Pairwise fun f g => f.integer.toInt < g.integer.toInt := by
  induction msgs generalizing m with
  | nil => simp [addMissing]
  | cons msg msgs ih =>
    by_cases h : msg ∈ existing
    · rw [List.filter_cons_of_neg (by simpa using h)] at hroom ⊢
      rw [addMissing, if_pos h]
      exact ih hlow hroom
    · rw [List.filter_cons_of_pos (by simpa using h), List.length_cons, Int.natCast_succ]
        at hroom ⊢
      have hone : (1 : Int64).toInt = 1 := rfl
      have hnext : (m + 1).toInt = m.toInt + 1 := by
        rw [Int64.toInt_add, hone]
        exact Int.bmod_eq_of_le (by omega) (by omega)
      obtain ⟨hbounds, hsorted⟩ := ih (m := m + 1) (by omega) (by omega)
      simp only [addMissing, if_neg h]
      refine ⟨List.forall_mem_cons.mpr ⟨?_, fun f hf => ?_⟩,
        List.pairwise_cons.mpr ⟨fun f hf => (hbounds f hf).1, hsorted⟩⟩
      · show m.toInt < (m + 1).toInt ∧ (m + 1).toInt ≤ _
        omega
      · have hf := hbounds f hf
        omega

theorem addMissing_names (existing : List Ident) (m : Int64) (msgs : List Ident) :
    (addMissing existing m msgs).map EnumField.name = msgs.filter (· ∉ existing) := by
  induction msgs generalizing m with
  | nil => rfl
  | cons msg msgs ih =>
    by_cases h : msg ∈ existing
    · rw [addMissing, if_pos h, List.filter_cons_of_neg (by simpa using h), ih]
    · simp only [addMissing, if_neg h]
      rw [List.filter_cons_of_pos (by simpa using h), List.map_cons, ih]

theorem addMissing_eq_nil_iff {existing : List Ident} :
    addMissing existing m msgs = [] ↔ ∀ msg ∈ msgs, msg ∈ existing := by
  rw [← List.map_eq_nil_iff (f := EnumField.name), addMissing_names, List.filter_eq_nil_iff]
  simp

theorem assigned_addMissing (hfields : Distinct fields) (hmsgs : msgs.Nodup)
    (hroom : (maxID fields).toInt + (missing fields msgs).length < 2 ^ 63) :
    Assigned fields msgs (fields ++
      (addMissing (fields.map Prod.fst) (maxID fields) msgs).map EnumField.pair) := by
  obtain ⟨hnames, hnumbers⟩ := hfields
  obtain ⟨hbounds, hsorted⟩ :=
    addMissing_numbers (fields.map Prod.fst) (neg_one_le_maxID fields) hroom
  have hadded := addMissing_names (fields.map Prod.fst) (maxID fields) msgs
  set added := addMissing (fields.map Prod.fst) (maxID fields) msgs
  have hfst : (added.map EnumField.pair).map Prod.fst = added.map EnumField.name :=
    List.map_map
  have hsnd : (added.map EnumField.pair).map Prod.snd = added.map EnumField.integer :=
    List.map_map
  have habove : ∀ a ∈ added.map EnumField.pair, ∀ o ∈ fields, o.2 < a.2 := by
    intro a ha o ho
    obtain ⟨f, hf, rfl⟩ := List.mem_map.mp ha
    exact Int64.lt_iff_toInt_lt.mpr (lt_of_le_of_lt (le_maxID ho) (hbounds f hf).1)
  refine ⟨⟨_, rfl, hfst.trans hadded, habove⟩, ⟨?_, ?_⟩⟩
  · rw [List.map_append, hfst, hadded, List.nodup_append']
    refine ⟨hnames, hmsgs.filter _, ?_⟩
    intro name hname hfilter
    simpa [hname] using (List.mem_filter.mp hfilter).2
  · rw [List.map_append, hsnd, List.nodup_append']
    refine ⟨hnumbers, List.pairwise_map.mpr (hsorted.imp fun h heq => ?_), ?_⟩
    · exact absurd (congrArg Int64.toInt heq) (ne_of_lt h)
    · intro i hi hnew
      obtain ⟨o, ho, rfl⟩ := List.mem_map.mp hi
      obtain ⟨f, hf, heq⟩ := List.mem_map.mp hnew
      have hlt := Int64.lt_iff_toInt_lt.mp (habove _ (List.mem_map_of_mem hf) o ho)
      exact absurd (congrArg Int64.toInt heq) (ne_of_gt hlt)

/-- Different numbers above the largest one leave room for all of them. -/
theorem Assigned.room {new : List (Ident × Int64)} (h : Assigned fields msgs new)
    (hlen : msgs.length < 2 ^ 63) :
    (maxID fields).toInt + (missing fields msgs).length < 2 ^ 63 := by
  have hmissing : (missing fields msgs).length ≤ msgs.length := List.length_filter_le _ _
  rcases maxID_mem fields with hnone | ⟨o, ho, hmax⟩
  · have hneg : (-1 : Int64).toInt = -1 := by decide
    rw [hnone, hneg]
    omega
  · obtain ⟨added, rfl, hadded, habove⟩ := h.extends_old
    have hdistinct : (added.map Prod.snd).Nodup := by
      have hnumbers := h.distinct.2
      rw [List.map_append] at hnumbers
      exact hnumbers.of_append_right
    -- The new numbers are different integers between the largest one and 2^63.
    have hcount : (added.map fun a => a.2.toInt).toFinset ⊆
        Finset.Ioo (maxID fields).toInt (2 ^ 63) := by
      intro i hi
      obtain ⟨a, ha, rfl⟩ := List.mem_map.mp (List.mem_toFinset.mp hi)
      have hlt := Int64.lt_iff_toInt_lt.mp (habove a ha o ho)
      exact Finset.mem_Ioo.mpr ⟨hmax ▸ hlt, Int64.toInt_lt a.2⟩
    have hints : (added.map fun a => a.2.toInt).Nodup := by
      have hmap : (added.map fun a => a.2.toInt) = (added.map Prod.snd).map Int64.toInt := by
        rw [List.map_map]
        rfl
      rw [hmap]
      exact hdistinct.map fun _ _ => Int64.toInt_inj.mp
    have hcard := Finset.card_le_card hcount
    rw [List.toFinset_card_of_nodup hints, Int.card_Ioo, List.length_map] at hcard
    have hlength : added.length = (missing fields msgs).length := by
      rw [missing, ← hadded, List.length_map]
    have hbound := Int64.toInt_lt (maxID fields)
    omega

end Numbers

/-! ### The enum of a prefix -/

section Target

variable {name : Ident} {d d' : Definition}

theorem enumOf_eq_some {element : Element} {e : Enum} :
    element.enumOf name = some e ↔ element = .enum e ∧ e.name = name := by
  cases element with
  | enum e' =>
    rw [Element.enumOf, Option.ite_none_right_eq_some, Option.some.injEq, Element.enum.injEq]
    exact ⟨fun ⟨h, heq⟩ => ⟨heq, heq ▸ h⟩, fun ⟨heq, h⟩ => ⟨heq ▸ h, heq⟩⟩
  | _ => simp [Element.enumOf]

theorem findEnum_some {before after : Definition} {e : Enum}
    (h : findEnum name d = some (before, e, after)) :
    d = before ++ .enum e :: after ∧ e.name = name ∧ findEnum name after = none := by
  induction d generalizing before with
  | nil => simp [findEnum] at h
  | cons element rest ih =>
    rw [findEnum] at h
    cases hrest : findEnum name rest with
    | some found =>
      obtain ⟨before', e', after'⟩ := found
      simp only [hrest, Option.some.injEq, Prod.mk.injEq] at h
      obtain ⟨rfl, rfl, rfl⟩ := h
      obtain ⟨rfl, hname, hafter⟩ := ih hrest
      exact ⟨rfl, hname, hafter⟩
    | none =>
      simp only [hrest, Option.map_eq_some_iff, Prod.mk.injEq] at h
      obtain ⟨e', he, rfl, rfl, rfl⟩ := h
      obtain ⟨rfl, hname⟩ := enumOf_eq_some.mp he
      exact ⟨rfl, hname, hrest⟩

theorem findEnum_append {after : Definition} {e : Enum} (before : Definition)
    (hname : e.name = name) (hafter : findEnum name after = none) :
    findEnum name (before ++ .enum e :: after) = some (before, e, after) := by
  induction before with
  | nil =>
    rw [List.nil_append, findEnum, hafter]
    exact Option.map_eq_some_iff.mpr ⟨e, enumOf_eq_some.mpr ⟨rfl, hname⟩, rfl⟩
  | cons element before ih => rw [List.cons_append, findEnum, ih]

/-- The fields of the last enum of a name. -/
def lastFields (name : Ident) :
    List (Ident × List (Ident × Int64)) → Option (List (Ident × Int64))
  | [] => none
  | (n, fields) :: rest => (lastFields name rest).or (if n = name then some fields else none)

theorem findEnum_fields (name : Ident) (d : Definition) :
    (findEnum name d).map (fun found => fieldsOf found.2.1.elements) =
      lastFields name (enumsOf d) := by
  induction d with
  | nil => rfl
  | cons element rest ih =>
    have hcons : lastFields name (enumsOf (element :: rest)) =
        (lastFields name (enumsOf rest)).or
          ((element.enumOf name).map fun e => fieldsOf e.elements) := by
      cases element with
      | enum e =>
        show Option.or _ (if e.name = name then _ else none) = _
        rw [Element.enumOf]
        split_ifs
        · rfl
        · rfl
      | _ => exact (Option.or_none).symm
    rw [hcons, ← ih, findEnum]
    cases findEnum name rest with
    | some found => rfl
    | none => exact Option.map_map _ _ _

/-- Files with the same enums have the enum of a prefix with the same fields, or both do not. -/
theorem findEnum_of_enumsOf (name : Ident) (henums : enumsOf d' = enumsOf d) :
    (findEnum name d').map (fun found => fieldsOf found.2.1.elements) =
      (findEnum name d).map (fun found => fieldsOf found.2.1.elements) := by
  rw [findEnum_fields, findEnum_fields, henums]

theorem ids_eq (typ : MsgType) (d : Definition) :
    ids typ d =
      ((findEnum typ.enumName d).map fun found => fieldsOf found.2.1.elements).getD [] := by
  rw [ids]
  cases findEnum typ.enumName d <;> rfl

end Target

/-! ### Updates and runs -/

/-- The fields that an update adds. -/
def newFields (typ : MsgType) (msgs : List Ident) (d : Definition) : List EnumField :=
  addMissing ((ids typ d).map Prod.fst) (maxID (ids typ d)) msgs

section Update

variable {p : ProtoParser} {typ : MsgType} {msgs : List Ident} {d : Definition} {created : Bool}

/-- An update puts the new fields at the end of the enum, which it creates if need be. -/
theorem updateEnum_eq (typ : MsgType) (msgs : List Ident) (d : Definition) (modified : Bool) :
    ∃ (before : Definition) (e : Enum) (after : Definition),
      updateEnum typ msgs d modified =
        (before ++
          .enum { e with elements := e.elements ++ (newFields typ msgs d).map .field } :: after,
        (modified || (findEnum typ.enumName d).isNone) || !(newFields typ msgs d).isEmpty) ∧
      e.name = typ.enumName ∧ findEnum typ.enumName after = none ∧
      fieldsOf e.elements = ids typ d ∧ (∀ el ∈ d, el ∈ before ++ .enum e :: after) ∧
      ∀ el ∈ before ++ .enum e :: after,
        el ∈ d ∨ el = .enum { name := typ.enumName, elements := [] } := by
  cases hfind : findEnum typ.enumName d with
  | none =>
    refine ⟨d, { name := typ.enumName, elements := [] }, [], ?_, rfl, rfl, ?_,
      fun el hel => List.mem_append_left _ hel, ?_⟩
    · simp only [updateEnum, newFields, ids, hfind, Option.isNone_none, Bool.or_true]
      rfl
    · rw [ids, hfind]
      rfl
    · intro el hel
      simpa using hel
  | some found =>
    obtain ⟨before, e, after⟩ := found
    obtain ⟨rfl, hname, hafter⟩ := findEnum_some hfind
    refine ⟨before, e, after, ?_, hname, hafter, ?_, fun el hel => hel,
      fun el hel => Or.inl hel⟩
    · simp only [updateEnum, newFields, ids, hfind, Option.isNone_some, Bool.or_false]
    · rw [ids, hfind]

/-- The enum is there after an update, with the new fields after the old ones. -/
theorem ids_updateEnum (typ : MsgType) (msgs : List Ident) (d : Definition) (modified : Bool) :
    (findEnum typ.enumName (updateEnum typ msgs d modified).1).isSome = true ∧
      ids typ (updateEnum typ msgs d modified).1 =
        ids typ d ++ (newFields typ msgs d).map EnumField.pair := by
  obtain ⟨before, e, after, heq, hname, hafter, hfields, -⟩ := updateEnum_eq typ msgs d modified
  let e' : Enum := { e with elements := e.elements ++ (newFields typ msgs d).map .field }
  have hfind := findEnum_append (e := e') before hname hafter
  rw [heq, ids]
  simp only [e'] at hfind
  simp only [hfind, ← hfields]
  exact ⟨rfl, fieldsOf_append_fields _ _⟩

/-- There is a number for every message without one. -/
def HasRoom (typ : MsgType) (msgs : List Ident) (d : Definition) : Prop :=
  (maxID (ids typ d)).toInt + (missing (ids typ d) msgs).length < 2 ^ 63

instance (typ : MsgType) (msgs : List Ident) (d : Definition) : Decidable (HasRoom typ msgs d) :=
  inferInstanceAs (Decidable (_ < _))

/-- The file is there, with the enum of the prefix and a number for every message. -/
def UpToDate (typ : MsgType) (msgs : List Ident) (d : Definition) (created : Bool) : Prop :=
  created = false ∧ (findEnum typ.enumName d).isSome = true ∧
    ∀ msg ∈ msgs, msg ∈ (ids typ d).map Prod.fst

/-- Exactly then there is nothing to write. -/
theorem updateEnum_unmodified_iff :
    (updateEnum typ msgs d created).2 = false ↔ UpToDate typ msgs d created := by
  obtain ⟨_, _, _, heq, -⟩ := updateEnum_eq typ msgs d created
  rw [heq, UpToDate, ← addMissing_eq_nil_iff (m := maxID (ids typ d)), ← newFields]
  cases findEnum typ.enumName d <;> simp

theorem assigned_updateEnum_iff (hd : Distinct (ids typ d)) (hmsgs : msgs.Nodup)
    (hlen : msgs.length < 2 ^ 63) (modified : Bool) :
    Assigned (ids typ d) msgs (ids typ (updateEnum typ msgs d modified).1) ↔
      HasRoom typ msgs d := by
  refine ⟨fun h => h.room hlen, fun hroom => ?_⟩
  rw [(ids_updateEnum typ msgs d modified).2]
  exact assigned_addMissing hd hmsgs hroom

theorem isField_of_msgType {name : Ident} (h : msgType name = some typ) :
    name.text ≠ "option".toList ∧ name.text ≠ "reserved".toList := by
  have hstart : typ.text.isPrefixOf name.text = true := by simpa using List.find?_some h
  refine ⟨fun heq => ?_, fun heq => ?_⟩
  · rw [heq] at hstart
    cases typ <;> exact absurd hstart (by decide)
  · rw [heq] at hstart
    cases typ <;> exact absurd hstart (by decide)

theorem newFields_isField (htype : ∀ msg ∈ msgs, msgType msg = some typ)
    (hroom : HasRoom typ msgs d) : ∀ f ∈ newFields typ msgs d, IsField f.pair := by
  intro f hf
  have hlow := neg_one_le_maxID (ids typ d)
  have hbounds := (addMissing_numbers _ hlow hroom).1 f hf
  have hname : f.name ∈ msgs.filter (· ∉ (ids typ d).map Prod.fst) := by
    rw [← addMissing_names]
    exact List.mem_map_of_mem hf
  obtain ⟨hoption, hreserved⟩ := isField_of_msgType (htype _ (List.mem_filter.mp hname).1)
  refine ⟨hoption, hreserved, fun heq => ?_⟩
  have hmin : Int64.minValue.toInt = -2 ^ 63 := by decide
  have hint : f.integer.toInt = -2 ^ 63 := by rw [← hmin, ← heq]; rfl
  omega

/-- The updated definition has the old statements and more fields in one enum. -/
theorem plain_updateEnum (hd : ∀ el ∈ d, el.Plain) (htype : ∀ msg ∈ msgs, msgType msg = some typ)
    (hroom : HasRoom typ msgs d) (modified : Bool) :
    ∀ el ∈ (updateEnum typ msgs d modified).1, el.Plain := by
  obtain ⟨before, e, after, heq, -, -, -, -, hmem⟩ := updateEnum_eq typ msgs d modified
  have hold : ∀ el ∈ before ++ .enum e :: after, el.Plain := by
    intro el hel
    rcases hmem el hel with hel | rfl
    · exact hd el hel
    · exact List.forall_mem_nil _
  rw [List.forall_mem_append, List.forall_mem_cons] at hold
  obtain ⟨hbefore, he, hafter⟩ := hold
  rw [heq, List.forall_mem_append, List.forall_mem_cons]
  refine ⟨hbefore, ?_, hafter⟩
  show ∀ f ∈ fieldsOf (e.elements ++ (newFields typ msgs d).map .field), IsField f
  rw [fieldsOf_append_fields, List.forall_mem_append, List.forall_mem_map]
  exact ⟨he, newFields_isField htype hroom⟩

theorem reads_updateEnum_iff (modified : Bool) :
    (∀ el ∈ (updateEnum typ msgs d modified).1, p.Reads el) ↔ ∀ el ∈ d, p.Reads el := by
  obtain ⟨before, e, after, heq, -, -, -, hsub, hmem⟩ := updateEnum_eq typ msgs d modified
  -- An enum is always read, whatever its fields.
  have hfields : (∀ el ∈ (updateEnum typ msgs d modified).1, p.Reads el) ↔
      ∀ el ∈ before ++ .enum e :: after, p.Reads el := by
    rw [heq, List.forall_mem_append, List.forall_mem_append, List.forall_mem_cons,
      List.forall_mem_cons]
    exact Iff.rfl
  refine hfields.trans ⟨fun h el hel => h el (hsub el hel), fun h el hel => ?_⟩
  rcases hmem el hel with hel | rfl
  · exact h el hel
  · trivial

/-- The written file is read with the enum of the prefix and its numbers. -/
theorem parse_updateEnum (hplain : ∀ el ∈ d, el.Plain) (hreads : ∀ el ∈ d, p.Reads el)
    (htype : ∀ msg ∈ msgs, msgType msg = some typ) (hroom : HasRoom typ msgs d)
    (modified : Bool) :
    ∃ d', p.parse (writeProto (updateEnum typ msgs d modified).1) = some d' ∧
      (∀ el ∈ d', el.Plain) ∧ (∀ el ∈ d', p.Reads el) ∧
      (findEnum typ.enumName d').isSome = true ∧
      ids typ d' = ids typ (updateEnum typ msgs d modified).1 := by
  obtain ⟨d', hparse, henums, hplain', hreads'⟩ := p.parse_writeProto
    (plain_updateEnum hplain htype hroom modified) ((reads_updateEnum_iff modified).mpr hreads)
  have hsame := findEnum_of_enumsOf typ.enumName henums
  refine ⟨d', hparse, hplain', hreads', ?_, ?_⟩
  · have hsome := congrArg Option.isSome hsame
    rw [Option.isSome_map, Option.isSome_map] at hsome
    rw [hsome]
    exact (ids_updateEnum typ msgs d modified).1
  · rw [ids_eq, ids_eq, hsame]

variable {file : Option Chars}

theorem updateTargetEnumFile_eq (hfile : load p file = some (d, created)) :
    updateTargetEnumFile p typ msgs file =
      if (updateEnum typ msgs d created).2 then some (writeProto (updateEnum typ msgs d created).1)
      else none := by
  rw [updateTargetEnumFile, hfile]

theorem updated_of_upToDate (hfile : load p file = some (d, created))
    (h : UpToDate typ msgs d created) : updated p typ msgs file = file := by
  rw [updated, updateTargetEnumFile_eq hfile, updateEnum_unmodified_iff.mpr h]
  rfl

theorem ids_of_upToDate (h : UpToDate typ msgs d created) :
    ids typ (updateEnum typ msgs d created).1 = ids typ d := by
  rw [(ids_updateEnum typ msgs d created).2, newFields, addMissing_eq_nil_iff.mpr h.2.2]
  exact List.append_nil _

theorem updated_of_modified (hfile : load p file = some (d, created))
    (h : ¬UpToDate typ msgs d created) :
    updated p typ msgs file = some (writeProto (updateEnum typ msgs d created).1) := by
  have hmodified : (updateEnum typ msgs d created).2 = true := by
    rwa [← Bool.not_eq_false, updateEnum_unmodified_iff]
  rw [updated, updateTargetEnumFile_eq hfile, if_pos hmodified]
  rfl

/-- One update, from file to file: the result can be read and is up to date. -/
theorem updated_load (hfile : load p file = some (d, created)) (hplain : ∀ el ∈ d, el.Plain)
    (hreads : ∀ el ∈ d, p.Reads el) (htype : ∀ msg ∈ msgs, msgType msg = some typ)
    (hroom : HasRoom typ msgs d) :
    ∃ d' created', load p (updated p typ msgs file) = some (d', created') ∧
      (∀ el ∈ d', el.Plain) ∧ (∀ el ∈ d', p.Reads el) ∧
      ids typ d' = ids typ (updateEnum typ msgs d created).1 ∧ UpToDate typ msgs d' created' := by
  by_cases huptodate : UpToDate typ msgs d created
  · rw [updated_of_upToDate hfile huptodate]
    exact ⟨d, created, hfile, hplain, hreads, (ids_of_upToDate huptodate).symm, huptodate⟩
  · obtain ⟨d', hparse, hplain', hreads', hfind, hids⟩ :=
      parse_updateEnum hplain hreads htype hroom created
    rw [updated_of_modified hfile huptodate]
    refine ⟨d', false, ?_, hplain', hreads', hids, rfl, hfind, fun msg hmsg => ?_⟩
    · rw [load, hparse]
      rfl
    · rw [hids, (ids_updateEnum typ msgs d created).2, List.map_append, List.mem_append]
      by_cases hold : msg ∈ (ids typ d).map Prod.fst
      · exact Or.inl hold
      · have hnames := addMissing_names ((ids typ d).map Prod.fst) (maxID (ids typ d)) msgs
        have hpairs : ((newFields typ msgs d).map EnumField.pair).map Prod.fst =
            (newFields typ msgs d).map EnumField.name := List.map_map
        rw [hpairs, newFields, hnames]
        exact Or.inr (List.mem_filter.mpr ⟨hmsg, by simpa using hold⟩)

/-- What an update promises: the numbers are given out as they should be, and the file that it
leaves is read with them and needs no change. -/
structure Stable (p : ProtoParser) (typ : MsgType) (msgs : List Ident) (file : Option Chars)
    (d : Definition) (created : Bool) : Prop where
  assigned : Assigned (ids typ d) msgs (ids typ (updateEnum typ msgs d created).1)
  rereads : ∃ d' created', load p (updated p typ msgs file) = some (d', created') ∧
    ids typ d' = ids typ (updateEnum typ msgs d created).1 ∧
    updateTargetEnumFile p typ msgs (updated p typ msgs file) = none

theorem stable_iff (hfile : load p file = some (d, created)) (hdistinct : Distinct (ids typ d))
    (hmsgs : msgs.Nodup) (htype : ∀ msg ∈ msgs, msgType msg = some typ)
    (hlen : msgs.length < 2 ^ 63) (hplain : ∀ el ∈ d, el.Plain) :
    Stable p typ msgs file d created ↔
      HasRoom typ msgs d ∧ (UpToDate typ msgs d created ∨ ∀ el ∈ d, p.Reads el) := by
  have hassigned := assigned_updateEnum_iff hdistinct hmsgs hlen created
  constructor
  · intro h
    have hroom := hassigned.mp h.assigned
    refine ⟨hroom, or_iff_not_imp_left.mpr fun huptodate => ?_⟩
    obtain ⟨d', created', hload, -⟩ := h.rereads
    rw [updated_of_modified hfile huptodate] at hload
    obtain ⟨_, hparse, -⟩ := Option.map_eq_some_iff.mp hload
    rw [← reads_updateEnum_iff created]
    exact p.reads_of_parse (plain_updateEnum hplain htype hroom created) (by simp [hparse])
  · rintro ⟨hroom, huptodate | hreads⟩
    · refine ⟨hassigned.mpr hroom, d, created, ?_, (ids_of_upToDate huptodate).symm, ?_⟩
      · rw [updated_of_upToDate hfile huptodate, hfile]
      · rw [updated_of_upToDate hfile huptodate, updateTargetEnumFile_eq hfile,
          updateEnum_unmodified_iff.mpr huptodate]
        rfl
    · obtain ⟨d', created', hload, -, -, hids, huptodate⟩ :=
        updated_load hfile hplain hreads htype hroom
      refine ⟨hassigned.mpr hroom, d', created', hload, hids, ?_⟩
      rw [updateTargetEnumFile_eq hload, updateEnum_unmodified_iff.mpr huptodate]
      rfl

theorem msgType_of_mem {sources : List (Option Definition)} :
    ∀ msg ∈ collectAllMessages sources typ, msgType msg = some typ := by
  intro msg hmsg
  obtain ⟨file, -, hmsg⟩ := List.mem_flatMap.mp hmsg
  obtain ⟨element, -, hmsg⟩ := List.mem_flatMap.mp hmsg
  cases element with
  | message name =>
    by_cases h : msgType name = some typ
    · obtain rfl : msg = name := by simpa [h] using hmsg
      exact h
    · simp [h] at hmsg
  | _ => simp at hmsg

/-- As many numbers are left as messages can still come. -/
theorem hasRoom_of_length {n : ℕ} (h : (maxID (ids typ d)).toInt + (msgs.length + n : ℕ) < 2 ^ 63)
    (created : Bool) :
    HasRoom typ msgs d ∧
      (maxID (ids typ (updateEnum typ msgs d created).1)).toInt + n < 2 ^ 63 := by
  have hmissing : (missing (ids typ d) msgs).length ≤ msgs.length := List.length_filter_le _ _
  have hroom : HasRoom typ msgs d := by
    rw [HasRoom]
    omega
  refine ⟨hroom, ?_⟩
  have hlow := neg_one_le_maxID (ids typ d)
  rcases maxID_mem (ids typ (updateEnum typ msgs d created).1) with hnone | ⟨f, hf, hmax⟩
  · have hneg : (-1 : Int64).toInt = -1 := by decide
    rw [hnone, hneg]
    omega
  · rw [(ids_updateEnum typ msgs d created).2] at hf
    rw [← hmax]
    rcases List.mem_append.mp hf with hold | hnew
    · have hle := le_maxID hold
      omega
    · obtain ⟨g, hg, rfl⟩ := List.mem_map.mp hnew
      have hle : g.pair.2.toInt ≤ _ := ((addMissing_numbers _ hlow hroom).1 g hg).2
      rw [missing] at hmissing
      omega

/-- One run of the generator, for the file of one prefix. -/
theorem main_load {files : MsgType → Option Chars} {sources : List (Option Definition)}
    (hfile : load p (files typ) = some (d, created)) (hplain : ∀ el ∈ d, el.Plain)
    (hreads : ∀ el ∈ d, p.Reads el) (hroom : HasRoom typ (collectAllMessages sources typ) d) :
    ∃ d' created', load p (main p files sources typ) = some (d', created') ∧
      (∀ el ∈ d', el.Plain) ∧ (∀ el ∈ d', p.Reads el) ∧
      ids typ d' = ids typ (updateEnum typ (collectAllMessages sources typ) d created).1 := by
  by_cases hempty : ∀ typ ∈ targetPrefixes, collectAllMessages sources typ = []
  · have hnone : collectAllMessages sources typ = [] := hempty typ (by cases typ <;> decide)
    refine ⟨d, created, ?_, hplain, hreads, ?_⟩
    · simp only [main, if_pos hempty]
      exact hfile
    · rw [hnone, (ids_updateEnum typ [] d created).2]
      exact (List.append_nil _).symm
  · simp only [main, if_neg hempty]
    obtain ⟨d', created', hload, hplain', hreads', hids, -⟩ :=
      updated_load hfile hplain hreads msgType_of_mem hroom
    exact ⟨d', created', hload, hplain', hreads', hids⟩

/-- Over the runs of the generator the numbers of a prefix are only added to. -/
theorem foldl_main (history : List (List (Option Definition))) {files : MsgType → Option Chars}
    (hfile : load p (files typ) = some (d, created)) (hplain : ∀ el ∈ d, el.Plain)
    (hreads : ∀ el ∈ d, p.Reads el) (hdistinct : Distinct (ids typ d))
    (hmsgs : ∀ sources ∈ history, (collectAllMessages sources typ).Nodup)
    (hroom : (maxID (ids typ d)).toInt +
      ((history.map fun sources => (collectAllMessages sources typ).length).sum : ℕ) < 2 ^ 63) :
    ∃ d' created', load p (history.foldl (main p) files typ) = some (d', created') ∧
      Distinct (ids typ d') ∧ ids typ d <+: ids typ d' ∧
      ∀ sources ∈ history, ∀ msg ∈ collectAllMessages sources typ,
        msg ∈ (ids typ d').map Prod.fst := by
  induction history generalizing files d created with
  | nil => exact ⟨d, created, hfile, hdistinct, List.prefix_rfl, List.forall_mem_nil _⟩
  | cons sources history ih =>
    obtain ⟨hnodup, hmsgs⟩ := List.forall_mem_cons.mp hmsgs
    rw [List.map_cons, List.sum_cons] at hroom
    obtain ⟨hroom₁, hroom₂⟩ := hasRoom_of_length hroom created
    obtain ⟨d₁, created₁, hload, hplain₁, hreads₁, hids⟩ :=
      main_load hfile hplain hreads hroom₁
    have hassigned : Assigned (ids typ d) (collectAllMessages sources typ) (ids typ d₁) := by
      rw [hids, (ids_updateEnum typ _ d created).2]
      exact assigned_addMissing hdistinct hnodup hroom₁
    rw [← hids] at hroom₂
    obtain ⟨d', created', hload', hdistinct', hkept, hall⟩ :=
      ih hload hplain₁ hreads₁ hassigned.distinct hmsgs hroom₂
    refine ⟨d', created', hload', hdistinct', hassigned.isPrefix.trans hkept,
      List.forall_mem_cons.mpr ⟨fun msg hmsg => ?_, hall⟩⟩
    exact (hkept.map Prod.fst).subset (hassigned.of_mem hmsg)

end Update

def c2sLogin : Ident := ⟨'C', "2SLogin".toList, by decide, by decide⟩

def c2sLogout : Ident := ⟨'C', "2SLogout".toList, by decide, by decide⟩

/-- A file with one number, and an option that keeps its quotes. -/
def loginFile : Chars :=
  "syntax = \"proto3\";\n\noption go_package = \"server/api/pb/msgid\";\n\n".toList ++
    "enum MsgIDC2S \x7b\n    C2SLogin = 1;\n\x7d\n".toList

/-- A file with a `ruby_package`, whose constant has two tokens between its quotes. -/
def rubyFile : Chars :=
  "syntax = \"proto3\";\n\noption ruby_package = \"Game::Msg\";\n\n".toList ++
    "enum MsgIDC2S \x7b\n    C2SLogin = 1;\n\x7d\n".toList

end GameCluster.Proto
