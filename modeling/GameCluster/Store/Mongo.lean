import GameCluster.Role.Record
import GameCluster.Save.Invariant

/-!
The `roles` collection as documents. `saveToDB` describes a document by the
bson keys it builds, `loadFromDBBatch` by the struct it decodes into; this
module follows both down to the keys. The driver decodes an untagged struct
field from the key that is its name in lower case and ignores other keys.

The `_id` that Mongo adds on insertion is left out, since nothing decodes it.
-/

namespace GameCluster

open Lib

/-- The values found in the collection: role IDs, and documents of strings. -/
inductive Bson where
  | uint (n : UInt64)
  | string (t : Text)
  | doc (fields : Map String Text)

abbrev Doc := Map String Bson

namespace Doc

def splitDots : List Char → List (List Char)
  | [] => [[]]
  | c :: rest =>
    if c = '.' then [] :: splitDots rest
    else
      match splitDots rest with
      | [] => [[c]]
      | part :: parts => (c :: part) :: parts

/-- The embedded document under a key, empty when there is none. -/
def sub (d : Doc) (key : String) : Map String Text :=
  match d.lookup key with
  | some (.doc fields) => fields
  | _ => ∅

/-- One `$set`. A dot in the key leads into an embedded document; no key of
this program has more than one. -/
def set (d : Doc) (key : String) (t : Text) : Doc :=
  match (splitDots key.toList).map String.ofList with
  | [k] => d.insert k (.string t)
  | [k, field] => d.insert k (.doc ((d.sub k).insert field t))
  | _ => d

/-- The `$set`s of one update. -/
def update (d : Doc) (fields : List (String × Text)) : Doc :=
  fields.foldl (fun d kv => d.set kv.1 kv.2) d

def hasID (d : Doc) (id : RoleID) : Bool :=
  match d.lookup "id" with
  | some (.uint n) => n = id
  | _ => false

/-- The component values of a document of strings. -/
def record (fields : Map String Text) : Record :=
  TypeComp.all.foldl
    (fun m c => (fields.lookup c.name).elim m (fun t => m.insert c t)) ∅

/-- The value that the driver decodes into an untagged struct field. -/
def field (d : Doc) (name : String) : Option Bson := d.lookup name.toLower

/-- `cursor.All` into a `DataToSave`. -/
def decode (d : Doc) : DataToSave where
  roleID :=
    match d.field "RoleID" with
    | some (.uint n) => n
    | _ => 0
  data :=
    match d.field "Data" with
    | some (.doc fields) => some (record fields)
    | _ => none

end Doc

/-- The fields `saveToDB` sets for the given components of a record. -/
def setDoc (values : Record) (cs : List TypeComp) : List (String × Text) :=
  cs.filterMap fun c => (values.lookup c).map fun v => ("data." ++ c.name, v)

/-- One upsert with filter `id` and update `$set`. -/
def upsert (coll : List Doc) (id : RoleID) (fields : List (String × Text)) : List Doc :=
  match coll with
  | [] => [Doc.update (Finmap.singleton "id" (.uint id)) fields]
  | d :: rest => if d.hasID id then d.update fields :: rest else d :: upsert rest id fields

/-- The bulk write of `saveToDB`; an op without fields makes no write model. -/
def saveDocs (coll : List Doc) (toDB : List (OpSaveData TypeComp Text)) : List Doc :=
  toDB.foldl
    (fun coll op =>
      let doc := setDoc op.values TypeComp.all
      if doc.isEmpty then coll else upsert coll op.id doc)
    coll

/-- The collections that saving roles can make. -/
inductive Saved : List Doc → Prop
  | empty : Saved []
  | save {coll : List Doc} (toDB : List (OpSaveData TypeComp Text)) :
      Saved coll → Saved (saveDocs coll toDB)

/-- The component map accumulated in a role's document, if it has one. -/
def docOf (coll : List Doc) (id : RoleID) : Option Record :=
  (coll.find? (·.hasID id)).map fun d => Doc.record (d.sub "data")

structure EvtDBLoaded where
  login : S2SReqLogin
  data : DataToSave

/-- The documents that the `$in` query selects. -/
def findRoles (coll : List Doc) (batch : List S2SReqLogin) : List Doc :=
  coll.filter fun d => batch.any fun login => d.hasID login.roleID

/-- The map of `loadFromDBBatch` from role IDs to decoded roles. -/
def resultOf (found : List Doc) : Map RoleID DataToSave :=
  found.foldl (fun m d => m.insert d.decode.roleID d.decode) ∅

/-- `loadFromDBBatch` after its query returned `found`, as the events it posts. -/
def loadFromDBBatch (found : List Doc) (batch : List S2SReqLogin) : List EvtDBLoaded :=
  batch.map fun login =>
    { login
      data := ((resultOf found).lookup login.roleID).getD (newRoleDBData login.roleID) }

namespace Doc

@[simp] theorem path_data (c : TypeComp) :
    (splitDots ("data." ++ c.name).toList).map String.ofList = ["data", c.name] := by
  cases c <;> decide

theorem name_injective {c c' : TypeComp} (h : c.name = c'.name) : c = c' := by
  revert h
  cases c <;> cases c' <;> decide

theorem set_data (d : Doc) (c : TypeComp) (t : Text) :
    d.set ("data." ++ c.name) t = d.insert "data" (.doc ((d.sub "data").insert c.name t)) := by
  simp only [set, path_data]

theorem record_lookup (fields : Map String Text) (c : TypeComp) :
    (record fields).lookup c = fields.lookup c.name := by
  have step : ∀ (m : Record) (c' : TypeComp),
      ((fields.lookup c'.name).elim m (fun t => m.insert c' t)).lookup c =
        if c = c' then (fields.lookup c.name).or (m.lookup c) else m.lookup c := by
    intro m c'
    by_cases hc : c = c'
    · subst hc
      cases fields.lookup c.name <;> simp
    · cases fields.lookup c'.name <;> simp [hc]
  simp only [record, TypeComp.all, List.foldl_cons, List.foldl_nil, step]
  cases c <;> simp

/-- The shape of every document `saveToDB` makes. -/
def ofRole (entry : RoleID × Map String Text) : Doc :=
  (Finmap.singleton "id" (.uint entry.1)).insert "data" (.doc entry.2)

@[simp] theorem ofRole_hasID (entry : RoleID × Map String Text) (id : RoleID) :
    (ofRole entry).hasID id = decide (entry.1 = id) := by
  simp [hasID, ofRole, Finmap.lookup_singleton_eq]

@[simp] theorem ofRole_sub (entry : RoleID × Map String Text) :
    (ofRole entry).sub "data" = entry.2 := by
  simp [sub, ofRole]

/-- The key `roleid` that `RoleID` decodes from is in no such document. -/
theorem ofRole_decode (entry : RoleID × Map String Text) :
    (ofRole entry).decode = ⟨0, some (record entry.2)⟩ := by
  have hkeys : "RoleID".toLower = "roleid" ∧ "Data".toLower = "data" := by decide +kernel
  have hid : (ofRole entry).field "RoleID" = none := by
    rw [field, hkeys.1, ofRole, Map.lookup_insert_ite, if_neg (by decide),
      Finmap.lookup_eq_none, Finmap.mem_singleton]
    decide
  have hdata : (ofRole entry).field "Data" = some (.doc entry.2) := by
    rw [field, hkeys.2, ofRole, Map.lookup_insert_ite, if_pos rfl]
  simp only [decode, hid, hdata]

theorem ofRole_set (entry : RoleID × Map String Text) (c : TypeComp) (t : Text) :
    (ofRole entry).set ("data." ++ c.name) t = ofRole (entry.1, entry.2.insert c.name t) := by
  rw [set_data, ofRole_sub, ofRole, Finmap.insert_insert, ofRole]

/-- The first `$set` of an upsert that inserts. -/
theorem singleton_set (id : RoleID) (c : TypeComp) (t : Text) :
    set (Finmap.singleton "id" (.uint id)) ("data." ++ c.name) t =
      ofRole (id, (∅ : Map String Text).insert c.name t) := by
  have hsub : sub (Finmap.singleton "id" (.uint id)) "data" = ∅ := by
    have hnone : (Finmap.singleton "id" (.uint id) : Doc).lookup "data" = none := by
      rw [Finmap.lookup_eq_none, Finmap.mem_singleton]
      decide
    simp [sub, hnone]
  rw [set_data, hsub, ofRole]

/-- The embedded document after the `$set`s of the given components. -/
def withFields (fields : Map String Text) (values : Record) (cs : List TypeComp) :
    Map String Text :=
  cs.foldl (fun f c => (values.lookup c).elim f (fun v => f.insert c.name v)) fields

private theorem withFields_lookup (fields : Map String Text) (values : Record)
    (cs : List TypeComp) (c : TypeComp) :
    (withFields fields values cs).lookup c.name =
      if c ∈ cs then (values.lookup c).or (fields.lookup c.name) else fields.lookup c.name := by
  induction cs generalizing fields with
  | nil => simp [withFields]
  | cons c' rest ih =>
    rw [withFields, List.foldl_cons, ← withFields, ih]
    by_cases hc : c = c'
    · subst hc
      cases hv : values.lookup c <;> simp
    · have hname : c.name ≠ c'.name := fun h => hc (name_injective h)
      cases hv : values.lookup c' <;> simp [hc, hname]

theorem record_withFields (fields : Map String Text) (values : Record) :
    record (withFields fields values TypeComp.all) = values ∪ record fields := by
  apply Finmap.ext_lookup
  intro c
  rw [record_lookup, withFields_lookup, Map.lookup_union_or, record_lookup,
    if_pos (by cases c <;> decide)]

private theorem ofRole_update (id : RoleID) (fields : Map String Text) (values : Record)
    (cs : List TypeComp) :
    (ofRole (id, fields)).update (setDoc values cs) =
      ofRole (id, withFields fields values cs) := by
  induction cs generalizing fields with
  | nil => rfl
  | cons c rest ih =>
    cases hv : values.lookup c with
    | none => simpa [setDoc, withFields, hv] using ih fields
    | some v =>
      have hnext := ih (fields.insert c.name v)
      simpa [setDoc, withFields, update, hv, ofRole_set] using hnext

/-- An insertion gives the document that updating an empty one would. -/
private theorem singleton_update (id : RoleID) (values : Record) (cs : List TypeComp)
    (hne : setDoc values cs ≠ []) :
    update (Finmap.singleton "id" (.uint id)) (setDoc values cs) =
      ofRole (id, withFields ∅ values cs) := by
  induction cs with
  | nil => exact absurd rfl hne
  | cons c rest ih =>
    cases hv : values.lookup c with
    | none =>
      have hskip : setDoc values (c :: rest) = setDoc values rest := by simp [setDoc, hv]
      rw [hskip] at hne ⊢
      simpa [withFields, hv] using ih hne
    | some v =>
      have hnext := ofRole_update id ((∅ : Map String Text).insert c.name v) values rest
      simpa [setDoc, withFields, update, hv, singleton_set] using hnext

/-- `upsert` on the entries the documents are made of. -/
def upsertEntry (id : RoleID) (values : Record) :
    List (RoleID × Map String Text) → List (RoleID × Map String Text)
  | [] => [(id, withFields ∅ values TypeComp.all)]
  | entry :: rest =>
    if entry.1 = id then (id, withFields entry.2 values TypeComp.all) :: rest
    else entry :: upsertEntry id values rest

theorem setDoc_eq_nil {values : Record} : setDoc values TypeComp.all = [] ↔ values = ∅ := by
  constructor
  · intro h
    apply Finmap.ext_lookup
    intro c
    have hc : c ∈ TypeComp.all := by cases c <;> decide
    simpa using List.filterMap_eq_nil_iff.mp h c hc
  · rintro rfl
    simp [setDoc]

theorem upsert_entries (entries : List (RoleID × Map String Text)) (id : RoleID)
    {values : Record} (hne : values ≠ ∅) :
    upsert (entries.map ofRole) id (setDoc values TypeComp.all) =
      (upsertEntry id values entries).map ofRole := by
  induction entries with
  | nil =>
    simp only [List.map_nil, upsert, upsertEntry, List.map_cons]
    rw [singleton_update id values _ (fun h => hne (setDoc_eq_nil.mp h))]
  | cons entry rest ih =>
    simp only [List.map_cons, upsert, upsertEntry, ofRole_hasID, decide_eq_true_eq]
    by_cases hid : entry.1 = id
    · subst hid
      simp [← ofRole_update]
    · simp [hid, ih]

theorem upsertEntry_keys (id : RoleID) (values : Record)
    (entries : List (RoleID × Map String Text)) :
    (upsertEntry id values entries).map Prod.fst =
      if id ∈ entries.map Prod.fst then entries.map Prod.fst
      else entries.map Prod.fst ++ [id] := by
  induction entries with
  | nil => simp [upsertEntry]
  | cons entry rest ih =>
    rw [upsertEntry]
    by_cases hid : entry.1 = id
    · simp [hid]
    · rw [if_neg hid, List.map_cons, List.map_cons, ih]
      by_cases hmem : id ∈ rest.map Prod.fst
      · rw [if_pos hmem, if_pos (List.mem_cons_of_mem _ hmem)]
      · have hcons : id ∉ entry.1 :: rest.map Prod.fst := by
          simpa [Ne.symm hid] using hmem
        rw [if_neg hmem, if_neg hcons, List.cons_append]

theorem mem_upsertEntry {id : RoleID} {values : Record}
    {entries : List (RoleID × Map String Text)} (hnodup : (entries.map Prod.fst).Nodup)
    {entry : RoleID × Map String Text} (h : entry ∈ upsertEntry id values entries) :
    entry.1 ≠ id ∧ entry ∈ entries ∨
      entry.1 = id ∧ ∃ fields, ((id, fields) ∈ entries ∨
        fields = ∅ ∧ id ∉ entries.map Prod.fst) ∧
        entry.2 = withFields fields values TypeComp.all := by
  induction entries with
  | nil =>
    rw [upsertEntry, List.mem_singleton] at h
    subst h
    exact Or.inr ⟨rfl, ∅, Or.inr ⟨rfl, by simp⟩, rfl⟩
  | cons first rest ih =>
    obtain ⟨hfirst, hrest⟩ := List.nodup_cons.mp hnodup
    rw [upsertEntry] at h
    by_cases hid : first.1 = id
    · rw [if_pos hid] at h
      rcases List.mem_cons.mp h with rfl | hmem
      · exact Or.inr ⟨rfl, first.2, Or.inl (by simp [← hid]), rfl⟩
      · refine Or.inl ⟨?_, List.mem_cons_of_mem _ hmem⟩
        rintro rfl
        exact hfirst (hid ▸ List.mem_map_of_mem hmem)
    · rw [if_neg hid] at h
      rcases List.mem_cons.mp h with rfl | hmem
      · exact Or.inl ⟨hid, List.mem_cons_self ..⟩
      · rcases ih hrest hmem with ⟨hne, hin⟩ | ⟨heq, fields, hfields, hval⟩
        · exact Or.inl ⟨hne, List.mem_cons_of_mem _ hin⟩
        · refine Or.inr ⟨heq, fields, ?_, hval⟩
          rcases hfields with hin | ⟨hempty, hnot⟩
          · exact Or.inl (List.mem_cons_of_mem _ hin)
          · exact Or.inr ⟨hempty, by simpa [Ne.symm hid] using hnot⟩

end Doc

/-- A collection holds the component maps of `mongo`: a document for each role
with components and no other. -/
structure Represents (coll : List Doc) (mongo : RoleID → Record)
    (entries : List (RoleID × Map String Text)) : Prop where
  docs : coll = entries.map Doc.ofRole
  nodup : (entries.map Prod.fst).Nodup
  sound : ∀ entry ∈ entries, Doc.record entry.2 = mongo entry.1 ∧ mongo entry.1 ≠ ∅
  complete : ∀ id, mongo id ≠ ∅ → ∃ fields, (id, fields) ∈ entries

variable {coll : List Doc} {mongo : RoleID → Record} {entries : List (RoleID × Map String Text)}

theorem Represents.upsert (h : Represents coll mongo entries) {op : OpSaveData TypeComp Text}
    (hne : op.values ≠ ∅) :
    Represents (upsert coll op.id (setDoc op.values TypeComp.all)) (setFields mongo op)
      (Doc.upsertEntry op.id op.values entries) where
  docs := by
    rw [h.docs]
    exact Doc.upsert_entries entries op.id hne
  nodup := by
    rw [Doc.upsertEntry_keys]
    split
    · exact h.nodup
    · rename_i hnot
      exact List.nodup_append.mpr ⟨h.nodup, List.nodup_singleton _, by
        rintro a ha b hb rfl
        exact hnot (List.mem_singleton.mp hb ▸ ha)⟩
  sound entry hentry := by
    rw [setFields_apply]
    rcases Doc.mem_upsertEntry h.nodup hentry with ⟨hid, hold⟩ | ⟨hid, fields, hfields, hval⟩
    · rw [if_neg (Ne.symm hid)]
      exact h.sound entry hold
    · have hold : Doc.record fields = mongo op.id := by
        rcases hfields with hin | ⟨rfl, hnot⟩
        · exact (h.sound (op.id, fields) hin).1
        · have hempty : mongo op.id = ∅ := by
            by_contra hsome
            obtain ⟨f, hf⟩ := h.complete op.id hsome
            exact hnot (List.mem_map_of_mem hf)
          rw [hempty]
          apply Finmap.ext_lookup
          simp [Doc.record_lookup]
      rw [if_pos hid.symm, hval, Doc.record_withFields, hold, hid]
      exact ⟨rfl, fun hempty => hne (Map.eq_empty_of_union_eq_empty hempty)⟩
  complete id hsome := by
    have hkeys : id ∈ (Doc.upsertEntry op.id op.values entries).map Prod.fst := by
      rw [Doc.upsertEntry_keys]
      by_cases hid : op.id = id
      · split
        · rename_i hmem
          exact hid ▸ hmem
        · simp [hid]
      · rw [setFields_apply, if_neg hid] at hsome
        obtain ⟨f, hf⟩ := h.complete id hsome
        have hmem : id ∈ entries.map Prod.fst := List.mem_map_of_mem hf
        split
        · exact hmem
        · exact List.mem_append_left _ hmem
    obtain ⟨entry, hentry, rfl⟩ := List.mem_map.mp hkeys
    exact ⟨entry.2, hentry⟩

/-- The documents follow the component maps: what `saveToDB` does to the
collection is what `setAll` does to the maps. -/
theorem Represents.saveDocs (h : Represents coll mongo entries)
    (toDB : List (OpSaveData TypeComp Text)) :
    ∃ entries', Represents (saveDocs coll toDB)
      (setAll mongo (toDB.filter fun op => 0 < op.values.len)) entries' := by
  induction toDB generalizing coll mongo entries with
  | nil => exact ⟨entries, h⟩
  | cons op rest ih =>
    by_cases hempty : op.values = ∅
    · have hskip : (op :: rest).filter (fun op => 0 < op.values.len) =
          rest.filter (fun op => 0 < op.values.len) :=
        List.filter_cons_of_neg (by simp [hempty, Map.len])
      have hdoc : (setDoc op.values TypeComp.all).isEmpty = true := by
        rw [List.isEmpty_iff, Doc.setDoc_eq_nil]
        exact hempty
      rw [hskip, GameCluster.saveDocs, List.foldl_cons, ← GameCluster.saveDocs]
      simpa only [hdoc, if_true] using ih h
    · have hkeep : (op :: rest).filter (fun op => 0 < op.values.len) =
          op :: rest.filter (fun op => 0 < op.values.len) :=
        List.filter_cons_of_pos (by
          have := fun hlen => hempty (Map.len_eq_zero.mp hlen)
          simpa using Nat.pos_of_ne_zero this)
      have hdoc : (setDoc op.values TypeComp.all).isEmpty = false := by
        rw [List.isEmpty_eq_false_iff]
        exact fun hnil => hempty (Doc.setDoc_eq_nil.mp hnil)
      rw [hkeep, setAll, List.foldl_cons, ← setAll, GameCluster.saveDocs, List.foldl_cons,
        ← GameCluster.saveDocs]
      simpa only [hdoc, Bool.false_eq_true, if_false] using ih (h.upsert hempty)

theorem Saved.represents (h : Saved coll) : ∃ mongo entries, Represents coll mongo entries := by
  induction h with
  | empty =>
    exact ⟨fun _ => ∅, [], ⟨rfl, by simp, by simp, by simp⟩⟩
  | save toDB _ ih =>
    obtain ⟨mongo, entries, hrep⟩ := ih
    obtain ⟨entries', hrep'⟩ := hrep.saveDocs toDB
    exact ⟨_, entries', hrep'⟩

section Load

variable {coll : List Doc} {mongo : RoleID → Record}
  {entries : List (RoleID × Map String Text)} {found : List Doc} {batch : List S2SReqLogin}

theorem Represents.docOf_eq_some (h : Represents coll mongo entries)
    {entry : RoleID × Map String Text} (hentry : entry ∈ entries) :
    docOf coll entry.1 = some (Doc.record entry.2) := by
  have hfind : (coll.find? (·.hasID entry.1)) = some (Doc.ofRole entry) := by
    rw [h.docs, List.find?_map]
    have hkey : entries.find? ((fun d : Doc => d.hasID entry.1) ∘ Doc.ofRole) = some entry := by
      cases hcase : entries.find? ((fun d : Doc => d.hasID entry.1) ∘ Doc.ofRole) with
      | none =>
        have hnot := List.find?_eq_none.mp hcase entry hentry
        simp at hnot
      | some other =>
        have hid : other.1 = entry.1 := by simpa using List.find?_some hcase
        have hmem := List.mem_of_find?_eq_some hcase
        rw [List.inj_on_of_nodup_map h.nodup hmem hentry hid]
    rw [hkey, Option.map_some]
  rw [docOf, hfind, Option.map_some, Doc.ofRole_sub]

theorem Represents.docOf_eq_none (h : Represents coll mongo entries) {id : RoleID}
    (hid : id ∉ entries.map Prod.fst) : docOf coll id = none := by
  rw [docOf, Option.map_eq_none_iff, List.find?_eq_none, h.docs]
  intro d hd
  obtain ⟨entry, hentry, rfl⟩ := List.mem_map.mp hd
  rw [Doc.ofRole_hasID, decide_eq_true_eq]
  rintro rfl
  exact hid (List.mem_map_of_mem hentry)

/-- What the query returns are documents of roles in the batch. -/
theorem Represents.mem_found (h : Represents coll mongo entries)
    (hfound : found.Perm (findRoles coll batch)) (d : Doc) :
    d ∈ found ↔ ∃ entry ∈ entries, d = Doc.ofRole entry ∧
      ∃ login ∈ batch, login.roleID = entry.1 := by
  rw [hfound.mem_iff, findRoles, List.mem_filter, h.docs, List.mem_map]
  constructor
  · rintro ⟨⟨entry, hentry, rfl⟩, hany⟩
    obtain ⟨login, hlogin, hid⟩ := List.any_eq_true.mp hany
    rw [Doc.ofRole_hasID, decide_eq_true_eq] at hid
    exact ⟨entry, hentry, rfl, login, hlogin, hid.symm⟩
  · rintro ⟨entry, hentry, rfl, login, hlogin, hid⟩
    refine ⟨⟨entry, hentry, rfl⟩, List.any_eq_true.mpr ⟨login, hlogin, ?_⟩⟩
    rw [Doc.ofRole_hasID, decide_eq_true_eq]
    exact hid.symm

/-- Every decoded role has ID zero, so the map keeps one of them, under zero. -/
theorem resultOf_lookup (hzero : ∀ d ∈ found, d.decode.roleID = 0) (id : RoleID) :
    (resultOf found).lookup id = if id = 0 then found.getLast?.map Doc.decode else none := by
  induction found using List.reverseRecOn with
  | nil => simp [resultOf]
  | append_singleton front d ih =>
    have hd : d.decode.roleID = 0 := hzero d (by simp)
    have hfront := ih fun d' hd' => hzero d' (List.mem_append_left _ hd')
    rw [resultOf, List.foldl_append, ← resultOf, List.foldl_cons, List.foldl_nil,
      Map.lookup_insert_ite, hd, hfront]
    by_cases hid : id = 0 <;> simp [hid]

theorem Represents.decode_zero (h : Represents coll mongo entries)
    (hfound : found.Perm (findRoles coll batch)) (d : Doc) (hd : d ∈ found) :
    d.decode.roleID = 0 := by
  obtain ⟨entry, _, rfl, _⟩ := (h.mem_found hfound d).mp hd
  rw [Doc.ofRole_decode]

/-- Loading gives back what was saved: one event per login, in order, for the
login's role, with the role's document if there is one and with the data of a
new role only if there is none. -/
def LoadInverse (coll found : List Doc) (batch : List S2SReqLogin) : Prop :=
  (loadFromDBBatch found batch).map (·.login) = batch ∧
    ∀ e ∈ loadFromDBBatch found batch,
      e.data.roleID = e.login.roleID ∧
        match docOf coll e.login.roleID with
        | some record =>
          (resultOf found).lookup e.login.roleID = some e.data ∧ e.data.data = some record
        | none => e.data = newRoleDBData e.login.roleID

/-- Since no document has the key that `RoleID` is decoded from, loading is
inverse to saving exactly for the batches in which no role other than role
zero has a document. -/
theorem mongo_load_inverse_iff (hsaved : Saved coll) (hfound : found.Perm (findRoles coll batch)) :
    LoadInverse coll found batch ↔
      ∀ login ∈ batch, login.roleID = 0 ∨ docOf coll login.roleID = none := by
  obtain ⟨mongo, entries, h⟩ := hsaved.represents
  have hresult := resultOf_lookup (h.decode_zero hfound)
  constructor
  · rintro ⟨_, hevents⟩ login hlogin
    by_contra hcon
    obtain ⟨hid, hdoc⟩ := not_or.mp hcon
    obtain ⟨record, hrecord⟩ := Option.ne_none_iff_exists'.mp hdoc
    have hevent := (hevents _ (List.mem_map_of_mem hlogin)).2
    simp only [hrecord, hresult, if_neg hid] at hevent
    exact absurd hevent.1 (by simp)
  · intro hnone
    refine ⟨by simp [loadFromDBBatch, Function.comp_def], ?_⟩
    intro e he
    obtain ⟨login, hlogin, rfl⟩ := List.mem_map.mp he
    simp only [hresult]
    by_cases hid : login.roleID = 0
    · rw [hid]
      simp only [if_true]
      cases hlast : found.getLast? with
      | none =>
        have hempty : found = [] := List.getLast?_eq_none_iff.mp hlast
        have hdoc : docOf coll 0 = none := by
          refine h.docOf_eq_none fun hmem => ?_
          obtain ⟨entry, hentry, hzero⟩ := List.mem_map.mp hmem
          have := (h.mem_found hfound _).mpr
            ⟨entry, hentry, rfl, login, hlogin, hid.trans hzero.symm⟩
          simp [hempty] at this
        simp [hdoc, newRoleDBData]
      | some d =>
        obtain ⟨entry, hentry, rfl, login', hlogin', hid'⟩ :=
          (h.mem_found hfound d).mp (List.mem_of_getLast? hlast)
        have hdoc := h.docOf_eq_some hentry
        have hzero : entry.1 = 0 := by
          rcases hnone login' hlogin' with hz | hn
          · exact hid'.symm.trans hz
          · rw [hid', hdoc] at hn
            cases hn
        rw [hzero] at hdoc
        simp [hdoc, Doc.ofRole_decode]
    · have hdoc := (hnone login hlogin).resolve_left hid
      simp [hdoc, hid, newRoleDBData]

end Load

/-- The collection after one role has been saved. -/
def oneSaved : List Doc :=
  saveDocs [] [⟨7, some (Finmap.singleton .TCBase (.json { createTime := 1 })), true⟩]

theorem oneSaved_load_inverse : LoadInverse oneSaved (findRoles oneSaved [⟨8, 1, 1⟩]) [⟨8, 1, 1⟩] :=
  (mongo_load_inverse_iff (.save _ .empty) (List.Perm.refl _)).mpr (by
    intro login hlogin
    rw [List.mem_singleton.mp hlogin]
    have hnone : (docOf oneSaved 8).isNone = true := by decide +kernel
    exact Or.inr (Option.isNone_iff_eq_none.mp hnone))

/-- The saved role itself is not found again: its login gets a new role. -/
theorem oneSaved_load_not_inverse :
    ¬LoadInverse oneSaved (findRoles oneSaved [⟨7, 1, 1⟩]) [⟨7, 1, 1⟩] := by
  rintro ⟨_, hevents⟩
  have hevent := (hevents _ (List.mem_singleton.mpr rfl)).2
  have hdoc : (docOf oneSaved 7).isSome = true := by decide +kernel
  have hnone : ((resultOf (findRoles oneSaved [⟨7, 1, 1⟩])).lookup 7).isNone = true := by
    decide +kernel
  obtain ⟨record, hrecord⟩ := Option.isSome_iff_exists.mp hdoc
  simp only [hrecord, Option.isNone_iff_eq_none.mp hnone] at hevent
  exact absurd hevent.1 (by simp)

/-- What one login gets from Mongo, in terms of the component maps. `last` is
the role whose document came last in the answer to the batch's query. -/
def fromDB (mongo : RoleID → Record) (last : Option RoleID) (id : RoleID) : DataToSave :=
  match last with
  | some other => if id = 0 then ⟨0, some (mongo other)⟩ else newRoleDBData id
  | none => newRoleDBData id

theorem fromDB_roleID (mongo : RoleID → Record) (last : Option RoleID) (id : RoleID) :
    (fromDB mongo last id).roleID = id := by
  cases last with
  | none => rfl
  | some other =>
    by_cases hid : id = 0 <;> simp [fromDB, hid, newRoleDBData]

/-- `fromDB` is what the batch load does for each of its logins. -/
theorem loadFromDBBatch_fromDB {found : List Doc} {batch : List S2SReqLogin}
    (h : Represents coll mongo entries) (hfound : found.Perm (findRoles coll batch))
    {e : EvtDBLoaded} (he : e ∈ loadFromDBBatch found batch) :
    ∃ last, e.data = fromDB mongo last e.login.roleID ∧
      (∀ other, last = some other → mongo other ≠ ∅) ∧
      (last = none → mongo e.login.roleID = ∅) := by
  obtain ⟨login, hlogin, rfl⟩ := List.mem_map.mp he
  simp only [resultOf_lookup (h.decode_zero hfound)]
  cases hlast : found.getLast? with
  | none =>
    refine ⟨none, by simp [fromDB], by simp, fun _ => ?_⟩
    by_contra hsome
    obtain ⟨fields, hfields⟩ := h.complete _ hsome
    have hmem := (h.mem_found hfound _).mpr ⟨_, hfields, rfl, login, hlogin, rfl⟩
    simp [List.getLast?_eq_none_iff.mp hlast] at hmem
  | some d =>
    obtain ⟨entry, hentry, rfl, _⟩ := (h.mem_found hfound d).mp (List.mem_of_getLast? hlast)
    obtain ⟨hrecord, hne⟩ := h.sound entry hentry
    refine ⟨some entry.1, ?_, by simp [hne], by simp⟩
    by_cases hid : login.roleID = 0 <;> simp [fromDB, hid, Doc.ofRole_decode, hrecord]

end GameCluster
