import GameCluster.Role.Exit
import Mathlib.Order.Fin.Basic

/-!
One automatic save of a role: `Role.save` and `marshal(false)` of `role.go`, and
`LogonService.SaveRole`, which posts the data without waiting and reports
whether there was room.

A role has a dirty flag for `r.Data` and one in every component. The save
encodes what is dirty, hands it over and clears the flags.
-/

namespace GameCluster.Saving

open Lib Exit

def tcExample : CompIndex := ⟨1, by decide⟩

def tcDebug : CompIndex := ⟨3, by decide⟩

/-- `IComp`: a component can also clear its flag. -/
structure CompCode (D C : Type) extends Code D C where
  clearDirty : C → C

structure DataToSave where
  roleID : RoleID
  data : SaveData

/-- What the channel `m.ops` holds. Only the events of `SaveRole` are told apart. -/
inductive LogonEvent where
  | saveRole (data : DataToSave) (saveBoth : Bool)
  | other

/-- `SaveRole`: a full channel refuses the event. -/
def saveRole (ops : List LogonEvent) (data : DataToSave) (saveBoth : Bool) :
    Bool × List LogonEvent :=
  if ops.length < opChanSize then (true, ops ++ [.saveRole data saveBoth]) else (false, ops)

/-- What a call of `save` leaves: the role, the channel, and the call of
`SaveRole`, if there was one, with its answer. -/
structure Saved (D C : Type) where
  role : Body D C
  ops : List LogonEvent
  call : Option (DataToSave × Bool)

/-- The parts of a role that have a dirty flag. -/
inductive Part where
  | base
  | comp (i : CompIndex)
  deriving DecidableEq, Repr

/-- The component whose name the part is saved under. -/
def Part.key : Part → CompIndex
  | .base => tcBase
  | .comp i => i

section Save

variable {D C : Type} (code : CompCode D C)

/-- `SetDirty`. -/
def setDirty (r : Body D C) : Body D C := { r with dirty := true }

/-- What `save` does to the role once the data are posted. -/
def clearAll (r : Body D C) : Body D C :=
  { r with
    dirty := false
    comps := fun i => (r.comps i).map fun v => if code.isDirty v then code.clearDirty v else v }

def save (roleID : RoleID) (r : Body D C) (ops : List LogonEvent) (both : Bool) : Saved D C :=
  match r.marshal code.toCode false with
  | none => ⟨r, ops, none⟩
  | some data =>
    if data.len = 0 then ⟨r, ops, none⟩
    else
      let answer := saveRole ops ⟨roleID, data⟩ both
      ⟨if answer.1 then clearAll code r else r, answer.2, some (⟨roleID, data⟩, answer.1)⟩

/-- The dirty flag of a part. A component that is nil has none. -/
def isDirty (r : Body D C) : Part → Bool
  | .base => r.dirty
  | .comp i => (r.comps i).any code.isDirty

/-- The encoding of a part's current value. -/
def encoding (r : Body D C) : Part → Option String
  | .base => code.marshalData r.data
  | .comp i => (r.comps i).bind code.marshalComp

/-- `SaveRole` is called and accepts: there is room, `r.Data` encodes if it is
dirty, and so does some dirty part. -/
def Posts (r : Body D C) (ops : List LogonEvent) : Prop :=
  ops.length < opChanSize ∧ (r.dirty = true → (code.marshalData r.data).isSome) ∧
    (r.dirty = true ∨ ∃ i, ∃ v ∈ r.comps i, code.isDirty v = true ∧ (code.marshalComp v).isSome)

/-- Every component whose flag `save` clears encodes. -/
def ClearedEncode (r : Body D C) : Prop :=
  ∀ i, ∀ v ∈ r.comps i, code.isDirty v = true → code.isDirty (code.clearDirty v) = false →
    (code.marshalComp v).isSome

instance (r : Body D C) : Decidable (ClearedEncode code r) :=
  inferInstanceAs (Decidable (∀ _, _))

end Save

section Marshal

variable {D C : Type} (code : Code D C)

/-- What the component loop of `marshal(false)` saves for a component. -/
def dirtyEntry (r : Body D C) (i : CompIndex) : Option String :=
  (r.comps i).bind fun v => if code.isDirty v then code.marshalComp v else none

theorem lookup_marshalComp (r : Body D C) (rd : SaveData) (i j : CompIndex) :
    (r.marshalComp code false rd j).lookup i =
      if i = j then (dirtyEntry code r j).or (rd.lookup i) else rd.lookup i := by
  unfold Body.marshalComp dirtyEntry
  cases hv : r.comps j with
  | none => simp
  | some v =>
    by_cases hd : code.isDirty v = true
    · cases hs : code.marshalComp v with
      | none => simp [hd, hs]
      | some str =>
        by_cases hij : i = j
        · simp [hd, hs, hij]
        · simp [hd, hs, hij]
    · simp [hd]

theorem lookup_foldl_marshalComp (r : Body D C) (i : CompIndex) (js : List CompIndex)
    (rd : SaveData) :
    ((js.foldl (r.marshalComp code false) rd).lookup i) =
      if i ∈ js then (dirtyEntry code r i).or (rd.lookup i) else rd.lookup i := by
  induction js generalizing rd with
  | nil => simp
  | cons j rest ih =>
    rw [List.foldl_cons, ih, lookup_marshalComp]
    by_cases hij : i = j
    · subst hij
      cases dirtyEntry code r i <;> simp
    · simp [hij]

/-- Every field that `marshal(false)` writes. -/
theorem lookup_marshal {r : Body D C} {rd : SaveData} (h : r.marshal code false = some rd)
    (i : CompIndex) :
    rd.lookup i =
      (dirtyEntry code r i).or
        (if i = tcBase ∧ r.dirty = true then code.marshalData r.data else none) := by
  unfold Body.marshal at h
  by_cases hd : r.dirty = true
  · cases hs : code.marshalData r.data with
    | none => simp [hd, hs] at h
    | some str =>
      simp only [hd, hs, Bool.or_true, if_true, Option.some.injEq] at h
      rw [← h, lookup_foldl_marshalComp, if_pos (List.mem_finRange i)]
      simp [hd]
  · simp only [hd, Bool.or_false, Bool.false_eq_true, if_false, Option.some.injEq] at h
    rw [← h, lookup_foldl_marshalComp, if_pos (List.mem_finRange i)]
    simp [hd]

/-- `marshal(false)` fails if and only if `r.Data` is dirty and does not encode. -/
theorem marshal_isSome_iff (r : Body D C) :
    (r.marshal code false).isSome ↔ (r.dirty = true → (code.marshalData r.data).isSome) := by
  unfold Body.marshal
  by_cases hd : r.dirty = true
  · cases hs : code.marshalData r.data <;> simp [hd]
  · simp [hd]

/-- `marshal(false)` writes `TCBase` if and only if `r.Data` is dirty. -/
theorem lookup_marshal_base {r : Body D C} (hslot : r.comps tcBase = none) {rd : SaveData}
    (h : r.marshal code false = some rd) :
    rd.lookup tcBase = (if r.dirty then code.marshalData r.data else none) ∧
      (r.dirty = true → (code.marshalData r.data).isSome) := by
  refine ⟨?_, (marshal_isSome_iff code r).mp (by simp [h])⟩
  rw [lookup_marshal code h]
  simp [dirtyEntry, hslot]

theorem dirtyEntry_isSome_iff (r : Body D C) (i : CompIndex) :
    (dirtyEntry code r i).isSome ↔
      ∃ v ∈ r.comps i, code.isDirty v = true ∧ (code.marshalComp v).isSome := by
  unfold dirtyEntry
  cases hv : r.comps i with
  | none => simp
  | some v => by_cases hd : code.isDirty v = true <;> simp [hd]

/-- It returns nothing to save if and only if no dirty part encodes. -/
theorem marshal_ne_empty_iff {r : Body D C} {rd : SaveData} (h : r.marshal code false = some rd) :
    rd ≠ ∅ ↔ r.dirty = true ∨
      ∃ i, ∃ v ∈ r.comps i, code.isDirty v = true ∧ (code.marshalComp v).isSome := by
  have hbase : r.dirty = true → (code.marshalData r.data).isSome :=
    (marshal_isSome_iff code r).mp (by simp [h])
  simp only [← dirtyEntry_isSome_iff]
  constructor
  · intro hne
    by_contra hnone
    obtain ⟨hclean, hentries⟩ := not_or.mp hnone
    refine hne (Finmap.ext_lookup fun i => ?_)
    have hentry : dirtyEntry code r i = none :=
      Option.not_isSome_iff_eq_none.mp fun hsome => hentries ⟨i, hsome⟩
    rw [lookup_marshal code h, hentry]
    simp [hclean]
  · rintro (hd | ⟨i, hi⟩) rfl
    · have hlookup := lookup_marshal code h tcBase
      obtain ⟨str, hs⟩ := Option.isSome_iff_exists.mp (hbase hd)
      cases hentry : dirtyEntry code r tcBase <;> simp [hentry, hd, hs] at hlookup
    · have hlookup := lookup_marshal code h i
      obtain ⟨str, hs⟩ := Option.isSome_iff_exists.mp hi
      simp [hs] at hlookup

end Marshal

section Flags

variable {D C : Type} (code : CompCode D C)

theorem save_of_posts {r : Body D C} {ops : List LogonEvent} (h : Posts code r ops)
    (roleID : RoleID) (both : Bool) :
    ∃ rd, r.marshal code.toCode false = some rd ∧ save code roleID r ops both =
      ⟨clearAll code r, ops ++ [.saveRole ⟨roleID, rd⟩ both], some (⟨roleID, rd⟩, true)⟩ := by
  obtain ⟨hroom, hbase, hpart⟩ := h
  obtain ⟨rd, hrd⟩ := Option.isSome_iff_exists.mp ((marshal_isSome_iff code.toCode r).mpr hbase)
  have hne : rd.len ≠ 0 := fun hlen =>
    (marshal_ne_empty_iff code.toCode hrd).mpr hpart (Map.len_eq_zero.mp hlen)
  exact ⟨rd, hrd, by simp [save, saveRole, hrd, hne, hroom]⟩

/-- Otherwise the role stays as it is, and `SaveRole` has not accepted. -/
theorem save_of_not_posts {r : Body D C} {ops : List LogonEvent} (h : ¬Posts code r ops)
    (roleID : RoleID) (both : Bool) :
    (save code roleID r ops both).role = r ∧
      ∀ data, (save code roleID r ops both).call ≠ some (data, true) := by
  unfold save saveRole
  cases hrd : r.marshal code.toCode false with
  | none => simp
  | some rd =>
    by_cases hlen : rd.len = 0
    · simp [hlen]
    · have hpart := (marshal_ne_empty_iff code.toCode hrd).mp fun hempty =>
        hlen (Map.len_eq_zero.mpr hempty)
      have hbase := (marshal_isSome_iff code.toCode r).mp (by simp [hrd])
      have hroom : ¬ops.length < opChanSize := fun hroom => h ⟨hroom, hbase, hpart⟩
      simp [hlen, hroom]

/-- What a call of `save` should do to the flags: clear only those of parts whose
current value it has posted, and none if the data are refused or `r.Data` fails
to encode. -/
structure ClearsOnlyPosted (roleID : RoleID) (r : Body D C) (ops : List LogonEvent)
    (both : Bool) : Prop where
  cleared : ∀ part, isDirty code r part = true →
    isDirty code (save code roleID r ops both).role part = false →
    ∃ data str, (save code roleID r ops both).call = some (data, true) ∧
      encoding code r part = some str ∧ data.data.lookup part.key = some str
  unchanged : r.marshal code.toCode false = none ∨
      (∃ data, (save code roleID r ops both).call = some (data, false)) →
    ∀ part, isDirty code (save code roleID r ops both).role part = isDirty code r part

/-- A call of `save` does so exactly if nothing is posted, or if every component
whose flag it clears encodes and none that is dirty takes the place of `r.Data`
under `TCBase`. -/
theorem save_clears_only_posted (roleID : RoleID) (r : Body D C) (ops : List LogonEvent)
    (both : Bool) :
    ClearsOnlyPosted code roleID r ops both ↔
      (Posts code r ops → ClearedEncode code r ∧
        (r.dirty = true →
          ∀ str ∈ dirtyEntry code.toCode r tcBase, code.marshalData r.data = some str)) := by
  constructor
  · intro h hposts
    obtain ⟨rd, hrd, hsave⟩ := save_of_posts code hposts roleID both
    have hcleared := h.cleared
    rw [hsave] at hcleared
    constructor
    · intro i v hv hd hclear
      have hv : r.comps i = some v := hv
      obtain ⟨data, str, -, hs, -⟩ := hcleared (.comp i) (by simp [isDirty, hv, hd])
        (by simp [isDirty, clearAll, hv, hd, hclear])
      simp only [encoding, hv, Option.bind_some] at hs
      simp [hs]
    · intro hd str hstr
      obtain ⟨data, str', hcall, hs, hlookup⟩ := hcleared .base hd rfl
      cases hcall
      rw [Part.key, lookup_marshal code.toCode hrd, hstr] at hlookup
      cases hlookup
      exact hs
  · intro h
    by_cases hposts : Posts code r ops
    · obtain ⟨henc, hbase⟩ := h hposts
      obtain ⟨rd, hrd, hsave⟩ := save_of_posts code hposts roleID both
      constructor
      · rw [hsave]
        intro part hd hclear
        have hlookup := lookup_marshal code.toCode hrd part.key
        cases part with
        | base =>
          obtain ⟨str, hs⟩ := Option.isSome_iff_exists.mp (hposts.2.1 hd)
          refine ⟨_, str, rfl, hs, hlookup.trans ?_⟩
          cases hentry : dirtyEntry code.toCode r tcBase with
          | none => simp [Part.key, hentry, hs, show r.dirty = true from hd]
          | some str' =>
            have heq := hbase hd str' hentry
            rw [hs] at heq
            simp [Part.key, hentry, heq]
        | comp i =>
          obtain ⟨v, hv, hdv⟩ := (Option.any_eq_true _ _).mp hd
          have hcv : code.isDirty (code.clearDirty v) = false := by
            simpa [isDirty, clearAll, hv, hdv] using hclear
          obtain ⟨str, hs⟩ := Option.isSome_iff_exists.mp (henc i v hv hdv hcv)
          refine ⟨_, str, rfl, by simp [encoding, hv, hs], hlookup.trans ?_⟩
          simp [Part.key, dirtyEntry, hv, hdv, hs]
      · rw [hsave]
        rintro (hnone | ⟨data, hcall⟩)
        · cases hnone.symm.trans hrd
        · cases hcall
    · obtain ⟨hrole, -⟩ := save_of_not_posts code hposts roleID both
      constructor
      · intro part hd hclear
        rw [hrole] at hclear
        cases hd.symm.trans hclear
      · intro _ part
        rw [hrole]

end Flags

/-- Parts that are texts themselves: a part without a text fails to encode. -/
def textCode : CompCode (Option String) (Option String × Bool) where
  marshalData d := d
  marshalComp v := v.1
  isDirty v := v.2
  hasOffline _ := false
  clearDirty v := (v.1, false)

/-- A role whose data and whose two components are dirty. -/
def dirtyRole (first second : Option String) : Body (Option String) (Option String × Bool) where
  data := some "base"
  dirty := true
  comps i :=
    if i = tcExample then some (first, true)
    else if i = tcDebug then some (second, true)
    else none

theorem dirtyRole_cleared :
    Posts textCode (dirtyRole (some "a") (some "b")) [] ∧
      ClearsOnlyPosted textCode 7 (dirtyRole (some "a") (some "b")) [] false :=
  ⟨⟨by decide, fun _ => rfl, Or.inl rfl⟩,
    (save_clears_only_posted textCode 7 _ [] false).mpr fun _ => ⟨by decide, fun _ => by decide⟩⟩

/-- The component that does not encode is left out of the posted data, and its
flag is cleared all the same. -/
theorem failedComp_cleared : let saved := save textCode 7 (dirtyRole none (some "b")) [] false
    (isDirty textCode (dirtyRole none (some "b")) (.comp tcExample) = true ∧
      isDirty textCode saved.role (.comp tcExample) = false ∧
      saved.call.map (·.2) = some true ∧
      saved.call.map (fun call => call.1.data.lookup tcExample) = some none) ∧
    ¬ClearsOnlyPosted textCode 7 (dirtyRole none (some "b")) [] false := by
  refine ⟨by decide +kernel, fun h => ?_⟩
  obtain ⟨_, _, -, hs, -⟩ := h.cleared (.comp tcExample) (by decide) (by decide +kernel)
  cases hs

end GameCluster.Saving
