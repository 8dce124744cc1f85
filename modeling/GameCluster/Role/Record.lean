import GameCluster.Save.Saver

/-!
A role's saved data and the functions of `role.go` that read and write it:
`NewRole` decodes a record into components, the `Online` and `Offline` hooks
change them, and `marshal` encodes them again.

Records are keyed by the enumeration whose names the source uses as keys. A
stored text is either the encoding of some component data or text the decoder
rejects, so encoding and decoding are inverse by construction. Of a
component's own fields only those are told apart that these functions look at;
`body` stands for the rest.
-/

namespace GameCluster

open Lib

inductive TypeComp where
  | TCBase
  | TCExample
  | TCEmptyExample
  | TCDebug
  deriving DecidableEq, Repr

namespace TypeComp

/-- The indices of `Role.Comps` with `TCBase` first, in ascending order. -/
def all : List TypeComp := [TCBase, TCExample, TCEmptyExample, TCDebug]

/-- `model.GetCompName`. -/
def name : TypeComp → String
  | TCBase => "TCBase"
  | TCExample => "TCExample"
  | TCEmptyExample => "TCEmptyExample"
  | TCDebug => "TCDebug"

end TypeComp

/-- `pb.RoleData` for `TCBase`, the component's own struct otherwise. -/
structure CompData where
  onlineCnt : Int32 := 0
  offlineCnt : Int32 := 0
  createTime : Int := 0
  body : String := ""
  deriving DecidableEq, Repr

/-- The string stored for a component. The empty string is `malformed ""`. -/
inductive Text where
  | json (d : CompData)
  | malformed (raw : String)
  deriving DecidableEq, Repr

abbrev Record := Map TypeComp Text

/-- `role.DataToSave`. A nil `Data` map is `none`. -/
structure DataToSave where
  roleID : RoleID
  data : Option Record

/-- `Get`: a missing component reads as the empty string. -/
def DataToSave.get (d : DataToSave) (c : TypeComp) : Text :=
  ((d.data.getD ∅).lookup c).getD (.malformed "")

/-- The fields of `pb.S2SReqLogin` that logging in uses. -/
structure S2SReqLogin where
  roleID : RoleID
  sesID : UInt64
  seq : UInt32
  deriving DecidableEq, Repr

/-- `newRoleDBData`: the record of a role that is in neither store. -/
def newRoleDBData (roleID : RoleID) : DataToSave where
  roleID := roleID
  data := some (Finmap.singleton .TCBase
    (.json { body := "ID:" ++ toString roleID ++ ",Level:1,Name:" ++ toString roleID }))

/-- What the component loop of `NewRole` makes of a component's text: nothing
stored leaves the fresh component, text that does not decode is an error. -/
def unmarshalComp : Text → Option CompData
  | .json d => some d
  | .malformed "" => some {}
  | .malformed _ => none

/-- The state of a role's components and their dirty flags. The flag of
`TCBase` is the role's own. -/
structure Comps where
  data : TypeComp → CompData
  dirty : TypeComp → Bool

/-- The decoding of `NewRole`. The example component without saved fields
stays as it was created whatever its text holds. -/
def unmarshalRole (d : DataToSave) (now : Int) : Option Comps :=
  match d.get .TCBase with
  | .malformed _ => none
  | .json base => do
      let example' ← unmarshalComp (d.get .TCExample)
      let _ ← unmarshalComp (d.get .TCEmptyExample)
      let debug ← unmarshalComp (d.get .TCDebug)
      let created := base.createTime = 0
      some
        { data := fun
            | .TCBase => if created then { base with createTime := now } else base
            | .TCExample => example'
            | .TCEmptyExample => {}
            | .TCDebug => debug
          dirty := fun c => c = .TCBase ∧ created }

namespace Comps

/-- The `Online` hooks of the example and the debug component. -/
def online (r : Comps) : Comps where
  data c :=
    match c with
    | .TCExample | .TCDebug => { r.data c with onlineCnt := (r.data c).onlineCnt + 1 }
    | _ => r.data c
  dirty c := r.dirty c || c = .TCDebug

/-- The `Offline` hooks. Each panics if its two counts then differ. -/
def offline (r : Comps) : Comps where
  data c :=
    match c with
    | .TCExample | .TCDebug => { r.data c with offlineCnt := (r.data c).offlineCnt + 1 }
    | _ => r.data c
  dirty := r.dirty

def Balanced (r : Comps) : Prop :=
  (r.data .TCExample).onlineCnt = (r.data .TCExample).offlineCnt ∧
    (r.data .TCDebug).onlineCnt = (r.data .TCDebug).offlineCnt

instance (r : Comps) : Decidable r.Balanced := inferInstanceAs (Decidable (_ ∧ _))

/-- Any change the role's handlers and ticks make to one component. The
component without saved fields has nothing to change. -/
def touch (r : Comps) (c : TypeComp) (body : String) (dirty : Bool) : Comps :=
  if c = .TCEmptyExample then r
  else
    { data := Function.update r.data c { r.data c with body }
      dirty := Function.update r.dirty c (r.dirty c || dirty) }

/-- `marshal`. -/
def marshal (r : Comps) (force : Bool) : Record :=
  TypeComp.all.foldl
    (fun m c => if force || r.dirty c then m.insert c (.json (r.data c)) else m) ∅

def clearDirty (r : Comps) : Comps := { r with dirty := fun _ => false }

theorem marshal_lookup (r : Comps) (force : Bool) (c : TypeComp) :
    (r.marshal force).lookup c =
      if force || r.dirty c then some (.json (r.data c)) else none := by
  have step : ∀ (m : Record) (c' : TypeComp),
      (if force || r.dirty c' then m.insert c' (.json (r.data c')) else m).lookup c =
        if c = c' ∧ (force || r.dirty c') then some (.json (r.data c')) else m.lookup c := by
    intro m c'
    by_cases hd : (force || r.dirty c') = true
    · simp only [hd, if_true, and_true, Map.lookup_insert_ite]
    · simp only [hd, and_false, if_false, Bool.false_eq_true]
  simp only [marshal, TypeComp.all, List.foldl_cons, List.foldl_nil, step]
  cases c <;> simp

/-- A forced `marshal` writes every component. -/
theorem marshal_true_total (r : Comps) (c : TypeComp) : ((r.marshal true).lookup c).isSome := by
  simp [marshal_lookup]

/-- The counts an `Offline` hook compares are touched by the hooks alone. -/
theorem touch_counts (r : Comps) (c : TypeComp) (body : String) (dirty : Bool) (c' : TypeComp) :
    ((r.touch c body dirty).data c').onlineCnt = (r.data c').onlineCnt ∧
      ((r.touch c body dirty).data c').offlineCnt = (r.data c').offlineCnt := by
  unfold touch
  split
  · exact ⟨rfl, rfl⟩
  · by_cases hc : c' = c
    · subst hc
      simp
    · simp [Function.update_of_ne hc]

theorem Balanced.touch {r : Comps} (h : r.Balanced) (c : TypeComp) (body : String)
    (dirty : Bool) : (r.touch c body dirty).Balanced := by
  simpa [Balanced, touch_counts] using h

theorem Balanced.touch_offline {r : Comps} (h : r.offline.Balanced) (c : TypeComp)
    (body : String) (dirty : Bool) : (r.touch c body dirty).offline.Balanced := by
  simpa [Balanced, offline, touch_counts] using h

theorem Balanced.online_offline {r : Comps} (h : r.Balanced) : r.online.offline.Balanced := by
  simpa [Balanced, online, offline] using h

end Comps

/-- `NewRole` takes back what `marshal` wrote for a logout. -/
theorem unmarshalRole_marshal (c : Comps) (roleID : RoleID) (now : Int) :
    ∃ comps, unmarshalRole ⟨roleID, some (c.marshal true)⟩ now = some comps ∧
      (c.Balanced → comps.Balanced) := by
  have hget : ∀ c', DataToSave.get ⟨roleID, some (c.marshal true)⟩ c' = .json (c.data c') := by
    intro c'
    simp [DataToSave.get, Comps.marshal_lookup]
  simp only [unmarshalRole, hget, unmarshalComp]
  exact ⟨_, rfl, fun h => h⟩

end GameCluster
