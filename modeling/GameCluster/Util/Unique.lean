import GameCluster.Lib.Draw
import GameCluster.Lib.Machine
import GameCluster.Lib.Slice

/-!
`RandUnique` of `pkg/util/rand.go`: a slice of values from which `Get` takes one at
random, moving the last value into its place. The constructor copies its arguments, so
the slice has an array of its own. An object is followed together with the values it was
given since it was made or reset and those that `Get` has returned since.
-/

namespace GameCluster.Unique

open Lib

structure RandUnique where
  data : Slice
  deriving DecidableEq, Repr

section Source

variable {T : Type*} [Inhabited T]

def newRandUnique (h : Arrays T) (values : List T) : Arrays T × RandUnique :=
  let clone := Slice.ofList h values
  (clone.1, ⟨clone.2⟩)

def add (o : Arrays T × RandUnique) (v : T) (spare : ℕ) : Arrays T × RandUnique :=
  let data := Slice.append o.1 o.2.data v spare
  (data.1, ⟨data.2⟩)

def get (o : Arrays T × RandUnique) : Draw ((Arrays T × RandUnique) × Except String T) :=
  let (h, r) := o
  let n := r.data.len
  if n = 0 then .done (o, .error "RandUnique empty")
  else
    .below n fun cur =>
      let ret := (r.data.elems h)[cur]?.getD default
      let data := Slice.removeAt h r.data cur
      ((data.1, ⟨data.2⟩), .ok ret)

/-- `Reset` -/
def reset (o : Arrays T × RandUnique) (values : List T) (spare : ℕ) : Arrays T × RandUnique :=
  let data := Slice.appendAll o.1 o.2.data.truncate values spare
  (data.1, ⟨data.2⟩)

end Source

inductive Act (T : Type*) where
  | add (v : T) (spare : ℕ)
  | get (draw : ℕ)
  | reset (values : List T) (spare : ℕ)

structure Tracked (T : Type*) where
  arrays : Arrays T
  obj : RandUnique
  given : List T
  returned : List T := []

def Tracked.stored {T : Type*} (o : Tracked T) : List T := o.obj.data.elems o.arrays

section Runs

variable {T : Type*} [Inhabited T] {o t : Tracked T}

def Tracked.new (h : Arrays T) (values : List T) : Tracked T :=
  let made := newRandUnique h values
  ⟨made.1, made.2, values, []⟩

def Tracked.step (o : Tracked T) : Act T → Option (Tracked T)
  | .add v spare =>
    let out := add (o.arrays, o.obj) v spare
    some { o with arrays := out.1, obj := out.2, given := o.given ++ [v] }
  | .get draw =>
    ((get (o.arrays, o.obj)).run draw).map fun out =>
      let returned := match out.2 with
        | .ok v => o.returned ++ [v]
        | .error _ => o.returned
      { o with arrays := out.1.1, obj := out.1.2, returned }
  | .reset values spare =>
    let out := reset (o.arrays, o.obj) values spare
    some ⟨out.1, out.2, values, []⟩

/-- The calls on an object made from any values over any heap. -/
def calls : Machine (Tracked T) (Act T) := ⟨fun o => ∃ h values, o = .new h values, Tracked.step⟩

section Get

variable {h : Arrays T} {r : RandUnique}

/-- Whatever is drawn, `Get` takes out the value that it returns. -/
theorem get_always (hr : r.data.Valid h) (hne : r.data.elems h ≠ []) :
    (get (h, r)).Always fun out => ∃ cur v, (r.data.elems h)[cur]? = some v ∧
      out = (((Slice.removeAt h r.data cur).1, ⟨(Slice.removeAt h r.data cur).2⟩), .ok v) := by
  have hlen : ¬r.data.len = 0 := fun hzero => hne (hr.elems_eq_nil_iff.mpr hzero)
  simp only [get, if_neg hlen]
  refine ⟨Nat.pos_of_ne_zero hlen, fun cur hcur => ?_⟩
  have hcur : cur < (r.data.elems h).length := by
    rw [hr.elems_length]
    exact hcur
  refine ⟨cur, (r.data.elems h)[cur], List.getElem?_eq_getElem hcur, ?_⟩
  simp only [List.getElem?_eq_getElem hcur, Option.getD_some]

theorem get_of_nil (hr : r.data.Valid h) (hnil : r.data.elems h = []) :
    get (h, r) = .done ((h, r), .error "RandUnique empty") :=
  if_pos (hr.elems_eq_nil_iff.mp hnil)

end Get

/-- What was given to an object is what it still holds and what it has returned. -/
structure Accounted (o : Tracked T) : Prop where
  data : o.obj.data.Valid o.arrays
  ledger : (o.returned ++ o.stored).Perm o.given

omit [Inhabited T] in
theorem Accounted.new (h : Arrays T) (values : List T) : Accounted (.new h values) := by
  refine ⟨Slice.ofList_valid h values, ?_⟩
  rw [Tracked.stored, Tracked.new, newRandUnique, List.nil_append, Slice.ofList_elems]

theorem Accounted.step (ho : Accounted o) {a : Act T} (hstep : o.step a = some t) :
    Accounted t := by
  cases a with
  | add v spare =>
    obtain rfl := Option.some.inj hstep
    refine ⟨Slice.append_valid ho.data v spare, ?_⟩
    have helems := Slice.append_elems ho.data v spare
    simp only [Tracked.stored, add, helems, ← List.append_assoc]
    exact ho.ledger.append_right _
  | get draw =>
    obtain ⟨out, hout, rfl⟩ := Option.map_eq_some_iff.mp hstep
    by_cases hnil : o.obj.data.elems o.arrays = []
    · rw [get_of_nil ho.data hnil] at hout
      obtain rfl := Option.some.inj hout
      exact ho
    · obtain ⟨cur, v, hv, rfl⟩ := (get_always ho.data hnil).of_run hout
      refine ⟨Slice.removeAt_valid ho.data cur, ?_⟩
      simp only [Tracked.stored, Slice.removeAt_elems ho.data, List.append_assoc,
        List.singleton_append]
      exact ((perm_swapRemove hv).symm.append_left o.returned).trans ho.ledger
  | reset values spare =>
    obtain rfl := Option.some.inj hstep
    refine ⟨Slice.appendAll_valid ho.data.truncate values spare, ?_⟩
    have helems := Slice.appendAll_elems ho.data.truncate values spare
    rw [Slice.truncate_elems, List.nil_append] at helems
    simp only [Tracked.stored, reset, helems, List.nil_append, List.Perm.refl]

theorem accounted_of_reachable (hr : calls.Reachable Machine.anyStep o) : Accounted o := by
  refine hr.invariant (P := Accounted) ?_ fun o a t _ ho _ hstep => ho.step hstep
  rintro o ⟨h, values, rfl⟩
  exact .new h values

/-- `n` calls of `Get` return each value that is left once and fail from then on. -/
theorem drains (ho : Accounted o) (g : Generator) (n : ℕ) :
    ∃ after, ∃ given : List T, Draw.repeated get g n (o.arrays, o.obj) =
        some (after, given.map .ok ++ List.replicate (n - o.stored.length)
          (.error "RandUnique empty")) ∧
      given.length = min n o.stored.length ∧
      (o.returned ++ given ++ after.2.data.elems after.1).Perm o.given ∧
      (o.stored.length ≤ n → (o.returned ++ given).Perm o.given) := by
  let stock (r : Arrays T × RandUnique) : Multiset T := ↑(r.2.data.elems r.1)
  have hempty : ∀ r : Arrays T × RandUnique, r.2.data.Valid r.1 → stock r = 0 →
      get r = .done (r, .error "RandUnique empty") := by
    intro r hr hnil
    exact get_of_nil hr (by simpa [stock] using hnil)
  have hgives : ∀ r : Arrays T × RandUnique, r.2.data.Valid r.1 → stock r ≠ 0 →
      (get r).Always fun out =>
        ∃ v, out.2 = .ok v ∧ out.1.2.data.Valid out.1.1 ∧ stock r = v ::ₘ stock out.1 := by
    intro r hr hne
    refine (get_always hr (by simpa [stock] using hne)).mono ?_
    rintro out ⟨cur, v, hv, rfl⟩
    refine ⟨v, rfl, Slice.removeAt_valid hr cur, ?_⟩
    simp only [stock, Slice.removeAt_elems hr]
    exact Multiset.coe_eq_coe.mpr (perm_swapRemove hv)
  have hvalid : (o.arrays, o.obj).2.data.Valid (o.arrays, o.obj).1 := ho.data
  obtain ⟨after, given, hrun, hlen, hsum, hall, -⟩ := Draw.repeated_drains
    (fun r : Arrays T × RandUnique => r.2.data.Valid r.1) stock hempty hgives g n hvalid
  have hperm : (o.returned ++ given ++ after.2.data.elems after.1).Perm o.given := by
    rw [List.append_assoc]
    exact ((Multiset.coe_eq_coe.mp hsum).append_left o.returned).trans ho.ledger
  refine ⟨after, given, hrun, hlen, hperm, fun hn => ?_⟩
  have hnil : after.2.data.elems after.1 = [] := Multiset.coe_eq_zero _ |>.mp (hall hn)
  simpa [hnil] using hperm

end Runs

end GameCluster.Unique
