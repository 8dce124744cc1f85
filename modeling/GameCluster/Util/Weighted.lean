import Mathlib.Algebra.Ring.Int.Defs
import GameCluster.Lib.Cumulative
import GameCluster.Lib.Draw
import GameCluster.Lib.Machine
import GameCluster.Lib.Slice
import GameCluster.Util.Unique

/-!
The two containers of `pkg/util/rand.go` that are drawn from. `RandByWeight` keeps
a slice of weighted entries and their sum; `GetAndDelete` moves the last entry into
the place of the one it takes. `RandUnique` does the same without weights.

Objects are records over a common heap of backing arrays, so that a clone and its
original could share entries if `Clone` did not copy them. Each object is followed
together with what was put into it with a positive weight and what `GetAndDelete`
has taken out of it.
-/

namespace GameCluster.Weighted

open Lib

/-- `data[T]` -/
structure Data (T : Type*) where
  weight : Int32
  value : T
  deriving DecidableEq, Repr, Inhabited

structure RandByWeight where
  datas : Slice
  max : Int64
  deriving DecidableEq, Repr

section Source

variable {T : Type*} [Inhabited T]

def newRandByWeight (h : Arrays (Data T)) : Arrays (Data T) × RandByWeight :=
  let datas := Slice.make h 0
  (datas.1, ⟨datas.2, 0⟩)

def RandByWeight.valid (r : RandByWeight) : Bool := 0 < r.datas.len && 0 < r.max

def clone (h : Arrays (Data T)) (r : RandByWeight) : Arrays (Data T) × RandByWeight :=
  let datas := Slice.ofList h (r.datas.elems h)
  (datas.1, ⟨datas.2, r.max⟩)

/-- `Add`; an array that `append` makes has `spare` elements to spare. -/
def add (h : Arrays (Data T)) (r : RandByWeight) (weight : Int32) (v : T) (spare : ℕ) :
    Arrays (Data T) × RandByWeight :=
  if weight ≤ 0 then (h, r)
  else
    let datas := Slice.append h r.datas ⟨weight, v⟩ spare
    (datas.1, ⟨datas.2, r.max + weight.toInt64⟩)

/-- The loop of `Get` and of `GetAndDelete` from entry `i` on: the entry at which the
sum `cr` of the weights so far exceeds `rate`, with its index. -/
def scan (rate : Int64) : Int64 → ℕ → List (Data T) → Option (ℕ × Data T)
  | _, _, [] => none
  | cr, i, v :: rest =>
    let cr := cr + v.weight.toInt64
    if rate < cr then some (i, v) else scan rate cr (i + 1) rest

def get (h : Arrays (Data T)) (r : RandByWeight) : Draw (Except String T) :=
  if r.valid then
    .below r.max.toInt.toNat fun rate =>
      match scan (Int64.ofNat rate) 0 0 (r.datas.elems h) with
      | some (_, v) => .ok v.value
      | none => .error "RandByWeight empty"
  else .done (.error "randByWeight: not valid")

def getAndDelete (o : Arrays (Data T) × RandByWeight) :
    Draw ((Arrays (Data T) × RandByWeight) × Except String T) :=
  let (h, r) := o
  if r.valid then
    .below r.max.toInt.toNat fun rate =>
      match scan (Int64.ofNat rate) 0 0 (r.datas.elems h) with
      | some (i, v) =>
        let datas := Slice.removeAt h r.datas i
        ((datas.1, ⟨datas.2, r.max - v.weight.toInt64⟩), .ok v.value)
      | none => (o, .error "RandByWeight empty")
  else .done (o, .error "randByWeight: not valid")

end Source

/-- An object, the entries of positive weight that were put into it and the values
that `GetAndDelete` has returned from it. A clone starts with the entries of its
original. -/
structure Tracked (T : Type*) where
  obj : RandByWeight
  added : List (Data T)
  returned : List T := []

structure State (T : Type*) where
  arrays : Arrays (Data T) := []
  objs : List (Tracked T) := []

def State.stored {T : Type*} (s : State T) (o : Tracked T) : List (Data T) :=
  o.obj.datas.elems s.arrays

/-- The sum of the weights. -/
def total {T : Type*} (l : List (Data T)) : ℤ := (l.map fun e => e.weight.toInt).sum

inductive Act (T : Type*) where
  | new
  | clone (i : ℕ)
  | add (i : ℕ) (weight : Int32) (v : T) (spare : ℕ)
  /-- `GetAndDelete` when the generator answers `draw`. -/
  | getAndDelete (i draw : ℕ)

section Calls

variable {T : Type*} [Inhabited T]

def State.step (s : State T) : Act T → Option (State T)
  | .new =>
    let made := newRandByWeight s.arrays
    some ⟨made.1, s.objs ++ [⟨made.2, [], []⟩]⟩
  | .clone i =>
    s.objs[i]?.map fun o =>
      let made := Weighted.clone s.arrays o.obj
      ⟨made.1, s.objs ++ [⟨made.2, s.stored o, []⟩]⟩
  | .add i weight v spare =>
    s.objs[i]?.map fun o =>
      let out := Weighted.add s.arrays o.obj weight v spare
      let added := if weight ≤ 0 then o.added else o.added ++ [⟨weight, v⟩]
      ⟨out.1, s.objs.set i { o with obj := out.2, added }⟩
  | .getAndDelete i draw =>
    s.objs[i]?.bind fun o =>
      ((Weighted.getAndDelete (s.arrays, o.obj)).run draw).map fun out =>
        let returned := match out.2 with
          | .ok v => o.returned ++ [v]
          | .error _ => o.returned
        ⟨out.1.1, s.objs.set i { o with obj := out.1.2, returned }⟩

def calls : Machine (State T) (Act T) := ⟨fun s => s = {}, State.step⟩

/-- The weights of an object never sum up to more than an `int64` holds. -/
def Fits (s : State T) : Act T → Prop
  | .add i weight _ _ => ∀ o ∈ s.objs[i]?, total (s.stored o) + weight.toInt < 2 ^ 63
  | _ => True

instance (s : State T) : (a : Act T) → Decidable (Fits s a)
  | .add i weight _ _ =>
    inferInstanceAs (Decidable (∀ o ∈ s.objs[i]?, total (s.stored o) + weight.toInt < 2 ^ 63))
  | .new | .clone _ | .getAndDelete _ _ => inferInstanceAs (Decidable True)

end Calls

/-! ### One object -/

section Object

variable {T : Type*} {l : List (Data T)}

/-- The weights as natural numbers, which is what they are as long as none is negative. -/
def weights (l : List (Data T)) : List ℕ := l.map fun e => e.weight.toInt.toNat

theorem weight_pos {w : Int32} (h : 0 < w) : 0 < w.toInt := by
  rw [Int32.lt_iff_toInt_lt, Int32.toInt_zero] at h
  exact h

theorem total_eq (hpos : ∀ e ∈ l, 0 < e.weight) : total l = ((weights l).sum : ℤ) := by
  induction l with
  | nil => rfl
  | cons e l ih =>
    obtain ⟨he, hl⟩ := List.forall_mem_cons.mp hpos
    have hw := weight_pos he
    simp only [total, weights, List.map_cons, List.sum_cons] at ih ⊢
    rw [ih hl]
    omega

theorem toInt_add_eq {a b : Int64} (hlow : 0 ≤ a.toInt + b.toInt)
    (hhigh : a.toInt + b.toInt < 2 ^ 63) : (a + b).toInt = a.toInt + b.toInt := by
  rw [Int64.toInt_add]
  exact Int.bmod_eq_of_le (by omega) (by omega)

/-- As long as the sum of the weights is an `int64`, the loop stops where the weights
choose it to. -/
theorem scan_eq (hpos : ∀ e ∈ l, 0 < e.weight) {rate cr : Int64} (i : ℕ) (hcr : 0 ≤ cr.toInt)
    (hle : cr.toInt ≤ rate.toInt) (hfits : cr.toInt + (weights l).sum < 2 ^ 63) :
    scan rate cr i l =
      (pick (weights l) (rate.toInt - cr.toInt).toNat).bind fun k => l[k]?.map (i + k, ·) := by
  induction l generalizing cr i with
  | nil => rfl
  | cons e l ih =>
    obtain ⟨he, hl⟩ := List.forall_mem_cons.mp hpos
    have hw := weight_pos he
    have hcons : weights (e :: l) = e.weight.toInt.toNat :: weights l := rfl
    rw [hcons, List.sum_cons] at hfits
    have hnext : (cr + e.weight.toInt64).toInt = cr.toInt + e.weight.toInt := by
      rw [toInt_add_eq, Int32.toInt_toInt64] <;> rw [Int32.toInt_toInt64] <;> omega
    rw [hcons, pick]
    simp only [scan, Int64.lt_iff_toInt_lt, hnext]
    by_cases hstop : rate.toInt < cr.toInt + e.weight.toInt
    · rw [if_pos hstop, if_pos (by omega)]
      rfl
    · rw [if_neg hstop, if_neg (by omega), ih hl (i + 1) (by omega) (by omega) (by omega), hnext]
      have hrate : (rate.toInt - (cr.toInt + e.weight.toInt)).toNat =
          (rate.toInt - cr.toInt).toNat - e.weight.toInt.toNat := by omega
      rw [hrate, Option.bind_map]
      congr 1
      funext k
      simp [Nat.add_right_comm, Nat.add_assoc]

/-- What holds of an object between calls. -/
structure Sound (h : Arrays (Data T)) (r : RandByWeight) : Prop where
  datas : r.datas.Valid h
  pos : ∀ e ∈ r.datas.elems h, 0 < e.weight
  max : r.max.toInt = ((weights (r.datas.elems h)).sum : ℤ)

namespace Sound

variable {h h' : Arrays (Data T)} {r : RandByWeight}

theorem kept (hr : Sound h r) (hkept : Slice.Kept h h' r.datas) : Sound h' r where
  datas := hkept.valid hr.datas
  pos := by
    rw [hkept.elems]
    exact hr.pos
  max := by
    rw [hkept.elems]
    exact hr.max

theorem max_toNat (hr : Sound h r) : r.max.toInt.toNat = (weights (r.datas.elems h)).sum := by
  rw [hr.max, Int.toNat_natCast]

/-- `Valid` says that there is an entry: each has a positive weight. -/
theorem valid_iff (hr : Sound h r) : r.valid = true ↔ r.datas.elems h ≠ [] := by
  rw [RandByWeight.valid, Bool.and_eq_true, decide_eq_true_iff, decide_eq_true_iff, ne_eq,
    hr.datas.elems_eq_nil_iff, ← ne_eq, ← Nat.pos_iff_ne_zero, and_iff_left_iff_imp]
  intro hlen
  have hne : r.datas.elems h ≠ [] := by
    rw [ne_eq, hr.datas.elems_eq_nil_iff]
    omega
  obtain ⟨e, l, hcons⟩ := List.exists_cons_of_ne_nil hne
  have he := weight_pos (hr.pos e (by simp [hcons]))
  have hmax := hr.max
  rw [hcons] at hmax
  simp only [weights, List.map_cons, List.sum_cons] at hmax
  rw [Int64.lt_iff_toInt_lt, Int64.toInt_zero]
  omega

/-- Every draw below the sum stops the loop at the entry that the weights choose. -/
theorem scan (hr : Sound h r) {d : ℕ} (hd : d < r.max.toInt.toNat) :
    ∃ k e, pick (weights (r.datas.elems h)) d = some k ∧ (r.datas.elems h)[k]? = some e ∧
      Weighted.scan (Int64.ofNat d) 0 0 (r.datas.elems h) = some (k, e) := by
  have hlt := r.max.toInt_lt
  have hrate : (Int64.ofNat d).toInt = d := by
    rw [Int64.toInt_ofNat_of_lt]
    omega
  have hd' := hd
  rw [hr.max_toNat] at hd'
  obtain ⟨k, hk⟩ := exists_pick hd'
  have hlen : k < (r.datas.elems h).length := by
    have := (pick_eq_some_iff.mp hk).1
    rwa [weights, List.length_map] at this
  refine ⟨k, (r.datas.elems h)[k], hk, List.getElem?_eq_getElem hlen, ?_⟩
  have hfits : (0 : Int64).toInt + ((weights (r.datas.elems h)).sum : ℤ) < 2 ^ 63 := by
    rw [← hr.max, Int64.toInt_zero]
    omega
  rw [scan_eq hr.pos 0 (by simp) (by simp [hrate]) hfits, hrate]
  simp [hk, hlen]

/-- The entry `k` leaves, and the last one takes its place. -/
theorem removeAt [Inhabited T] (hr : Sound h r) {k : ℕ} {e : Data T}
    (he : (r.datas.elems h)[k]? = some e) :
    Sound (Slice.removeAt h r.datas k).1
      ⟨(Slice.removeAt h r.datas k).2, r.max - e.weight.toInt64⟩ := by
  have hperm := perm_swapRemove he
  have hmem : e ∈ r.datas.elems h := List.mem_of_getElem? he
  have hsum : (weights (r.datas.elems h)).sum =
      e.weight.toInt.toNat + (weights (swapRemove (r.datas.elems h) k)).sum := by
    rw [← List.sum_cons]
    exact (hperm.map _).sum_eq
  have hw := weight_pos (hr.pos e hmem)
  have hlt := r.max.toInt_lt
  refine ⟨Slice.removeAt_valid hr.datas k, ?_, ?_⟩
  · intro x hx
    rw [Slice.removeAt_elems hr.datas] at hx
    exact hr.pos x (hperm.mem_iff.mpr (List.mem_cons_of_mem e hx))
  · rw [Slice.removeAt_elems hr.datas, Int64.toInt_sub, Int32.toInt_toInt64, hr.max, hsum]
    rw [hr.max, hsum] at hlt
    rw [Int.bmod_eq_of_le (by omega) (by omega)]
    omega

/-- `Get` returns every entry for as many draws as its weight says, and never runs past
the last one. -/
theorem get_exact [Inhabited T] (hr : Sound h r) (hvalid : r.valid = true) :
    ∃ entry : ℕ → ℕ,
      (∀ d < r.max.toInt.toNat, ∃ e, (r.datas.elems h)[entry d]? = some e ∧
        (get h r).run d = some (.ok e.value)) ∧
      ∀ (k : ℕ) (e : Data T), (r.datas.elems h)[k]? = some e →
        (((Finset.range r.max.toInt.toNat).filter fun d => entry d = k).card : ℤ) =
          e.weight.toInt := by
  refine ⟨fun d => (pick (weights (r.datas.elems h)) d).getD 0, ?_, ?_⟩
  · intro d hd
    obtain ⟨k, e, hk, he, hscan⟩ := hr.scan hd
    refine ⟨e, by simpa [hk] using he, ?_⟩
    simp only [get, hvalid, if_true, Draw.run, if_pos hd, hscan]
  · intro k e he
    have hpick : ((Finset.range r.max.toInt.toNat).filter fun d =>
        (pick (weights (r.datas.elems h)) d).getD 0 = k) =
          (Finset.range (weights (r.datas.elems h)).sum).filter fun d =>
            pick (weights (r.datas.elems h)) d = some k := by
      rw [hr.max_toNat]
      refine Finset.filter_congr fun d hd => ?_
      obtain ⟨j, hj⟩ := exists_pick (Finset.mem_range.mp hd)
      simp [hj]
    have hw := weight_pos (hr.pos e (List.mem_of_getElem? he))
    have hweight : (weights (r.datas.elems h))[k]? = some e.weight.toInt.toNat := by
      simp [weights, he]
    rw [hpick, card_pick hweight]
    omega

theorem getAndDelete_of_nil [Inhabited T] (hr : Sound h r) (hnil : r.datas.elems h = []) :
    getAndDelete (h, r) = .done ((h, r), .error "randByWeight: not valid") := by
  have hvalid : ¬r.valid = true := fun hv => hr.valid_iff.mp hv hnil
  simp [getAndDelete, hvalid]

/-- Whatever is drawn, `GetAndDelete` takes out the entry that it returns. -/
theorem getAndDelete_always [Inhabited T] (hr : Sound h r) (hne : r.datas.elems h ≠ []) :
    (getAndDelete (h, r)).Always fun out =>
      ∃ k e, (r.datas.elems h)[k]? = some e ∧
        out = (((Slice.removeAt h r.datas k).1,
          ⟨(Slice.removeAt h r.datas k).2, r.max - e.weight.toInt64⟩), .ok e.value) := by
  have hvalid := hr.valid_iff.mpr hne
  have hmax : 0 < r.max.toInt.toNat := by
    rw [RandByWeight.valid, Bool.and_eq_true, decide_eq_true_iff, decide_eq_true_iff,
      Int64.lt_iff_toInt_lt, Int64.toInt_zero] at hvalid
    omega
  simp only [getAndDelete, hvalid, if_true]
  refine ⟨hmax, fun d hd => ?_⟩
  obtain ⟨k, e, -, he, hscan⟩ := hr.scan hd
  exact ⟨k, e, he, by simp only [hscan]⟩

end Sound

/-- What calls of `GetAndDelete` on `r` may have made of the heap `h` and of `r`. -/
structure DrainedFrom (h : Arrays (Data T)) (r : RandByWeight)
    (o : Arrays (Data T) × RandByWeight) : Prop where
  sound : Sound o.1 o.2
  array : o.2.datas.array = r.datas.array
  kept : ∀ other : Slice, other.array ≠ r.datas.array → Slice.Kept h o.1 other

section Drain

variable [Inhabited T] {h : Arrays (Data T)} {r : RandByWeight}
  {o : Arrays (Data T) × RandByWeight}

theorem DrainedFrom.removeAt (ho : DrainedFrom h r o) {k : ℕ} {e : Data T}
    (he : (o.2.datas.elems o.1)[k]? = some e) :
    DrainedFrom h r ((Slice.removeAt o.1 o.2.datas k).1,
      ⟨(Slice.removeAt o.1 o.2.datas k).2, o.2.max - e.weight.toInt64⟩) where
  sound := ho.sound.removeAt he
  array := ho.array
  kept other hother := (ho.kept other hother).trans (Slice.removeAt_kept (ho.array ▸ hother) k)

/-- `n` calls of `GetAndDelete` return each entry once and fail from then on, and what
lies in other arrays stays. -/
theorem Sound.drains (hr : Sound h r) (g : Generator) (n : ℕ) :
    ∃ o, ∃ given : List T, Draw.repeated getAndDelete g n (h, r) =
        some (o, given.map .ok ++ List.replicate (n - (r.datas.elems h).length)
          (.error "randByWeight: not valid")) ∧
      given.length = min n (r.datas.elems h).length ∧
      (given ++ (o.2.datas.elems o.1).map Data.value).Perm ((r.datas.elems h).map Data.value) ∧
      ((r.datas.elems h).length ≤ n → o.2.datas.elems o.1 = []) ∧ DrainedFrom h r o := by
  let stock (o : Arrays (Data T) × RandByWeight) : Multiset T :=
    ↑((o.2.datas.elems o.1).map Data.value)
  have hempty : ∀ o, DrainedFrom h r o → stock o = 0 →
      getAndDelete o = .done (o, .error "randByWeight: not valid") := by
    intro o ho hnil
    exact ho.sound.getAndDelete_of_nil (by simpa [stock] using hnil)
  have hgives : ∀ o, DrainedFrom h r o → stock o ≠ 0 → (getAndDelete o).Always fun out =>
      ∃ v, out.2 = .ok v ∧ DrainedFrom h r out.1 ∧ stock o = v ::ₘ stock out.1 := by
    intro o ho hne
    refine (ho.sound.getAndDelete_always (by simpa [stock] using hne)).mono ?_
    rintro out ⟨k, e, he, rfl⟩
    refine ⟨e.value, rfl, ho.removeAt he, ?_⟩
    have hperm := (perm_swapRemove he).map Data.value
    simp only [stock, Slice.removeAt_elems ho.sound.datas]
    exact Multiset.coe_eq_coe.mpr hperm
  have hstart : DrainedFrom h r (h, r) := ⟨hr, rfl, fun other _ => Slice.Kept.refl h other⟩
  obtain ⟨o, given, hrun, hlen, hsum, hall, ho⟩ :=
    Draw.repeated_drains (DrainedFrom h r) stock hempty hgives g n hstart
  simp only [stock, Multiset.coe_card, List.length_map, Multiset.coe_eq_zero,
    List.map_eq_nil_iff] at hrun hlen hall
  exact ⟨o, given, hrun, hlen, Multiset.coe_eq_coe.mp hsum, hall, ho⟩

end Drain

end Object

/-! ### Runs over all objects -/

section Runs

variable {T : Type*} {s t : State T}

/-- An object between calls, with its books: what has been returned and what is stored
is what was added. -/
structure Accounted (h : Arrays (Data T)) (o : Tracked T) : Prop where
  sound : Sound h o.obj
  ledger : (o.returned ++ (o.obj.datas.elems h).map Data.value).Perm (o.added.map Data.value)

variable {h : Arrays (Data T)} {o : Tracked T} {i : ℕ}

theorem Accounted.kept {h h' : Arrays (Data T)} (ho : Accounted h o)
    (hkept : Slice.Kept h h' o.obj.datas) : Accounted h' o where
  sound := ho.sound.kept hkept
  ledger := by
    rw [hkept.elems]
    exact ho.ledger

structure Inv (s : State T) : Prop where
  accounted : ∀ (i : ℕ) (o : Tracked T), s.objs[i]? = some o → Accounted s.arrays o
  apart : ∀ (i j : ℕ) (a b : Tracked T), s.objs[i]? = some a → s.objs[j]? = some b → i ≠ j →
    a.obj.datas.array ≠ b.obj.datas.array

/-- A new object over an array of its own. -/
theorem Inv.concat (hs : Inv s) (hkept : ∀ r : Slice, r.Valid s.arrays → Slice.Kept s.arrays h r)
    (hfresh : ∀ r : Slice, r.Valid s.arrays → r.array ≠ o.obj.datas.array) (ho : Accounted h o) :
    Inv ⟨h, s.objs ++ [o]⟩ where
  accounted := forall_getElem?_concat
    (fun j q hq => (hs.accounted j q hq).kept (hkept _ (hs.accounted j q hq).sound.datas)) ho
  apart := by
    intro i j a b ha hb hij
    have hne : ∀ (k : ℕ) (q : Tracked T), s.objs[k]? = some q →
        q.obj.datas.array ≠ o.obj.datas.array :=
      fun k q hq => hfresh _ (hs.accounted k q hq).sound.datas
    rw [getElem?_concat] at ha hb
    split at ha <;> split at hb
    · omega
    · obtain rfl := Option.some.inj ha
      exact (hne j b hb).symm
    · obtain rfl := Option.some.inj hb
      exact hne i a ha
    · exact hs.apart i j a b ha hb hij

/-- A call on one object, which may move it to a new array. -/
theorem Inv.set (hs : Inv s) {o o' : Tracked T} (ho : s.objs[i]? = some o)
    (hkept : ∀ r : Slice, r.Valid s.arrays → r.array ≠ o.obj.datas.array → Slice.Kept s.arrays h r ∧
      r.array ≠ o'.obj.datas.array)
    (ho' : Accounted h o') : Inv ⟨h, s.objs.set i o'⟩ := by
  have hother : ∀ j q, s.objs[j]? = some q → j ≠ i →
      Slice.Kept s.arrays h q.obj.datas ∧ q.obj.datas.array ≠ o'.obj.datas.array :=
    fun j q hq hj => hkept _ (hs.accounted j q hq).sound.datas (hs.apart j i q o hq ho hj)
  refine ⟨?_, ?_⟩
  · intro j q hq
    rw [getElem?_set_some ho] at hq
    split at hq
    · obtain rfl := Option.some.inj hq
      exact ho'
    · rename_i hj
      exact (hs.accounted j q hq).kept (hother j q hq hj).1
  · intro j k a b ha hb hjk
    rw [getElem?_set_some ho] at ha hb
    split at ha <;> split at hb
    · omega
    · rename_i _ hk
      obtain rfl := Option.some.inj ha
      exact (hother k b hb hk).2.symm
    · rename_i hj _
      obtain rfl := Option.some.inj hb
      exact (hother j a ha hj).2
    · exact hs.apart j k a b ha hb hjk

theorem Inv.same (hs : Inv s) (ho : s.objs[i]? = some o) : Inv ⟨s.arrays, s.objs.set i o⟩ := by
  rw [set_getElem?_self ho]
  exact hs

theorem Inv.clone (hs : Inv s) (ho : s.objs[i]? = some o) :
    Inv ⟨(Weighted.clone s.arrays o.obj).1,
      s.objs ++ [⟨(Weighted.clone s.arrays o.obj).2, s.stored o, []⟩]⟩ := by
  have hsound := (hs.accounted i o ho).sound
  have helems := Slice.ofList_elems s.arrays (o.obj.datas.elems s.arrays)
  refine hs.concat (fun r hr => Slice.ofList_kept hr _) (fun r hr => Slice.ofList_array_ne hr _) ?_
  refine ⟨⟨Slice.ofList_valid s.arrays _, ?_, ?_⟩, ?_⟩
  · simp only [Weighted.clone, helems]
    exact hsound.pos
  · simp only [Weighted.clone, helems]
    exact hsound.max
  · simp only [Weighted.clone, helems, State.stored, List.nil_append]
    exact List.Perm.refl _

/-- Another object keeps its entries while one is drained: its array is its own. -/
theorem Inv.stored_kept (hs : Inv s) {i j : ℕ} {o c : Tracked T} (ho : s.objs[i]? = some o)
    (hc : s.objs[j]? = some c) (hj : j ≠ i) {after : Arrays (Data T) × RandByWeight}
    (hafter : DrainedFrom s.arrays o.obj after) :
    c.obj.datas.elems after.1 = s.stored c :=
  (hafter.kept c.obj.datas (hs.apart j i c o hc ho hj)).elems

variable [Inhabited T]

theorem Inv.new (hs : Inv s) :
    Inv ⟨(newRandByWeight s.arrays).1, s.objs ++ [⟨(newRandByWeight s.arrays).2, [], []⟩]⟩ := by
  have hnil : (Slice.make s.arrays 0).2.elems (Slice.make s.arrays 0).1 = [] := by
    rw [(Slice.make_valid s.arrays 0).elems_eq_nil_iff]
    rfl
  refine hs.concat (fun r hr => Slice.make_kept hr 0) (fun r hr => Slice.make_array_ne hr 0) ?_
  refine ⟨⟨Slice.make_valid s.arrays 0, ?_, ?_⟩, ?_⟩ <;>
    simp [newRandByWeight, hnil, weights]

theorem Accounted.append (ho : Accounted h o) {weight : Int32} (hw : 0 < weight) (v : T)
    (spare : ℕ) (hfits : total (o.obj.datas.elems h) + weight.toInt < 2 ^ 63) :
    Accounted (Slice.append h o.obj.datas ⟨weight, v⟩ spare).1
      { o with
        obj := ⟨(Slice.append h o.obj.datas ⟨weight, v⟩ spare).2, o.obj.max + weight.toInt64⟩
        added := o.added ++ [⟨weight, v⟩] } := by
  have helems := Slice.append_elems ho.sound.datas (⟨weight, v⟩ : Data T) spare
  have hpos := weight_pos hw
  rw [total_eq ho.sound.pos, ← ho.sound.max] at hfits
  have hmax : (o.obj.max + weight.toInt64).toInt = o.obj.max.toInt + weight.toInt := by
    have := ho.sound.max
    rw [toInt_add_eq, Int32.toInt_toInt64] <;> rw [Int32.toInt_toInt64] <;> omega
  refine ⟨⟨Slice.append_valid ho.sound.datas _ spare, ?_, ?_⟩, ?_⟩
  · simp only [helems, List.forall_mem_append, List.forall_mem_singleton]
    exact ⟨ho.sound.pos, hw⟩
  · have hweights : weights (o.obj.datas.elems h ++ [⟨weight, v⟩]) =
        weights (o.obj.datas.elems h) ++ [weight.toInt.toNat] := by simp [weights]
    simp only [helems, hmax, ho.sound.max, hweights, List.sum_append, List.sum_singleton]
    omega
  · simp only [helems, List.map_append, ← List.append_assoc]
    exact ho.ledger.append_right _

theorem Inv.add (hs : Inv s) (ho : s.objs[i]? = some o) {weight : Int32} (hw : 0 < weight) (v : T)
    (spare : ℕ) (hfits : total (s.stored o) + weight.toInt < 2 ^ 63) :
    Inv ⟨(Slice.append s.arrays o.obj.datas ⟨weight, v⟩ spare).1, s.objs.set i
      { o with
        obj := ⟨(Slice.append s.arrays o.obj.datas ⟨weight, v⟩ spare).2,
          o.obj.max + weight.toInt64⟩
        added := o.added ++ [⟨weight, v⟩] }⟩ :=
  hs.set ho
    (fun _ hr hne =>
      ⟨Slice.append_kept hr hne _ spare, Slice.append_array_ne hr hne _ spare⟩)
    ((hs.accounted i o ho).append hw v spare hfits)

theorem Inv.take (hs : Inv s) {i k : ℕ} (ho : s.objs[i]? = some o) {e : Data T}
    (he : (s.stored o)[k]? = some e) :
    Inv ⟨(Slice.removeAt s.arrays o.obj.datas k).1, s.objs.set i
      { o with
        obj := ⟨(Slice.removeAt s.arrays o.obj.datas k).2, o.obj.max - e.weight.toInt64⟩
        returned := o.returned ++ [e.value] }⟩ := by
  have hacc := hs.accounted i o ho
  refine hs.set ho (fun _ _ hne => ⟨Slice.removeAt_kept hne k, hne⟩) ⟨hacc.sound.removeAt he, ?_⟩
  have hperm := (perm_swapRemove he).map Data.value
  simp only [Slice.removeAt_elems hacc.sound.datas, List.append_assoc, List.singleton_append]
  exact (hperm.symm.append_left o.returned).trans hacc.ledger

theorem Inv.step (hs : Inv s) {a : Act T} (hfits : Fits s a) (hstep : s.step a = some t) :
    Inv t := by
  cases a with
  | new =>
    obtain rfl := Option.some.inj hstep
    exact hs.new
  | clone i =>
    obtain ⟨o, ho, rfl⟩ := Option.map_eq_some_iff.mp hstep
    exact hs.clone ho
  | add i weight v spare =>
    obtain ⟨o, ho, rfl⟩ := Option.map_eq_some_iff.mp hstep
    by_cases hw : weight ≤ 0
    · simp only [Weighted.add, if_pos hw]
      exact hs.same ho
    · simp only [Weighted.add, if_neg hw]
      exact hs.add ho (Int32.not_le.mp hw) v spare (hfits o ho)
  | getAndDelete i draw =>
    obtain ⟨o, ho, hcall⟩ := Option.bind_eq_some_iff.mp hstep
    obtain ⟨out, hout, rfl⟩ := Option.map_eq_some_iff.mp hcall
    have hsound := (hs.accounted i o ho).sound
    by_cases hnil : o.obj.datas.elems s.arrays = []
    · rw [hsound.getAndDelete_of_nil hnil] at hout
      obtain rfl := Option.some.inj hout
      exact hs.same ho
    · obtain ⟨k, e, he, rfl⟩ := (hsound.getAndDelete_always hnil).of_run hout
      exact hs.take ho he

theorem inv_of_reachable (hr : calls.Reachable Fits s) : Inv s := by
  refine hr.invariant (P := Inv) ?_ ?_
  · rintro s rfl
    exact ⟨by simp, by simp⟩
  · intro s a t _ hs hfits hstep
    exact hs.step hfits hstep

/-- Each number the generator can answer draws one entry, and an entry is drawn by as many of
them as its weight says. Repeated calls of `GetAndDelete` give each entry out once and leave
every other object as it is. Those of `RandUnique.Get` give out each value once that the
constructor, `Add` and `Reset` have put there. -/
theorem draws_exact_and_drain (hr : calls.Reachable Fits s) {i : ℕ} {o : Tracked T}
    (ho : s.objs[i]? = some o) {u : Unique.Tracked T}
    (hu : Unique.calls.Reachable Machine.anyStep u) :
    (o.obj.max.toInt = total (s.stored o) ∧ ∀ e ∈ s.stored o, 0 < e.weight) ∧
    (o.obj.valid = true → ∃ entry : ℕ → ℕ,
      (∀ d < o.obj.max.toInt.toNat, ∃ e, (s.stored o)[entry d]? = some e ∧
        (get s.arrays o.obj).run d = some (.ok e.value)) ∧
      ∀ (k : ℕ) (e : Data T), (s.stored o)[k]? = some e →
        (((Finset.range o.obj.max.toInt.toNat).filter fun d => entry d = k).card : ℤ) =
          e.weight.toInt) ∧
    (∀ (g : Generator) (n : ℕ), ∃ after, ∃ given : List T,
      Draw.repeated getAndDelete g n (s.arrays, o.obj) =
        some (after, given.map .ok ++ List.replicate (n - (s.stored o).length)
          (.error "randByWeight: not valid")) ∧
      given.length = min n (s.stored o).length ∧
      (o.returned ++ given ++ (after.2.datas.elems after.1).map Data.value).Perm
        (o.added.map Data.value) ∧
      ((s.stored o).length ≤ n → (o.returned ++ given).Perm (o.added.map Data.value)) ∧
      ∀ (j : ℕ) (c : Tracked T), s.objs[j]? = some c → j ≠ i →
        c.obj.datas.elems after.1 = s.stored c) ∧
    ∀ (g : Generator) (n : ℕ), ∃ after, ∃ given : List T,
      Draw.repeated Unique.get g n (u.arrays, u.obj) =
        some (after, given.map .ok ++ List.replicate (n - u.stored.length)
          (.error "RandUnique empty")) ∧
      given.length = min n u.stored.length ∧
      (u.returned ++ given ++ after.2.data.elems after.1).Perm u.given ∧
      (u.stored.length ≤ n → (u.returned ++ given).Perm u.given) := by
  have hs := inv_of_reachable hr
  obtain ⟨hsound, hledger⟩ := hs.accounted i o ho
  refine ⟨⟨hsound.max.trans (total_eq hsound.pos).symm, hsound.pos⟩, hsound.get_exact, ?_, ?_⟩
  · intro g n
    obtain ⟨after, given, hrun, hlen, hperm, hempty, hafter⟩ := hsound.drains g n
    have hall : (o.returned ++ given ++ (after.2.datas.elems after.1).map Data.value).Perm
        (o.added.map Data.value) := by
      rw [List.append_assoc]
      exact (hperm.append_left o.returned).trans hledger
    refine ⟨after, given, hrun, hlen, hall, ?_, fun j c hc hj => hs.stored_kept ho hc hj hafter⟩
    intro hn
    simpa [hempty hn] using hall
  · exact Unique.drains (Unique.accounted_of_reachable hu)

end Runs

/-- Three entries, one of them without weight, a clone, and one draw from the original; and
three values, one of them added later, of which one is drawn. -/
theorem draws_after_clone :
    ∃ (s : State Char) (o c : Tracked Char) (u : Unique.Tracked Char),
      s.objs[0]? = some o ∧ s.objs[1]? = some c ∧ o.obj.max.toInt = total (s.stored o) ∧
      ∀ g : Generator,
        (∃ after, ∃ given : List Char, Draw.repeated getAndDelete g 2 (s.arrays, o.obj) =
            some (after, given.map .ok ++ [.error "randByWeight: not valid"]) ∧
          (['b'] ++ given).Perm ['a', 'b'] ∧ c.obj.datas.elems after.1 = s.stored c) ∧
        ∃ after, ∃ given : List Char, Draw.repeated Unique.get g 3 (u.arrays, u.obj) =
            some (after, given.map .ok ++ [.error "RandUnique empty"]) ∧
          (['y'] ++ given).Perm ['x', 'y', 'z'] := by
  obtain ⟨s, hr, o, ho, c, hc, hreturned, hlen, hadded⟩ :=
    Machine.exec_reaches (m := (calls : Machine (State Char) (Act Char))) Fits
      (fun s => ∃ o ∈ s.objs[0]?, ∃ c ∈ s.objs[1]?, o.returned = ['b'] ∧
        (s.stored o).length = 1 ∧ o.added = [⟨3, 'a'⟩, ⟨2, 'b'⟩])
      [Act.new, .add 0 3 'a' 0, .add 0 (-1) 'x' 0, .add 0 2 'b' 1, .clone 0, .getAndDelete 0 4]
      rfl (by decide +kernel)
  obtain ⟨u, hu, hgiven, hdrawn, hleft⟩ :=
    Machine.exec_reaches (m := (Unique.calls : Machine (Unique.Tracked Char) _)) Machine.anyStep
      (fun u => u.given = ['x', 'y', 'z'] ∧ u.returned = ['y'] ∧ u.stored.length = 2)
      [Unique.Act.add 'z' 0, .get 1] ⟨[], ['x', 'y'], rfl⟩ (by decide +kernel)
  obtain ⟨⟨hmax, -⟩, -, hdrain, hunique⟩ := draws_exact_and_drain hr ho hu
  refine ⟨s, o, c, u, ho, hc, hmax, fun g => ⟨?_, ?_⟩⟩
  · obtain ⟨after, given, hrun, -, -, hperm, hkept⟩ := hdrain g 2
    rw [hlen] at hrun hperm
    rw [hreturned, hadded] at hperm
    exact ⟨after, given, hrun, hperm (by decide), hkept 1 c hc (by decide)⟩
  · obtain ⟨after, given, hrun, -, -, hperm⟩ := hunique g 3
    rw [hleft] at hrun hperm
    rw [hgiven, hdrawn] at hperm
    exact ⟨after, given, hrun, hperm (by decide)⟩

end GameCluster.Weighted
