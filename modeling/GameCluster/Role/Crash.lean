import GameCluster.Lib.Machine
import GameCluster.Lib.Table
import GameCluster.Role.Tick

/-!
What survives a crash of the game server: the Redis hash of a role, from which
`NewRole` makes the role again. A tick that finds a boundary crossed runs hooks
and moves the times in `r.Data`; the automatic save of that tick or of a later
one posts the dirty parts, and a saver writes the posted data in order.

Ticks are numbered by their place in a log that is kept for the statements only,
and so is the number of the tick that saved each field of the hash. A saver
whose queue is full drops the data.
-/

namespace GameCluster.Crash

open Lib Exit Saving Tick

/-- The decoding of what `marshal` writes, and what `NewRole` needs besides. -/
structure RoleCode (D C : Type) extends CompCode (Times × D) C where
  unmarshalData : String → Option (Times × D)
  /-- `CompFactory().Create`. -/
  create : CompIndex → Option C
  unmarshalComp : C → String → Option C
  createTime : D → ℤ
  setCreateTime : D → ℤ → D
  unmarshal_marshal : ∀ {x : Times × D} {str : String},
    marshalData x = some str → unmarshalData str = some x
  create_base : create tcBase = none

/-- The zero `time.Time`, the beginning of the year 1. -/
def zeroTime : Time := -62135596800000000000

section NewRole

variable {D C : Type} (code : RoleCode D C)

def get (data : Saving.DataToSave) (i : CompIndex) : String := (data.data.lookup i).getD ""

/-- One round of the component loop of `NewRole`; `none` is an error. -/
def newComp (data : Saving.DataToSave) (i : CompIndex) : Option (Option C) :=
  match code.create i with
  | none => some none
  | some v =>
    if get data i = "" then some (some v) else (code.unmarshalComp v (get data i)).map some

def newRole (data : Saving.DataToSave) (now : ℤ) : Option (Role D C) :=
  (code.unmarshalData (get data tcBase)).bind fun base =>
    if ∀ i, (newComp code data i).isSome then
      let created := code.createTime base.2 = 0
      some
        { id := data.roleID
          body :=
            { data := if created then code.setCreateTime base.2 now else base.2
              dirty := created
              comps := fun i => (newComp code data i).getD none }
          times := base.1
          nowSec := 0
          lastSaveRedis := zeroTime
          lastSaveDB := zeroTime
          lastMinute := zeroTime
          lastHeartbeat := zeroTime
          heartbeatTimeOut := 0
          cancelled := false }
    else none

theorem newRole_times {data : Saving.DataToSave} {now : ℤ} {r : Role D C}
    (h : newRole code data now = some r) :
    (code.unmarshalData (get data tcBase)).map (·.1) = some r.times := by
  unfold newRole at h
  cases hbase : code.unmarshalData (get data tcBase) with
  | none => simp [hbase] at h
  | some base =>
    rw [hbase, Option.bind_some] at h
    obtain ⟨_, h⟩ := Option.ite_none_right_eq_some.mp h
    cases h
    rfl

end NewRole

structure State (D C : Type) where
  role : Role D C
  /-- What each tick found due, and the times it left. -/
  log : List (Flags × Times)
  /-- The data posted and not written yet, each with its tick. -/
  pending : List (ℕ × SaveData)
  /-- The Redis hash. -/
  record : SaveData
  /-- The tick that saved a field of the hash. -/
  stamps : CompIndex → Option ℕ

inductive Act (D C : Type) where
  | tick (now : Time) (clock : Clock) (ops : List LogonEvent)
  /-- The handlers of the role. -/
  | handle (body : Body D C)
  | persist
  | drop

/-- The stamps after the data of a tick have been written. -/
def overlay (stamps : CompIndex → Option ℕ) (save : ℕ × SaveData) : CompIndex → Option ℕ :=
  fun i => if (save.2.lookup i).isSome then some save.1 else stamps i

section Machine

variable {D C : Type} (code : RoleCode D C) (conf : Conf) (hooks : CompIndex → Hooks D C)

/-- What a tick posts, if `SaveRole` accepted it. -/
def accepted : Option (Saving.DataToSave × Bool) → Option SaveData
  | some (data, true) => some data.data
  | _ => none

def State.tick (s : State D C) (now : Time) (clock : Clock) (ops : List LogonEvent) :
    State D C :=
  let t := s.role.onTick code.toCompCode conf hooks now clock ops
  { s with
    role := t.role
    log := s.log ++ [(s.role.times.flags (unix now), t.role.times)]
    pending := s.pending ++ ((accepted t.posted).map fun rd => (s.log.length, rd)).toList }

def State.step (s : State D C) : Act D C → Option (State D C)
  | .tick now clock ops => some (s.tick code conf hooks now clock ops)
  | .handle body => some { s with role := s.role.changed body }
  | .persist =>
    match s.pending with
    | [] => none
    | save :: rest =>
      some
        { s with
          pending := rest
          record := save.2 ∪ s.record
          stamps := overlay s.stamps save }
  | .drop =>
    match s.pending with
    | [] => none
    | _ :: rest => some { s with pending := rest }

/-- A role that `NewRole` made; the hash may hold anything. -/
def server : Machine (State D C) (Act D C) where
  init s := s.role.body.comps tcBase = none ∧ s.log = [] ∧ s.pending = [] ∧ s.stamps = fun _ => none
  step := State.step code conf hooks

/-- A tick that finds a boundary crossed leaves the role dirty for its save, and
no posted data are dropped. -/
def Marked (s : State D C) : Act D C → Prop
  | .tick now clock _ =>
    (s.role.times.flags (unix now)).reset = true ∨
      (s.role.times.flags (unix now)).dayChange = true →
    (s.role.beforeSave conf hooks now clock).body.dirty = true
  | .drop => False
  | _ => True

instance : (s : State D C) → (a : Act D C) → Decidable (Marked conf hooks s a)
  | _, .tick .. => inferInstanceAs (Decidable (_ ∨ _ → _))
  | _, .handle _ => inferInstanceAs (Decidable True)
  | _, .persist => inferInstanceAs (Decidable True)
  | _, .drop => inferInstanceAs (Decidable False)

end Machine

/-- The stamps once the given saves have been written. -/
def view (stamps : CompIndex → Option ℕ) (saves : List (ℕ × SaveData)) : CompIndex → Option ℕ :=
  saves.foldl overlay stamps

section Log

variable {log : List (Flags × Times)} {stamps : CompIndex → Option ℕ}
  {saves : List (ℕ × SaveData)}

/-- A tick that found a boundary crossed. -/
def Fired (log : List (Flags × Times)) (n : ℕ) : Prop :=
  ∃ e, log[n]? = some e ∧ (e.1.reset = true ∨ e.1.dayChange = true)

theorem Fired.lt {n : ℕ} (h : Fired log n) : n < log.length := by
  obtain ⟨e, he, _⟩ := h
  exact lt_length_of_some he

theorem fired_concat {e : Flags × Times} {n : ℕ} :
    Fired (log ++ [e]) n ↔
      Fired log n ∨ n = log.length ∧ (e.1.reset = true ∨ e.1.dayChange = true) := by
  unfold Fired
  rw [getElem?_concat]
  by_cases hn : n = log.length
  · simp [hn]
  · simp [hn]

/-- Whenever a component's field is as new as a tick that found a boundary
crossed, so is the field of `r.Data`. -/
def Level (log : List (Flags × Times)) (stamps : CompIndex → Option ℕ) : Prop :=
  ∀ i, i ≠ tcBase → ∀ p, stamps i = some p → ∀ n ≤ p, Fired log n →
    ∃ q, stamps tcBase = some q ∧ n ≤ q

theorem overlay_eq_some {save : ℕ × SaveData} {i : CompIndex} {p : ℕ}
    (h : overlay stamps save i = some p) :
    (save.2.lookup i).isSome ∧ p = save.1 ∨ save.2.lookup i = none ∧ stamps i = some p := by
  unfold overlay at h
  cases hi : save.2.lookup i with
  | none => exact Or.inr ⟨rfl, by simpa [hi] using h⟩
  | some str => exact Or.inl ⟨rfl, by simpa [hi] using h.symm⟩

theorem view_concat (stamps : CompIndex → Option ℕ) (saves : List (ℕ × SaveData))
    (save : ℕ × SaveData) : view stamps (saves ++ [save]) = overlay (view stamps saves) save := by
  simp [view]

theorem view_bounded {t : ℕ} (hstamps : ∀ i p, stamps i = some p → p < t)
    (hsaves : ∀ save ∈ saves, save.1 < t) {i : CompIndex} {p : ℕ}
    (h : view stamps saves i = some p) : p < t := by
  induction saves generalizing stamps with
  | nil => exact hstamps i p h
  | cons save rest ih =>
    refine ih ?_ (fun save' hsave' => hsaves save' (List.mem_cons_of_mem _ hsave')) h
    intro j q hq
    obtain ⟨_, rfl⟩ | ⟨_, hq⟩ := overlay_eq_some hq
    · exact hsaves save List.mem_cons_self
    · exact hstamps j q hq

/-- A further tick leaves what was said of the earlier ones. -/
theorem Level.concat (h : Level log stamps) (hbound : ∀ i p, stamps i = some p → p < log.length)
    (e : Flags × Times) : Level (log ++ [e]) stamps := by
  intro i hi p hp n hn hfired
  obtain hfired | ⟨rfl, _⟩ := fired_concat.mp hfired
  · exact h i hi p hp n hn hfired
  · exact absurd (hbound i p hp) (Nat.not_lt.mpr hn)

end Log

section Invariant

variable {D C : Type} (code : RoleCode D C) (conf : Conf) (hooks : CompIndex → Hooks D C)

/-- The text is that of `r.Data` with the times that a tick left. -/
def TimesOf (log : List (Flags × Times)) (q : ℕ) (str : String) : Prop :=
  ∃ e d, log[q]? = some e ∧ code.marshalData (e.2, d) = some str

structure Inv (s : State D C) : Prop where
  slot : s.role.body.comps tcBase = none
  stamped : ∀ i p, s.stamps i = some p → p < s.log.length
  posted : ∀ save ∈ s.pending, save.1 < s.log.length ∧
    ∀ str, save.2.lookup tcBase = some str → TimesOf code s.log save.1 str
  recorded : ∀ q, s.stamps tcBase = some q →
    ∃ str, s.record.lookup tcBase = some str ∧ TimesOf code s.log q str
  /-- Whatever has been written when the server crashes. -/
  level : ∀ saves, saves <+: s.pending → Level s.log (view s.stamps saves)
  /-- A role that is not dirty has posted the times of its last boundary. -/
  clean : s.role.body.dirty = false → ∀ n, Fired s.log n →
    ∃ q, view s.stamps s.pending tcBase = some q ∧ n ≤ q

variable {code conf hooks} {s t : State D C}

theorem TimesOf.concat {log : List (Flags × Times)} {q : ℕ} {str : String}
    (h : TimesOf code log q str) (e : Flags × Times) : TimesOf code (log ++ [e]) q str := by
  obtain ⟨e', d, he', hd⟩ := h
  refine ⟨e', d, ?_, hd⟩
  rw [getElem?_concat, if_neg (Nat.ne_of_lt (lt_length_of_some he'))]
  exact he'

theorem inv_init (h : (server code conf hooks).init s) : Inv code s := by
  obtain ⟨hslot, hlog, hpending, hstamps⟩ := h
  have hnone : ∀ i, s.stamps i = none := fun i => congrFun hstamps i
  refine ⟨hslot, ?_, ?_, ?_, ?_, ?_⟩
  · intro i p hp
    cases (hnone i).symm.trans hp
  · rw [hpending]
    intro save hsave
    cases hsave
  · intro q hq
    cases (hnone tcBase).symm.trans hq
  · rw [hpending]
    intro saves hsaves i _ p hp
    cases List.prefix_nil.mp hsaves
    cases (hnone i).symm.trans hp
  · rw [hlog]
    intro _ n hfired
    exact absurd hfired.lt (Nat.not_lt_zero n)

/-- A change of the role that does not clear its flag. -/
theorem Inv.withRole (h : Inv code s) {role : Role D C} (hslot : role.body.comps tcBase = none)
    (hdirty : role.body.dirty = false → s.role.body.dirty = false) :
    Inv code { s with role } :=
  ⟨hslot, h.stamped, h.posted, h.recorded, h.level, fun hclean => h.clean (hdirty hclean)⟩

theorem Inv.persist (h : Inv code s) {save : ℕ × SaveData} {rest : List (ℕ × SaveData)}
    (hpending : s.pending = save :: rest) :
    Inv code
      { s with
        pending := rest
        record := save.2 ∪ s.record
        stamps := overlay s.stamps save } := by
  have hsave := h.posted save (by rw [hpending]; exact List.mem_cons_self)
  refine ⟨h.slot, ?_, ?_, ?_, ?_, ?_⟩
  · intro i p hp
    obtain ⟨_, rfl⟩ | ⟨_, hp⟩ := overlay_eq_some hp
    · exact hsave.1
    · exact h.stamped i p hp
  · intro save' hsave'
    exact h.posted save' (by rw [hpending]; exact List.mem_cons_of_mem _ hsave')
  · intro q hq
    rw [Map.lookup_union_or]
    obtain ⟨hbase, rfl⟩ | ⟨hbase, hq⟩ := overlay_eq_some hq
    · obtain ⟨str, hstr⟩ := Option.isSome_iff_exists.mp hbase
      exact ⟨str, by rw [hstr, Option.some_or], hsave.2 str hstr⟩
    · rw [hbase, Option.none_or]
      exact h.recorded q hq
  · intro saves hsaves
    apply h.level (save :: saves)
    rw [hpending]
    exact (List.prefix_cons_inj save).mpr hsaves
  · intro hclean n hfired
    have hbase := h.clean hclean n hfired
    rw [hpending] at hbase
    exact hbase

/-- A further entry of the log. If the tick found a boundary crossed, the role is
dirty. -/
theorem Inv.logged (h : Inv code s) {e : Flags × Times}
    (hmarked : e.1.reset = true ∨ e.1.dayChange = true → s.role.body.dirty = true) :
    Inv code { s with log := s.log ++ [e] } := by
  have hlength : (s.log ++ [e]).length = s.log.length + 1 := by simp
  refine ⟨h.slot, ?_, ?_, ?_, ?_, ?_⟩
  · intro i p hp
    have hlt := h.stamped i p hp
    change p < (s.log ++ [e]).length
    omega
  · intro save hsave
    obtain ⟨hlt, hbase⟩ := h.posted save hsave
    refine ⟨?_, fun str hstr => (hbase str hstr).concat e⟩
    change save.1 < (s.log ++ [e]).length
    omega
  · intro q hq
    obtain ⟨str, hstr, htimes⟩ := h.recorded q hq
    exact ⟨str, hstr, htimes.concat e⟩
  · intro saves hsaves
    apply (h.level saves hsaves).concat
    intro i p hp
    exact view_bounded h.stamped (fun save hsave => (h.posted save (hsaves.subset hsave)).1) hp
  · intro hclean n hfired
    obtain hfired | ⟨_, hcrossed⟩ := fired_concat.mp hfired
    · exact h.clean hclean n hfired
    · have hdirty := hmarked hcrossed
      rw [hclean] at hdirty
      cases hdirty

/-- The data of the last tick are posted, with `r.Data` if the role is dirty. -/
theorem Inv.post (h : Inv code s) {p : ℕ} (hlog : s.log.length = p + 1) {rd : SaveData}
    (hbase : s.role.body.dirty = true → ∃ str, rd.lookup tcBase = some str)
    (htimes : ∀ str, rd.lookup tcBase = some str → TimesOf code s.log p str)
    {role : Role D C} (hslot : role.body.comps tcBase = none) :
    Inv code { s with role, pending := s.pending ++ [(p, rd)] } := by
  have hnew : ∀ n, Fired s.log n →
      ∃ q, view s.stamps (s.pending ++ [(p, rd)]) tcBase = some q ∧ n ≤ q := by
    intro n hfired
    rw [view_concat]
    unfold overlay
    cases hrd : rd.lookup tcBase with
    | some str =>
      have hlt := hfired.lt
      exact ⟨p, rfl, by omega⟩
    | none =>
      have hclean : s.role.body.dirty = false := by
        by_contra hdirty
        obtain ⟨str, hstr⟩ := hbase (by simpa using hdirty)
        cases hrd.symm.trans hstr
      exact h.clean hclean n hfired
  refine ⟨hslot, h.stamped, ?_, h.recorded, ?_, fun _ => hnew⟩
  · intro save hsave
    obtain hsave | hsave := List.mem_append.mp hsave
    · exact h.posted save hsave
    · cases List.mem_singleton.mp hsave
      refine ⟨?_, htimes⟩
      change p < s.log.length
      omega
  · intro saves hsaves
    obtain rfl | hsaves := List.prefix_concat_iff.mp hsaves
    · intro i _ q _ n _ hfired
      exact hnew n hfired
    · exact h.level saves hsaves

theorem accepted_eq_none {posted : Option (Saving.DataToSave × Bool)}
    (h : ∀ data, posted ≠ some (data, true)) : accepted posted = none := by
  unfold accepted
  split
  · rename_i data
    exact absurd rfl (h data)
  · rfl

theorem Inv.tick (h : Inv code s) {now : Time} {clock : Clock} {ops : List LogonEvent}
    (hmarked : Marked conf hooks s (.tick now clock ops)) :
    Inv code (s.tick code conf hooks now clock ops) := by
  obtain ⟨hclean, hslot⟩ := beforeSave_frame hooks conf s.role now clock
  have hslot := hslot tcBase h.slot
  have heff := onTick_effect hooks code.toCompCode conf s.role now clock ops
  have htimes : (s.role.onTick code.toCompCode conf hooks now clock ops).role.times =
      (s.role.beforeSave conf hooks now clock).times := onTick_times ..
  have hlogged : Inv code
      { s with
        role := s.role.beforeSave conf hooks now clock
        log := s.log ++ [(s.role.times.flags (unix now),
          (s.role.beforeSave conf hooks now clock).times)] } :=
    (h.withRole hslot hclean).logged hmarked
  unfold State.tick
  generalize s.role.onTick code.toCompCode conf hooks now clock ops = t at heff htimes
  obtain ⟨role, _, _, posted⟩ := t
  dsimp only at heff htimes ⊢
  rw [htimes]
  generalize hbody : role.body = body at heff
  cases heff with
  | kept hcall =>
    rw [accepted_eq_none hcall, Option.map_none, Option.toList_none, List.append_nil]
    refine hlogged.withRole ?_ ?_
    · rw [hbody]
      exact hslot
    · rw [hbody]
      exact id
  | posted hmarshal =>
    obtain ⟨hlookup, hsome⟩ := lookup_marshal_base code.toCode hslot hmarshal
    refine hlogged.post (by simp) ?_ ?_ ?_
    · intro hd
      obtain ⟨str, hstr⟩ := Option.isSome_iff_exists.mp (hsome hd)
      exact ⟨str, by rw [hlookup, hstr]; exact if_pos hd⟩
    · intro str hstr
      rw [hlookup] at hstr
      obtain ⟨_, hstr⟩ := Option.ite_none_right_eq_some.mp hstr
      refine ⟨(s.role.times.flags (unix now), (s.role.beforeSave conf hooks now clock).times),
        (s.role.beforeSave conf hooks now clock).body.data, ?_, hstr⟩
      rw [getElem?_concat, if_pos rfl]
    · rw [hbody]
      simp [clearAll, Role.record, hslot]

theorem inv_of_reachable (h : (server code conf hooks).Reachable (Marked conf hooks) s) :
    Inv code s := by
  refine h.invariant (P := Inv code) (fun _ => inv_init) ?_
  intro s a t _ hinv hok hstep
  cases a with
  | tick now clock ops =>
    cases hstep
    exact hinv.tick hok
  | handle body =>
    cases hstep
    have hchanged := s.role.changed_changed body
    exact hinv.withRole (hchanged.slot _ hinv.slot) hchanged.clean
  | persist =>
    simp only [server, State.step] at hstep
    split at hstep
    · cases hstep
    · rename_i save rest hpending
      cases hstep
      exact hinv.persist hpending
  | drop => exact hok.elim

end Invariant

/-- The three times, each with the hook that it holds back. -/
inductive Mark where
  | resetTime
  | dayChange
  | dataResetMonth
  deriving DecidableEq, Repr

def Mark.hook : Mark → HookName
  | .resetTime => .dataReset
  | .dayChange => .newDay
  | .dataResetMonth => .newMonth

def Mark.get : Mark → Times → ℤ
  | .resetTime => Times.resetTime
  | .dayChange => Times.dayChange
  | .dataResetMonth => Times.dataResetMonth

theorem Mark.get_next {m : Mark} {flags : Flags} (h : ¬flags.due m.hook = true) (offset : ℤ)
    (now : Time) (clock : Clock) (times : Times) :
    m.get (times.next offset now clock flags) = m.get times := by
  cases m <;> exact if_neg h

section Reload

variable {D C : Type} {code : RoleCode D C} {conf : Conf} {hooks : CompIndex → Hooks D C}
  {s : State D C}

/-- A time moves only at the ticks that find its hook due. -/
structure Chained (s : State D C) : Prop where
  last : ∀ e, s.log.getLast? = some e → e.2 = s.role.times
  still : ∀ k e e', s.log[k]? = some e → s.log[k + 1]? = some e' →
    ∀ m : Mark, ¬e'.1.due m.hook = true → m.get e'.2 = m.get e.2

theorem Chained.tick (h : Chained s) (now : Time) (clock : Clock) (ops : List LogonEvent) :
    Chained (s.tick code conf hooks now clock ops) := by
  have htimes := onTick_times hooks code.toCompCode conf s.role now clock ops
  constructor
  · intro e he
    have hlast : (s.tick code conf hooks now clock ops).log.getLast? = some
        (s.role.times.flags (unix now), (s.tick code conf hooks now clock ops).role.times) :=
      List.getLast?_concat
    cases hlast.symm.trans he
    rfl
  · intro k e e' he he' m hdue
    simp only [State.tick, getElem?_concat] at he he'
    by_cases hk : k + 1 = s.log.length
    · have hlast : s.log.getLast? = some e := by
        rw [List.getLast?_eq_getElem?, ← hk, Nat.add_sub_cancel]
        rwa [if_neg (by omega)] at he
      rw [if_pos hk] at he'
      cases he'
      rw [h.last e hlast, htimes]
      exact Mark.get_next hdue _ _ _ _
    · rw [if_neg hk] at he'
      have hlt := lt_length_of_some he'
      rw [if_neg (by omega)] at he
      exact h.still k e e' he he' m hdue

theorem chained_of_reachable {ok : State D C → Act D C → Prop}
    (h : (server code conf hooks).Reachable ok s) : Chained s := by
  refine h.invariant (P := Chained) ?_ ?_
  · rintro s ⟨_, hlog, _, _⟩
    constructor
    · intro e he
      simp [hlog] at he
    · intro k e e' he
      simp [hlog] at he
  · intro s a t _ hinv _ hstep
    cases a with
    | tick now clock ops =>
      cases hstep
      exact hinv.tick now clock ops
    | handle body =>
      cases hstep
      exact ⟨hinv.last, hinv.still⟩
    | persist | drop =>
      simp only [server, State.step] at hstep
      split at hstep
      · cases hstep
      · cases hstep
        exact ⟨hinv.last, hinv.still⟩

/-- From a tick at which a hook was due, its time has been set by that tick or by
a later one at which it was due. -/
theorem Chained.set_by (h : Chained s) {m : Mark} {n q : ℕ} {e : Flags × Times}
    (he : s.log[n]? = some e) (hdue : e.1.due m.hook = true) (hnq : n ≤ q)
    {e' : Flags × Times} (he' : s.log[q]? = some e') :
    ∃ j ej, n ≤ j ∧ j ≤ q ∧ s.log[j]? = some ej ∧ ej.1.due m.hook = true ∧
      m.get e'.2 = m.get ej.2 := by
  induction q, hnq using Nat.le_induction generalizing e' with
  | base =>
    cases he.symm.trans he'
    exact ⟨n, e, le_refl n, le_refl n, he, hdue, rfl⟩
  | succ q hnq ih =>
    by_cases hnew : e'.1.due m.hook = true
    · exact ⟨q + 1, e', by omega, le_refl _, he', hnew, rfl⟩
    · have hlt := lt_length_of_some he'
      have hq : s.log[q]? = some s.log[q] := List.getElem?_eq_getElem (by omega)
      obtain ⟨j, ej, hnj, hjq, hej, hdj, hget⟩ := ih hq
      refine ⟨j, ej, hnj, by omega, hej, hdj, ?_⟩
      rw [h.still q _ e' hq he' m hnew, hget]

theorem Mark.fired {m : Mark} {log : List (Flags × Times)} {n : ℕ} {e : Flags × Times}
    (he : log[n]? = some e) (hdue : e.1.due m.hook = true) : Fired log n := by
  refine ⟨e, he, ?_⟩
  cases m with
  | resetTime => exact Or.inl hdue
  | dayChange => exact Or.inr hdue
  | dataResetMonth => exact Or.inl (Bool.and_eq_true_iff.mp hdue).1

/-- If the hash holds a component as a tick that ran a boundary's hooks left it,
or a later tick, then it holds the times that this tick set or a later one set
again, and the role made from the hash has those times. -/
theorem boundary_remembered (h : (server code conf hooks).Reachable (Marked conf hooks) s)
    {i : CompIndex} (hi : i ≠ tcBase) {p : ℕ} (hp : s.stamps i = some p) {n : ℕ} (hn : n ≤ p)
    {m : Mark} {e : Flags × Times} (he : s.log[n]? = some e) (hdue : e.1.due m.hook = true) :
    ∃ q e', n ≤ q ∧ s.log[q]? = some e' ∧
      (∃ j ej, n ≤ j ∧ j ≤ q ∧ s.log[j]? = some ej ∧ ej.1.due m.hook = true ∧
        m.get e'.2 = m.get ej.2) ∧
      (∃ str d, s.record.lookup tcBase = some str ∧ code.unmarshalData str = some (e'.2, d)) ∧
      ∀ roleID now r, newRole code ⟨roleID, s.record⟩ now = some r → r.times = e'.2 := by
  have hinv := inv_of_reachable h
  obtain ⟨q, hq, hnq⟩ :=
    hinv.level [] List.nil_prefix i hi p hp n hn (Mark.fired he hdue)
  obtain ⟨str, hstr, e', d, he', hmarshal⟩ := hinv.recorded q hq
  have hdecode := code.unmarshal_marshal hmarshal
  refine ⟨q, e', hnq, he', (chained_of_reachable h).set_by he hdue hnq he',
    ⟨str, d, hstr, hdecode⟩, ?_⟩
  intro roleID now r hr
  have htimes := newRole_times code hr
  have hget : get ⟨roleID, s.record⟩ tcBase = str := by
    simp [get, hstr]
  rw [hget, hdecode] at htimes
  exact (Option.some.inj htimes).symm

end Reload

/-- The times of a new role and those its first tick, at noon of 15 January,
leaves. -/
def newTimes : Times := ⟨0, 0, 0⟩

def noonTimes : Times := ⟨1324800, 1296000, 2707200⟩

/-- One component that notes whether it has been reset. Only the two times above
encode. -/
def countCode : RoleCode Unit (ℕ × Bool) where
  marshalData x :=
    if x.1 = newTimes then some "new" else if x.1 = noonTimes then some "noon" else none
  marshalComp v := some (if v.1 = 0 then "0" else "1")
  isDirty v := v.2
  hasOffline _ := false
  clearDirty v := (v.1, false)
  unmarshalData str :=
    if str = "new" then some (newTimes, ()) else if str = "noon" then some (noonTimes, ()) else none
  create i := if i = tcExample then some (0, false) else none
  unmarshalComp _ str := some (if str = "0" then 0 else 1, false)
  createTime _ := 1
  setCreateTime d _ := d
  unmarshal_marshal := by
    rintro ⟨times, d⟩ str h
    dsimp only at h
    split at h
    · rename_i hnew
      cases h
      simp [hnew]
    · split at h
      · rename_i hnoon
        cases h
        simp [hnoon]
      · cases h
  create_base := rfl

/-- The reset hook changes and marks its component, and the role if `mark`. -/
def countHooks (mark : Bool) (i : CompIndex) : Hooks Unit (ℕ × Bool) :=
  if i = tcExample then
    { onDataReset := some fun r =>
        { r.body with
          dirty := mark
          comps := fun j => (r.body.comps j).map fun v => (v.1 + 1, true) } }
  else {}

/-- A new role that was loaded from the hash it has. -/
def countStart : State Unit (ℕ × Bool) where
  role :=
    { id := 7, body := ⟨(), false, countCode.create⟩, times := newTimes, nowSec := 0
      lastSaveRedis := 0, lastSaveDB := 0, lastMinute := 0, lastHeartbeat := 0
      heartbeatTimeOut := 0, cancelled := false }
  log := []
  pending := []
  record := ((∅ : SaveData).insert tcBase "new").insert tcExample "0"
  stamps _ := none

def noon : Time := 1252800000000000

theorem countStart_init (mark : Bool) :
    (server countCode ⟨0, 300⟩ (countHooks mark)).init countStart := ⟨rfl, rfl, rfl, rfl⟩

theorem markedReset_remembered :
    ∃ s, (server countCode ⟨0, 300⟩ (countHooks true)).Reachable
        (Marked ⟨0, 300⟩ (countHooks true)) s ∧ s.stamps tcExample = some 0 ∧
      ∃ q e', 0 ≤ q ∧ s.log[q]? = some e' ∧
        (∃ j ej, 0 ≤ j ∧ j ≤ q ∧ s.log[j]? = some ej ∧ ej.1.due .dataReset = true ∧
          e'.2.resetTime = ej.2.resetTime) ∧
        (∃ str d, s.record.lookup tcBase = some str ∧
          countCode.unmarshalData str = some (e'.2, d)) ∧
        ∀ roleID now r, newRole countCode ⟨roleID, s.record⟩ now = some r → r.times = e'.2 := by
  obtain ⟨s, hr, hstamp, hdue⟩ := Machine.exec_reaches
    (m := server countCode ⟨0, 300⟩ (countHooks true)) (Marked ⟨0, 300⟩ (countHooks true))
    (fun s => s.stamps tcExample = some 0 ∧
      s.log[0]? = some (⟨true, true, true⟩, noonTimes))
    [Act.tick noon ⟨noon, noon⟩ [], .persist] (countStart_init true) (by decide +kernel)
  exact ⟨s, hr, hstamp,
    boundary_remembered hr (by decide) hstamp (le_refl 0) (m := .resetTime) hdue rfl⟩

/-- The hook marks its own component and not the role: the hash gets the reset
component with the old times, and the role made from it is due for the same reset. -/
theorem unmarkedReset_repeated :
    ∃ s, (server countCode ⟨0, 300⟩ (countHooks false)).Reachable Machine.anyStep s ∧
      s.stamps tcExample = some 0 ∧ s.log[0]? = some (⟨true, true, true⟩, noonTimes) ∧
      s.record.lookup tcExample = some "1" ∧ s.record.lookup tcBase = some "new" ∧
      ((newRole countCode ⟨7, s.record⟩ 0).map fun r => (r.times.flags (unix noon)).reset) =
        some true :=
  Machine.exec_reaches Machine.anyStep _ [.tick noon ⟨noon, noon⟩ [], .persist]
    (countStart_init false) (by decide +kernel)

end GameCluster.Crash
