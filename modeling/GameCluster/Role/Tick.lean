import GameCluster.Lib.Calendar
import GameCluster.Role.Saving

/-!
`Role.OnTick` of `role.go`, which `Registry.onTick` has every role run once in three
seconds. A tick runs the hooks of the components, moves the three times at which
hooks are next due, saves the role now and then and watches its heartbeat.

The hooks of a component are fixed by the type that `Create` puts into its slot,
and a nil slot has none. A hook may read the role and may change its data and its
components. The role's dirty flag is private, so that a hook can set it but not
clear it; no component assigns the three times, which are therefore kept apart
from the rest of `pb.RoleData`. The local time zone has a fixed offset.
`util.CurDayBegin` reads the clock anew, so the instants it reads are an input of
the tick beside the tick's own time.
-/

namespace GameCluster.Tick

open Lib Lib.Calendar Exit Saving

/-- `time.Time`, in nanoseconds since the Unix epoch. -/
abbrev Time := ℤ

/-- `Unix`, in whole seconds. -/
def unix (t : Time) : ℤ := t / 1000000000

/-- `Sub`, which keeps to the range of a `time.Duration`. -/
def sub (t u : Time) : ℤ := max (-9223372036854775808) (min 9223372036854775807 (t - u))

/-- The fields of `pb.RoleData` that say when a hook is due. -/
structure Times where
  resetTime : ℤ
  dayChange : ℤ
  dataResetMonth : ℤ
  deriving DecidableEq, Repr

structure Role (D C : Type) where
  id : RoleID
  body : Body D C
  times : Times
  nowSec : ℤ
  lastSaveRedis : Time
  lastSaveDB : Time
  lastMinute : Time
  lastHeartbeat : Time
  heartbeatTimeOut : ℤ
  /-- `Cancel` has been called. -/
  cancelled : Bool

/-- The hooks that a component's type has. -/
structure Hooks (D C : Type) where
  onTick : Option (Time → Role D C → Body D C) := none
  onMinute : Option (Time → Role D C → Body D C) := none
  onNewDay : Option (Role D C → Body D C) := none
  onDataReset : Option (Role D C → Body D C) := none
  onNewMonth : Option (Role D C → Body D C) := none

inductive HookName where
  | tick
  | minute
  | newDay
  | dataReset
  | newMonth
  deriving DecidableEq, Repr

/-- What a tick finds to be due. -/
structure Flags where
  reset : Bool
  monthChange : Bool
  dayChange : Bool
  deriving DecidableEq, Repr

/-- The readings of `util.CurDayBegin`, one for each of its two calls. -/
structure Clock where
  reset : Time
  day : Time

/-- The local zone and the field of the configuration that a tick uses. -/
structure Conf where
  offset : ℤ
  autoSave : Int64

def Times.flags (times : Times) (nowSec : ℤ) : Flags where
  reset := nowSec > times.resetTime
  monthChange := nowSec > times.resetTime && nowSec ≥ times.dataResetMonth
  dayChange := nowSec > times.dayChange

section Loop

variable {D C : Type}

/-- A role and the hooks called so far. -/
abbrev Calls (D C : Type) := Role D C × List (CompIndex × HookName)

/-- The role after code outside its package has turned its data and components
into `b`. -/
def Role.changed (r : Role D C) (b : Body D C) : Role D C :=
  { r with
    body :=
      { data := b.data
        dirty := r.body.dirty || b.dirty
        comps := fun i => if (r.body.comps i).isSome then b.comps i else none } }

/-- Calls a hook, if the component has it. -/
def call (i : CompIndex) (name : HookName) (hook : Option (Role D C → Body D C))
    (st : Calls D C) : Calls D C :=
  match hook with
  | none => st
  | some f => (st.1.changed (f st.1), st.2 ++ [(i, name)])

/-- `MinuteLoop`. -/
def minuteLoop (hooks : CompIndex → Hooks D C) (now : Time) (st : Calls D C) : Calls D C :=
  (List.finRange tcMax).foldl
    (fun st i => call i .minute ((hooks i).onMinute.map (· now)) st) st

/-- One round of the loop over the components. -/
def onTickComp (hooks : CompIndex → Hooks D C) (now : Time) (flags : Flags) (st : Calls D C)
    (i : CompIndex) : Calls D C :=
  let st := call i .tick ((hooks i).onTick.map (· now)) st
  let st := if flags.dayChange then call i .newDay (hooks i).onNewDay st else st
  if flags.reset then
    let st := call i .dataReset (hooks i).onDataReset st
    if flags.monthChange then call i .newMonth (hooks i).onNewMonth st else st
  else st

/-- `OnTick` up to the end of the loop over the components. -/
def runHooks (hooks : CompIndex → Hooks D C) (now : Time) (flags : Flags) (r : Role D C) :
    Calls D C :=
  let st : Calls D C := ({ r with nowSec := unix now }, [])
  let st :=
    if sub now r.lastMinute > 60000000000 then
      minuteLoop hooks now ({ st.1 with lastMinute := now }, st.2)
    else st
  (List.finRange tcMax).foldl (onTickComp hooks now flags) st

end Loop

def resetHour : ℤ := 8

/-- `util.CurDayBegin`, in seconds, when the clock shows `t`. -/
def curDayBegin (offset : ℤ) (t : Time) : ℤ :=
  date offset (year offset (unix t)) (month offset (unix t)) (monthDay offset (unix t)) 0

/-- The times of the next reset, the next month and the next day. -/
def Times.next (offset : ℤ) (now : Time) (clock : Clock) (flags : Flags) (times : Times) :
    Times where
  resetTime :=
    if flags.reset then
      if hourOf offset (unix now) ≥ resetHour then
        curDayBegin offset clock.reset + (resetHour + 24) * 3600
      else curDayBegin offset clock.reset + resetHour * 3600
    else times.resetTime
  dayChange :=
    if flags.dayChange then curDayBegin offset clock.day + 24 * 3600 else times.dayChange
  dataResetMonth :=
    if flags.reset && flags.monthChange then
      addDate offset
        (date offset (year offset (unix now)) (month offset (unix now)) 1 resetHour) 0 1 0
    else times.dataResetMonth

/-- What a tick leaves: the role, the channel of the logon service, the hooks it
called and its call of `SaveRole`. -/
structure Ticked (D C : Type) where
  role : Role D C
  ops : List LogonEvent
  calls : List (CompIndex × HookName)
  posted : Option (Saving.DataToSave × Bool)

section OnTick

variable {D C : Type} (code : CompCode (Times × D) C)

/-- The part of a role that `marshal` reads. -/
def Role.record (r : Role D C) : Body (Times × D) C where
  data := (r.times, r.body.data)
  dirty := r.body.dirty
  comps := r.body.comps

/-- `r.save(both)`. -/
def Role.save (r : Role D C) (ops : List LogonEvent) (both : Bool)
    (calls : List (CompIndex × HookName)) : Ticked D C :=
  let saved := Saving.save code r.id r.record ops both
  ⟨{ r with body := ⟨r.body.data, saved.role.dirty, saved.role.comps⟩ }, saved.ops, calls,
    saved.call⟩

/-- The automatic save. The second period is ten times the first, in 64 bits. The source
compares seconds, as `float64`; the nanoseconds are compared here. -/
def Role.autoSave (conf : Conf) (r : Role D C) (now : Time) (ops : List LogonEvent)
    (calls : List (CompIndex × HookName)) : Ticked D C :=
  if sub now r.lastSaveRedis > conf.autoSave.toInt * 1000000000 then
    let both := sub now r.lastSaveDB > (conf.autoSave * 10).toInt * 1000000000
    let t := r.save code ops both calls
    { t with
      role := { t.role with
        lastSaveDB := if both then now else t.role.lastSaveDB
        lastSaveRedis := now } }
  else ⟨r, ops, calls, none⟩

/-- The end of `OnTick`: three ticks without a heartbeat cancel the role. -/
def Role.heartbeat (r : Role D C) (now : Time) : Role D C :=
  if sub now r.lastHeartbeat > 30000000000 then
    { r with
      heartbeatTimeOut := r.heartbeatTimeOut + 1
      cancelled := r.cancelled || r.heartbeatTimeOut + 1 > 2 }
  else r

def Role.onTick (conf : Conf) (hooks : CompIndex → Hooks D C) (r : Role D C) (now : Time)
    (clock : Clock) (ops : List LogonEvent) : Ticked D C :=
  let flags := r.times.flags (unix now)
  let st := runHooks hooks now flags r
  let r := { st.1 with times := r.times.next conf.offset now clock flags }
  let t := r.autoSave code conf now ops st.2
  { t with role := t.role.heartbeat now }

end OnTick

section Frame

variable {D C : Type} (hooks : CompIndex → Hooks D C)

/-- What hooks and handlers may do to a role. -/
structure Changed (r r' : Role D C) : Prop where
  same : ∃ b, r' = { r with body := b }
  clean : r'.body.dirty = false → r.body.dirty = false
  slot : ∀ i, r.body.comps i = none → r'.body.comps i = none

theorem Changed.refl (r : Role D C) : Changed r r := ⟨⟨r.body, rfl⟩, id, fun _ => id⟩

theorem Changed.trans {r r' r'' : Role D C} (h : Changed r r') (h' : Changed r' r'') :
    Changed r r'' := by
  refine ⟨?_, fun hd => h.clean (h'.clean hd), fun i hi => h'.slot i (h.slot i hi)⟩
  obtain ⟨b, rfl⟩ := h.same
  obtain ⟨b', rfl⟩ := h'.same
  exact ⟨b', rfl⟩

theorem Role.changed_changed (r : Role D C) (b : Body D C) : Changed r (r.changed b) := by
  refine ⟨⟨_, rfl⟩, ?_, ?_⟩
  · intro hd
    exact (Bool.or_eq_false_iff.mp hd).1
  · intro i hi
    simp [Role.changed, hi]

theorem call_frame (i : CompIndex) (name : HookName) (hook : Option (Role D C → Body D C))
    (st : Calls D C) : Changed st.1 (call i name hook st).1 := by
  cases hook with
  | none => exact .refl _
  | some f => exact Role.changed_changed _ _

theorem onTickComp_frame (now : Time) (flags : Flags) (st : Calls D C) (i : CompIndex) :
    Changed st.1 (onTickComp hooks now flags st i).1 := by
  unfold onTickComp
  have htick := call_frame i .tick ((hooks i).onTick.map (· now)) st
  have hday := htick.trans (call_frame i .newDay (hooks i).onNewDay _)
  cases flags.dayChange <;> cases flags.reset <;> cases flags.monthChange
  all_goals simp only [Bool.false_eq_true, if_true, if_false]
  · exact htick
  · exact htick
  · exact htick.trans (call_frame ..)
  · exact (htick.trans (call_frame ..)).trans (call_frame ..)
  · exact hday
  · exact hday
  · exact hday.trans (call_frame ..)
  · exact (hday.trans (call_frame ..)).trans (call_frame ..)

/-- A loop over components whose rounds do what hooks may do. -/
theorem foldl_frame {round : Calls D C → CompIndex → Calls D C}
    (hround : ∀ st i, Changed st.1 (round st i).1) (is : List CompIndex) (st : Calls D C) :
    Changed st.1 (is.foldl round st).1 := by
  induction is generalizing st with
  | nil => exact .refl _
  | cons i rest ih => exact (hround st i).trans (ih _)

theorem minuteLoop_frame (now : Time) (st : Calls D C) :
    Changed st.1 (minuteLoop hooks now st).1 := by
  apply foldl_frame
  intro st i
  exact call_frame ..

theorem runHooks_frame (now : Time) (flags : Flags) (r : Role D C) :
    ∃ minute, Changed { r with nowSec := unix now, lastMinute := minute }
      (runHooks hooks now flags r).1 := by
  unfold runHooks
  dsimp only
  split
  · refine ⟨now, ?_⟩
    exact (minuteLoop_frame hooks now ({ r with nowSec := unix now, lastMinute := now }, [])).trans
      (foldl_frame (onTickComp_frame hooks now flags) (List.finRange tcMax) _)
  · refine ⟨r.lastMinute, ?_⟩
    exact foldl_frame (onTickComp_frame hooks now flags) (List.finRange tcMax)
      ({ r with nowSec := unix now }, [])

variable (code : CompCode (Times × D) C)

theorem autoSave_times (conf : Conf) (r : Role D C) (now : Time) (ops : List LogonEvent)
    (calls : List (CompIndex × HookName)) :
    (r.autoSave code conf now ops calls).role.times = r.times ∧
      (r.autoSave code conf now ops calls).calls = calls := by
  unfold Role.autoSave
  split <;> exact ⟨rfl, rfl⟩

theorem heartbeat_frame (r : Role D C) (now : Time) :
    (r.heartbeat now).times = r.times ∧ (r.heartbeat now).body = r.body := by
  unfold Role.heartbeat
  split <;> exact ⟨rfl, rfl⟩

/-- A tick moves the times that were due when it began. -/
theorem onTick_times (conf : Conf) (r : Role D C) (now : Time) (clock : Clock)
    (ops : List LogonEvent) :
    (r.onTick code conf hooks now clock ops).role.times =
      r.times.next conf.offset now clock (r.times.flags (unix now)) := by
  simp only [Role.onTick, (heartbeat_frame _ _).1, (autoSave_times _ _ _ _ _ _).1]

/-- The role that the automatic save of a tick finds. -/
def Role.beforeSave (conf : Conf) (hooks : CompIndex → Hooks D C) (r : Role D C) (now : Time)
    (clock : Clock) : Role D C :=
  { (runHooks hooks now (r.times.flags (unix now)) r).1 with
    times := r.times.next conf.offset now clock (r.times.flags (unix now)) }

/-- Until the save a tick does what hooks may do. -/
theorem beforeSave_frame (conf : Conf) (r : Role D C) (now : Time) (clock : Clock) :
    ((r.beforeSave conf hooks now clock).body.dirty = false → r.body.dirty = false) ∧
      ∀ i, r.body.comps i = none → (r.beforeSave conf hooks now clock).body.comps i = none := by
  obtain ⟨minute, h⟩ := runHooks_frame hooks now (r.times.flags (unix now)) r
  exact ⟨h.clean, h.slot⟩

/-- Everything a tick's automatic save can do: it leaves the flags alone unless
what `marshal` returned has been posted. -/
inductive SaveEffect (r : Role D C) : Body D C → Option (Saving.DataToSave × Bool) → Prop
  | kept {call : Option (Saving.DataToSave × Bool)}
      (hcall : ∀ data, call ≠ some (data, true)) : SaveEffect r r.body call
  | posted {rd : SaveData} (h : r.record.marshal code.toCode false = some rd) :
      SaveEffect r ⟨r.body.data, false, (clearAll code r.record).comps⟩ (some (⟨r.id, rd⟩, true))

theorem save_saveEffect (r : Role D C) (ops : List LogonEvent) (both : Bool)
    (calls : List (CompIndex × HookName)) :
    SaveEffect code r (r.save code ops both calls).role.body
      (r.save code ops both calls).posted := by
  simp only [Role.save]
  by_cases hposts : Posts code r.record ops
  · obtain ⟨rd, hrd, hsave⟩ := save_of_posts code hposts r.id both
    rw [hsave]
    exact .posted hrd
  · obtain ⟨hrole, hcall⟩ := save_of_not_posts code hposts r.id both
    rw [hrole]
    exact .kept hcall

theorem autoSave_effect (conf : Conf) (r : Role D C) (now : Time) (ops : List LogonEvent)
    (calls : List (CompIndex × HookName)) :
    SaveEffect code r (r.autoSave code conf now ops calls).role.body
      (r.autoSave code conf now ops calls).posted := by
  unfold Role.autoSave
  split
  · exact save_saveEffect code r ops _ calls
  · exact .kept (by rintro data ⟨⟩)

theorem onTick_effect (conf : Conf) (r : Role D C) (now : Time) (clock : Clock)
    (ops : List LogonEvent) :
    SaveEffect code (r.beforeSave conf hooks now clock)
      (r.onTick code conf hooks now clock ops).role.body
      (r.onTick code conf hooks now clock ops).posted := by
  simp only [Role.onTick, (heartbeat_frame _ _).2]
  exact autoSave_effect ..

end Frame

section Trace

variable {D C : Type} (hooks : CompIndex → Hooks D C)

/-- The component has the hook. -/
def Hooks.has (h : Hooks D C) : HookName → Bool
  | .tick => h.onTick.isSome
  | .minute => h.onMinute.isSome
  | .newDay => h.onNewDay.isSome
  | .dataReset => h.onDataReset.isSome
  | .newMonth => h.onNewMonth.isSome

/-- The hook is to be called in the loop over the components. -/
def Flags.due (flags : Flags) : HookName → Bool
  | .tick => true
  | .minute => false
  | .newDay => flags.dayChange
  | .dataReset => flags.reset
  | .newMonth => flags.reset && flags.monthChange

/-- The calls of one round of the loop. -/
def compCalls (flags : Flags) (i : CompIndex) : List (CompIndex × HookName) :=
  [HookName.tick, .newDay, .dataReset, .newMonth].flatMap fun name =>
    if flags.due name && (hooks i).has name then [(i, name)] else []

theorem call_calls (i : CompIndex) (name : HookName) (hook : Option (Role D C → Body D C))
    (st : Calls D C) :
    (call i name hook st).2 = st.2 ++ if hook.isSome then [(i, name)] else [] := by
  cases hook <;> simp [call]

theorem onTickComp_calls (now : Time) (flags : Flags) (st : Calls D C) (i : CompIndex) :
    (onTickComp hooks now flags st i).2 = st.2 ++ compCalls hooks flags i := by
  unfold onTickComp compCalls
  obtain ⟨reset, monthChange, dayChange⟩ := flags
  cases dayChange <;> cases reset <;> cases monthChange
  all_goals simp [call_calls, Flags.due, Hooks.has]

/-- The calls of a loop are those of its rounds. -/
theorem foldl_calls {round : Calls D C → CompIndex → Calls D C}
    {called : CompIndex → List (CompIndex × HookName)}
    (hround : ∀ st i, (round st i).2 = st.2 ++ called i) (is : List CompIndex)
    (st : Calls D C) : (is.foldl round st).2 = st.2 ++ is.flatMap called := by
  induction is generalizing st with
  | nil => simp
  | cons i rest ih => rw [List.foldl_cons, ih, hround, List.flatMap_cons, List.append_assoc]

theorem minuteLoop_calls (now : Time) (st : Calls D C) :
    (minuteLoop hooks now st).2 = st.2 ++ (List.finRange tcMax).flatMap fun i =>
      if (hooks i).onMinute.isSome then [(i, HookName.minute)] else [] := by
  apply foldl_calls
  intro st i
  rw [call_calls, Option.isSome_map]

/-- In a loop whose rounds call their own component only, the calls on a
component are those of its round. -/
theorem count_flatMap_own {called : CompIndex → List (CompIndex × HookName)}
    (hown : ∀ i, ∀ c ∈ called i, c.1 = i) (is : List CompIndex) (hnodup : is.Nodup)
    (i : CompIndex) (name : HookName) :
    (is.flatMap called).count (i, name) =
      if i ∈ is then (called i).count (i, name) else 0 := by
  induction is with
  | nil => rfl
  | cons j rest ih =>
    obtain ⟨hj, hrest⟩ := List.nodup_cons.mp hnodup
    rw [List.flatMap_cons, List.count_append, ih hrest]
    by_cases hij : i = j
    · subst hij
      simp [hj]
    · have hzero : (called j).count (i, name) = 0 :=
        List.count_eq_zero_of_not_mem fun hmem => hij (hown j _ hmem)
      simp [hzero, hij]

theorem count_compCalls (flags : Flags) (i : CompIndex) (name : HookName) :
    (compCalls hooks flags i).count (i, name) =
      if flags.due name && (hooks i).has name then 1 else 0 := by
  have hone : ∀ name', (if flags.due name' && (hooks i).has name' then [(i, name')] else []).count
      (i, name) = if name' = name ∧ (flags.due name && (hooks i).has name) then 1 else 0 := by
    intro name'
    by_cases heq : name' = name
    · subst heq
      split <;> simp [*]
    · split <;> simp [heq]
  simp only [compCalls, List.flatMap_cons, List.flatMap_nil, List.count_append, hone,
    List.count_nil]
  cases name <;> simp [Flags.due]

/-- A hook other than `OnMinute` is called once on every component that has it if
it is due, and not at all otherwise. -/
theorem count_onTick (code : CompCode (Times × D) C) (conf : Conf) (r : Role D C) (now : Time)
    (clock : Clock) (ops : List LogonEvent) (i : CompIndex) {name : HookName}
    (hname : name ≠ .minute) :
    (r.onTick code conf hooks now clock ops).calls.count (i, name) =
      if (r.times.flags (unix now)).due name && (hooks i).has name then 1 else 0 := by
  have hown : ∀ j, ∀ c ∈ compCalls hooks (r.times.flags (unix now)) j, c.1 = j := by
    intro j c hc
    obtain ⟨_, _, hc⟩ := List.mem_flatMap.mp hc
    split at hc
    · rw [List.mem_singleton.mp hc]
    · cases hc
  have hloop := count_flatMap_own hown _ (List.nodup_finRange tcMax) i name
  rw [if_pos (List.mem_finRange i), count_compCalls] at hloop
  simp only [Role.onTick, (autoSave_times _ _ _ _ _ _).2, runHooks]
  rw [foldl_calls (onTickComp_calls hooks now _), List.count_append, hloop, Nat.add_eq_right]
  split
  · rw [minuteLoop_calls]
    apply List.count_eq_zero_of_not_mem
    intro hmem
    obtain ⟨j, _, hj⟩ := List.mem_flatMap.mp hmem
    split at hj
    · cases List.mem_singleton.mp hj
      exact hname rfl
    · cases hj
  · rfl

end Trace

end GameCluster.Tick
