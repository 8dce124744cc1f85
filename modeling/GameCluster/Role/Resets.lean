import GameCluster.Lib.Deadline
import GameCluster.Role.Tick

/-!
When the daily and the monthly hooks run over the life of a role. A run is a
sequence of ticks; between two of them the role's handlers may change its data
and its components in any way.

The three times of a role are deadlines in the sense of the library, with the
08:00 instants, the midnights and the 08:00 instants of the first days of the
months as their boundaries. The two daily ones are renewed to the next boundary
as long as `util.CurDayBegin` reads the day of the tick, the monthly one as long
as `OnNewMonth` does not run on the first day of a month before 08:00.
-/

namespace GameCluster.Tick

open Lib Lib.Calendar Exit Saving

/-- What a tick finds, and what the handlers leave for the next. -/
structure TickIn (D C : Type) where
  now : Time
  clock : Clock
  ops : List LogonEvent
  after : Body D C

structure Run (D C : Type) where
  conf : Conf
  code : CompCode (Times × D) C
  hooks : CompIndex → Hooks D C
  start : Role D C
  ins : ℕ → TickIn D C

namespace Run

variable {D C : Type} (run : Run D C)

def tick (r : Role D C) (input : TickIn D C) : Ticked D C :=
  r.onTick run.code run.conf run.hooks input.now input.clock input.ops

/-- The role that tick `k` finds. -/
def roleAt : ℕ → Role D C
  | 0 => run.start
  | k + 1 => (run.tick (roleAt k) (run.ins k)).role.changed (run.ins k).after

def tickAt (k : ℕ) : Ticked D C := run.tick (run.roleAt k) (run.ins k)

/-- The second of a tick. -/
def time (k : ℕ) : ℤ := unix (run.ins k).now

/-- The hook is due at a tick. -/
def Due (name : HookName) (k : ℕ) : Prop :=
  ((run.roleAt k).times.flags (run.time k)).due name = true

instance (name : HookName) (k : ℕ) : Decidable (run.Due name k) :=
  inferInstanceAs (Decidable (_ = _))

/-- A tick calls the hook once on every component that has it. -/
def Runs (name : HookName) (k : ℕ) : Prop :=
  ∀ i, (run.tickAt k).calls.count (i, name) = if (run.hooks i).has name then 1 else 0

/-- A tick does not call the hook. -/
def Silent (name : HookName) (k : ℕ) : Prop := ∀ i, (run.tickAt k).calls.count (i, name) = 0

theorem times_succ (k : ℕ) :
    (run.roleAt (k + 1)).times =
      (run.roleAt k).times.next run.conf.offset (run.ins k).now (run.ins k).clock
        ((run.roleAt k).times.flags (run.time k)) :=
  onTick_times run.hooks run.code run.conf (run.roleAt k) _ _ _

theorem runs_of_due {name : HookName} (hname : name ≠ .minute) {k : ℕ} (h : run.Due name k) :
    run.Runs name k := by
  intro i
  rw [tickAt, tick, count_onTick _ _ _ _ _ _ _ _ hname, ← time]
  rw [Due] at h
  simp [h]

theorem silent_of_not_due {name : HookName} (hname : name ≠ .minute) {k : ℕ}
    (h : ¬run.Due name k) : run.Silent name k := by
  intro i
  rw [tickAt, tick, count_onTick _ _ _ _ _ _ _ _ hname, ← time]
  rw [Due] at h
  simp [h]

theorem time_monotone (hmono : Monotone fun k => (run.ins k).now) : Monotone run.time := by
  intro k l hkl
  exact Int.ediv_le_ediv (by decide) (hmono hkl)

/-- The hook runs once for each boundary, at the first tick whose second exceeds
it, and once for several that were passed together. -/
structure OncePerBoundary (S : Set ℤ) (name : HookName) (deadline : Times → ℤ) : Prop where
  next : ∀ k, run.Due name k →
    NextBoundary S (run.time k) (deadline (run.roleAt (k + 1)).times)
  runs : ∀ k, (deadline run.start.times ∈ S ∨ ∃ j < k, run.Due name j) →
    (∃ b ∈ S, b < run.time k ∧ (∀ l < k, run.time l ≤ b) ∧
      Alarm.Pending run.time (fun l => deadline (run.roleAt l).times) (run.Due name) k b) →
    run.Runs name k
  silent : ∀ k, (deadline run.start.times ∈ S ∨ ∃ j < k, run.Due name j) →
    (¬∃ b ∈ S, b < run.time k ∧ (∀ l < k, run.time l ≤ b) ∧
      Alarm.Pending run.time (fun l => deadline (run.roleAt l).times) (run.Due name) k b) →
    run.Silent name k

theorem OncePerBoundary.of_alarm {S : Set ℤ} {name : HookName} {deadline : Times → ℤ}
    (hname : name ≠ .minute) (hmono : Monotone fun k => (run.ins k).now)
    (halarm : Alarm S run.time (fun k => deadline (run.roleAt k).times) (run.Due name))
    (hdue : ∀ k, run.Due name k ↔ deadline (run.roleAt k).times < run.time k) :
    run.OncePerBoundary S name deadline where
  next := halarm.renew
  runs k hstart hfirst := by
    apply run.runs_of_due hname
    exact (halarm.fires_iff_first (run.time_monotone hmono) hdue hstart).mpr hfirst
  silent k hstart hnone := by
    apply run.silent_of_not_due hname
    intro hk
    exact hnone ((halarm.fires_iff_first (run.time_monotone hmono) hdue hstart).mp hk)

end Run

theorem curDayBegin_eq (offset : ℤ) (t : Time) :
    curDayBegin offset t = instant offset (dayOf offset (unix t)) 0 := by
  have hmonth : 12 * year offset (unix t) + (month offset (unix t) - 1) =
      monthOf (dayOf offset (unix t)) := by
    unfold year month
    omega
  rw [curDayBegin, date, hmonth]
  unfold monthDay
  congr 1
  omega

/-- `util.CurDayBegin` reads the day of the tick. -/
def Clock.SameDay (offset : ℤ) (now : Time) (clock : Clock) : Prop :=
  dayOf offset (unix clock.reset) = dayOf offset (unix now) ∧
    dayOf offset (unix clock.day) = dayOf offset (unix now)

section Renew

variable {offset : ℤ} {now : Time} {clock : Clock} {times : Times} {flags : Flags}

theorem instant_add (offset d h : ℤ) : instant offset d 0 + h * 3600 = instant offset d h := by
  unfold instant
  omega

theorem Times.next_resetTime (hday : clock.SameDay offset now) (hreset : flags.reset = true) :
    NextBoundary (daily offset resetHour) (unix now)
      (times.next offset now clock flags).resetTime := by
  have h := daily_next offset (unix now) (h := resetHour) (by decide) (by decide)
  simp only [Times.next, hreset, if_true, curDayBegin_eq, hday.1, instant_add]
  exact h

theorem Times.next_dayChange (hday : clock.SameDay offset now) (hchange : flags.dayChange = true) :
    NextBoundary (daily offset 0) (unix now) (times.next offset now clock flags).dayChange := by
  have hhour : 0 ≤ hourOf offset (unix now) := by
    unfold hourOf
    omega
  have h := daily_next offset (unix now) (h := 0) (le_refl 0) (by decide)
  rw [if_pos hhour, Int.zero_add] at h
  simp only [Times.next, hchange, if_true, curDayBegin_eq, hday.2, instant_add]
  exact h

/-- `OnNewMonth` is due, and not on the first day of a month before 08:00. -/
theorem Times.next_dataResetMonth (hreset : flags.reset = true) (hmonth : flags.monthChange = true)
    (hfirst : ¬(monthDay offset (unix now) = 1 ∧ hourOf offset (unix now) < resetHour)) :
    NextBoundary (monthly offset resetHour) (unix now)
      (times.next offset now clock flags).dataResetMonth := by
  have hpast : instant offset (monthStart (monthOf (dayOf offset (unix now)))) resetHour ≤
      unix now := by
    have hstart := (monthOf_spec (dayOf offset (unix now))).1
    unfold monthDay hourOf at hfirst
    unfold instant
    have hday : dayOf offset (unix now) = (unix now + offset) / 86400 := rfl
    have hhour : resetHour = 8 := rfl
    omega
  simp only [Times.next, hreset, hmonth, Bool.and_self, if_true, date_first]
  rw [addDate_month offset _ (h := resetHour) (by decide) (by decide)]
  exact monthly_next offset (unix now) resetHour hpast (by decide)

end Renew

namespace Run

variable {D C : Type} (run : Run D C)

theorem due_dataReset (k : ℕ) :
    run.Due .dataReset k ↔ (run.roleAt k).times.resetTime < run.time k := by
  simp [Due, Flags.due, Times.flags]

theorem due_newDay (k : ℕ) : run.Due .newDay k ↔ (run.roleAt k).times.dayChange < run.time k := by
  simp [Due, Flags.due, Times.flags]

theorem due_newMonth (k : ℕ) :
    run.Due .newMonth k ↔
      run.Due .dataReset k ∧ (run.roleAt k).times.dataResetMonth ≤ run.time k := by
  simp [Due, Flags.due, Times.flags]

theorem alarm_resetTime (hday : ∀ k, (run.ins k).clock.SameDay run.conf.offset (run.ins k).now) :
    Alarm (daily run.conf.offset resetHour) run.time (fun k => (run.roleAt k).times.resetTime)
      (run.Due .dataReset) where
  renew k hk := by
    rw [times_succ]
    exact Times.next_resetTime (hday k) hk
  keep k hk := by
    rw [times_succ]
    exact if_neg hk

theorem alarm_dayChange (hday : ∀ k, (run.ins k).clock.SameDay run.conf.offset (run.ins k).now) :
    Alarm (daily run.conf.offset 0) run.time (fun k => (run.roleAt k).times.dayChange)
      (run.Due .newDay) where
  renew k hk := by
    rw [times_succ]
    exact Times.next_dayChange (hday k) hk
  keep k hk := by
    rw [times_succ]
    exact if_neg hk

theorem alarm_dataResetMonth
    (hfirst : ∀ k, run.Due .newMonth k → ¬(monthDay run.conf.offset (run.time k) = 1 ∧
      hourOf run.conf.offset (run.time k) < resetHour)) :
    Alarm (monthly run.conf.offset resetHour) run.time
      (fun k => (run.roleAt k).times.dataResetMonth) (run.Due .newMonth) where
  renew k hk := by
    rw [times_succ]
    obtain ⟨hreset, hmonth⟩ := Bool.and_eq_true_iff.mp hk
    exact Times.next_dataResetMonth hreset hmonth (hfirst k hk)
  keep k hk := by
    rw [times_succ]
    exact if_neg hk

/-- A body with the component of slot `tcExample` and no other. -/
def oneComp : Body Unit Unit := ⟨(), false, fun i => if i = tcExample then some () else none⟩

/-- A new role whose one component has every daily and monthly hook. It ticks
at one second and from then on at another, in UTC, and `util.CurDayBegin` reads
the clock at the two given seconds. -/
def twoTimes (first firstClock second secondClock : ℤ) : Run Unit Unit where
  conf := ⟨0, 300⟩
  code :=
    { marshalData := fun _ => some ""
      marshalComp := fun _ => some ""
      isDirty := fun _ => false
      hasOffline := fun _ => false
      clearDirty := id }
  hooks i :=
    if i = tcExample then
      { onNewDay := some (·.body), onDataReset := some (·.body), onNewMonth := some (·.body) }
    else {}
  start :=
    { id := 7, body := oneComp, times := ⟨0, 0, 0⟩, nowSec := 0
      lastSaveRedis := 0, lastSaveDB := 0, lastMinute := 0, lastHeartbeat := 0
      heartbeatTimeOut := 0, cancelled := false }
  ins
    | 0 => ⟨first * 1000000000, ⟨firstClock * 1000000000, firstClock * 1000000000⟩, [], oneComp⟩
    | _ + 1 =>
      ⟨second * 1000000000, ⟨secondClock * 1000000000, secondClock * 1000000000⟩, [], oneComp⟩

theorem twoTimes_monotone {first firstClock second secondClock : ℤ} (h : first ≤ second) :
    Monotone fun k => ((twoTimes first firstClock second secondClock).ins k).now := by
  apply monotone_nat_of_le_succ
  intro k
  cases k with
  | zero => exact Int.mul_le_mul_of_nonneg_right h (by decide)
  | succ k => exact le_refl _

/-- The daily hooks run once per boundary if the clock of every tick is read on
the tick's own day. -/
theorem daily_hooks_once (hmono : Monotone fun k => (run.ins k).now)
    (hday : ∀ k, (run.ins k).clock.SameDay run.conf.offset (run.ins k).now) :
    run.OncePerBoundary (daily run.conf.offset resetHour) .dataReset (·.resetTime) ∧
      run.OncePerBoundary (daily run.conf.offset 0) .newDay (·.dayChange) := by
  constructor
  · exact .of_alarm run (by decide) hmono (run.alarm_resetTime hday) run.due_dataReset
  · exact .of_alarm run (by decide) hmono (run.alarm_dayChange hday) run.due_newDay

/-- The ticks are at noon of 15 January and at 08:00:01 of 1 February. -/
theorem twoTimes_daily :
    (twoTimes 1252800 1252800 2707201 2707201).OncePerBoundary (daily 0 resetHour) .dataReset
        (·.resetTime) ∧
      (twoTimes 1252800 1252800 2707201 2707201).OncePerBoundary (daily 0 0) .newDay
        (·.dayChange) := by
  apply daily_hooks_once (twoTimes 1252800 1252800 2707201 2707201)
  · exact twoTimes_monotone (by decide)
  · intro k
    cases k <;> exact ⟨rfl, rfl⟩

/-- A tick at the last second of a day is handled on the next. The reset of that
next day and its midnight are both left out. -/
theorem lateClock_skips : let run := twoTimes 86399 86400 115201 115201
    (run.Due .dataReset 0 ∧ run.Due .newDay 0 ∧ (run.ins 0).now ≤ (run.ins 0).clock.reset) ∧
      (∃ b ∈ daily 0 resetHour, run.time 0 < b ∧ b < (run.roleAt 1).times.resetTime ∧
        b < run.time 1 ∧ ¬run.Due .dataReset 1) ∧
      ∃ b ∈ daily 0 0, run.time 0 < b ∧ b < (run.roleAt 1).times.dayChange ∧
        b < run.time 1 ∧ ¬run.Due .newDay 1 := by
  refine ⟨by decide +kernel, ⟨115200, ⟨1, rfl⟩, ?_⟩, ⟨86400, ⟨1, rfl⟩, ?_⟩⟩
  · decide +kernel
  · decide +kernel

/-- The monthly hook runs once per boundary if it never runs on the first day of
a month before 08:00: it runs at the first resetting tick from the boundary on,
and after that not before the next boundary. -/
theorem monthly_hook_once (hmono : Monotone fun k => (run.ins k).now)
    (hfirst : ∀ k, run.Due .newMonth k → ¬(monthDay run.conf.offset (run.time k) = 1 ∧
      hourOf run.conf.offset (run.time k) < resetHour)) :
    (∀ k, run.Due .newMonth k → NextBoundary (monthly run.conf.offset resetHour) (run.time k)
      (run.roleAt (k + 1)).times.dataResetMonth) ∧
    ∀ b ∈ monthly run.conf.offset resetHour, run.start.times.dataResetMonth ≤ b →
      ∀ k, run.Due .dataReset k → b ≤ run.time k →
        (∀ l < k, run.Due .dataReset l → run.time l < b) →
        run.Runs .newMonth k ∧ ∀ l, k < l → (run.Silent .newMonth l ∨
          ∃ b' ∈ monthly run.conf.offset resetHour, run.time k < b' ∧ b' ≤ run.time l) := by
  have halarm := run.alarm_dataResetMonth hfirst
  refine ⟨halarm.renew, ?_⟩
  intro b hb hstart k hreset hpassed hbefore
  have hpending : Alarm.Pending run.time (fun l => (run.roleAt l).times.dataResetMonth)
      (run.Due .newMonth) k b := by
    refine ⟨?_, fun _ => hstart⟩
    intro l hl hdue
    exact hbefore l hl ((run.due_newMonth l).mp hdue).1
  have hk : run.Due .newMonth k :=
    (run.due_newMonth k).mpr ⟨hreset, (halarm.deadline_le hb hpending).trans hpassed⟩
  refine ⟨run.runs_of_due (by decide) hk, ?_⟩
  intro l hkl
  by_cases hl : run.Due .newMonth l
  · right
    exact halarm.boundary_between (run.time_monotone hmono)
      (fun i hi => ((run.due_newMonth i).mp hi).2) hkl hk hl
  · left
    exact run.silent_of_not_due (by decide) hl

theorem twoTimes_monthly : let run := twoTimes 1252800 1252800 2707201 2707201
    (∀ k, run.Due .newMonth k → NextBoundary (monthly 0 resetHour) (run.time k)
      (run.roleAt (k + 1)).times.dataResetMonth) ∧
    ∀ b ∈ monthly 0 resetHour, run.start.times.dataResetMonth ≤ b →
      ∀ k, run.Due .dataReset k → b ≤ run.time k →
        (∀ l < k, run.Due .dataReset l → run.time l < b) →
        run.Runs .newMonth k ∧ ∀ l, k < l → (run.Silent .newMonth l ∨
          ∃ b' ∈ monthly 0 resetHour, run.time k < b' ∧ b' ≤ run.time l) := by
  apply monthly_hook_once (twoTimes 1252800 1252800 2707201 2707201)
  · exact twoTimes_monotone (by decide)
  · intro k _
    cases k with
    | zero => decide +kernel
    | succ k =>
      have hhour : ¬hourOf 0 2707201 < resetHour := by decide
      exact fun h => hhour h.2

/-- A new role ticks at 03:00 of 1 February. The monthly reset at 08:00 of that
day is left out. -/
theorem earlyFirst_skips : let run := twoTimes 2689200 2689200 2707201 2707201
    run.Due .newMonth 0 ∧ run.Due .dataReset 1 ∧
      ∃ b ∈ monthly 0 resetHour, run.time 0 < b ∧
        b < (run.roleAt 1).times.dataResetMonth ∧ b ≤ run.time 1 ∧ ¬run.Due .newMonth 1 := by
  refine ⟨by decide +kernel, by decide +kernel, 2707200, ⟨23641, by decide +kernel⟩, ?_⟩
  decide +kernel

end Run

end GameCluster.Tick
