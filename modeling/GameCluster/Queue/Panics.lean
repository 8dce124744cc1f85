import GameCluster.Queue.Wakeup

/-!
The event loops of `share/actor` and `account/auth` and the panics of their
handlers. Both take the signal and call `Range`; a panic leaves `Range` in the
middle of its buffer, `RunSafe` recovers it, and `Actor.Start` or `KeepRunSafe`
calls `run` again, which waits for the next signal.

The rest of the read buffer is lost with the panic: the next `Range` cuts that
buffer to length zero and makes it the write buffer. So an event survives a
panic ahead of it only if the two were in different buffers, and the result
below is for runs in which a panicking event is the last of its buffer.

The context stays open here. The ticker of the actor does not touch the queue.
-/

namespace GameCluster.EventLoop

open Lib Buffers

/-- Where the goroutine stands: at the `select` of `run`, between the receive
and `Range`, or in `Range`. -/
inductive LoopPc where
  | wait
  | woken
  | ranging
  deriving DecidableEq, Repr

structure State (τ : Type*) where
  queue : Buffers.State τ
  loop : LoopPc := .wait
  /-- The events whose handler has returned, in order. -/
  handled : List τ := []

inductive Act (τ : Type*) where
  | other (a : Buffers.Act τ)
  | receive
  | callRange
  | range

variable {τ : Type*}

/-- The event that `Range` is about to hand to the handler. -/
def current (q : Buffers.State τ) : Option τ :=
  match q.range with
  | .loop i => (q.read.elems q.arrays)[i]?
  | _ => none

variable [Inhabited τ]

def stepRange (panics : τ → Bool) (s : State τ) : Option (State τ) :=
  match current s.queue with
  | some x =>
    if panics x then
      (Buffers.step s.queue .panic).map fun q => { s with queue := q, loop := .wait }
    else
      (Buffers.step s.queue .stepRange).map fun q =>
        { s with queue := q, handled := s.handled ++ [x] }
  | none =>
    (Buffers.step s.queue .stepRange).map fun q =>
      { s with queue := q, loop := if q.range = .idle then .wait else .ranging }

def step (panics : τ → Bool) (s : State τ) : Act τ → Option (State τ)
  | .other a =>
    if a.outside then (Buffers.step s.queue a).map fun q => { s with queue := q } else none
  | .receive =>
    if s.loop = .wait then
      (Buffers.step s.queue .receive).map fun q => { s with queue := q, loop := .woken }
    else none
  | .callRange =>
    if s.loop = .woken then
      (Buffers.step s.queue .callRange).map fun q => { s with queue := q, loop := .ranging }
    else none
  | .range => if s.loop = .ranging then stepRange panics s else none

/-- The loop over any queue, with handlers that panic on the events in `panics`. -/
def eventLoop (panics : τ → Bool) : Machine (State τ) (Act τ) where
  init s := ∃ size maxSize, s = { queue := newSwapQueue size maxSize }
  step := step panics

/-- A panicking event is the last of the buffer it is handed from. -/
def panicsAtEnd (panics : τ → Bool) (s : State τ) : Act τ → Prop
  | .range => (current s.queue).any panics = true → s.queue.remaining.length ≤ 1
  | .other _ | .receive | .callRange => True

instance (panics : τ → Bool) (s : State τ) (a : Act τ) : Decidable (panicsAtEnd panics s a) :=
  match a with
  | .range => inferInstanceAs
      (Decidable ((current s.queue).any panics = true → s.queue.remaining.length ≤ 1))
  | .other _ | .receive | .callRange => inferInstanceAs (Decidable True)

variable {panics : τ → Bool} {s t : State τ} {a : Act τ}

inductive Effect (panics : τ → Bool) (s : State τ) : Act τ → State τ → Prop
  | other {a : Buffers.Act τ} {q : Buffers.State τ} (ha : a.outside = true)
      (e : Buffers.Effect s.queue a q) : Effect panics s (.other a) { s with queue := q }
  | receive {q : Buffers.State τ} (hl : s.loop = .wait) (e : Buffers.Effect s.queue .receive q) :
      Effect panics s .receive { s with queue := q, loop := .woken }
  | callRange {q : Buffers.State τ} (hl : s.loop = .woken)
      (e : Buffers.Effect s.queue .callRange q) :
      Effect panics s .callRange { s with queue := q, loop := .ranging }
  | panic {q : Buffers.State τ} {x : τ} (hl : s.loop = .ranging) (hx : current s.queue = some x)
      (hp : panics x = true) (e : Buffers.Effect s.queue .panic q) :
      Effect panics s .range { s with queue := q, loop := .wait }
  | handle {q : Buffers.State τ} {x : τ} (hl : s.loop = .ranging) (hx : current s.queue = some x)
      (hp : panics x = false) (e : Buffers.Effect s.queue .stepRange q) :
      Effect panics s .range { s with queue := q, handled := s.handled ++ [x] }
  | range {q : Buffers.State τ} (hl : s.loop = .ranging) (hx : current s.queue = none)
      (e : Buffers.Effect s.queue .stepRange q) :
      Effect panics s .range
        { s with queue := q, loop := if q.range = .idle then .wait else .ranging }

theorem step_effect (h : step panics s a = some t) : Effect panics s a t := by
  cases a with
  | other a =>
    obtain ⟨ha, h⟩ := Option.ite_none_right_eq_some.mp h
    obtain ⟨q, hq, rfl⟩ := Option.map_eq_some_iff.mp h
    exact .other ha (Buffers.step_effect hq)
  | receive | callRange =>
    obtain ⟨hl, h⟩ := Option.ite_none_right_eq_some.mp h
    obtain ⟨q, hq, rfl⟩ := Option.map_eq_some_iff.mp h
    constructor
    · exact hl
    · exact Buffers.step_effect hq
  | range =>
    obtain ⟨hl, h⟩ := Option.ite_none_right_eq_some.mp h
    unfold stepRange at h
    cases hx : current s.queue with
    | some x =>
      simp only [hx] at h
      cases hp : panics x with
      | true =>
        rw [if_pos hp] at h
        obtain ⟨q, hq, rfl⟩ := Option.map_eq_some_iff.mp h
        exact .panic hl hx hp (Buffers.step_effect hq)
      | false =>
        rw [if_neg (by simp [hp])] at h
        obtain ⟨q, hq, rfl⟩ := Option.map_eq_some_iff.mp h
        exact .handle hl hx hp (Buffers.step_effect hq)
    | none =>
      simp only [hx] at h
      obtain ⟨q, hq, rfl⟩ := Option.map_eq_some_iff.mp h
      exact .range hl hx (Buffers.step_effect hq)

theorem Effect.queue_inv (e : Effect panics s a t) (hok : panicsAtEnd panics s a)
    (h : Inv s.queue) : Inv t.queue := by
  cases e with
  | other ha e => exact h.outside ha e
  | receive _ e => exact h.effect (a := .receive) trivial e
  | callRange _ e => exact h.effect (a := .callRange) trivial e
  | panic _ hx hp e =>
    have hlast : s.queue.remaining.length ≤ 1 := hok (by rw [hx]; exact hp)
    exact h.effect (a := .panic) hlast e
  | handle _ _ _ e | range _ _ e => exact h.effect (a := .stepRange) trivial e

/-- The handlers that returned, and the consumer's attention. -/
structure Watch (panics : τ → Bool) (s : State τ) : Prop where
  handled : s.handled = s.queue.delivered.filter (!panics ·)
  idle : s.loop ≠ .ranging → s.queue.range = .idle
  alert : Alert (s.loop = .woken) s.queue

/-- Only the consumer hands elements out. -/
theorem delivered_of_outside {q q' : Buffers.State τ} {a : Buffers.Act τ}
    (e : Buffers.Effect q a q') (ha : a.outside = true) : q'.delivered = q.delivered := by
  cases e with
  | deliver _ _ | panic _ _ => cases ha
  | _ => rfl

theorem delivered_range {q q' : Buffers.State τ} (e : Buffers.Effect q .stepRange q') :
    q'.delivered = q.delivered ++ (current q).toList := by
  cases e with
  | deliver hr hx | loopEnd hr hx => simp [current, hr, hx]
  | rangeLock hr _ | rangeEmpty hr _ | rangeSome hr _ | rangeLeave hr | rangeSwap hr
  | rangeUnlock hr | clear hr | shrink hr _ | keep hr _ =>
    simp [current, hr, State.returnRange]

theorem Watch.effect (h : Watch panics s) (e : Effect panics s a t) : Watch panics t := by
  cases e with
  | @other a q ha e =>
    refine ⟨?_, fun hl => ?_, h.alert.effect e (Buffers.Act.ne_receive_of_outside ha)⟩
    · rw [delivered_of_outside e ha]
      exact h.handled
    · exact (e.range_of_outside ha).trans (h.idle hl)
  | @receive q hl e =>
    cases e with
    | receive _ =>
      exact ⟨h.handled, fun _ => h.idle (by simp [hl]), fun _ => .inr (.inr (.inr rfl))⟩
  | @callRange q hl e =>
    cases e with
    | callRange _ => exact ⟨h.handled, fun hne => absurd rfl hne, .of_coming rfl⟩
  | @panic q x hl hx hp e =>
    have halert : Alert False q := (h.alert.effect e (by simp)).imp (by simp [hl])
    refine ⟨?_, fun _ => ?_, halert.imp False.elim⟩
    · cases e with
      | @panic i y hr hy =>
        have hxy : y = x := by
          simp only [current, hr, hy, Option.some.injEq] at hx
          exact hx
        simp [h.handled, hxy, hp]
    · cases e with
      | panic _ _ => rfl
  | @handle q x hl hx hp e =>
    refine ⟨?_, fun hne => absurd hl hne, h.alert.effect e (by simp)⟩
    rw [delivered_range e, hx]
    simp [h.handled, hp]
  | @range q hl hx e =>
    have halert : Alert False q := (h.alert.effect e (by simp)).imp (by simp [hl])
    refine ⟨?_, fun hne => ?_, halert.imp False.elim⟩
    · rw [delivered_range e, hx]
      simp [h.handled]
    · by_contra hq
      exact hne (if_neg hq)

theorem watch_of_reachable (h : (eventLoop panics).Reachable (panicsAtEnd panics) s) :
    Inv s.queue ∧ Watch panics s := by
  apply h.invariant (P := fun s => Inv s.queue ∧ Watch panics s)
  · rintro s ⟨size, maxSize, rfl⟩
    exact ⟨newSwapQueue_inv size maxSize, rfl, fun _ => rfl, .of_empty rfl⟩
  · intro s a t _ ih hok hs
    have e := step_effect hs
    exact ⟨e.queue_inv hok ih.1, ih.2.effect e⟩

/-- The events whose handler has returned are, in order and once each, those
accepted whose handler does not panic, up to the ones that still wait; and a
loop at its `select` with no signal to come has none left. -/
theorem panic_costs_own_event (h : (eventLoop panics).Reachable (panicsAtEnd panics) s) :
    s.handled ++ s.queue.waiting.filter (!panics ·) =
        (s.queue.accepted.map Prod.snd).filter (!panics ·) ∧
      (s.loop = .wait → s.queue.sig = false → (∀ c ∈ s.queue.pushes, c.pc.owes = false) →
        s.handled = (s.queue.accepted.map Prod.snd).filter (!panics ·)) := by
  obtain ⟨inv, watch⟩ := watch_of_reachable h
  refine ⟨?_, fun hwait hsig hpushes => ?_⟩
  · have hC := inv.contents
    rw [Contents] at hC
    rw [hC, List.filter_append, watch.handled]
  · have hidle : s.queue.range = .idle := watch.idle (by simp [hwait])
    have hempty := watch.alert.quiet hsig hpushes hidle (by simp [hwait])
    rw [watch.handled, inv.delivered_of_empty hidle hempty]

/-- A whole call of `Push` with element `x`, the `p`-th of the run. -/
def pushed (p x : ℕ) : List (Act ℕ) :=
  .other (.push x) :: List.replicate 6 (.other (.stepPush p 0))

/-- A round of the loop of `n` statements. -/
def round (n : ℕ) : List (Act ℕ) := .receive :: .callRange :: List.replicate n .range

/-- The panicking event is behind the other one of its buffer. -/
theorem lastPanics_handled : ∃ s : State ℕ,
    (eventLoop (· == 0)).Reachable (panicsAtEnd (· == 0)) s ∧
      (s.loop = .wait ∧ s.queue.sig = false ∧ (∀ c ∈ s.queue.pushes, c.pc.owes = false) ∧
        s.queue.accepted.map Prod.snd = [1, 0, 2]) ∧ s.handled = [1, 2] := by
  obtain ⟨s, hs, hp⟩ := Machine.exec_reaches (m := eventLoop (· == 0)) (panicsAtEnd (· == 0))
    (fun s => s.loop = .wait ∧ s.queue.sig = false ∧ (∀ c ∈ s.queue.pushes, c.pc.owes = false) ∧
      s.queue.accepted.map Prod.snd = [1, 0, 2])
    (pushed 0 1 ++ pushed 1 0 ++ round 6 ++ pushed 2 2 ++ round 8)
    ⟨2, 8, rfl⟩ (by decide +kernel)
  obtain ⟨hwait, hsig, hpushes, hacc⟩ := hp
  have hall := (panic_costs_own_event hs).2 hwait hsig hpushes
  rw [hacc] at hall
  exact ⟨s, hs, ⟨hwait, hsig, hpushes, hacc⟩, hall⟩

/-- The panicking event is ahead of another one of its buffer. That one is gone:
the loop waits, nothing is left in the queue, and it was never handled. -/
theorem firstPanics_loses_next :
    ∃ s : State ℕ, (eventLoop (· == 0)).Reachable Machine.anyStep s ∧
      s.loop = .wait ∧ s.queue.sig = false ∧ (∀ c ∈ s.queue.pushes, c.pc.owes = false) ∧
        s.queue.waiting = [] ∧ s.queue.accepted.map Prod.snd = [0, 1, 2] ∧ s.handled = [2] :=
  Machine.exec_reaches (m := eventLoop (· == 0)) Machine.anyStep _
    (pushed 0 0 ++ pushed 1 1 ++ round 5 ++ pushed 2 2 ++ round 8)
    ⟨2, 8, rfl⟩ (by decide +kernel)

end GameCluster.EventLoop
