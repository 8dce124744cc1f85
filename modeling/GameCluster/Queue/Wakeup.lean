import GameCluster.Queue.Fifo

/-!
The one-slot signal of the queue, and `Role.Run` as its consumer. A producer
stores and then wakes, `meta.Kick` cancels and then wakes, and the consumer
takes the signal before it looks at the queue and the context. So what a
consumer at its wait has not seen still has a signal to come: in the slot, or
from whoever made the change.
-/

namespace GameCluster.Buffers

open Lib

variable {τ : Type*} {s t : State τ} {a : Act τ}

/-- The statements that are not the consumer's. -/
def Act.outside : Act τ → Bool
  | .push _ | .stepPush _ _ | .close | .stepClose _ | .wake => true
  | .receive | .callRange | .stepRange | .panic => false

/-- The call has stored its element and has not woken the consumer yet. -/
def PushPc.owes : PushPc → Bool
  | .unlock err | .wake err => err.isNone
  | .lock | .load | .room | .append | .done _ => false

/-- The `Range` under way has still to look at the write buffer. -/
def RangePc.coming : RangePc → Bool
  | .lock | .test | .swap => true
  | .idle | .leave | .unlock | .loop _ | .clear | .shrink => false

/-- A write buffer with something in it has the consumer's attention, now or
soon. `woken` says that the consumer has taken a signal and not yet called
`Range`. -/
def Alert (woken : Prop) (s : State τ) : Prop :=
  s.write.len ≠ 0 →
    s.sig = true ∨ (∃ c ∈ s.pushes, c.pc.owes = true) ∨ s.range.coming = true ∨ woken

namespace Alert

variable {woken : Prop}

theorem frame (h : Alert woken s) (hw : t.write = s.write) (hsig : s.sig = true → t.sig = true)
    (hp : (∃ c ∈ s.pushes, c.pc.owes = true) → ∃ c ∈ t.pushes, c.pc.owes = true)
    (hr : s.range.coming = true → t.range.coming = true) : Alert woken t := by
  intro hne
  rw [hw] at hne
  rcases h hne with hs | hc | hrange | hwoken
  · exact .inl (hsig hs)
  · exact .inr (.inl (hp hc))
  · exact .inr (.inr (.inl (hr hrange)))
  · exact .inr (.inr (.inr hwoken))

theorem of_sig (h : t.sig = true) : Alert woken t := fun _ => .inl h

theorem of_empty (h : t.write.len = 0) : Alert woken t := fun hne => absurd h hne

theorem of_coming (h : t.range.coming = true) : Alert woken t := fun _ => .inr (.inr (.inl h))

/-- A call that moves keeps what it owes, and so do the others. -/
theorem owes_set {p : ℕ} {c : Push τ} {pc : PushPc} (hc : s.pushes[p]? = some c)
    (hpc : c.pc.owes = true → pc.owes = true) (h : ∃ d ∈ s.pushes, d.pc.owes = true) :
    ∃ d ∈ s.pushes.set p { c with pc }, d.pc.owes = true := by
  obtain ⟨d, hd, howes⟩ := h
  obtain ⟨q, hq⟩ := List.mem_iff_getElem?.mp hd
  by_cases hqp : q = p
  · subst hqp
    obtain rfl : c = d := Option.some.inj (hc.symm.trans hq)
    refine ⟨{ c with pc }, List.mem_of_getElem? (i := q) ?_, hpc howes⟩
    rw [getElem?_set_some hc, if_pos rfl]
  · refine ⟨d, List.mem_of_getElem? (i := q) ?_, howes⟩
    rw [getElem?_set_some hc, if_neg hqp, hq]

theorem effect [Inhabited τ] (h : Alert woken s) (e : Effect s a t) (ha : a ≠ .receive) :
    Alert woken t := by
  cases e with
  | push x =>
    refine h.frame rfl id (fun hc => ?_) id
    obtain ⟨c, hc, howes⟩ := hc
    exact ⟨c, List.mem_append_left _ hc, howes⟩
  | lock hc hpc _ | refuse hc hpc _ | enter hc hpc _ | full hc hpc _ | fits hc hpc _ =>
    refine h.frame rfl id (owes_set hc fun howes => ?_) id
    rw [hpc] at howes
    cases howes
  | @append p spare c hc hpc =>
    refine fun _ => .inr (.inl ⟨{ c with pc := .unlock none }, ?_, rfl⟩)
    refine List.mem_of_getElem? (i := p) ?_
    rw [State.setPush, getElem?_set_some hc, if_pos rfl]
  | unlock err hc hpc =>
    refine h.frame rfl id (owes_set hc fun howes => ?_) id
    rw [hpc] at howes
    exact howes
  | wake err hc hpc | closeWake _ | ring => exact of_sig rfl
  | receive _ => exact absurd rfl ha
  | callRange hr | rangeLock hr _ => exact of_coming rfl
  | rangeEmpty hr hw => exact of_empty hw
  | rangeSome hr _ => exact of_coming rfl
  | rangeSwap hr => exact of_empty rfl
  | rangeLeave hr | rangeUnlock hr | deliver hr _ | loopEnd hr _ | clear hr | shrink hr _
  | keep hr _ | panic hr _ =>
    refine h.frame rfl id id fun hcoming => ?_
    rw [hr] at hcoming
    cases hcoming
  | close | closeAgain _ _ | closeFlag _ _ => exact h.frame rfl id id id

theorem imp {woken' : Prop} (h : Alert woken s) (himp : woken → woken') : Alert woken' s := by
  intro hne
  rcases h hne with hs | hc | hrange | hwoken
  · exact .inl hs
  · exact .inr (.inl hc)
  · exact .inr (.inr (.inl hrange))
  · exact .inr (.inr (.inr (himp hwoken)))

/-- A consumer at its wait with nothing to come has nothing to do. -/
theorem quiet (h : Alert woken s) (hsig : s.sig = false)
    (hp : ∀ c ∈ s.pushes, c.pc.owes = false) (hr : s.range = .idle) (hwoken : ¬woken) :
    s.write.len = 0 := by
  by_contra hne
  rcases h hne with hs | ⟨c, hc, howes⟩ | hrange | hw
  · rw [hsig] at hs
    cases hs
  · rw [hp c hc] at howes
    cases howes
  · rw [hr] at hrange
    cases hrange
  · exact hwoken hw

end Alert

/-- Nothing but a receive takes the signal away. -/
theorem Effect.sig_stays [Inhabited τ] (e : Effect s a t) (ha : a ≠ .receive)
    (h : s.sig = true) : t.sig = true := by
  cases e with
  | receive _ => exact absurd rfl ha
  | wake _ _ _ | closeWake _ | ring => rfl
  | _ => exact h

theorem Effect.range_of_outside [Inhabited τ] (e : Effect s a t) (ha : a.outside = true) :
    t.range = s.range := by
  cases e with
  | callRange _ | rangeLock _ _ | rangeEmpty _ _ | rangeSome _ _ | rangeLeave _ | rangeSwap _
  | rangeUnlock _ | deliver _ _ | loopEnd _ _ | clear _ | shrink _ _ | keep _ _ | panic _ _ =>
    cases ha
  | _ => rfl

theorem Act.ne_receive_of_outside (h : a.outside = true) : a ≠ .receive := by
  rintro rfl
  cases h

theorem Inv.outside [Inhabited τ] (h : Inv s) (ha : a.outside = true) (e : Effect s a t) :
    Inv t := by
  refine h.effect ?_ e
  cases a with
  | panic => cases ha
  | _ => trivial

/-- With the write buffer empty and no `Range` under way everything stored has
been handed out. -/
theorem Inv.delivered_of_empty (h : Inv s) (hr : s.range = .idle) (hw : s.write.len = 0) :
    s.delivered = s.accepted.map Prod.snd := by
  have hC := h.contents
  rw [Contents, State.waiting, h.memory.write.elems_eq_nil_iff.mpr hw] at hC
  simp only [State.remaining, hr, List.append_nil] at hC
  exact hC.symm

end GameCluster.Buffers

namespace GameCluster.RoleLoop

open Lib Buffers

/-- Where the goroutine of `Role.Run` stands: in `Online`, at the receive from
`Sig`, between the receive and `Range`, in `Range`, at the test of the context,
or out of the loop. -/
inductive LoopPc where
  | online
  | wait
  | woken
  | ranging
  | check
  | exited
  deriving DecidableEq, Repr

/-- Where a call of `meta.Kick` stands. -/
inductive KickPc where
  | cancel
  | wake
  | done
  deriving DecidableEq, Repr

structure State (τ : Type*) where
  queue : Buffers.State τ
  loop : LoopPc := .online
  /-- `r.Ctx.Err() != nil` -/
  cancelled : Bool := false
  kicks : List KickPc := []

inductive Act (τ : Type*) where
  /-- A statement of a producer, of `Close` or of a lone `Wake`. -/
  | other (a : Buffers.Act τ)
  | online
  | receive
  | callRange
  | range
  /-- A callback cancels the role's context, as `OnTick` does. -/
  | cancel
  | check
  | kick
  | stepKick (k : ℕ)

variable {τ : Type*} [Inhabited τ] {s t : State τ} {a : Act τ}

def State.stepKick (s : State τ) (k : ℕ) : Option (State τ) :=
  match s.kicks[k]? with
  | some .cancel => some { s with cancelled := true, kicks := s.kicks.set k .wake }
  | some .wake =>
    (Buffers.step s.queue .wake).map fun q => { s with queue := q, kicks := s.kicks.set k .done }
  | _ => none

def step (s : State τ) : Act τ → Option (State τ)
  | .other a =>
    if a.outside then (Buffers.step s.queue a).map fun q => { s with queue := q } else none
  | .online => if s.loop = .online then some { s with loop := .wait } else none
  | .receive =>
    if s.loop = .wait then
      (Buffers.step s.queue .receive).map fun q => { s with queue := q, loop := .woken }
    else none
  | .callRange =>
    if s.loop = .woken then
      (Buffers.step s.queue .callRange).map fun q => { s with queue := q, loop := .ranging }
    else none
  | .range =>
    if s.loop = .ranging then
      (Buffers.step s.queue .stepRange).map fun q =>
        { s with queue := q, loop := if q.range = .idle then .check else .ranging }
    else none
  | .cancel => if s.loop = .ranging then some { s with cancelled := true } else none
  | .check =>
    if s.loop = .check then some { s with loop := if s.cancelled then .exited else .wait }
    else none
  | .kick => some { s with kicks := s.kicks ++ [.cancel] }
  | .stepKick k => s.stepKick k

/-- `Role.Run` with any number of producers and kickers. -/
def roleRun (τ : Type*) [Inhabited τ] : Machine (State τ) (Act τ) where
  init s := ∃ size maxSize, s = { queue := newSwapQueue size maxSize }
  step := step

/-- The consumer's own steps, and what the others can do to it. -/
inductive Effect (s : State τ) : State τ → Prop
  | other {a : Buffers.Act τ} {q : Buffers.State τ} (ha : a.outside = true)
      (e : Buffers.Effect s.queue a q) : Effect s { s with queue := q }
  | online (hl : s.loop = .online) : Effect s { s with loop := .wait }
  | receive {q : Buffers.State τ} (hl : s.loop = .wait) (e : Buffers.Effect s.queue .receive q) :
      Effect s { s with queue := q, loop := .woken }
  | callRange {q : Buffers.State τ} (hl : s.loop = .woken)
      (e : Buffers.Effect s.queue .callRange q) : Effect s { s with queue := q, loop := .ranging }
  | range {q : Buffers.State τ} (hl : s.loop = .ranging)
      (e : Buffers.Effect s.queue .stepRange q) :
      Effect s { s with queue := q, loop := if q.range = .idle then .check else .ranging }
  | cancel (hl : s.loop = .ranging) : Effect s { s with cancelled := true }
  | check (hl : s.loop = .check) :
      Effect s { s with loop := if s.cancelled then .exited else .wait }
  | kick : Effect s { s with kicks := s.kicks ++ [.cancel] }
  | kickCancel {k : ℕ} (hk : s.kicks[k]? = some .cancel) :
      Effect s { s with cancelled := true, kicks := s.kicks.set k .wake }
  | kickWake {k : ℕ} (hk : s.kicks[k]? = some .wake) :
      Effect s { s with queue := { s.queue with sig := true }, kicks := s.kicks.set k .done }

theorem step_effect (h : step s a = some t) : Effect s t := by
  cases a with
  | other a =>
    obtain ⟨ha, h⟩ := Option.ite_none_right_eq_some.mp h
    obtain ⟨q, hq, rfl⟩ := Option.map_eq_some_iff.mp h
    exact .other ha (Buffers.step_effect hq)
  | online =>
    obtain ⟨hl, h⟩ := Option.ite_none_right_eq_some.mp h
    cases h
    exact .online hl
  | receive =>
    obtain ⟨hl, h⟩ := Option.ite_none_right_eq_some.mp h
    obtain ⟨q, hq, rfl⟩ := Option.map_eq_some_iff.mp h
    exact .receive hl (Buffers.step_effect hq)
  | callRange =>
    obtain ⟨hl, h⟩ := Option.ite_none_right_eq_some.mp h
    obtain ⟨q, hq, rfl⟩ := Option.map_eq_some_iff.mp h
    exact .callRange hl (Buffers.step_effect hq)
  | range =>
    obtain ⟨hl, h⟩ := Option.ite_none_right_eq_some.mp h
    obtain ⟨q, hq, rfl⟩ := Option.map_eq_some_iff.mp h
    exact .range hl (Buffers.step_effect hq)
  | cancel =>
    obtain ⟨hl, h⟩ := Option.ite_none_right_eq_some.mp h
    cases h
    exact .cancel hl
  | check =>
    obtain ⟨hl, h⟩ := Option.ite_none_right_eq_some.mp h
    cases h
    exact .check hl
  | kick =>
    cases h
    exact .kick
  | stepKick k =>
    change s.stepKick k = some t at h
    unfold State.stepKick at h
    split at h
    · rename_i hk
      cases h
      exact .kickCancel hk
    · rename_i hk
      cases h
      exact .kickWake hk
    · cases h

/-- The queue of the role, as the queue machine sees it. -/
theorem Effect.queue_inv (e : Effect s t) (h : Inv s.queue) : Inv t.queue := by
  cases e with
  | other ha e => exact h.outside ha e
  | receive _ e => exact h.effect (a := .receive) trivial e
  | callRange _ e => exact h.effect (a := .callRange) trivial e
  | range _ e => exact h.effect (a := .stepRange) trivial e
  | kickWake _ => exact h.effect (a := .wake) trivial .ring
  | online _ | cancel _ | check _ | kick | kickCancel _ => exact h

/-- What has happened to the consumer and it has not seen yet. -/
structure Watch (s : State τ) : Prop where
  idle : s.loop ≠ .ranging → s.queue.range = .idle
  alert : Alert (s.loop = .woken) s.queue
  cancelled : s.cancelled = true → s.queue.sig = true ∨ KickPc.wake ∈ s.kicks ∨
    s.loop = .woken ∨ s.loop = .ranging ∨ s.loop = .check ∨ s.loop = .exited

theorem Watch.effect (h : Watch s) (e : Effect s t) : Watch t := by
  cases e with
  | @other a q ha e =>
    have hne := Buffers.Act.ne_receive_of_outside ha
    refine ⟨fun hl => ?_, h.alert.effect e hne, fun hc => ?_⟩
    · exact (e.range_of_outside ha).trans (h.idle hl)
    · exact (h.cancelled hc).imp_left (e.sig_stays hne)
  | online hl =>
    refine ⟨fun _ => h.idle (by simp [hl]), h.alert.imp (by simp [hl]), fun hc => ?_⟩
    have hcases := h.cancelled hc
    simp only [hl] at hcases ⊢
    simpa using hcases
  | @receive q hl e =>
    refine ⟨fun _ => ?_, fun _ => .inr (.inr (.inr rfl)), fun _ => .inr (.inr (.inl rfl))⟩
    cases e with
    | receive _ => exact h.idle (by simp [hl])
  | @callRange q hl e =>
    refine ⟨fun hl => absurd rfl hl, ?_, fun _ => .inr (.inr (.inr (.inl rfl)))⟩
    cases e with
    | callRange _ => exact .of_coming rfl
  | @range q hl e =>
    have halert : Alert False q := (h.alert.effect e (by simp)).imp (by simp [hl])
    refine ⟨fun hne => ?_, halert.imp False.elim, fun _ => ?_⟩
    · by_contra hq
      exact hne (if_neg hq)
    · by_cases hq : q.range = .idle
      · simp [hq]
      · simp [hq]
  | cancel hl => exact ⟨h.idle, h.alert, fun _ => .inr (.inr (.inr (.inl hl)))⟩
  | check hl =>
    refine ⟨fun _ => h.idle (by simp [hl]), h.alert.imp (by simp [hl]), fun hc => ?_⟩
    have hcancelled : s.cancelled = true := hc
    simp [hcancelled]
  | kick =>
    refine ⟨h.idle, h.alert, fun hc => (h.cancelled hc).imp_right fun hrest => ?_⟩
    exact hrest.imp_left (List.mem_append_left _)
  | @kickCancel k hk =>
    refine ⟨h.idle, h.alert, fun _ => .inr (.inl ?_)⟩
    refine List.mem_of_getElem? (i := k) ?_
    rw [getElem?_set_some hk, if_pos rfl]
  | kickWake hk => exact ⟨h.idle, .of_sig rfl, fun _ => .inl rfl⟩

theorem watch_of_reachable (h : (roleRun τ).Reachable Machine.anyStep s) :
    Inv s.queue ∧ Watch s := by
  apply h.invariant (P := fun s => Inv s.queue ∧ Watch s)
  · rintro s ⟨size, maxSize, rfl⟩
    refine ⟨newSwapQueue_inv size maxSize, fun _ => rfl, .of_empty rfl, fun hc => ?_⟩
    cases hc
  · intro s a t _ ih _ hs
    have e := step_effect hs
    exact ⟨e.queue_inv ih.1, ih.2.effect e⟩

/-- A consumer that waits on an empty signal channel, with no producer and no
kicker between its change and its `Wake`, has missed neither an element nor a
cancellation. -/
theorem no_lost_wakeup (h : (roleRun τ).Reachable Machine.anyStep s) :
    ¬(s.loop = .wait ∧ s.queue.sig = false ∧ (∀ c ∈ s.queue.pushes, c.pc.owes = false) ∧
      KickPc.wake ∉ s.kicks ∧
        (s.queue.delivered ≠ s.queue.accepted.map Prod.snd ∨ s.cancelled = true)) := by
  obtain ⟨inv, watch⟩ := watch_of_reachable h
  rintro ⟨hwait, hsig, hpushes, hkicks, hmissed⟩
  have hidle : s.queue.range = .idle := watch.idle (by simp [hwait])
  rcases hmissed with helems | hcancelled
  · have hempty := watch.alert.quiet hsig hpushes hidle (by simp [hwait])
    exact helems (inv.delivered_of_empty hidle hempty)
  · have hcases := watch.cancelled hcancelled
    simp [hsig, hkicks, hwait] at hcases

/-- Two pushes whose wake-ups fall together are handled in one round, and a role
that is kicked while it waits has a signal to take. -/
theorem oneSignal_two_pushes :
    (∃ s : State ℕ, (roleRun ℕ).Reachable Machine.anyStep s ∧
      (s.loop = .wait ∧ s.queue.sig = false ∧ s.queue.delivered = [1, 2]) ∧
        ¬(s.loop = .wait ∧ s.queue.sig = false ∧ (∀ c ∈ s.queue.pushes, c.pc.owes = false) ∧
          KickPc.wake ∉ s.kicks ∧
            (s.queue.delivered ≠ s.queue.accepted.map Prod.snd ∨ s.cancelled = true))) ∧
    ∃ s : State ℕ, (roleRun ℕ).Reachable Machine.anyStep s ∧
      (s.loop = .wait ∧ s.queue.pushes = [] ∧ s.kicks = [.done] ∧ s.cancelled = true) ∧
        s.queue.sig ≠ false := by
  obtain ⟨s, hs, hp⟩ := Machine.exec_reaches (m := roleRun ℕ) Machine.anyStep
    (fun s => s.loop = .wait ∧ s.queue.sig = false ∧ s.queue.delivered = [1, 2])
    ([.other (.push 1), .other (.push 2)] ++ List.replicate 5 (.other (.stepPush 0 0)) ++
      List.replicate 5 (.other (.stepPush 1 1)) ++
      [.other (.stepPush 0 0), .other (.stepPush 1 0), .kick, .online, .receive, .callRange] ++
      List.replicate 9 .range ++ [.check])
    ⟨1, 4, rfl⟩ (by decide +kernel)
  obtain ⟨t, ht, hwait, hnone, hkicked, hcancelled⟩ :=
    Machine.exec_reaches (m := roleRun ℕ) Machine.anyStep
      (fun s => s.loop = .wait ∧ s.queue.pushes = [] ∧ s.kicks = [.done] ∧ s.cancelled = true)
      [.online, .kick, .stepKick 0, .stepKick 0] ⟨1, 4, rfl⟩ (by decide +kernel)
  refine ⟨⟨s, hs, hp, no_lost_wakeup hs⟩, t, ht, ⟨hwait, hnone, hkicked, hcancelled⟩, ?_⟩
  intro hsig
  exact no_lost_wakeup ht ⟨hwait, hsig, by simp [hnone], by simp [hkicked], .inr hcancelled⟩

end GameCluster.RoleLoop
