import GameCluster.Gateway.Life

/-!
How a session ends. Whichever goroutine counts itself out last finds the other
one finished, so one of them alone takes the session off the list, tells the
game server and closes the connection, in this order. Until then the reason
has been set, since a goroutine ends only when it has closed the session or
has seen that someone did.
-/

namespace GameCluster.Gateway.Life

open Lib Bus Pb

section Session

variable [Wire.Protohelpers]

/-- Where a goroutine is in `onLoopExit`, if it is there. -/
def SendPc.exitPc : SendPc → Option ExitPc
  | exit pc => some pc
  | _ => none

def RecvPc.exitPc : RecvPc → Option ExitPc
  | exit pc => some pc
  | _ => none

/-- How much of `onLoopExit` a goroutine has behind it. -/
def passed : Option ExitPc → ℕ
  | none | some .count => 0
  | some .remove => 1
  | some .notice => 2
  | some .connClose => 3
  | some .finished => 4

/-- What the session has told others when its end has come so far. -/
structure Stage (s : State) (n : ℕ) : Prop where
  listed : s.listed = true ↔ n < 2
  connClosed : s.connClosed = true ↔ 4 ≤ n
  clients : n < 3 → ∀ o ∈ s.bus, o.IsClient s.id
  noticed : 3 ≤ n → ∃ cs gameID why m, s.reason = some why ∧
    s.bus = cs ++ [.notice (notice s.id gameID why) m] ∧ ∀ o ∈ cs, o.IsClient s.id

/-- The session with its goroutines so far in `onLoopExit`. One that has counted
itself out is over unless the other one is. -/
structure Ending (s : State) (m n : ℕ) : Prop where
  loopCount : s.loopCount = 2 - (min 1 m : ℕ) - (min 1 n : ℕ)
  apart : m = 0 ∧ n = 0 ∨ m = 4 ∨ n = 4
  stage : Stage s (min m n)

variable {s t : State} {n : ℕ} {pc : ExitPc} {bs : DataBus} {ok : Bool} {msg : Incoming}

theorem Ending.symm {m n : ℕ} (h : Ending s m n) : Ending s n m :=
  ⟨by rw [h.loopCount]; omega, by have := h.apart; omega, Nat.min_comm m n ▸ h.stage⟩

/-- A statement of `onLoopExit` in the first goroutine. -/
theorem Ending.exitStep {s s' : State} {pc pc' : ExitPc} (h : Ending s (passed (some pc)) n)
    (hreason : s.reason.isSome = true) (hstep : s.exitStep bs pc = some (s', pc')) :
    Ending s' (passed (some pc')) n := by
  have hcount := h.loopCount
  have hapart := h.apart
  have hstage := h.stage
  have hlast : 0 < passed (some pc) → passed (some pc) < 4 → n = 4 := by omega
  cases pc with
  | count =>
    obtain rfl | rfl : n = 0 ∨ n = 4 := by
      rcases hapart with ⟨-, hn⟩ | hn | hn
      · exact .inl hn
      · cases hn
      · exact .inr hn
    · have hmore : ¬s.loopCount - 1 = 0 := by rw [hcount]; decide
      simp only [State.exitStep, if_neg hmore] at hstep
      cases hstep
      refine ⟨?_, .inr (.inl rfl), hstage.listed, hstage.connClosed, hstage.clients,
        hstage.noticed⟩
      dsimp only
      rw [hcount]
      rfl
    · have hzero : s.loopCount - 1 = 0 := by rw [hcount]; decide
      simp only [State.exitStep, if_pos hzero] at hstep
      cases hstep
      exact ⟨hzero, .inr (.inr rfl), hstage.listed.trans (by decide),
        hstage.connClosed.trans (by decide), fun _ => hstage.clients (by decide), nofun⟩
  | remove =>
    obtain rfl := hlast (by decide) (by decide)
    cases hstep
    exact ⟨hcount, .inr (.inr rfl), iff_of_false nofun (by decide),
      hstage.connClosed.trans (by decide), fun _ => hstage.clients (by decide),
      fun hn => absurd hn (by decide)⟩
  | notice =>
    obtain rfl := hlast (by decide) (by decide)
    cases hstep
    refine ⟨hcount, .inr (.inr rfl), hstage.listed.trans (by decide),
      hstage.connClosed.trans (by decide), fun hn => absurd hn (by decide), fun _ => ?_⟩
    obtain ⟨why, hwhy⟩ := Option.isSome_iff_exists.mp hreason
    refine ⟨s.bus, s.gameID, why, (Life.notice s.id s.gameID why).message bs, hwhy, ?_,
      hstage.clients (by decide)⟩
    rw [hwhy]
    rfl
  | connClose =>
    obtain rfl := hlast (by decide) (by decide)
    cases hstep
    exact ⟨hcount, .inr (.inr rfl), hstage.listed.trans (by decide),
      iff_of_true rfl (by decide), fun hn => absurd hn (by decide),
      fun _ => hstage.noticed (by decide)⟩
  | finished => cases hstep

/-- What the statements outside `onLoopExit` and `forwardToSrv` leave as it is.
The reason may be set, and stays then. -/
structure Keeps (s t : State) : Prop where
  id : t.id = s.id
  loopCount : t.loopCount = s.loopCount
  listed : t.listed = s.listed
  connClosed : t.connClosed = s.connClosed
  bus : t.bus = s.bus
  closes : t.reason = s.reason ∧ t.closes = s.closes ∨
    ∃ why, t.reason = some (s.reason.getD why) ∧ t.closes = s.closes ++ [why]

theorem Keeps.reason (h : Keeps s t) {why : BitVec 32} (hwhy : s.reason = some why) :
    t.reason = some why := by
  rcases h.closes with ⟨hr, -⟩ | ⟨why', hr, -⟩
  · rw [hr, hwhy]
  · rw [hr, hwhy]
    rfl

theorem Ending.keeps {m n : ℕ} (h : Ending s m n) (hk : Keeps s t) : Ending t m n := by
  have hstage := h.stage
  refine ⟨?_, h.apart, ?_, ?_, ?_, ?_⟩
  · rw [hk.loopCount]
    exact h.loopCount
  · rw [hk.listed]
    exact hstage.listed
  · rw [hk.connClosed]
    exact hstage.connClosed
  · rw [hk.bus, hk.id]
    exact hstage.clients
  · intro hn
    obtain ⟨cs, gameID, why, m, hwhy, hbus, hcs⟩ := hstage.noticed hn
    rw [hk.bus, hk.id]
    exact ⟨cs, gameID, why, m, hk.reason hwhy, hbus, hcs⟩

/-- Whether `sendLoop` has seen that the context is done. -/
def SendPc.final : SendPc → Bool
  | drain final => final
  | write final _ => final
  | closeFrame => true
  | exit _ => true
  | _ => false

structure Inv (s : State) : Prop where
  ending : Ending s (passed s.send.exitPc) (passed s.recv.exitPc)
  reason : s.reason = s.closes.head?
  cancelled : s.cancelled = true → s.reason.isSome = true
  sendDone : s.send.final = true → s.cancelled = true
  recvDone : s.recv.exitPc.isSome = true → s.cancelled = true

/-- Where a goroutine can go before `onLoopExit`: on in its loop, or to its end
if `done`. -/
def Goes (done : Bool) (a b : Option ExitPc) : Prop :=
  b = a ∨ a = none ∧ b = some .count ∧ done = true

theorem Ending.goes {done : Bool} {a a' : Option ExitPc} (h : Ending s (passed a) n)
    (hgo : Goes done a a') : Ending s (passed a') n := by
  rcases hgo with rfl | ⟨rfl, rfl, -⟩
  · exact h
  · exact h

/-- A step outside `onLoopExit` and `forwardToSrv`. -/
theorem Inv.keeps (h : Inv s) (hk : Keeps s t) (hdone : t.cancelled = s.cancelled)
    (hsend : Goes s.cancelled s.send.exitPc t.send.exitPc)
    (hfinal : t.send.final = true → s.send.final = true ∨ s.cancelled = true)
    (hrecv : Goes s.cancelled s.recv.exitPc t.recv.exitPc) : Inv t := by
  refine ⟨((h.ending.keeps hk).goes hsend).symm.goes hrecv |>.symm, ?_, ?_, ?_, ?_⟩
  · rcases hk.closes with ⟨hr, hc⟩ | ⟨why, hr, hc⟩
    · rw [hr, hc]
      exact h.reason
    · rw [hr, hc, h.reason]
      cases s.closes <;> rfl
  · intro hc
    obtain ⟨why, hwhy⟩ := Option.isSome_iff_exists.mp (h.cancelled (hdone ▸ hc))
    rw [hk.reason hwhy]
    rfl
  · intro hf
    rw [hdone]
    exact (hfinal hf).elim h.sendDone id
  · intro hf
    rw [hdone]
    rcases hrecv with hsame | ⟨-, -, hc⟩
    · exact h.recvDone (hsame ▸ hf)
    · exact hc

theorem exitStep_eq {s s' : State} {pc pc' : ExitPc} (h : s.exitStep bs pc = some (s', pc')) :
    ∃ loopCount listed bus connClosed,
      s' = { s with loopCount, listed, bus, connClosed } := by
  cases pc <;> cases h <;> exact ⟨_, _, _, _, rfl⟩

/-- What `sendLoop` never changes. -/
theorem sendStep_eq (h : s.sendStep bs ok = some t) :
    ∃ out wire wrote broken send reason closes loopCount listed bus connClosed,
      t = { s with out, wire, wrote, broken, send, reason, closes, loopCount, listed, bus,
                   connClosed } := by
  unfold State.sendStep at h
  repeat' split at h
  all_goals first
    | cases h
      exact ⟨_, _, _, _, _, _, _, _, _, _, _, rfl⟩
    | cases h
    | skip
  obtain ⟨⟨s', pc'⟩, hexit, rfl⟩ := Option.map_eq_some_iff.mp h
  obtain ⟨loopCount, listed, bus, connClosed, rfl⟩ := exitStep_eq hexit
  exact ⟨_, _, _, _, _, _, _, _, _, _, _, rfl⟩

/-- What `readLoop` never changes. -/
theorem recvStep_eq (h : s.recvStep bs msg = some t) :
    ∃ recv late reason closes loopCount listed bus connClosed,
      t = { s with recv, late, reason, closes, loopCount, listed, bus, connClosed } := by
  unfold State.recvStep at h
  split at h
  case h_3 =>
    dsimp only at h
    split at h <;> cases h <;> exact ⟨_, _, _, _, _, _, _, _, rfl⟩
  case h_7 =>
    obtain ⟨⟨s', pc'⟩, hexit, rfl⟩ := Option.map_eq_some_iff.mp h
    obtain ⟨loopCount, listed, bus, connClosed, rfl⟩ := exitStep_eq hexit
    exact ⟨_, _, _, _, _, _, _, _, rfl⟩
  all_goals repeat' split at h
  all_goals first
    | cases h
      exact ⟨_, _, _, _, _, _, _, _, rfl⟩
    | cases h

theorem Inv.sendExit (h : Inv s) (hpc : s.send = .exit pc)
    (hstep : (s.exitStep bs pc).map (fun (s, pc) => { s with send := .exit pc }) = some t) :
    Inv t := by
  obtain ⟨⟨s', pc'⟩, hexit, rfl⟩ := Option.map_eq_some_iff.mp hstep
  have hdone := h.sendDone (by rw [hpc]; rfl)
  have hend := h.ending
  rw [hpc] at hend
  have hend' := Ending.exitStep hend (h.cancelled hdone) hexit
  obtain ⟨loopCount, listed, bus, connClosed, rfl⟩ := exitStep_eq hexit
  exact ⟨hend'.keeps ⟨rfl, rfl, rfl, rfl, rfl, .inl ⟨rfl, rfl⟩⟩, h.reason, h.cancelled,
    fun _ => hdone, h.recvDone⟩

theorem Inv.recvExit (h : Inv s) (hpc : s.recv = .exit pc)
    (hstep : (s.exitStep bs pc).map (fun (s, pc) => { s with recv := .exit pc }) = some t) :
    Inv t := by
  obtain ⟨⟨s', pc'⟩, hexit, rfl⟩ := Option.map_eq_some_iff.mp hstep
  have hdone := h.recvDone (by rw [hpc]; rfl)
  have hend := h.ending.symm
  rw [hpc] at hend
  have hend' := Ending.exitStep hend (h.cancelled hdone) hexit
  obtain ⟨loopCount, listed, bus, connClosed, rfl⟩ := exitStep_eq hexit
  exact ⟨hend'.symm.keeps ⟨rfl, rfl, rfl, rfl, rfl, .inl ⟨rfl, rfl⟩⟩, h.reason, h.cancelled,
    h.sendDone, fun _ => hdone⟩

/-- A statement of `sendLoop` before `onLoopExit`. -/
theorem sendStep_goes (h : s.sendStep bs ok = some t)
    (hdone : s.send.final = true → s.cancelled = true) (hpc : s.send.exitPc = none) :
    Keeps s t ∧ Goes s.cancelled none t.send.exitPc ∧
      (t.send.final = true → s.send.final = true ∨ s.cancelled = true) := by
  unfold State.sendStep at h
  split at h
  case h_7 pc hs =>
    rw [hs] at hpc
    cases hpc
  all_goals
    repeat' split at h
  all_goals cases h
  all_goals
    refine ⟨⟨rfl, rfl, rfl, rfl, rfl, ?_⟩, ?_, ?_⟩
    · first | exact .inl ⟨rfl, rfl⟩ | exact .inr ⟨_, rfl, rfl⟩
    · simp_all [Goes, SendPc.exitPc, SendPc.final]
    · simp_all [SendPc.final]

theorem Inv.send (h : Inv s) (hstep : s.sendStep bs ok = some t) : Inv t := by
  cases hpc : s.send.exitPc with
  | none =>
    obtain ⟨hk, hgo, hfinal⟩ := sendStep_goes hstep h.sendDone hpc
    obtain ⟨_, _, _, _, _, _, _, _, _, _, _, rfl⟩ := sendStep_eq hstep
    exact h.keeps hk rfl (hpc ▸ hgo) hfinal (.inl rfl)
  | some pc =>
    have hexit : s.send = .exit pc := by
      cases hs : s.send <;> rw [hs] at hpc <;> cases hpc
      rfl
    rw [State.sendStep, hexit] at hstep
    exact h.sendExit hexit hstep

/-- What a message of the client adds to the bus. -/
theorem Inv.forwarded (h : Inv s) (hpc : s.recv.exitPc = none) {o : Out} (ho : o.IsClient s.id) :
    Inv { s with bus := s.bus ++ [o] } := by
  have hstage := h.ending.stage
  have hmin : min (passed s.send.exitPc) (passed s.recv.exitPc) = 0 := by
    rw [hpc]
    exact Nat.min_zero _
  refine ⟨⟨h.ending.loopCount, h.ending.apart, hstage.listed, hstage.connClosed, fun _ => ?_, ?_⟩,
    h.reason, h.cancelled, h.sendDone, h.recvDone⟩
  · intro o' ho'
    rcases List.mem_append.mp ho' with hold | hnew
    · exact hstage.clients (by omega) o' hold
    · rw [List.mem_singleton.mp hnew]
      exact ho
  · dsimp only
    omega

/-- A statement of `readLoop` before `onLoopExit`; `u` is the session with what
`forwardToSrv` has put on the bus. -/
theorem recvStep_goes (h : s.recvStep bs msg = some t) (hpc : s.recv.exitPc = none) :
    ∃ u : State, (u = s ∨ ∃ o : Out, o.IsClient s.id ∧ u = { s with bus := s.bus ++ [o] }) ∧
      Keeps u t ∧ Goes s.cancelled none t.recv.exitPc := by
  unfold State.recvStep at h
  split at h
  case h_3 src hs =>
    dsimp only at h
    split at h
    case h_4 subject m hsent =>
      cases h
      have hauth := forwardToSrv_authored hsent
      exact ⟨_, .inr ⟨.client subject m, ⟨hauth.sesID, hauth.msgID⟩, rfl⟩,
        ⟨rfl, rfl, rfl, rfl, rfl, .inl ⟨rfl, rfl⟩⟩, .inl rfl⟩
    all_goals
      cases h
      exact ⟨s, .inl rfl, ⟨rfl, rfl, rfl, rfl, rfl, .inl ⟨rfl, rfl⟩⟩, .inl rfl⟩
  case h_7 pc hs =>
    rw [hs] at hpc
    cases hpc
  all_goals
    repeat' split at h
  all_goals cases h
  all_goals
    refine ⟨s, .inl rfl, ⟨rfl, rfl, rfl, rfl, rfl, ?_⟩, ?_⟩
    · first | exact .inl ⟨rfl, rfl⟩ | exact .inr ⟨_, rfl, rfl⟩
    · simp_all [Goes, RecvPc.exitPc]

theorem Inv.recv (h : Inv s) (hstep : s.recvStep bs msg = some t) : Inv t := by
  cases hpc : s.recv.exitPc with
  | none =>
    obtain ⟨u, hu, hk, hgo⟩ := recvStep_goes hstep hpc
    have hinv : Inv u ∧ u.cancelled = s.cancelled ∧ u.send = s.send ∧ u.recv = s.recv := by
      rcases hu with rfl | ⟨o, ho, rfl⟩
      · exact ⟨h, rfl, rfl, rfl⟩
      · exact ⟨h.forwarded hpc ho, rfl, rfl, rfl⟩
    obtain ⟨hu, hcancelled, hsend, hrecv⟩ := hinv
    obtain ⟨_, _, _, _, _, _, _, _, rfl⟩ := recvStep_eq hstep
    refine hu.keeps hk hcancelled.symm (.inl ?_) (fun hf => .inl ?_) ?_
    · rw [hsend]
    · rwa [hsend]
    · rwa [hcancelled, hrecv, hpc]
  | some pc =>
    have hexit : s.recv = .exit pc := by
      cases hs : s.recv <;> rw [hs] at hpc <;> cases hpc
      rfl
    unfold State.recvStep at hstep
    rw [hexit] at hstep
    exact h.recvExit hexit hstep

theorem Inv.step {a : Act} (h : Inv s) (hstep : step s a = some t) : Inv t := by
  cases a with
  | close why =>
    cases hstep
    exact h.keeps ⟨rfl, rfl, rfl, rfl, rfl, .inr ⟨_, rfl, rfl⟩⟩ rfl (.inl rfl) .inl (.inl rfl)
  | cancel =>
    obtain ⟨hreason, hstep⟩ := Option.ite_none_right_eq_some.mp hstep
    cases hstep
    exact ⟨h.ending.keeps ⟨rfl, rfl, rfl, rfl, rfl, .inl ⟨rfl, rfl⟩⟩, h.reason,
      fun _ => hreason.1, fun _ => rfl, fun _ => rfl⟩
  | push v | updateSerId gameID =>
    cases hstep
    exact h.keeps ⟨rfl, rfl, rfl, rfl, rfl, .inl ⟨rfl, rfl⟩⟩ rfl (.inl rfl) .inl (.inl rfl)
  | send bs ok => exact h.send hstep
  | recv bs msg => exact h.recv hstep

theorem reachable_inv {id : UInt64} (h : (machine id).Reachable Machine.anyStep s) : Inv s := by
  refine h.invariant (fun s hs => ?_) fun s a t _ hi _ hstep => hi.step hstep
  rw [show s = initial id from hs]
  have hstage : Stage (initial id) 0 :=
    ⟨iff_of_true rfl (by omega), iff_of_false nofun (by omega), fun _ => nofun, by omega⟩
  exact ⟨⟨rfl, .inl ⟨rfl, rfl⟩, hstage⟩, rfl, nofun, nofun, nofun⟩

/-! ### What the game server is told -/

/-- Both goroutines are over. -/
def State.Ended (s : State) : Prop := s.send = .exit .finished ∧ s.recv = .exit .finished

/-- The game server has been told that the session has ended. -/
def State.Told (s : State) : Prop :=
  ∃ cs gameID why rest m, s.bus = cs ++ [.notice (notice s.id gameID why) m] ∧
    (∀ o ∈ cs, o.IsClient s.id) ∧ s.closes = why :: rest ∧ s.listed = false ∧
    3 ≤ passed s.send.exitPc ∧ 3 ≤ passed s.recv.exitPc

theorem Inv.told_or (h : Inv s) :
    ((∀ o ∈ s.bus, o.IsClient s.id) ∧ s.connClosed = false ∧ ¬s.Ended) ∨ s.Told := by
  have hstage := h.ending.stage
  by_cases hn : min (passed s.send.exitPc) (passed s.recv.exitPc) < 3
  · refine .inl ⟨hstage.clients hn, ?_, ?_⟩
    · exact Bool.eq_false_iff.mpr fun hclosed => by
        have := hstage.connClosed.mp hclosed
        omega
    · rintro ⟨hsend, hrecv⟩
      rw [hsend, hrecv] at hn
      exact absurd hn (by decide)
  · obtain ⟨cs, gameID, why, m, hwhy, hbus, hcs⟩ := hstage.noticed (by omega)
    have hhead := h.reason
    rw [hwhy] at hhead
    obtain ⟨rest, hcloses⟩ := List.head?_eq_some_iff.mp hhead.symm
    refine .inr ⟨cs, gameID, why, rest, m, hbus, hcs, hcloses, ?_, by omega, by omega⟩
    exact Bool.eq_false_iff.mpr fun hlisted => by
      have := hstage.listed.mp hlisted
      omega

/-- On the bus there are messages of the client, under the session's ID, until
the game server is told once that the session has ended, with the reason of the
first `Close`. Nothing follows, the session is not listed any more by then, and
the connection is closed after that. -/
theorem disconnect_told_last (id : UInt64) (s : State)
    (h : (machine id).Reachable Machine.anyStep s) :
    ((∀ o ∈ s.bus, o.IsClient s.id) ∧ s.connClosed = false ∧ ¬s.Ended) ∨ s.Told :=
  (reachable_inv h).told_or

/-- The bus of gateway 1. -/
def openBus : DataBus := ⟨0, 1, false, fun _ _ => true⟩

/-- What `NextReader` returns when the client has closed the connection. -/
def closedByClient : NetErr := ⟨some 1000, false, none, "websocket: close 1000 (normal)"⟩

/-- A client leaves, and both goroutines run to their ends. -/
def hangUp : List Act :=
  List.replicate 2 (.recv openBus (.err closedByClient)) ++ [.cancel] ++
    List.replicate 2 (.recv openBus (.err closedByClient)) ++
    List.replicate 8 (.send openBus false)

theorem exists_hangUp :
    ∃ s, (machine 7).exec Machine.anyStep (initial 7) hangUp = some s ∧ s.Ended :=
  ⟨_, rfl, rfl, rfl⟩

end Session

attribute [local instance] Wire.Base128.helpers

theorem hangUp_told_last : ∃ s : State, s.Ended ∧
    (((∀ o ∈ s.bus, o.IsClient s.id) ∧ s.connClosed = false ∧ ¬s.Ended) ∨ s.Told) := by
  obtain ⟨s, hrun, hended⟩ := exists_hangUp
  exact ⟨s, hended, disconnect_told_last 7 s (Machine.exec_reachable hangUp (.init rfl) hrun)⟩

end GameCluster.Gateway.Life
