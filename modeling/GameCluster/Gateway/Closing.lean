import Mathlib.Logic.Relation
import GameCluster.Gateway.Ending

/-!
What a session still does when it has been closed. `readLoop` looks at the
context only behind `forwardToSrv`, so one more message may get through, and
it waits for the client in `NextReader`. Apart from that neither goroutine
waits for anything that another one has to do first.
-/

namespace GameCluster.Gateway.Life

open Lib Bus Pb

section Session

variable [Wire.Protohelpers]

/-- Whether `readLoop` can come to `forwardToSrv` before it looks at the context. -/
def RecvPc.open : RecvPc → Bool
  | next | payload _ _ | forward _ => true
  | _ => false

/-- The messages that are forwarded after the context has been cancelled. -/
structure Late (s : State) : Prop where
  zero : s.cancelled = false → s.late = 0
  le : s.late ≤ 1
  opened : s.recv.open = true → s.late = 0

theorem Late.recv {s t : State} (h : Late s) {bs : DataBus} {msg : Incoming}
    (hstep : s.recvStep bs msg = some t) : Late t := by
  unfold State.recvStep at hstep
  split at hstep
  · rename_i hpc
    have hzero := h.opened (by rw [hpc]; rfl)
    split at hstep <;> cases hstep <;> exact ⟨h.zero, h.le, fun _ => hzero⟩
  · rename_i r err hpc
    have hzero := h.opened (by rw [hpc]; rfl)
    split at hstep <;> cases hstep <;> exact ⟨h.zero, h.le, fun _ => hzero⟩
  · rename_i src hpc
    have hzero := h.opened (by rw [hpc]; rfl)
    have hcount : (if s.cancelled then s.late + 1 else s.late) ≤ 1 ∧
        (s.cancelled = false → (if s.cancelled then s.late + 1 else s.late) = 0) := by
      rw [hzero]
      cases s.cancelled <;> simp
    dsimp only at hstep
    split at hstep <;> cases hstep <;> exact ⟨hcount.2, hcount.1, nofun⟩
  · split at hstep
    · cases hstep
      exact ⟨h.zero, h.le, nofun⟩
    · rename_i hdone
      cases hstep
      exact ⟨h.zero, h.le, fun _ => h.zero (Bool.eq_false_iff.mpr hdone)⟩
  · cases hstep
    exact ⟨h.zero, h.le, nofun⟩
  · rename_i again _
    split at hstep
    · cases hstep
      refine ⟨h.zero, h.le, ?_⟩
      cases again <;> nofun
    · cases hstep
  · obtain ⟨⟨s', pc'⟩, hexit, rfl⟩ := Option.map_eq_some_iff.mp hstep
    obtain ⟨loopCount, listed, bus, connClosed, rfl⟩ := exitStep_eq hexit
    exact ⟨h.zero, h.le, nofun⟩

theorem Late.step {s t : State} {a : Act} (h : Late s) (hstep : step s a = some t) : Late t := by
  cases a with
  | cancel =>
    simp only [Life.step] at hstep
    split at hstep <;> cases hstep
    exact ⟨fun hc => (by cases hc), h.le, h.opened⟩
  | send bs ok =>
    obtain ⟨_, _, _, _, _, _, _, _, _, _, _, rfl⟩ := sendStep_eq hstep
    exact ⟨h.zero, h.le, h.opened⟩
  | recv bs msg => exact h.recv hstep
  | _ =>
    cases hstep
    exact ⟨h.zero, h.le, h.opened⟩

theorem reachable_late {id : UInt64} {s : State} (h : (machine id).Reachable Machine.anyStep s) :
    Late s := by
  refine h.invariant (fun s hs => ?_) fun s a t _ hl _ hstep => hl.step hstep
  rw [show s = initial id from hs]
  exact ⟨fun _ => rfl, Nat.zero_le _, fun _ => rfl⟩

section Finishing

variable (bs : DataBus) (err : NetErr)

/-- A step of a goroutine of the session; `NextReader` returns an error. -/
def Own (s t : State) : Prop :=
  (∃ ok, step s (.send bs ok) = some t) ∨ step s (.recv bs (.err err)) = some t

/-- `sendLoop` runs to its end. -/
def SendEnds (s : State) : Prop :=
  ∃ t, Relation.ReflTransGen (Own bs err) s t ∧ t.send = .exit .finished ∧ t.recv = s.recv ∧
    t.cancelled = s.cancelled

/-- `readLoop` runs to its end. -/
def RecvEnds (s : State) : Prop :=
  ∃ t, Relation.ReflTransGen (Own bs err) s t ∧ t.recv = .exit .finished ∧ t.send = s.send ∧
    t.cancelled = s.cancelled

variable {bs err}

theorem SendEnds.of_step {s u : State} (ok : Bool) (h : s.sendStep bs ok = some u)
    (hu : SendEnds bs err u) : SendEnds bs err s := by
  obtain ⟨t, hrun, hsend, hrecv, hdone⟩ := hu
  have hstep : Own bs err s u := .inl ⟨ok, h⟩
  obtain ⟨_, _, _, _, _, _, _, _, _, _, _, rfl⟩ := sendStep_eq h
  exact ⟨t, .head hstep hrun, hsend, hrecv, hdone⟩

variable {s : State} {pc : ExitPc}

/-- `onLoopExit` runs to its end, in the goroutine that `pos` tells about. -/
theorem exit_ends (bs : DataBus) {P : State → Prop} (pos : State → ExitPc → Prop)
    (hfinished : ∀ s, pos s .finished → P s)
    (hstep : ∀ {s pc s' pc'}, pos s pc → s.exitStep bs pc = some (s', pc') →
      (∀ u, pos u pc' → P u) → P s)
    (h : pos s pc) : P s := by
  have hconnClose : ∀ s, pos s .connClose → P s := fun s h => hstep h rfl hfinished
  have hnotice : ∀ s, pos s .notice → P s := fun s h => hstep h rfl hconnClose
  have hremove : ∀ s, pos s .remove → P s := fun s h => hstep h rfl hnotice
  have hcount : ∀ s, pos s .count → P s := by
    intro s h
    refine hstep h rfl fun u hu => ?_
    split at hu
    · exact hremove u hu
    · exact hfinished u hu
  cases pc with
  | count => exact hcount s h
  | remove => exact hremove s h
  | notice => exact hnotice s h
  | connClose => exact hconnClose s h
  | finished => exact hfinished s h

theorem sendEnds_exit (h : s.send = .exit pc) : SendEnds bs err s := by
  refine exit_ends bs (fun s pc => s.send = .exit pc)
    (fun s hs => ⟨s, .refl, hs, rfl, rfl⟩) ?_ h
  intro s pc s' pc' hpc hexit hnext
  refine .of_step (u := { s' with send := .exit pc' }) true ?_ (hnext _ rfl)
  rw [State.sendStep, hpc]
  simp only [hexit, Option.map_some]

theorem sendEnds_closeFrame (h : s.send = .closeFrame) : SendEnds bs err s := by
  refine .of_step (u := { s with wire := s.wire ++ [.close], send := .exit .count }) true ?_
    (sendEnds_exit rfl)
  rw [State.sendStep, h]
  rfl

/-- The loop of `Range`, if what comes after it ends. -/
theorem sendEnds_write {final : Bool}
    (hafter : ∀ {s : State} {failed : Bool}, s.cancelled = true → s.send = .write final failed →
      s.out.read = [] → SendEnds bs err s)
    {failed : Bool} (hc : s.cancelled = true) (h : s.send = .write final failed) :
    SendEnds bs err s := by
  -- Each message takes one step, whether or not it is written.
  generalize hread : s.out.read = read
  induction read generalizing s with
  | nil => exact hafter hc h hread
  | cons v rest ih =>
    cases failed with
    | false =>
      let u := { s with
        out := { s.out with read := rest }
        wire := s.wire ++ [v.frame]
        wrote := s.wrote ++ [v] }
      refine .of_step (u := u) true ?_ (ih hc h rfl)
      rw [State.sendStep, h]
      simp [hread, u, h]
    | true =>
      refine .of_step (u := { s with out := { s.out with read := rest } }) true ?_ (ih hc h rfl)
      rw [State.sendStep, h]
      simp [hread]

theorem sendEnds_write_done {failed : Bool} (hc : s.cancelled = true)
    (h : s.send = .write true failed) : SendEnds bs err s := by
  refine sendEnds_write ?_ hc h
  intro s failed _ h hread
  refine .of_step (u := { s with send := .closeFrame }) true ?_ (sendEnds_closeFrame rfl)
  rw [State.sendStep, h]
  simp [hread]

theorem sendEnds_drain_done (hc : s.cancelled = true) (h : s.send = .drain true) :
    SendEnds bs err s := by
  refine .of_step (u := { s with out := s.out.swap, send := .write true false }) true ?_
    (sendEnds_write_done hc rfl)
  rw [State.sendStep, h]

theorem sendEnds_select (hc : s.cancelled = true) (h : s.send = .select) : SendEnds bs err s := by
  refine .of_step (u := { s with send := .drain true }) false ?_ (sendEnds_drain_done hc rfl)
  rw [State.sendStep, h]
  simp [hc]

theorem sendEnds_wait (hc : s.cancelled = true) (h : s.send = .wait) : SendEnds bs err s := by
  refine .of_step (u := { s with send := .exit .count }) true ?_ (sendEnds_exit rfl)
  rw [State.sendStep, h]
  simp [hc]

theorem sendEnds_close (hc : s.cancelled = true) (h : s.send = .close) : SendEnds bs err s := by
  refine .of_step (u := { s.enterClose DisconnectReason.netErr.number with send := .wait }) true ?_
    (sendEnds_wait hc rfl)
  rw [State.sendStep, h]

theorem sendEnds (hc : s.cancelled = true) : SendEnds bs err s := by
  have hwrite : ∀ {s : State} {failed : Bool}, s.cancelled = true →
      s.send = .write false failed → SendEnds bs err s := by
    refine fun hc h => sendEnds_write ?_ hc h
    intro s failed hc h hread
    cases failed with
    | false =>
      refine .of_step (u := { s with send := .select }) true ?_ (sendEnds_select hc rfl)
      rw [State.sendStep, h]
      simp [hread]
    | true =>
      refine .of_step (u := { s with send := .close }) true ?_ (sendEnds_close hc rfl)
      rw [State.sendStep, h]
      simp [hread]
  cases h : s.send with
  | select => exact sendEnds_select hc h
  | drain final =>
    cases final with
    | false =>
      refine .of_step (u := { s with out := s.out.swap, send := .write false false }) true ?_
        (hwrite hc rfl)
      rw [State.sendStep, h]
    | true => exact sendEnds_drain_done hc h
  | write final failed =>
    cases final with
    | false => exact hwrite hc h
    | true => exact sendEnds_write_done hc h
  | closeFrame => exact sendEnds_closeFrame h
  | close => exact sendEnds_close hc h
  | wait => exact sendEnds_wait hc h
  | exit pc => exact sendEnds_exit h

theorem RecvEnds.of_step {s u : State} (h : s.recvStep bs (.err err) = some u)
    (hu : RecvEnds bs err u) : RecvEnds bs err s := by
  obtain ⟨t, hrun, hrecv, hsend, hdone⟩ := hu
  have hstep : Own bs err s u := .inr h
  obtain ⟨_, _, _, _, _, _, _, _, rfl⟩ := recvStep_eq h
  exact ⟨t, .head hstep hrun, hrecv, hsend, hdone⟩

theorem recvEnds_exit (h : s.recv = .exit pc) : RecvEnds bs err s := by
  refine exit_ends bs (fun s pc => s.recv = .exit pc)
    (fun s hs => ⟨s, .refl, hs, rfl, rfl⟩) ?_ h
  intro s pc s' pc' hpc hexit hnext
  refine .of_step (u := { s' with recv := .exit pc' }) ?_ (hnext _ rfl)
  rw [State.recvStep, hpc]
  simp only [hexit, Option.map_some]

/-- In `Close`, if what comes after it ends. -/
theorem recvEnds_close {why : DisconnectReason} {again : Bool} (h : s.recv = .close why again)
    (hafter : ∀ {u : State}, u.cancelled = s.cancelled → u.recv = .wait again → RecvEnds bs err u) :
    RecvEnds bs err s := by
  refine .of_step (u := { s.enterClose why.number with recv := .wait again }) ?_ (hafter rfl rfl)
  rw [State.recvStep, h]

theorem recvEnds_return (hc : s.cancelled = true) (h : s.recv = .wait false) :
    RecvEnds bs err s := by
  refine .of_step (u := { s with recv := .exit .count }) ?_ (recvEnds_exit rfl)
  rw [State.recvStep, h]
  simp [hc]

theorem recvEnds_check (hc : s.cancelled = true) (h : s.recv = .check) : RecvEnds bs err s := by
  refine .of_step (u := { s with recv := .close .normal false }) ?_
    (recvEnds_close rfl fun hu h => recvEnds_return (hu.trans hc) h)
  rw [State.recvStep, h]
  simp [hc]

theorem recvEnds_wait {again : Bool} (hc : s.cancelled = true) (h : s.recv = .wait again) :
    RecvEnds bs err s := by
  cases again with
  | false => exact recvEnds_return hc h
  | true =>
    refine .of_step (u := { s with recv := .check }) ?_ (recvEnds_check hc rfl)
    rw [State.recvStep, h]
    simp [hc]

theorem recvEnds (hc : s.cancelled = true) : RecvEnds bs err s := by
  have hclose : ∀ {s : State} {why : DisconnectReason} {again : Bool}, s.cancelled = true →
      s.recv = .close why again → RecvEnds bs err s := fun hc h =>
    recvEnds_close h fun hu h => recvEnds_wait (hu.trans hc) h
  have hforward : ∀ {s : State} {src : List UInt8}, s.cancelled = true → s.recv = .forward src →
      RecvEnds bs err s := by
    intro s src hc h
    -- It is closed, or the context is looked at.
    have hstep : ∃ bus late recv, s.recvStep bs (.err err) = some { s with bus, late, recv } ∧
        (recv = .close .decodeErr true ∨ recv = .check) := by
      rw [State.recvStep, h]
      dsimp only
      cases forwardToSrv bs ⟨s.id, s.gameID⟩ src with
      | closed => exact ⟨_, _, _, rfl, .inl rfl⟩
      | refused | failed err | sent subject m => exact ⟨_, _, _, rfl, .inr rfl⟩
    obtain ⟨bus, late, recv, hstep, rfl | rfl⟩ := hstep
    · exact .of_step hstep (hclose hc rfl)
    · exact .of_step hstep (recvEnds_check hc rfl)
  cases h : s.recv with
  | next =>
    refine .of_step (u := { s with recv := .close (classifyReadErr err) false }) ?_
      (hclose hc rfl)
    rw [State.recvStep, h]
  | payload r err' =>
    have hstep : ∃ recv, s.recvStep bs (.err err) = some { s with recv } ∧
        ((∃ src, recv = .forward src) ∨ ∃ why, recv = .close why false) := by
      rw [State.recvStep, h]
      dsimp only
      split
      · exact ⟨_, rfl, .inl ⟨_, rfl⟩⟩
      · exact ⟨_, rfl, .inr ⟨_, rfl⟩⟩
      · exact ⟨_, rfl, .inr ⟨_, rfl⟩⟩
    obtain ⟨recv, hstep, ⟨src, rfl⟩ | ⟨why, rfl⟩⟩ := hstep
    · exact .of_step hstep (hforward hc rfl)
    · exact .of_step hstep (hclose hc rfl)
  | forward src => exact hforward hc h
  | check => exact recvEnds_check hc h
  | close why again => exact hclose hc h
  | wait again => exact recvEnds_wait hc h
  | exit pc => exact recvEnds_exit h

theorem reachable_own {id : UInt64} {s t : State} (h : (machine id).Reachable Machine.anyStep s)
    (hrun : Relation.ReflTransGen (Own bs err) s t) : (machine id).Reachable Machine.anyStep t := by
  induction hrun with
  | refl => exact h
  | tail _ hown ih =>
    rcases hown with ⟨ok, hstep⟩ | hstep
    · exact .step (a := .send bs ok) ih trivial hstep
    · exact .step (a := .recv bs (.err err)) ih trivial hstep

end Finishing

/-- Once the context is cancelled, `forwardToSrv` is called once more at most,
and from any point the goroutines can run to their ends by steps of their own,
if `NextReader` returns an error: nothing is waited for that does not come.
The game server has been told then. -/
theorem closed_session_can_end (id : UInt64) (s : State)
    (h : (machine id).Reachable Machine.anyStep s) (hc : s.cancelled = true) (bs : DataBus)
    (err : NetErr) :
    s.late ≤ 1 ∧ ∃ t, Relation.ReflTransGen (Own bs err) s t ∧ t.Ended ∧ t.Told ∧ t.late ≤ 1 := by
  obtain ⟨u, hrun, hsend, hrecv, hdone⟩ : SendEnds bs err s := sendEnds hc
  obtain ⟨t, hrun', hrecv', hsend', -⟩ : RecvEnds bs err u := recvEnds (hdone.trans hc)
  have hended : t.Ended := ⟨hsend'.trans hsend, hrecv'⟩
  have ht := reachable_own h (hrun.trans hrun')
  exact ⟨(reachable_late h).le, t, hrun.trans hrun', hended,
    (reachable_inv ht).told_or.resolve_left fun hopen => hopen.2.2 hended, (reachable_late ht).le⟩

/-- The game server has a session closed that is in the middle of a packet. -/
def kicked : List Act :=
  [.recv openBus (.binary ⟨[0, 3, 13, 68, 8, 1], fun _ => 2, .eofAfter⟩ closedByClient),
    .push ⟨200004, []⟩, .close DisconnectReason.kick.number, .cancel]

theorem exists_kicked : ∃ s, (machine 7).exec Machine.anyStep (initial 7) kicked = some s ∧
    s.cancelled = true :=
  ⟨_, rfl, rfl⟩

end Session

attribute [local instance] Wire.Base128.helpers

theorem kicked_can_end : ∃ s : State, s.cancelled = true ∧ s.late ≤ 1 ∧
    ∃ t, Relation.ReflTransGen (Own openBus closedByClient) s t ∧ t.Ended ∧ t.Told ∧
      t.late ≤ 1 := by
  obtain ⟨s, hrun, hc⟩ := exists_kicked
  exact ⟨s, hc, closed_session_can_end 7 s (Machine.exec_reachable kicked (.init rfl) hrun) hc
    openBus closedByClient⟩

end GameCluster.Gateway.Life
