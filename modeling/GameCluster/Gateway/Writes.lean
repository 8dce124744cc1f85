import GameCluster.Gateway.Ending

/-!
What a client gets. `sendLoop` takes what was pushed out of the queue in order
and writes it until a write fails. When it sees that the context is done it
empties the queue once more before it writes the close frame, so what was
pushed before the session was closed is not lost.
-/

namespace GameCluster.Gateway.Life

open Lib Bus Pb

section Session

variable [Wire.Protohelpers]

namespace SendPc

/-- In the loop of `Range`. -/
def writing : SendPc → Bool
  | write _ _ => true
  | _ => false

/-- Behind a write that has failed, before the end. -/
def failed : SendPc → Bool
  | write _ failed => failed
  | close | wait => true
  | _ => false

/-- Behind the last write of a message. -/
def behind : SendPc → Bool
  | closeFrame | exit _ => true
  | _ => false

end SendPc

structure Written (s : State) : Prop where
  wire : s.wire = s.wrote.map MsgSend.frame ∨
    s.wire = s.wrote.map MsgSend.frame ++ [.close] ∧ s.send.exitPc ≠ none
  front : s.wrote <+: s.pushed
  queued : s.broken = false → s.wrote ++ s.out.waiting = s.pushed
  read : s.send.writing = false → s.out.read = []
  broken : s.send.behind = false → s.broken = s.send.failed
  early : s.early ≤ s.pushed.length
  last : ∀ failed, s.send = .write true failed → s.broken = false →
    s.early ≤ s.wrote.length + s.out.read.length
  saved : s.send.behind = true → s.broken = false → s.early ≤ s.wrote.length

variable {s t : State}

theorem Written.wire_open (h : Written s) (hpc : s.send.exitPc = none) :
    s.wire = s.wrote.map MsgSend.frame :=
  h.wire.resolve_right fun hclose => hclose.2 hpc

/-- Whatever is done without the queue and the connection. -/
theorem Written.others (h : Written s) {gameID : Int32} {reason : Option (BitVec 32)}
    {closes : List (BitVec 32)} {loopCount : ℤ} {recv : RecvPc} {listed connClosed : Bool}
    {bus : List Out} {late : ℕ} :
    Written { s with gameID, reason, closes, loopCount, recv, listed, connClosed, bus, late } :=
  ⟨h.wire, h.front, h.queued, h.read, h.broken, h.early, h.last, h.saved⟩

theorem Written.push (h : Written s) (v : MsgSend) :
    Written { s with
      out := (s.out.push v).1
      pushed := if (s.out.push v).2 = none then s.pushed ++ [v] else s.pushed } := by
  have hread := (s.out.push_contents v).1
  have hgrown : s.pushed <+: if (s.out.push v).2 = none then s.pushed ++ [v] else s.pushed := by
    split
    · exact List.prefix_append _ _
    · exact List.prefix_rfl
  refine ⟨h.wire, h.front.trans hgrown, fun hb => ?_, fun hw => hread.trans (h.read hw), h.broken,
    h.early.trans hgrown.length_le, ?_, h.saved⟩
  · dsimp only
    rw [s.out.push_waiting v]
    split
    · rw [← List.append_assoc, h.queued hb]
    · exact h.queued hb
  · intro failed hpc hb
    rw [hread]
    exact h.last failed hpc hb

/-- `Range` takes over all that is waiting. -/
theorem Written.swap (h : Written s) {final : Bool} (hpc : s.send = .drain final) :
    Written { s with out := s.out.swap, send := .write final false } := by
  have hread := h.read (by rw [hpc]; rfl)
  have hbroken : s.broken = false := by
    rw [h.broken (by rw [hpc]; rfl), hpc]
    rfl
  have hwaiting := s.out.swap_waiting hread
  have htaken : s.out.swap.read = s.out.waiting := by
    rw [SwapQueue.waiting, hread, List.nil_append, SwapQueue.swap]
    split
    · rename_i hempty
      rw [hread, List.isEmpty_iff.mp hempty]
    · rfl
  refine ⟨.inl (h.wire_open (by rw [hpc]; rfl)), h.front, fun hb => ?_, fun hw => (by cases hw),
    fun _ => hbroken, h.early, ?_, fun hw => (by cases hw)⟩
  · dsimp only
    rw [hwaiting]
    exact h.queued hb
  · intro failed _ hb
    dsimp only
    rw [htaken, ← List.length_append, h.queued hb]
    exact h.early

/-- One message of the loop of `Range`. -/
theorem Written.write (h : Written s) {final failed : Bool} (hpc : s.send = .write final failed)
    {v : MsgSend} {rest : List MsgSend} (hread : s.out.read = v :: rest) {bs : DataBus}
    {ok : Bool} (hstep : s.sendStep bs ok = some t) : Written t := by
  have hopen := h.wire_open (by rw [hpc]; rfl)
  have hbroken := h.broken (by rw [hpc]; rfl)
  rw [hpc] at hbroken
  have hqueued : s.broken = false → (s.wrote ++ [v]) ++ (rest ++ s.out.write) = s.pushed := by
    intro hb
    rw [← h.queued hb, SwapQueue.waiting, hread]
    simp
  rw [State.sendStep, hpc] at hstep
  simp only [hread] at hstep
  cases failed with
  | true =>
    cases hstep
    have hnot : s.broken ≠ false := fun hb => Bool.false_ne_true (hb.symm.trans hbroken)
    exact ⟨.inl hopen, h.front, fun hb => absurd hb hnot, fun hw => (by cases hw),
      fun _ => hbroken, h.early, fun _ _ hb => absurd hb hnot, fun hw => (by cases hw)⟩
  | false =>
    cases ok with
    | true =>
      cases hstep
      refine ⟨.inl ?_, ?_, fun hb => hqueued hb, fun hw => (by cases hw), fun _ => hbroken,
        h.early, ?_, fun hw => (by cases hw)⟩
      · dsimp only
        rw [hopen, List.map_append]
        rfl
      · exact ⟨_, hqueued hbroken⟩
      · intro failed hpc' hb
        have hlast := h.last false (by rw [hpc]; cases hpc'; rfl) hb
        rw [hread, List.length_cons] at hlast
        simp only [List.length_append, List.length_singleton]
        omega
    | false =>
      cases hstep
      exact ⟨.inl hopen, h.front, fun hb => (by cases hb), fun hw => (by cases hw), fun _ => rfl,
        h.early, fun _ _ hb => (by cases hb), fun hw => (by cases hw)⟩

/-- `sendLoop` goes on with nothing left of what it has taken. -/
theorem Written.goto (h : Written s) (hopen : s.send.exitPc = none) (hread : s.out.read = [])
    {pc : SendPc} {sig : Bool} (hpc : pc.writing = false)
    (hbroken : pc.behind = false → s.broken = pc.failed)
    (hsaved : pc.behind = true → s.broken = false → s.early ≤ s.wrote.length) :
    Written { s with out := { s.out with sig }, send := pc } := by
  refine ⟨.inl (h.wire_open hopen), h.front, h.queued, fun _ => hread, hbroken, h.early, ?_, hsaved⟩
  rintro failed rfl
  cases hpc

theorem Written.send (h : Written s) {bs : DataBus} {ok : Bool}
    (hstep : s.sendStep bs ok = some t) : Written t := by
  have hstep' := hstep
  have hopen := h.wire_open
  have hread := h.read
  have hbroken := h.broken
  have hsaved := h.saved
  unfold State.sendStep at hstep
  split at hstep <;> rename_i hpc <;> rw [hpc] at hopen hread hbroken hsaved
  · split at hstep
    · split at hstep <;> cases hstep
      exact h.goto (by rw [hpc]; rfl) (hread rfl) rfl (fun _ => hbroken rfl) nofun
    · split at hstep <;> cases hstep
      exact h.goto (by rw [hpc]; rfl) (hread rfl) rfl (fun _ => hbroken rfl) nofun
  · cases hstep
    exact h.swap hpc
  · rename_i final failed
    split at hstep
    · rename_i v rest hcons
      exact h.write hpc hcons hstep'
    · rename_i hnil
      split at hstep
      · rename_i hfinal
        cases hstep
        refine h.goto (by rw [hpc]; rfl) hnil rfl nofun fun _ hb => ?_
        have hlast := h.last failed (by rw [hpc, hfinal]) hb
        rwa [hnil] at hlast
      · cases hstep
        cases failed with
        | false | true =>
          exact h.goto (by rw [hpc]; rfl) hnil rfl (fun _ => hbroken rfl) nofun
  · cases hstep
    refine ⟨?_, h.front, h.queued, fun _ => hread rfl, nofun, h.early, nofun, fun _ => hsaved rfl⟩
    cases ok with
    | false => exact .inl (hopen rfl)
    | true => exact .inr ⟨congrArg (· ++ [Frame.close]) (hopen rfl), nofun⟩
  · cases hstep
    have hwait : Written { s with send := .wait } :=
      h.goto (by rw [hpc]; rfl) (hread rfl) rfl (fun _ => hbroken rfl) nofun
    exact hwait.others
  · split at hstep <;> cases hstep
    refine h.goto (by rw [hpc]; rfl) (hread rfl) rfl nofun fun _ hb => ?_
    exact absurd (hb.symm.trans (hbroken rfl)) Bool.false_ne_true
  · obtain ⟨⟨s', pc'⟩, hexit, rfl⟩ := Option.map_eq_some_iff.mp hstep
    obtain ⟨loopCount, listed, bus, connClosed, rfl⟩ := exitStep_eq hexit
    exact ⟨h.wire.imp_right fun hw => ⟨hw.1, nofun⟩, h.front, h.queued, fun _ => hread rfl, nofun,
      h.early, nofun, fun _ => hsaved rfl⟩

theorem Written.step {a : Act} (h : Written s) (hinv : Inv s) (hstep : step s a = some t) :
    Written t := by
  cases a with
  | close why | updateSerId gameID =>
    cases hstep
    exact h.others
  | cancel =>
    simp only [Life.step] at hstep
    split at hstep <;> cases hstep
    rename_i hopen
    -- `sendLoop` has not begun to empty the queue for the last time.
    have hfinal : s.send.final = false := by
      refine Bool.eq_false_iff.mpr fun hf => ?_
      exact absurd (hinv.sendDone hf) (by rw [hopen.2]; exact Bool.false_ne_true)
    refine ⟨h.wire, h.front, h.queued, h.read, h.broken, Nat.le_refl _, ?_, ?_⟩
    · intro failed hpc
      rw [show s.send = .write true failed from hpc] at hfinal
      cases hfinal
    · intro hbehind
      cases hpc : s.send <;> simp_all [SendPc.behind, SendPc.final]
  | push v =>
    cases hstep
    exact h.push v
  | send bs ok => exact h.send hstep
  | recv bs msg =>
    obtain ⟨_, _, _, _, _, _, _, _, rfl⟩ := recvStep_eq hstep
    exact h.others

theorem reachable_written {id : UInt64} (h : (machine id).Reachable Machine.anyStep s) :
    Written s := by
  refine h.invariant (fun s hs => ?_) fun s a t hr hw _ hstep => hw.step (reachable_inv hr) hstep
  rw [show s = initial id from hs]
  exact ⟨.inl rfl, List.prefix_rfl, fun _ => rfl, fun _ => rfl, fun _ => rfl, Nat.le_refl _, nofun,
    nofun⟩

/-- The client gets what was pushed in order, as far as it is written, and
nothing behind the close frame. When `sendLoop` has ended and no write has
failed, it got all that was pushed before the session was closed. -/
theorem client_gets_pushed (id : UInt64) (s : State)
    (h : (machine id).Reachable Machine.anyStep s) :
    s.wrote <+: s.pushed ∧
      (s.wire = s.wrote.map MsgSend.frame ∨
        s.wire = s.wrote.map MsgSend.frame ++ [.close] ∧ s.send.exitPc ≠ none) ∧
      (s.send.exitPc ≠ none → s.broken = false → s.pushed.take s.early <+: s.wrote) := by
  have hw := reachable_written h
  refine ⟨hw.front, hw.wire, fun hpc hb => ?_⟩
  have hbehind : s.send.behind = true := by
    cases hsend : s.send <;> rw [hsend] at hpc <;> first | rfl | exact absurd rfl hpc
  obtain ⟨rest, hrest⟩ := hw.front
  rw [← hrest, List.take_append_of_le_length (hw.saved hbehind hb)]
  exact List.take_prefix _ _

/-- A session is closed between two pushes. -/
def pushedAround : List Act :=
  [.push ⟨200004, [1]⟩, .close DisconnectReason.kick.number, .cancel, .push ⟨200005, [2]⟩,
    .send openBus false] ++ List.replicate 5 (.send openBus true)

theorem exists_pushedAround :
    ∃ s, (machine 7).exec Machine.anyStep (initial 7) pushedAround = some s ∧ s.early = 1 ∧
      s.send.exitPc ≠ none ∧ s.broken = false :=
  ⟨_, rfl, rfl, nofun, rfl⟩

end Session

attribute [local instance] Wire.Base128.helpers

theorem pushedAround_written : ∃ s : State, s.early = 1 ∧ s.send.exitPc ≠ none ∧
    s.broken = false ∧ s.wrote <+: s.pushed ∧
      (s.wire = s.wrote.map MsgSend.frame ∨
        s.wire = s.wrote.map MsgSend.frame ++ [.close] ∧ s.send.exitPc ≠ none) ∧
      (s.send.exitPc ≠ none → s.broken = false → s.pushed.take s.early <+: s.wrote) := by
  obtain ⟨s, hrun, hearly, hpc, hbroken⟩ := exists_pushedAround
  exact ⟨s, hearly, hpc, hbroken,
    client_gets_pushed 7 s (Machine.exec_reachable pushedAround (.init rfl) hrun)⟩

end GameCluster.Gateway.Life
