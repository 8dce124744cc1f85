import GameCluster.Bus.Delivery

/-!
The order in which a batcher passes messages on. Buffers are detached in the
order of the mutex, and what each holds is in that order too, so messages are
passed on in the order in which they were added as long as buffers are passed
to `flushFn` in the order in which they were detached. Nothing in the batcher
sees to that: the timer goroutine may have detached a buffer and a sender may
pass on a later one first.
-/

namespace GameCluster.Bus

open Lib

/-- `flushFn` is called for a buffer once it has been called for every buffer
that was detached before it. -/
def inTurn (s : State) : Act → Prop
  | .call i => ∀ d ∈ s.detached.take i, d.called = true
  | _ => True

instance (s : State) (a : Act) : Decidable (inTurn s a) := by
  unfold inTurn
  split <;> infer_instance

/-- What is passed on holds the messages of each sender in the order in which
the sender added them. -/
structure InOrder (s : State) : Prop where
  bytes : s.flushed.flatMap (·.buf) = frames (msgsOf s.passed)
  senders : ∀ i, (s.passed.filter (·.sender = i)).Pairwise (·.n < ·.n)

/-- With buffers passed on in turn, the ledger is the history of the calls. -/
theorem ledger_reachable {s : State} (h : batcher.Reachable inTurn s) : s.ledger = s.accepted := by
  refine h.invariant (P := fun s => s.ledger = s.accepted) ?_ ?_
  · rintro _ rfl
    rfl
  · intro s a s' hr hledger hok hs
    cases (Inv.reachable hr).framed.ledgerMove (step_effect hs) with
    | grow new hgrow haccepted => rw [hgrow, haccepted, hledger]
    | call front task back hact hfront hold hnew haccepted =>
      subst hact
      obtain rfl := hfront hok
      rw [haccepted, ← hledger, hold, hnew]
      simp

theorem Framed.flushed_bytes {s : State} (h : Framed s) :
    s.flushed.flatMap (·.buf) = frames (msgsOf s.passed) := by
  have hlist : ∀ flushed : List FlushTask, (∀ t ∈ flushed, t.Sound) →
      flushed.flatMap (·.buf) = frames (msgsOf (flushed.flatMap (·.calls))) := by
    intro flushed hsound
    induction flushed with
    | nil => rfl
    | cons t rest ih =>
      rw [List.flatMap_cons, List.flatMap_cons, (hsound t (List.mem_cons_self ..)).buf,
        ih fun u hu => hsound u (List.mem_cons_of_mem _ hu), msgsOf, msgsOf, msgsOf,
        List.map_append, frames_append]
  exact hlist s.flushed h.flushed

/-- The messages of one sender are passed on in the order in which they were
added. -/
theorem sender_order_kept {s : State} (h : batcher.Reachable inTurn s) : InOrder s := by
  have hinv := Inv.reachable h
  refine ⟨hinv.framed.flushed_bytes, fun i => ?_⟩
  have hpassed : s.passed.Pairwise (·.n < ·.n) := by
    have hall := hinv.numbered.accepted
    rw [← ledger_reachable h, State.ledger] at hall
    exact (List.pairwise_append.mp hall).1
  exact hpassed.filter _

/-- A message that fits leaves the buffer waiting. -/
theorem add_small (c : AddCall) {arr : List UInt8} (harr : arr.length = buffSize)
    (hsmall : c.msg.frameSize < buffSize) :
    ∃ b, b.calls = [c] ∧ Batch.add ⟨none, 0⟩ c arr arr = some (⟨some b, 1⟩, []) := by
  have hcap : (Buffer.fresh arr).cap = buffSize := harr
  have hframe : c.msg.frameSize = frameLenSize + c.msg.bodySize := rfl
  have hfits : (Buffer.fresh arr).len + (frameLenSize + c.msg.bodySize) ≤
      (Buffer.fresh arr).cap := by
    have hlen : (Buffer.fresh arr).len = 0 := rfl
    omega
  obtain ⟨b, hb, _, hlen, _, hcalls⟩ := (Buffer.fresh arr).append_spec c hfits
  have hzero : b.len = frameLenSize + c.msg.bodySize := by
    rw [hlen]
    exact Nat.zero_add _
  refine ⟨b, hcalls, ?_⟩
  have hroom : Batch.makeRoom (Option.getD none (Buffer.fresh arr)) 0
      (frameLenSize + c.msg.bodySize) arr = (⟨some (Buffer.fresh arr), 0⟩, []) := by
    rw [Option.getD_none, Batch.makeRoom, if_neg (by simp [Buffer.fresh])]
  simp only [Batch.add, hroom, Option.bind_eq_bind, Option.bind_some]
  rw [if_neg (by omega), hb, Option.bind_some, if_neg (by rw [batchCount]; omega)]

/-- A sender adds a message, and the timer goroutine detaches the buffer. -/
theorem timerDetaches_reaches (ok : State → Act → Prop) {m : Message} {arr : List UInt8}
    (harr : arr.length = buffSize) (hsmall : m.frameSize < buffSize)
    (hok : ∀ s, ∀ a ∈ [Act.add 0 m arr arr, .wake false, .flush], ok s a) :
    ∃ s t, batcher.Reachable ok s ∧ s.batch = ⟨none, 0⟩ ∧ s.state = .stateRunning ∧
      s.next = 1 ∧ s.flushed = [] ∧ s.detached = [⟨.loop, t, false⟩] ∧
      t.calls = [⟨0, 0, m⟩] := by
  obtain ⟨b, hcalls, hb⟩ := add_small ⟨0, 0, m⟩ harr hsmall
  have hadd := add_accepted (s := State.initial) (i := 0) (by simp [State.initial])
    (le_of_eq harr.symm) rfl hb
  have h1 := Machine.Reachable.step (m := batcher) (.init rfl) (hok _ _ (by simp)) hadd
  have h2 := h1.step (a := .wake false) (hok _ _ (by simp)) rfl
  have h3 := h2.step (a := .flush) (hok _ _ (by simp)) rfl
  exact ⟨_, detach b 1, h3, rfl, rfl, rfl, rfl, rfl, hcalls⟩

theorem timerFlush_in_order : ∃ s, batcher.Reachable inTurn s ∧ s.passed ≠ [] ∧ InOrder s := by
  obtain ⟨m, hm⟩ := exists_message 0
  obtain ⟨arr, harr⟩ := exists_array
  obtain ⟨s, t, hs, _, _, _, hflushed, hdetached, hcalls⟩ :=
    timerDetaches_reaches inTurn harr (by rw [hm, buffSize, batchCount]; omega)
      (by
        intro s a ha
        simp only [List.mem_cons, List.not_mem_nil, or_false] at ha
        rcases ha with rfl | rfl | rfl <;> trivial)
  have hcall := call_accepted (i := 0) (by rw [hdetached]; rfl) rfl (by simp [State.turnOf])
  have hnext := hs.step (a := .call 0) (by simp [inTurn]) hcall
  refine ⟨_, hnext, ?_, sender_order_kept hnext⟩
  simp [State.passed, hcalls]

/-- A sender adds two messages. The timer goroutine detaches the buffer with
the first one, and the sender passes on the second one before the timer
goroutine has passed on the first. -/
theorem timerOvertaken_out_of_order : ∃ s, batcher.Reachable Machine.anyStep s ∧ ¬InOrder s := by
  obtain ⟨first, hfirst⟩ := exists_message 0
  obtain ⟨second, hsecond⟩ := exists_message 600000
  obtain ⟨arr, harr⟩ := exists_array
  obtain ⟨s, t, hs, hbatch, hstate, hnext, hflushed, hdetached, hcalls⟩ :=
    timerDetaches_reaches Machine.anyStep harr
      (by rw [hfirst, buffSize, batchCount]; omega) fun _ _ _ => trivial
  have hlarge : arr.length < second.frameSize := by
    rw [harr, hsecond, buffSize, batchCount]
    omega
  have hadd := add_accepted (s := s) (i := 0) (m := second) (by simp [hdetached])
    (le_of_eq harr.symm) hstate (add_large (by rw [hbatch]) hlarge)
  have h1 := hs.step (a := .add 0 second arr arr) trivial hadd
  have h2 := h1.step (a := .call 1) trivial
    (call_accepted (by simp only [hdetached]; rfl) rfl (by simp [State.turnOf, hdetached]))
  have h3 := h2.step (a := .call 0) trivial
    (call_accepted (by simp only [hdetached]; rfl) rfl (by simp [State.turnOf]))
  refine ⟨_, h3, fun h => ?_⟩
  have hpair := h.senders 0
  simp [State.passed, hflushed, hcalls, hnext] at hpair

end GameCluster.Bus
