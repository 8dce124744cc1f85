import GameCluster.Bus.Batcher
import GameCluster.Lib.Table

/-!
What a batcher delivers. Every buffer that is passed to `flushFn` is a
concatenation of whole frames, every accepted message is in exactly one place
(passed on, detached, or in the current buffer), and after `Close` has returned
it has been passed on.
-/

namespace GameCluster.Bus

open Lib

/-- The messages of some calls of `Add`. -/
def msgsOf (calls : List AddCall) : List Message := calls.map (·.msg)

/-- A task holds the frames of its calls. -/
structure FlushTask.Sound (t : FlushTask) : Prop where
  buf : t.buf = frames (msgsOf t.calls)
  count : t.count = t.calls.length

/-- The calls whose frames are in the current buffer. -/
def Batch.calls (tb : Batch) : List AddCall := (tb.buf.map (·.calls)).getD []

structure Buffer.Sound (b : Buffer) (count : Nat) : Prop where
  fits : b.len ≤ b.cap
  cap : buffSize ≤ b.cap
  bytes : b.bytes = frames (msgsOf b.calls)
  count : count = b.calls.length

structure Batch.Sound (tb : Batch) : Prop where
  held : ∀ b, tb.buf = some b → b.Sound tb.count
  idle : tb.buf = none → tb.count = 0

theorem frames_msgsOf_eq_nil {calls : List AddCall} (h : frames (msgsOf calls) = []) :
    calls = [] := by
  cases calls with
  | nil => rfl
  | cons c rest =>
    have hlen := congrArg List.length h
    simp only [msgsOf, List.map_cons, frames_cons, List.length_append, Message.length_frame,
      Message.frameSize, frameLenSize, List.length_nil] at hlen
    omega

variable {b : Buffer} {count i : Nat} {arr : List UInt8} {c : AddCall} {tb : Batch} {s s' : State}
  {m : Message} {detached : List Detached} {d : Detached}

theorem Buffer.Sound.detach (h : b.Sound count) : (detach b count).Sound :=
  ⟨h.bytes, h.count⟩

theorem Buffer.fresh_sound (h : buffSize ≤ arr.length) : (Buffer.fresh arr).Sound 0 where
  fits := Nat.zero_le _
  cap := h
  bytes := rfl
  count := rfl

/-- Writing a frame that fits extends the buffer by it. -/
theorem Buffer.append_spec (c : AddCall) (hfits : b.len + (frameLenSize + c.msg.bodySize) ≤ b.cap) :
    ∃ b', b.append c = some b' ∧ b'.cap = b.cap ∧
      b'.len = b.len + (frameLenSize + c.msg.bodySize) ∧
      b'.bytes = b.bytes ++ c.msg.frame ∧ b'.calls = b.calls ++ [c] := by
  have hcap : b.cap = b.arr.length := rfl
  have hslot : ((b.arr.drop b.len).take (frameLenSize + c.msg.bodySize)).length =
      c.msg.frameSize := by
    rw [List.length_take_of_le (by rw [List.length_drop]; omega), Message.frameSize]
  have hframe : c.msg.frame.length = frameLenSize + c.msg.bodySize := c.msg.length_frame
  have hput : Bytes.put b.arr b.len c.msg.frame =
      some (b.bytes ++ c.msg.frame ++ b.arr.drop (b.len + c.msg.frame.length)) := by
    rw [Bytes.put, if_pos (by omega), Buffer.bytes]
  have hbytes : b.bytes.length = b.len := by
    rw [Buffer.bytes, List.length_take_of_le (by omega)]
  refine ⟨⟨b.bytes ++ c.msg.frame ++ b.arr.drop (b.len + c.msg.frame.length),
    b.len + (frameLenSize + c.msg.bodySize), b.calls ++ [c]⟩, ?_, ?_, rfl, ?_, rfl⟩
  · simp only [Buffer.append]
    rw [if_neg (by omega), Message.encodeTo_eq c.msg hslot, Option.bind_eq_bind,
      Option.bind_some, hput]
    rfl
  · simp only [Buffer.cap, List.length_append, List.length_drop, hbytes, hframe]
    omega
  · rw [Buffer.bytes]
    apply List.take_left'
    rw [List.length_append, hbytes, hframe]

theorem Buffer.Sound.append {b b' : Buffer} (h : b.Sound count)
    (hfits : b.len + (frameLenSize + c.msg.bodySize) ≤ b.cap) (hb : b.append c = some b') :
    b'.Sound (count + 1) ∧ b'.calls = b.calls ++ [c] := by
  obtain ⟨b₁, hb₁, hcap, hlen, hbytes, hcalls⟩ := b.append_spec c hfits
  cases hb₁.symm.trans hb
  refine ⟨⟨?_, ?_, ?_, ?_⟩, hcalls⟩
  · omega
  · rw [hcap]
    exact h.cap
  · rw [hbytes, hcalls, h.bytes, msgsOf, msgsOf, List.map_append, frames_append]
    simp
  · rw [hcalls, List.length_append, h.count]
    rfl

/-- What `makeRoom` leaves: a sound buffer behind which the frame fits, or
which is empty. -/
theorem makeRoom_spec {other : List UInt8} (h : b.Sound count) (frameSize : Nat)
    (hother : buffSize ≤ other.length) :
    ∃ b' count' tasks, Batch.makeRoom b count frameSize other = (⟨some b', count'⟩, tasks) ∧
      b'.Sound count' ∧ (b'.len + frameSize ≤ b'.cap ∨ b'.len = 0) ∧
      (∀ t ∈ tasks, t.Sound) ∧ tasks.flatMap (·.calls) ++ b'.calls = b.calls := by
  unfold Batch.makeRoom
  split
  · refine ⟨_, _, _, rfl, Buffer.fresh_sound hother, Or.inr rfl, ?_, ?_⟩
    · intro t ht
      rw [List.mem_singleton.mp ht]
      exact h.detach
    · simp [detach, Buffer.fresh]
  · rename_i hroom
    refine ⟨_, _, _, rfl, h, ?_, by simp, by simp⟩
    omega

/-- `Add` under the mutex does not panic, and puts the new call behind those of
the buffer. -/
theorem Batch.Sound.add (h : tb.Sound) (c : AddCall) {first second : List UInt8}
    (hfirst : buffSize ≤ first.length) (hsecond : buffSize ≤ second.length) :
    ∃ tb' tasks, tb.add c first second = some (tb', tasks) ∧ tb'.Sound ∧
      (∀ t ∈ tasks, t.Sound) ∧ tasks.flatMap (·.calls) ++ tb'.calls = tb.calls ++ [c] := by
  have hbuf : (tb.buf.getD (Buffer.fresh first)).Sound tb.count ∧
      (tb.buf.getD (Buffer.fresh first)).calls = tb.calls := by
    cases hb : tb.buf with
    | none =>
      rw [h.idle hb]
      exact ⟨Buffer.fresh_sound hfirst, by simp [Batch.calls, hb, Buffer.fresh]⟩
    | some b => exact ⟨h.held b hb, by simp [Batch.calls, hb]⟩
  obtain ⟨b, count, tasks, hroom, hb, hlen, htasks, hcalls⟩ :=
    makeRoom_spec hbuf.1 (frameLenSize + c.msg.bodySize) hsecond
  rw [Batch.add, hroom]
  simp only [Option.bind_eq_bind, Option.bind_some]
  by_cases hcap : b.cap < frameLenSize + c.msg.bodySize
  · -- The frame gets a buffer of its own. What makes room for it has left none behind.
    have hempty : b.calls = [] := by
      apply frames_msgsOf_eq_nil
      rw [← hb.bytes, Buffer.bytes, hlen.resolve_left (by omega), List.take_zero]
    have hmonster : (List.replicate (frameLenSize + c.msg.bodySize) (0 : UInt8)).length =
        c.msg.frameSize := List.length_replicate
    rw [if_pos hcap, Message.encodeTo_eq c.msg hmonster, Option.bind_some]
    refine ⟨_, _, rfl, ⟨?_, by simp⟩, ?_, ?_⟩
    · intro b' hb'
      cases hb'
      exact hb
    · intro t ht
      rcases List.mem_append.mp ht with hold | hnew
      · exact htasks t hold
      · rw [List.mem_singleton.mp hnew]
        exact ⟨by simp [msgsOf], rfl⟩
    · rw [hempty, List.append_nil] at hcalls
      simp [Batch.calls, hempty, hcalls, hbuf.2]
  · have hfits : b.len + (frameLenSize + c.msg.bodySize) ≤ b.cap := by omega
    obtain ⟨b', hb', _⟩ := b.append_spec c hfits
    obtain ⟨hsound, hnew⟩ := hb.append hfits hb'
    have hcalls' : tasks.flatMap (·.calls) ++ b'.calls = tb.calls ++ [c] := by
      rw [hnew, ← List.append_assoc, hcalls, hbuf.2]
    rw [if_neg hcap, hb', Option.bind_some]
    split
    · refine ⟨_, _, rfl, ⟨by simp, fun _ => rfl⟩, ?_, ?_⟩
      · intro t ht
        rcases List.mem_append.mp ht with hold | hlast
        · exact htasks t hold
        · rw [List.mem_singleton.mp hlast]
          exact hsound.detach
      · simpa [Batch.calls, detach] using hcalls'
    · refine ⟨_, _, rfl, ⟨?_, by simp⟩, htasks, ?_⟩
      · intro b₂ hb₂
        cases hb₂
        exact hsound
      · simpa [Batch.calls] using hcalls'

theorem Batch.Sound.flush (h : tb.Sound) :
    tb.flush.1.Sound ∧ (∀ t ∈ tb.flush.2, t.Sound) ∧ tb.flush.1.calls = [] ∧
      tb.flush.2.flatMap (·.calls) = tb.calls := by
  unfold Batch.flush
  split
  · rename_i b hb
    have hsound := h.held b hb
    split
    · refine ⟨⟨by simp, fun _ => rfl⟩, ?_, rfl, by simp [detach, Batch.calls, hb]⟩
      intro t ht
      rw [List.mem_singleton.mp ht]
      exact hsound.detach
    · rename_i hcount
      have hempty : b.calls = [] := by
        apply List.eq_nil_of_length_eq_zero
        rw [← hsound.count]
        omega
      exact ⟨h, by simp, by simp [Batch.calls, hb, hempty], by simp [Batch.calls, hb, hempty]⟩
  · rename_i hb
    exact ⟨h, by simp, by simp [Batch.calls, hb], by simp [Batch.calls, hb]⟩

/-- Everything one step of a batcher can do, guards included. -/
inductive Effect (s : State) : Act → State → Prop
  | refuse {i : Nat} {m : Message} {first second : List UInt8} (hstate : s.state ≠ .stateRunning) :
      Effect s (.add i m first second)
        { s with next := s.next + 1, refused := s.refused ++ [⟨i, s.next, m⟩] }
  | add {i : Nat} {m : Message} {first second : List UInt8} {batch : Batch}
      {tasks : List FlushTask} (hidle : ∀ d ∈ s.detached, d.owner ≠ .sender i)
      (hfirst : buffSize ≤ first.length) (hsecond : buffSize ≤ second.length)
      (hstate : s.state = .stateRunning)
      (hadd : s.batch.add ⟨i, s.next, m⟩ first second = some (batch, tasks)) :
      Effect s (.add i m first second)
        { s with
          batch
          next := s.next + 1
          accepted := s.accepted ++ [⟨i, s.next, m⟩]
          wgTask := s.wgTask + tasks.length
          detached := s.detached ++ tasks.map fun task => ⟨.sender i, task, false⟩ }
  | call {i : Nat} {d : Detached} (hd : s.detached[i]? = some d) (hcalled : d.called = false) :
      Effect s (.call i)
        { s with
          flushed := s.flushed ++ [d.task]
          detached := s.detached.set i { d with called := true } }
  | done {i : Nat} {d : Detached} {loop : LoopPc} (hd : s.detached[i]? = some d)
      (hcalled : d.called = true)
      (hloop : loop = s.loop ∨
        s.loop = .calling false ∧ loop = .select ∨ s.loop = .calling true ∧ loop = .exited) :
      Effect s (.done i)
        { s with wgTask := s.wgTask - 1, detached := s.detached.eraseIdx i, loop }
  | wake {last : Bool} (hloop : s.loop = .select) (hclose : last = true → s.closeCh = true) :
      Effect s (.wake last) { s with loop := .lock last }
  | flush {last : Bool} {loop : LoopPc} (hlock : s.loop = .lock last)
      (hloop : loop = .calling last ∨ loop = if last then .exited else .select) :
      Effect s .flush
        { s with
          batch := s.batch.flush.1
          wgTask := s.wgTask + s.batch.flush.2.length
          detached := s.detached ++ s.batch.flush.2.map fun task => ⟨.loop, task, false⟩
          loop }
  | close (hpc : s.close = .off) :
      Effect s .close { s with state := .stateClosing, close := .stored }
  | closeChan (hpc : s.close = .stored) :
      Effect s .close { s with closeCh := true, close := .waitLoop }
  | joinLoop (hpc : s.close = .waitLoop) (hloop : s.loop = .exited) :
      Effect s .close { s with close := .waitTask }
  | joinTasks (hpc : s.close = .waitTask) (hwg : s.wgTask = 0) :
      Effect s .close { s with state := .stateStopped, close := .returned }

theorem addStep_effect {first second : List UInt8} (h : s.addStep i m first second = some s') :
    Effect s (.add i m first second) s' := by
  simp only [State.addStep] at h
  split at h
  · cases h
  · rename_i hguard
    split at h
    · rename_i hstate
      cases h
      exact .refuse hstate
    · rename_i hstate
      split at h
      · cases h
      · rename_i batch tasks hadd
        cases h
        refine .add ?_ (by omega) (by omega) (not_not.mp hstate) hadd
        intro d hd howner
        exact hguard (Or.inl ⟨d, hd, howner⟩)

theorem doneStep_effect (h : s.doneStep i = some s') : Effect s (.done i) s' := by
  simp only [State.doneStep] at h
  split at h
  · cases h
  · rename_i d hd
    obtain ⟨hcalled, h⟩ := Option.ite_none_right_eq_some.mp h
    cases h
    refine .done hd hcalled ?_
    split
    · rename_i last _ hloop
      cases last with
      | false => exact Or.inr (Or.inl ⟨hloop, rfl⟩)
      | true => exact Or.inr (Or.inr ⟨hloop, rfl⟩)
    · exact Or.inl rfl

theorem closeStep_effect (h : s.closeStep = some s') : Effect s .close s' := by
  simp only [State.closeStep] at h
  split at h
  · rename_i hpc
    cases h
    exact .close hpc
  · rename_i hpc
    cases h
    exact .closeChan hpc
  · rename_i hpc
    obtain ⟨hloop, h⟩ := Option.ite_none_right_eq_some.mp h
    cases h
    exact .joinLoop hpc hloop
  · rename_i hpc
    obtain ⟨hwg, h⟩ := Option.ite_none_right_eq_some.mp h
    cases h
    exact .joinTasks hpc hwg
  · cases h

theorem step_effect {a : Act} (h : s.step a = some s') : Effect s a s' := by
  cases a with
  | add i m first second => exact addStep_effect h
  | call i =>
    simp only [State.step, State.callStep] at h
    split at h
    · cases h
    · rename_i d hd
      obtain ⟨⟨hcalled, _⟩, h⟩ := Option.ite_none_right_eq_some.mp h
      cases h
      exact .call hd hcalled
  | done i => exact doneStep_effect h
  | wake last =>
    obtain ⟨⟨hloop, hclose⟩, h⟩ := Option.ite_none_right_eq_some.mp h
    cases h
    exact .wake hloop hclose
  | flush =>
    simp only [State.step, State.flushStep] at h
    split at h
    · rename_i last hlock
      cases h
      refine .flush hlock ?_
      split
      · exact Or.inr rfl
      · exact Or.inl rfl
    · cases h
  | close => exact closeStep_effect h

/-- The calls of the tasks that have not been passed on. -/
def uncalled (detached : List Detached) : List AddCall :=
  (detached.filter (·.called = false)).flatMap (·.task.calls)

theorem uncalled_append (first second : List Detached) :
    uncalled (first ++ second) = uncalled first ++ uncalled second := by
  rw [uncalled, List.filter_append, List.flatMap_append]
  rfl

theorem uncalled_cons (d : Detached) (rest : List Detached) :
    uncalled (d :: rest) =
      (if d.called = false then d.task.calls else []) ++ uncalled rest := by
  cases h : d.called <;> simp [uncalled, h]

theorem uncalled_new (owner : Owner) (tasks : List FlushTask) :
    uncalled (tasks.map fun task => ⟨owner, task, false⟩) = tasks.flatMap (·.calls) := by
  induction tasks with
  | nil => rfl
  | cons t rest ih => rw [List.map_cons, uncalled_cons, ih, if_pos rfl, List.flatMap_cons]

theorem uncalled_eq_nil (h : ∀ d ∈ detached, d.called = true) : uncalled detached = [] := by
  induction detached with
  | nil => rfl
  | cons d rest ih =>
    rw [uncalled_cons, if_neg (by simp [h d (List.mem_cons_self ..)]), List.nil_append]
    exact ih fun e he => h e (List.mem_cons_of_mem _ he)

/-- A task leaves the uncalled ones when it is called. -/
theorem uncalled_call (hd : detached[i]? = some d) (hcalled : d.called = false) :
    uncalled detached =
        uncalled (detached.take i) ++ (d.task.calls ++ uncalled (detached.drop (i + 1))) ∧
      uncalled (detached.set i { d with called := true }) =
        uncalled (detached.take i) ++ uncalled (detached.drop (i + 1)) := by
  constructor
  · conv_lhs => rw [eq_take_cons_drop hd]
    rw [uncalled_append, uncalled_cons, if_pos hcalled]
  · rw [set_eq_take_cons_drop hd, uncalled_append, uncalled_cons, if_neg (by simp),
      List.nil_append]

theorem uncalled_done (hd : detached[i]? = some d) (hcalled : d.called = true) :
    uncalled (detached.eraseIdx i) = uncalled detached := by
  conv_rhs => rw [eq_take_cons_drop hd]
  rw [List.eraseIdx_eq_take_drop_succ, uncalled_append, uncalled_append, uncalled_cons,
    if_neg (by simp [hcalled]), List.nil_append]

namespace State

/-- The calls whose buffers have been passed to `flushFn`. -/
def passed (s : State) : List AddCall := s.flushed.flatMap (·.calls)

/-- All calls that have got into a buffer: passed on, detached, or in the
current one. -/
def ledger (s : State) : List AddCall := s.passed ++ (uncalled s.detached ++ s.batch.calls)

end State

/-- Every buffer of a batcher holds whole frames. -/
structure Framed (s : State) : Prop where
  batch : s.batch.Sound
  detached : ∀ d ∈ s.detached, d.task.Sound
  flushed : ∀ t ∈ s.flushed, t.Sound

theorem Framed.initial : Framed State.initial where
  batch := ⟨by simp [State.initial], fun _ => rfl⟩
  detached := by simp [State.initial]
  flushed := by simp [State.initial]

section

variable {s s' : State} {a : Act}

private theorem sound_detached {owner : Owner} {tasks : List FlushTask} {detached : List Detached}
    (hold : ∀ d ∈ detached, d.task.Sound) (hnew : ∀ t ∈ tasks, t.Sound) :
    ∀ d ∈ detached ++ tasks.map fun task => ⟨owner, task, false⟩, d.task.Sound := by
  intro d hd
  rcases List.mem_append.mp hd with hd | hd
  · exact hold d hd
  · obtain ⟨t, ht, rfl⟩ := List.mem_map.mp hd
    exact hnew t ht

theorem Framed.effect (h : Framed s) (he : Effect s a s') : Framed s' := by
  cases he with
  | add hidle hfirst hsecond hstate hadd =>
    obtain ⟨tb, tasks, hspec, hsound, htasks, _⟩ := h.batch.add _ hfirst hsecond
    cases hspec.symm.trans hadd
    exact ⟨hsound, sound_detached h.detached htasks, h.flushed⟩
  | @call i d hd hcalled =>
    have htask := h.detached d (List.mem_of_getElem? hd)
    refine ⟨h.batch, ?_, ?_⟩
    · intro e he
      rcases List.mem_or_eq_of_mem_set he with hold | rfl
      · exact h.detached e hold
      · exact htask
    · intro t ht
      rcases List.mem_append.mp ht with hold | hnew
      · exact h.flushed t hold
      · rw [List.mem_singleton.mp hnew]
        exact htask
  | done hd hcalled hloop =>
    exact ⟨h.batch, fun e he => h.detached e (List.mem_of_mem_eraseIdx he), h.flushed⟩
  | flush hlock hloop =>
    obtain ⟨hsound, htasks, _, _⟩ := h.batch.flush
    exact ⟨hsound, sound_detached h.detached htasks, h.flushed⟩
  | refuse | wake | close | closeChan | joinLoop | joinTasks =>
    exact ⟨h.batch, h.detached, h.flushed⟩

/-- What a step does to the ledger. -/
inductive LedgerMove (s : State) (a : Act) (s' : State) : Prop
  | grow (new : List AddCall) (hledger : s'.ledger = s.ledger ++ new)
      (haccepted : s'.accepted = s.accepted ++ new)
  | call {i : Nat} (front task back : List AddCall) (hact : a = .call i)
      (hfront : (∀ d ∈ s.detached.take i, d.called = true) → front = [])
      (hold : s.ledger = s.passed ++ (front ++ (task ++ back) ++ s.batch.calls))
      (hnew : s'.ledger = s.passed ++ task ++ (front ++ back ++ s.batch.calls))
      (haccepted : s'.accepted = s.accepted)

theorem Framed.ledgerMove (h : Framed s) (he : Effect s a s') : LedgerMove s a s' := by
  cases he with
  | @add i m first second batch tasks hidle hfirst hsecond hstate hadd =>
    obtain ⟨tb, tasks', hspec, _, _, hcalls⟩ := h.batch.add _ hfirst hsecond
    cases hspec.symm.trans hadd
    refine .grow [⟨i, s.next, m⟩] ?_ rfl
    simp only [State.ledger, State.passed, uncalled_append, uncalled_new, List.append_assoc,
      hcalls]
  | @call i d hd hcalled =>
    obtain ⟨hold, hnew⟩ := uncalled_call hd hcalled
    refine .call (uncalled (s.detached.take i)) d.task.calls
      (uncalled (s.detached.drop (i + 1))) rfl uncalled_eq_nil ?_ ?_ rfl
    · rw [State.ledger, hold]
    · simp only [State.ledger, State.passed, hnew, List.flatMap_append, List.flatMap_cons,
        List.flatMap_nil, List.append_nil]
  | done hd hcalled hloop =>
    refine .grow [] ?_ (List.append_nil _).symm
    simp only [State.ledger, State.passed, uncalled_done hd hcalled, List.append_nil]
  | flush hlock hloop =>
    obtain ⟨_, _, hempty, hcalls⟩ := h.batch.flush
    refine .grow [] ?_ (List.append_nil _).symm
    simp only [State.ledger, State.passed, uncalled_append, uncalled_new, hcalls, hempty,
      List.append_nil]
  | refuse | wake | close | closeChan | joinLoop | joinTasks =>
    exact .grow [] (List.append_nil _).symm (List.append_nil _).symm

/-- Calling `flushFn` moves calls within the ledger. -/
theorem LedgerMove.perm (hm : LedgerMove s a s') (h : s.ledger.Perm s.accepted) :
    s'.ledger.Perm s'.accepted := by
  cases hm with
  | grow new hledger haccepted =>
    rw [hledger, haccepted]
    exact h.append_right new
  | call front task back hact hfront hold hnew haccepted =>
    rw [haccepted]
    refine List.Perm.trans ?_ h
    rw [hold, hnew, List.append_assoc]
    refine List.Perm.append_left _ ?_
    rw [← List.append_assoc, ← List.append_assoc task, ← List.append_assoc front]
    exact (List.perm_append_comm.append_right _).append_right _

/-- Calls of `Add` are told apart by their numbers. -/
structure Numbered (s : State) : Prop where
  accepted : s.accepted.Pairwise (·.n < ·.n)
  acceptedBelow : ∀ c ∈ s.accepted, c.n < s.next
  refusedBelow : ∀ c ∈ s.refused, c.n < s.next
  apart : ∀ c ∈ s.accepted, ∀ r ∈ s.refused, c.n ≠ r.n

theorem Numbered.initial : Numbered State.initial :=
  ⟨List.Pairwise.nil, by simp [State.initial], by simp [State.initial], by simp [State.initial]⟩

theorem Numbered.effect (h : Numbered s) (he : Effect s a s') : Numbered s' := by
  cases he with
  | @refuse i m first second hstate =>
    constructor
    · exact h.accepted
    · intro c hc
      exact Nat.lt_succ_of_lt (h.acceptedBelow c hc)
    · intro c hc
      rcases List.mem_append.mp hc with hold | hnew
      · exact Nat.lt_succ_of_lt (h.refusedBelow c hold)
      · rw [List.mem_singleton.mp hnew]
        exact Nat.lt_succ_self _
    · intro c hc r hr
      rcases List.mem_append.mp hr with hold | hnew
      · exact h.apart c hc r hold
      · rw [List.mem_singleton.mp hnew]
        exact Nat.ne_of_lt (h.acceptedBelow c hc)
  | @add i m first second batch tasks hidle hfirst hsecond hstate hadd =>
    constructor
    · apply List.pairwise_append.mpr
      refine ⟨h.accepted, List.pairwise_singleton _ _, ?_⟩
      intro c hc new hnew
      rw [List.mem_singleton.mp hnew]
      exact h.acceptedBelow c hc
    · intro c hc
      rcases List.mem_append.mp hc with hold | hnew
      · exact Nat.lt_succ_of_lt (h.acceptedBelow c hold)
      · rw [List.mem_singleton.mp hnew]
        exact Nat.lt_succ_self _
    · intro c hc
      exact Nat.lt_succ_of_lt (h.refusedBelow c hc)
    · intro c hc r hr
      rcases List.mem_append.mp hc with hold | hnew
      · exact h.apart c hold r hr
      · rw [List.mem_singleton.mp hnew]
        exact Nat.ne_of_gt (h.refusedBelow r hr)
  | call | done | wake | flush | close | closeChan | joinLoop | joinTasks =>
    exact ⟨h.accepted, h.acceptedBelow, h.refusedBelow, h.apart⟩

theorem Numbered.nodup (h : Numbered s) : s.accepted.Nodup := by
  apply h.accepted.imp
  intro c d hlt heq
  rw [heq] at hlt
  exact Nat.lt_irrefl _ hlt

/-- How far a `Close` has got. Once the timer goroutine has seen the closed
channel, no call is accepted any more and its last `flush` empties the buffer. -/
structure Closing (s : State) : Prop where
  wg : s.wgTask = s.detached.length
  closing : s.close ≠ .off ∨ s.closeCh = true ∨ s.loop = .lock true →
    s.state ≠ .stateRunning
  drained : s.loop = .calling true ∨ s.loop = .exited →
    s.state ≠ .stateRunning ∧ s.batch.calls = []
  joined : s.close = .waitTask ∨ s.close = .returned → s.loop = .exited
  returned : s.close = .returned → s.wgTask = 0

theorem Closing.initial : Closing State.initial where
  wg := rfl
  closing := by simp [State.initial]
  drained := by simp [State.initial]
  joined := by simp [State.initial]
  returned := by simp [State.initial]

theorem Closing.effect (h : Closing s) (hf : Framed s) (he : Effect s a s') : Closing s' := by
  cases he with
  | refuse hstate => exact ⟨h.wg, h.closing, h.drained, h.joined, h.returned⟩
  | @add i m first second batch tasks hidle hfirst hsecond hstate hadd =>
    -- An accepted call is made before any of this begins.
    have hoff : s.close = .off := by
      by_contra hne
      exact h.closing (Or.inl hne) hstate
    constructor
    · simp [h.wg]
    · exact h.closing
    · intro hloop
      exact absurd hstate (h.drained hloop).1
    · exact h.joined
    · simp [hoff]
  | @call i d hd hcalled =>
    refine ⟨?_, h.closing, h.drained, h.joined, h.returned⟩
    simp [h.wg]
  | @done i d loop hd hcalled hloop =>
    have hlt : i < s.detached.length := lt_length_of_some hd
    have hwg := h.wg
    have hnotReturned : s.close ≠ .returned := by
      intro hret
      have hzero := h.returned hret
      omega
    constructor
    · rw [List.length_eraseIdx_of_lt hlt]
      exact congrArg (· - 1) hwg
    · rintro (hclose | hchan | hlock)
      · exact h.closing (Or.inl hclose)
      · exact h.closing (Or.inr (Or.inl hchan))
      · rcases hloop with rfl | ⟨_, rfl⟩ | ⟨_, rfl⟩
        · exact h.closing (Or.inr (Or.inr hlock))
        · cases hlock
        · cases hlock
    · intro hexit
      rcases hloop with rfl | ⟨_, rfl⟩ | ⟨hcall, rfl⟩
      · exact h.drained hexit
      · rcases hexit with hexit | hexit <;> cases hexit
      · exact h.drained (Or.inl hcall)
    · intro hclose
      have hexited := h.joined hclose
      rcases hloop with rfl | ⟨hcall, _⟩ | ⟨hcall, _⟩
      · exact hexited
      · rw [hexited] at hcall
        cases hcall
      · rw [hexited] at hcall
        cases hcall
    · exact fun hret => absurd hret hnotReturned
  | @wake last hloop hclose =>
    constructor
    · exact h.wg
    · rintro (hoff | hchan | hlock)
      · exact h.closing (Or.inl hoff)
      · exact h.closing (Or.inr (Or.inl hchan))
      · cases hlock
        exact h.closing (Or.inr (Or.inl (hclose rfl)))
    · rintro (hexit | hexit) <;> cases hexit
    · intro hjoin
      have hexited := h.joined hjoin
      rw [hloop] at hexited
      cases hexited
    · exact h.returned
  | @flush last loop hlock hloop =>
    obtain ⟨_, _, hempty, _⟩ := hf.batch.flush
    constructor
    · simp [h.wg]
    · rintro (hoff | hchan | hl)
      · exact h.closing (Or.inl hoff)
      · exact h.closing (Or.inr (Or.inl hchan))
      · rcases hloop with rfl | rfl
        · cases hl
        · cases last <;> cases hl
    · intro hexit
      refine ⟨?_, hempty⟩
      have hlast : last = true := by
        rcases hloop with rfl | rfl
        · rcases hexit with hexit | hexit <;> cases hexit
          rfl
        · cases last
          · rcases hexit with hexit | hexit <;> cases hexit
          · rfl
      subst hlast
      exact h.closing (Or.inr (Or.inr hlock))
    · intro hjoin
      have hexited := h.joined hjoin
      rw [hlock] at hexited
      cases hexited
    · intro hret
      have hexited := h.joined (Or.inr hret)
      rw [hlock] at hexited
      cases hexited
  | close hpc =>
    refine ⟨h.wg, fun _ => by simp, ?_, by simp, by simp⟩
    intro hexit
    exact ⟨by simp, (h.drained hexit).2⟩
  | closeChan hpc =>
    refine ⟨h.wg, fun _ => h.closing (Or.inl (by simp [hpc])), h.drained, by simp, by simp⟩
  | joinLoop hpc hloop =>
    refine ⟨h.wg, fun _ => h.closing (Or.inl (by simp [hpc])), h.drained, fun _ => hloop,
      by simp⟩
  | joinTasks hpc hwg =>
    refine ⟨h.wg, fun _ => by simp, ?_, fun _ => h.joined (Or.inl hpc), fun _ => hwg⟩
    intro hexit
    exact ⟨by simp, (h.drained hexit).2⟩

end

/-- The length prefix of a frame has four bytes. -/
def fitsPrefix (_ : State) : Act → Prop
  | .add _ msg _ _ => frameBodyHeadSize + msg.data.length < 2 ^ 32
  | _ => True

instance (s : State) (a : Act) : Decidable (fitsPrefix s a) := by
  unfold fitsPrefix
  split <;> infer_instance

/-- What holds in every state of a batcher. -/
structure Inv (s : State) : Prop where
  framed : Framed s
  ledger : s.ledger.Perm s.accepted
  numbered : Numbered s
  closing : Closing s

theorem Inv.reachable {ok : State → Act → Prop} (h : batcher.Reachable ok s) : Inv s := by
  refine h.invariant (P := Inv) ?_ ?_
  · rintro _ rfl
    exact ⟨Framed.initial, List.Perm.refl _, Numbered.initial, Closing.initial⟩
  · intro s a s' _ hinv _ hs
    have he := step_effect hs
    exact ⟨hinv.framed.effect he, (hinv.framed.ledgerMove he).perm hinv.ledger,
      hinv.numbered.effect he, hinv.closing.effect hinv.framed he⟩

theorem sizes_reachable (h : batcher.Reachable fitsPrefix s) :
    ∀ c ∈ s.accepted, c.msg.bodySize < 2 ^ 32 := by
  refine h.invariant (P := fun s => ∀ c ∈ s.accepted, c.msg.bodySize < 2 ^ 32) ?_ ?_
  · rintro _ rfl
    simp [State.initial]
  · intro s a s' _ hsize hok hs c hc
    cases step_effect hs with
    | add hidle hfirst hsecond hstate hadd =>
      rcases List.mem_append.mp hc with hold | hnew
      · exact hsize c hold
      · rw [List.mem_singleton.mp hnew]
        exact hok
    | refuse | call | done | wake | flush | close | closeChan | joinLoop | joinTasks =>
      exact hsize c hc

/-- The messages a receiver decodes from the calls of `flushFn`. -/
def State.received (s : State) (reply : String) : List Message :=
  s.flushed.flatMap fun t => (decodeManyAndHandle t.buf reply).delivered

/-- What the calls of `flushFn` have to be. -/
structure Delivers (s : State) (reply : String) : Prop where
  frames : ∀ t ∈ s.flushed, t.buf = frames (msgsOf t.calls) ∧ t.count = t.calls.length ∧
    decodeManyAndHandle t.buf reply = ⟨(msgsOf t.calls).map (·.withReply reply), 0, none⟩
  once : s.passed.Nodup ∧ ∀ c ∈ s.passed, c ∈ s.accepted
  refused : ∀ c ∈ s.refused, c ∉ s.passed
  returned : s.close = .returned →
    (s.received reply).Perm ((msgsOf s.accepted).map (·.withReply reply)) ∧
      (∀ b, s.batch.buf = some b → b.bytes = []) ∧ s.detached = []

theorem Inv.passed_sub (h : Inv s) (hc : c ∈ s.passed) : c ∈ s.accepted :=
  h.ledger.subset (List.mem_append_left _ hc)

/-- Buffers that decode to their calls decode to all calls passed on. -/
theorem received_eq {reply : String}
    (h : ∀ t ∈ s.flushed, decodeManyAndHandle t.buf reply =
      ⟨(msgsOf t.calls).map (·.withReply reply), 0, none⟩) :
    s.received reply = (msgsOf s.passed).map (·.withReply reply) := by
  have hlist : ∀ flushed : List FlushTask, (∀ t ∈ flushed, decodeManyAndHandle t.buf reply =
      ⟨(msgsOf t.calls).map (·.withReply reply), 0, none⟩) →
      (flushed.flatMap fun t => (decodeManyAndHandle t.buf reply).delivered) =
        (msgsOf (flushed.flatMap (·.calls))).map (·.withReply reply) := by
    intro flushed hdec
    induction flushed with
    | nil => rfl
    | cons t rest ih =>
      rw [List.flatMap_cons, List.flatMap_cons, hdec t (List.mem_cons_self ..),
        ih fun u hu => hdec u (List.mem_cons_of_mem _ hu)]
      simp [msgsOf]
  exact hlist s.flushed h

/-- Every accepted message is passed to `flushFn` exactly once, in whole
frames, and no later than `Close` returns. -/
theorem batcher_delivers {s : State} (h : batcher.Reachable fitsPrefix s) (reply : String) :
    Delivers s reply := by
  have hinv := Inv.reachable h
  have hdec : ∀ t ∈ s.flushed, decodeManyAndHandle t.buf reply =
      ⟨(msgsOf t.calls).map (·.withReply reply), 0, none⟩ := by
    intro t ht
    rw [(hinv.framed.flushed t ht).buf]
    apply decode_frames
    intro m hm
    obtain ⟨c, hc, rfl⟩ := List.mem_map.mp hm
    exact sizes_reachable h c (hinv.passed_sub (List.mem_flatMap.mpr ⟨t, ht, hc⟩))
  have hnodup : s.ledger.Nodup := hinv.ledger.nodup_iff.mpr hinv.numbered.nodup
  constructor
  · intro t ht
    exact ⟨(hinv.framed.flushed t ht).buf, (hinv.framed.flushed t ht).count, hdec t ht⟩
  · exact ⟨(List.nodup_append.mp hnodup).1, fun c hc => hinv.passed_sub hc⟩
  · intro c hc hpassed
    exact hinv.numbered.apart c (hinv.passed_sub hpassed) c hc rfl
  · intro hret
    have hexited := hinv.closing.joined (Or.inr hret)
    have hempty := (hinv.closing.drained (Or.inr hexited)).2
    have hdetached : s.detached = [] := by
      apply List.eq_nil_of_length_eq_zero
      rw [← hinv.closing.wg]
      exact hinv.closing.returned hret
    refine ⟨?_, ?_, hdetached⟩
    · have hperm : s.passed.Perm s.accepted := by
        have hledger := hinv.ledger
        rw [State.ledger, hdetached, hempty] at hledger
        simpa [uncalled] using hledger
      rw [received_eq hdec]
      exact (hperm.map _).map _
    · intro b hb
      have hcalls : b.calls = [] := by simpa [Batch.calls, hb] using hempty
      rw [(hinv.framed.batch.held b hb).bytes, hcalls]
      rfl

/-- A message larger than the pool's buffers is put into a buffer of its own. -/
theorem add_large (htb : tb.buf = none) (hbig : arr.length < c.msg.frameSize) :
    tb.add c arr arr =
      some (⟨some (Buffer.fresh arr), tb.count⟩, [⟨c.msg.frame, false, 1, [c]⟩]) := by
  have hcap : (Buffer.fresh arr).cap < frameLenSize + c.msg.bodySize := hbig
  have hroom : Batch.makeRoom (tb.buf.getD (Buffer.fresh arr)) tb.count
      (frameLenSize + c.msg.bodySize) arr = (⟨some (Buffer.fresh arr), tb.count⟩, []) := by
    rw [htb, Option.getD_none, Batch.makeRoom, if_neg (by simp [Buffer.fresh])]
  have hlen : (List.replicate (frameLenSize + c.msg.bodySize) (0 : UInt8)).length =
      c.msg.frameSize := List.length_replicate
  simp only [Batch.add, hroom, Option.bind_eq_bind, Option.bind_some]
  rw [if_pos hcap, Message.encodeTo_eq c.msg hlen]
  rfl

/-- A sender that is not inside `Add` is accepted by a running batcher. -/
theorem add_accepted {batch : Batch} {tasks : List FlushTask}
    (hidle : ∀ d ∈ s.detached, d.owner ≠ .sender i) (harr : buffSize ≤ arr.length)
    (hstate : s.state = .stateRunning)
    (hadd : s.batch.add ⟨i, s.next, m⟩ arr arr = some (batch, tasks)) :
    batcher.step s (.add i m arr arr) =
      some
        { s with
          batch
          next := s.next + 1
          accepted := s.accepted ++ [⟨i, s.next, m⟩]
          wgTask := s.wgTask + tasks.length
          detached := s.detached ++ tasks.map fun task => ⟨.sender i, task, false⟩ } := by
  have hguard : ¬((∃ d ∈ s.detached, d.owner = .sender i) ∨ arr.length < buffSize ∨
      arr.length < buffSize) := by
    rintro (⟨d, hd, howner⟩ | hlt | hlt)
    · exact hidle d hd howner
    · omega
    · omega
  change s.addStep i m arr arr = _
  rw [State.addStep, if_neg hguard, if_neg (not_not.mpr hstate), hadd]

theorem call_accepted (hd : s.detached[i]? = some d) (hcalled : d.called = false)
    (hturn : s.turnOf i d.owner) :
    batcher.step s (.call i) =
      some
        { s with
          flushed := s.flushed ++ [d.task]
          detached := s.detached.set i { d with called := true } } := by
  change s.callStep i = _
  rw [State.callStep, hd]
  exact if_pos ⟨hcalled, hturn⟩

/-- A message too large for any pooled buffer is added and passed on, and the
batcher is closed. -/
def addLarge (m : Message) (arr : List UInt8) : List Act :=
  [.add 0 m arr arr, .call 0, .done 0, .close, .close, .wake true, .flush, .close, .close]

theorem addLarge_reaches {ok : State → Act → Prop} (harr : arr.length = buffSize)
    (hbig : buffSize < m.frameSize) (hok : ∀ s, ∀ a ∈ addLarge m arr, ok s a) :
    ∃ s, batcher.Reachable ok s ∧ s.close = .returned ∧ s.accepted = [⟨0, 0, m⟩] ∧
      s.flushed = [⟨m.frame, false, 1, [⟨0, 0, m⟩]⟩] := by
  have hadd := add_accepted (s := State.initial) (i := 0) (by simp [State.initial])
    (le_of_eq harr.symm) rfl (add_large rfl (harr ▸ hbig))
  have h1 := Machine.Reachable.step (m := batcher) (.init rfl) (hok _ _ (by simp [addLarge])) hadd
  have h2 := h1.step (a := .call 0) (hok _ _ (by simp [addLarge])) rfl
  have h3 := h2.step (a := .done 0) (hok _ _ (by simp [addLarge])) rfl
  have h4 := h3.step (a := .close) (hok _ _ (by simp [addLarge])) rfl
  have h5 := h4.step (a := .close) (hok _ _ (by simp [addLarge])) rfl
  have h6 := h5.step (a := .wake true) (hok _ _ (by simp [addLarge])) rfl
  have h7 := h6.step (a := .flush) (hok _ _ (by simp [addLarge])) rfl
  have h8 := h7.step (a := .close) (hok _ _ (by simp [addLarge])) rfl
  have h9 := h8.step (a := .close) (hok _ _ (by simp [addLarge])) rfl
  exact ⟨_, h9, rfl, rfl, rfl⟩

/-- There are messages of every size. -/
theorem exists_message (len : Nat) : ∃ m : Message, m.frameSize = 29 + len := by
  refine ⟨⟨rpcHead 0 0 0 0 0 0, List.replicate len 0, ""⟩, ?_⟩
  rw [Message.frameSize, Message.bodySize, List.length_replicate, frameLenSize,
    frameBodyHeadSize]
  omega

theorem exists_array : ∃ arr : List UInt8, arr.length = buffSize :=
  ⟨List.replicate buffSize 0, List.length_replicate⟩

theorem largeMessage_delivered :
    ∃ s, batcher.Reachable fitsPrefix s ∧ s.close = .returned ∧ s.passed ≠ [] ∧
      Delivers s "" := by
  obtain ⟨m, hm⟩ := exists_message 600000
  obtain ⟨arr, harr⟩ := exists_array
  have hsize : frameBodyHeadSize + m.data.length < 2 ^ 32 := by
    rw [Message.frameSize, Message.bodySize] at hm
    omega
  have hok : ∀ s, ∀ a ∈ addLarge m arr, fitsPrefix s a := by
    intro s a ha
    simp only [addLarge, List.mem_cons, List.not_mem_nil, or_false] at ha
    rcases ha with rfl | rfl | rfl | rfl | rfl | rfl | rfl | rfl | rfl
    · exact hsize
    all_goals trivial
  obtain ⟨s, hs, hret, _, hflushed⟩ := addLarge_reaches harr
    (by rw [hm, buffSize, batchCount]; omega) hok
  refine ⟨s, hs, hret, ?_, batcher_delivers hs ""⟩
  rw [State.passed, hflushed]
  simp

/-- What is decoded without a skip has a size that fits the length prefix, so
a larger message is not what a receiver decodes from its buffer. -/
theorem huge_not_delivers (hhuge : 2 ^ 32 ≤ m.bodySize)
    (hflushed : s.flushed = [⟨m.frame, false, 1, [⟨0, 0, m⟩]⟩]) (reply : String) :
    ¬Delivers s reply := by
  intro h
  have htask := (h.frames ⟨m.frame, false, 1, [⟨0, 0, m⟩]⟩
    (by rw [hflushed]; exact List.mem_singleton_self _)).2.2
  have hsizes := (frames_decodeLoop m.frame reply 0 (by rw [← decodeManyAndHandle, htask])
    (by rw [← decodeManyAndHandle, htask])).2
  rw [← decodeManyAndHandle, htask] at hsizes
  have hlt : m.bodySize < 2 ^ 32 :=
    hsizes (m.withReply reply) (List.mem_map_of_mem (List.mem_singleton_self m))
  omega

theorem hugeMessage_not_delivered :
    ∃ s, batcher.Reachable Machine.anyStep s ∧ s.close = .returned ∧ ¬Delivers s "" := by
  obtain ⟨m, hm⟩ := exists_message (2 ^ 32)
  obtain ⟨arr, harr⟩ := exists_array
  obtain ⟨s, hs, hret, _, hflushed⟩ := addLarge_reaches harr
    (by rw [hm, buffSize, batchCount]; omega) fun _ _ _ => trivial
  have hhuge : 2 ^ 32 ≤ m.bodySize := by
    rw [Message.frameSize, frameLenSize] at hm
    omega
  exact ⟨s, hs, hret, huge_not_delivers hhuge hflushed ""⟩

end GameCluster.Bus
