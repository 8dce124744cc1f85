import GameCluster.Bus.Frame
import GameCluster.Lib.Machine

/-!
The batcher of one destination (`gnet/pub/batcher.go`). `Add` writes frames into
a pooled buffer under the mutex and detaches buffers from it; whoever detached
a buffer passes it to `flushFn` after the mutex has been released. The timer
goroutine does the same every tick, and `Close` waits for it and for every
detached buffer.

A section under the mutex is one step, and so is each call of `flushFn`, each
`wgTask.Done` and each statement of `Close`. A pooled buffer may have any
capacity from `buffSize` on and hold anything. Buffers and tasks also carry the
`Add` calls whose frames are in them, which the source does not keep and no
transition looks at.
-/

namespace GameCluster.Bus

open Lib

def batchCount : Nat := 500
def buffSize : Nat := 1024 * batchCount

/-- The `n`-th call of `Add`. -/
structure AddCall where
  sender : Nat
  n : Nat
  msg : Message

/-- A pooled slice: the array behind it, whose length is its capacity, and the
length of the slice. -/
structure Buffer where
  arr : List UInt8
  len : Nat
  calls : List AddCall

namespace Buffer

def cap (b : Buffer) : Nat := b.arr.length

def bytes (b : Buffer) : List UInt8 := b.arr.take b.len

/-- `GetBuffer`, cut to length zero. -/
def fresh (arr : List UInt8) : Buffer := ⟨arr, 0, []⟩

end Buffer

/-- `flushTask`. `pooled` tells that `pBuf` is not nil. -/
structure FlushTask where
  buf : List UInt8
  pooled : Bool
  count : Nat
  calls : List AddCall

/-- A task for the current buffer. -/
def detach (b : Buffer) (count : Nat) : FlushTask := ⟨b.bytes, true, count, b.calls⟩

/-- What the mutex guards. -/
structure Batch where
  buf : Option Buffer
  count : Nat

/-- The old buffer is detached when the frame does not fit behind what it holds. -/
def Batch.makeRoom (b : Buffer) (count frameSize : Nat) (other : List UInt8) :
    Batch × List FlushTask :=
  if b.cap < b.len + frameSize ∧ 0 < b.len then
    (⟨some (Buffer.fresh other), 0⟩, [detach b count])
  else (⟨some b, count⟩, [])

/-- The frame is written behind what the buffer holds. Reslicing beyond the
capacity panics, which is `none`. -/
def Buffer.append (b : Buffer) (c : AddCall) : Option Buffer :=
  let frameSize := frameLenSize + c.msg.bodySize
  if b.cap < b.len + frameSize then none
  else do
    let slot ← c.msg.encodeTo ((b.arr.drop b.len).take frameSize) c.msg.bodySize
    let arr ← Bytes.put b.arr b.len slot
    some ⟨arr, b.len + frameSize, b.calls ++ [c]⟩

/-- `Add` under the mutex, after the check of the state. `first` and `second`
are the arrays of the buffers the pool would return. -/
def Batch.add (tb : Batch) (c : AddCall) (first second : List UInt8) :
    Option (Batch × List FlushTask) := do
  let frameSize := frameLenSize + c.msg.bodySize
  let (tb, tasks) :=
    Batch.makeRoom (tb.buf.getD (Buffer.fresh first)) tb.count frameSize second
  let b ← tb.buf
  if b.cap < frameSize then
    let monsterBuf ← c.msg.encodeTo (List.replicate frameSize 0) c.msg.bodySize
    some (tb, tasks ++ [⟨monsterBuf, false, 1, [c]⟩])
  else
    let b ← b.append c
    let count := tb.count + 1
    if batchCount ≤ count ∨ buffSize ≤ b.len then
      some (⟨none, 0⟩, tasks ++ [detach b count])
    else some (⟨some b, count⟩, tasks)

/-- `flush` under the mutex. -/
def Batch.flush (tb : Batch) : Batch × List FlushTask :=
  match tb.buf with
  | some b => if 0 < tb.count then (⟨none, 0⟩, [detach b tb.count]) else (tb, [])
  | none => (tb, [])

inductive BatcherState where
  | stateRunning
  | stateClosing
  | stateStopped
  deriving DecidableEq, Repr

/-- A goroutine that calls `flushFn`: a sender inside `Add`, or the timer. -/
inductive Owner where
  | sender (i : Nat)
  | loop
  deriving DecidableEq, Repr

/-- A task that has been detached and is not done. -/
structure Detached where
  owner : Owner
  task : FlushTask
  called : Bool

/-- The timer goroutine; `last` is set in the branch of `tb.close`. -/
inductive LoopPc where
  | select
  | lock (last : Bool)
  | calling (last : Bool)
  | exited
  deriving DecidableEq, Repr

inductive ClosePc where
  | off
  /-- The state has been stored. -/
  | stored
  | waitLoop
  | waitTask
  | returned
  deriving DecidableEq, Repr

structure State where
  batch : Batch
  state : BatcherState
  closeCh : Bool
  wgTask : Nat
  loop : LoopPc
  close : ClosePc
  /-- In the order in which they were detached. -/
  detached : List Detached
  /-- The calls of `flushFn`. -/
  flushed : List FlushTask
  /-- How often `Add` has been called. -/
  next : Nat
  /-- The calls of `Add` that were not refused, in the order of the mutex. -/
  accepted : List AddCall
  /-- The calls that returned `ErrClosed`. -/
  refused : List AddCall

/-- `NewBatcher`. -/
def State.initial : State where
  batch := ⟨none, 0⟩
  state := .stateRunning
  closeCh := false
  wgTask := 0
  loop := .select
  close := .off
  detached := []
  flushed := []
  next := 0
  accepted := []
  refused := []

inductive Act where
  /-- A sender that is not inside `Add` calls it, up to the unlock. -/
  | add (sender : Nat) (msg : Message) (first second : List UInt8)
  /-- The goroutine of a detached task calls `flushFn`. -/
  | call (i : Nat)
  /-- `flushFn` has returned: `FreeBuffer` and `wgTask.Done`. -/
  | done (i : Nat)
  /-- The timer goroutine takes a branch of its `select`. -/
  | wake (last : Bool)
  /-- The section of `flush` under the mutex. -/
  | flush
  /-- The next statement of `Close`. -/
  | close

namespace State

/-- The tasks of one goroutine are done one after the other. -/
def turnOf (s : State) (i : Nat) (owner : Owner) : Prop :=
  ∀ d ∈ s.detached.take i, d.owner ≠ owner

instance (s : State) (i : Nat) (owner : Owner) : Decidable (s.turnOf i owner) :=
  inferInstanceAs (Decidable (∀ _ ∈ _, _))

def addStep (s : State) (sender : Nat) (msg : Message) (first second : List UInt8) :
    Option State :=
  let c : AddCall := ⟨sender, s.next, msg⟩
  if (∃ d ∈ s.detached, d.owner = .sender sender) ∨ first.length < buffSize ∨
      second.length < buffSize then none
  else if s.state ≠ .stateRunning then
    some { s with next := s.next + 1, refused := s.refused ++ [c] }
  else
    match s.batch.add c first second with
    | none => none
    | some (batch, tasks) =>
      some
        { s with
          batch
          next := s.next + 1
          accepted := s.accepted ++ [c]
          wgTask := s.wgTask + tasks.length
          detached := s.detached ++ tasks.map fun task => ⟨.sender sender, task, false⟩ }

def callStep (s : State) (i : Nat) : Option State :=
  match s.detached[i]? with
  | none => none
  | some d =>
    if d.called = false ∧ s.turnOf i d.owner then
      some
        { s with
          flushed := s.flushed ++ [d.task]
          detached := s.detached.set i { d with called := true } }
    else none

def doneStep (s : State) (i : Nat) : Option State :=
  match s.detached[i]? with
  | none => none
  | some d =>
    if d.called = true then
      some
        { s with
          wgTask := s.wgTask - 1
          detached := s.detached.eraseIdx i
          loop :=
            match d.owner, s.loop with
            | .loop, .calling last => if last then .exited else .select
            | _, loop => loop }
    else none

def flushStep (s : State) : Option State :=
  match s.loop with
  | .lock last =>
    let (batch, tasks) := s.batch.flush
    some
      { s with
        batch
        wgTask := s.wgTask + tasks.length
        detached := s.detached ++ tasks.map fun task => ⟨.loop, task, false⟩
        loop := if tasks.isEmpty then (if last then .exited else .select) else .calling last }
  | _ => none

def closeStep (s : State) : Option State :=
  match s.close with
  | .off => some { s with state := .stateClosing, close := .stored }
  | .stored => some { s with closeCh := true, close := .waitLoop }
  | .waitLoop => if s.loop = .exited then some { s with close := .waitTask } else none
  | .waitTask =>
    if s.wgTask = 0 then some { s with state := .stateStopped, close := .returned } else none
  | .returned => none

def step (s : State) : Act → Option State
  | .add sender msg first second => s.addStep sender msg first second
  | .call i => s.callStep i
  | .done i => s.doneStep i
  | .wake last =>
    if s.loop = .select ∧ (last → s.closeCh = true) then some { s with loop := .lock last }
    else none
  | .flush => s.flushStep
  | .close => s.closeStep

end State

def batcher : Machine State Act where
  init s := s = State.initial
  step := State.step

end GameCluster.Bus
