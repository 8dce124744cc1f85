import Mathlib.Tactic.TypeStar

/-!
The double-buffered queue of `pkg/queue`. `Push` appends to the write buffer
under the lock; `Range` swaps the buffers under the lock and then hands the
read buffer out one element at a time without it, so pushes and deliveries
interleave. `sig` is the one-slot wake-up channel.
-/

namespace GameCluster

structure SwapQueue (τ : Type*) where
  maxSize : Nat
  write : List τ := []
  /-- What the `Range` call under way has not handed out yet. -/
  read : List τ := []
  sig : Bool := false
  closed : Bool := false

inductive QueueErr where
  | queueFull
  | queueClosed
  deriving DecidableEq, Repr

namespace SwapQueue

variable {τ : Type*}

def pushData (q : SwapQueue τ) (x : τ) : Except QueueErr (SwapQueue τ) :=
  if q.closed then .error .queueClosed
  else if q.maxSize ≤ q.write.length then .error .queueFull
  else .ok { q with write := q.write ++ [x] }

def wake (q : SwapQueue τ) : SwapQueue τ := { q with sig := true }

/-- `Push` wakes the consumer whether or not the element was accepted. -/
def push (q : SwapQueue τ) (x : τ) : SwapQueue τ × Option QueueErr :=
  match q.pushData x with
  | .ok q' => (q'.wake, none)
  | .error e => (q.wake, some e)

def close (q : SwapQueue τ) : SwapQueue τ :=
  if q.closed then q else { q with closed := true }.wake

/-- The critical section of `Range`. -/
def swap (q : SwapQueue τ) : SwapQueue τ :=
  if q.write.isEmpty then q else { q with write := [], read := q.write }

/-- Everything accepted and not yet handed to a callback, oldest first. -/
def waiting (q : SwapQueue τ) : List τ := q.read ++ q.write

@[simp] theorem close_waiting (q : SwapQueue τ) : q.close.waiting = q.waiting := by
  unfold close wake
  split <;> rfl

theorem close_closed (q : SwapQueue τ) : q.close.closed = true := by
  unfold close wake
  split <;> simp_all

/-- `Push` either appends the element or leaves the contents alone. -/
theorem push_contents (q : SwapQueue τ) (x : τ) :
    (q.push x).1.read = q.read ∧ (q.push x).1.closed = q.closed ∧
      (((q.push x).2 = none ∧ (q.push x).1.write = q.write ++ [x]) ∨
        ((q.push x).2 ≠ none ∧ (q.push x).1.write = q.write)) := by
  unfold push pushData wake
  by_cases hclosed : q.closed = true
  · simp [hclosed]
  · by_cases hfull : q.maxSize ≤ q.write.length <;> simp [hclosed, hfull]

theorem push_waiting (q : SwapQueue τ) (x : τ) :
    (q.push x).1.waiting =
      if (q.push x).2 = none then q.waiting ++ [x] else q.waiting := by
  obtain ⟨hread, _, hwrite⟩ := q.push_contents x
  rcases hwrite with ⟨hok, hwrite⟩ | ⟨herr, hwrite⟩
  · simp [waiting, hread, hwrite, hok]
  · simp [waiting, hread, hwrite, herr]

/-- An open queue refuses an element only when it is full. -/
theorem push_accepted {q : SwapQueue τ} {x : τ} (hopen : q.closed = false)
    (hroom : (q.push x).2 ≠ some .queueFull) : (q.push x).2 = none := by
  unfold push pushData at hroom ⊢
  by_cases hfull : q.maxSize ≤ q.write.length
  · simp [hopen, hfull] at hroom
  · simp [hopen, hfull]

theorem push_refused {q : SwapQueue τ} (hclosed : q.closed = true) (x : τ) :
    (q.push x).2 = some .queueClosed := by
  simp [push, pushData, hclosed]

/-- Swapping after the previous `Range` is over loses and reorders nothing. -/
theorem swap_waiting (q : SwapQueue τ) (h : q.read = []) : q.swap.waiting = q.waiting := by
  unfold swap waiting
  by_cases hw : q.write.isEmpty
  · simp [hw]
  · simp [hw, h]

end SwapQueue

end GameCluster
