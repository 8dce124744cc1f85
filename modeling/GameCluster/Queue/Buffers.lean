import GameCluster.Lib.Machine
import GameCluster.Lib.Slice
import GameCluster.Lib.Table
import GameCluster.Queue.SwapQueue

/-!
`pkg/queue/swap_queue.go` at the grain of its statements. Two slices are
swapped, cut, cleared and at times replaced; the mutex guards the write buffer
only, the closed flag is set without it, and `Range` walks the read buffer
outside it. Each call of `Push` and of `Close` has a program point of its own,
and there is one consumer.

`accepted` is the history of elements stored in the write buffer, with the
call that stored each, and `delivered` that of elements handed to callbacks. A
call that starts after some `Close` has returned is marked `late`.
-/

namespace GameCluster.Buffers

open Lib

/-- Where a call of `Push` stands. From `load` to `unlock` it has the mutex. -/
inductive PushPc where
  | lock
  | load
  | room
  | append
  | unlock (err : Option QueueErr)
  | wake (err : Option QueueErr)
  | done (err : Option QueueErr)
  deriving DecidableEq, Repr

structure Push (τ : Type*) where
  elem : τ
  late : Bool
  pc : PushPc

/-- Where a call of `Close` stands: before its compare-and-swap, before its
`Wake`, or returned. -/
inductive ClosePc where
  | swap
  | wake
  | done
  deriving DecidableEq, Repr

/-- Where the consumer stands in `Range`. From `test` to `unlock` it has the
mutex; `leave` is the return for an empty write buffer. -/
inductive RangePc where
  | idle
  | lock
  | test
  | leave
  | swap
  | unlock
  | loop (i : ℕ)
  | clear
  | shrink
  deriving DecidableEq, Repr

inductive Owner where
  | push (p : ℕ)
  | range
  deriving DecidableEq, Repr

structure State (τ : Type*) where
  arrays : Arrays τ
  mtx : Option Owner := none
  write : Slice
  read : Slice
  sig : Bool := false
  maxSize : ℕ
  size : ℕ
  closed : Bool := false
  pushes : List (Push τ) := []
  closes : List ClosePc := []
  range : RangePc := .idle
  rangeLate : Bool := false
  accepted : List (ℕ × τ) := []
  delivered : List τ := []
  /-- Some late `Range` has returned. -/
  drained : Bool := false

inductive Act (τ : Type*) where
  /-- A new call of `Push`. -/
  | push (x : τ)
  /-- The next statement of call `p`; an array that `append` makes has `spare`
  elements to spare. -/
  | stepPush (p spare : ℕ)
  | close
  | stepClose (c : ℕ)
  /-- `Wake` on its own. -/
  | wake
  /-- A receive from `Sig()`. -/
  | receive
  | callRange
  | stepRange
  /-- The callback panics, and `Range` with it. -/
  | panic

section

variable {τ : Type*} [Inhabited τ]

/-- `NewSwapQueue` -/
def newSwapQueue (size maxSize : ℕ) : State τ :=
  let write := Slice.make [] size
  let read := Slice.make write.1 size
  { arrays := read.1, write := write.2, read := read.2, maxSize, size }

namespace State

def closeReturned (s : State τ) : Bool := decide (ClosePc.done ∈ s.closes)

def setPush (s : State τ) (p : ℕ) (c : Push τ) (pc : PushPc) : State τ :=
  { s with pushes := s.pushes.set p { c with pc } }

def stepPush (s : State τ) (p spare : ℕ) : Option (State τ) :=
  match s.pushes[p]? with
  | none => none
  | some c =>
    match c.pc with
    | .lock =>
      if s.mtx = none then some ({ s with mtx := some (.push p) }.setPush p c .load) else none
    | .load => some (s.setPush p c (if s.closed then .unlock (some .queueClosed) else .room))
    | .room =>
      some (s.setPush p c
        (if s.maxSize ≤ s.write.len then .unlock (some .queueFull) else .append))
    | .append =>
      let a := Slice.append s.arrays s.write c.elem spare
      some ({ s with
        arrays := a.1, write := a.2, accepted := s.accepted ++ [(p, c.elem)] }.setPush p c
          (.unlock none))
    | .unlock err => some ({ s with mtx := none }.setPush p c (.wake err))
    | .wake err => some ({ s with sig := true }.setPush p c (.done err))
    | .done _ => none

def stepClose (s : State τ) (c : ℕ) : Option (State τ) :=
  match s.closes[c]? with
  | some .swap =>
    if s.closed then some { s with closes := s.closes.set c .done }
    else some { s with closed := true, closes := s.closes.set c .wake }
  | some .wake => some { s with sig := true, closes := s.closes.set c .done }
  | _ => none

def returnRange (s : State τ) : State τ :=
  { s with range := .idle, drained := s.drained || s.rangeLate }

def stepRange (s : State τ) : Option (State τ) :=
  match s.range with
  | .idle => none
  | .lock => if s.mtx = none then some { s with mtx := some .range, range := .test } else none
  | .test => some { s with range := if s.write.len = 0 then .leave else .swap }
  | .leave => some { s with mtx := none }.returnRange
  | .swap => some { s with write := s.read.truncate, read := s.write, range := .unlock }
  | .unlock => some { s with mtx := none, range := .loop 0 }
  | .loop i =>
    match (s.read.elems s.arrays)[i]? with
    | some x => some { s with delivered := s.delivered ++ [x], range := .loop (i + 1) }
    | none => some { s with range := .clear }
  | .clear => some { s with arrays := s.read.clear s.arrays, range := .shrink }
  | .shrink =>
    if s.size < s.read.cap s.arrays then
      let r := Slice.make s.arrays s.size
      some { s with arrays := r.1, read := r.2 }.returnRange
    else some s.returnRange

/-- The element was handed out, `read` keeps its elements, and the call is over. -/
def panic (s : State τ) : Option (State τ) :=
  match s.range with
  | .loop i =>
    match (s.read.elems s.arrays)[i]? with
    | some x => some { s with delivered := s.delivered ++ [x], range := .idle }
    | none => none
  | _ => none

end State

def step (s : State τ) : Act τ → Option (State τ)
  | .push x => some { s with pushes := s.pushes ++ [⟨x, s.closeReturned, .lock⟩] }
  | .stepPush p spare => s.stepPush p spare
  | .close => some { s with closes := s.closes ++ [.swap] }
  | .stepClose c => s.stepClose c
  | .wake => some { s with sig := true }
  | .receive => if s.sig then some { s with sig := false } else none
  | .callRange =>
    if s.range = .idle then some { s with range := .lock, rangeLate := s.closeReturned }
    else none
  | .stepRange => s.stepRange
  | .panic => s.panic

/-- Any number of producers, callers of `Close`, and one consumer. -/
def queue (τ : Type*) [Inhabited τ] : Machine (State τ) (Act τ) where
  init s := ∃ size maxSize, s = newSwapQueue size maxSize
  step := step

/-- What a step can do, with the point it is taken at. -/
inductive Effect (s : State τ) : Act τ → State τ → Prop
  | push (x : τ) :
      Effect s (.push x) { s with pushes := s.pushes ++ [⟨x, s.closeReturned, .lock⟩] }
  | lock {p spare : ℕ} {c : Push τ} (hc : s.pushes[p]? = some c) (hpc : c.pc = .lock)
      (hm : s.mtx = none) :
      Effect s (.stepPush p spare) ({ s with mtx := some (.push p) }.setPush p c .load)
  | refuse {p spare : ℕ} {c : Push τ} (hc : s.pushes[p]? = some c) (hpc : c.pc = .load)
      (h : s.closed = true) :
      Effect s (.stepPush p spare) (s.setPush p c (.unlock (some .queueClosed)))
  | enter {p spare : ℕ} {c : Push τ} (hc : s.pushes[p]? = some c) (hpc : c.pc = .load)
      (h : s.closed = false) : Effect s (.stepPush p spare) (s.setPush p c .room)
  | full {p spare : ℕ} {c : Push τ} (hc : s.pushes[p]? = some c) (hpc : c.pc = .room)
      (h : s.maxSize ≤ s.write.len) :
      Effect s (.stepPush p spare) (s.setPush p c (.unlock (some .queueFull)))
  | fits {p spare : ℕ} {c : Push τ} (hc : s.pushes[p]? = some c) (hpc : c.pc = .room)
      (h : s.write.len < s.maxSize) : Effect s (.stepPush p spare) (s.setPush p c .append)
  | append {p spare : ℕ} {c : Push τ} (hc : s.pushes[p]? = some c) (hpc : c.pc = .append) :
      Effect s (.stepPush p spare)
        ({ s with
          arrays := (Slice.append s.arrays s.write c.elem spare).1
          write := (Slice.append s.arrays s.write c.elem spare).2
          accepted := s.accepted ++ [(p, c.elem)] }.setPush p c (.unlock none))
  | unlock {p spare : ℕ} {c : Push τ} (err : Option QueueErr) (hc : s.pushes[p]? = some c)
      (hpc : c.pc = .unlock err) :
      Effect s (.stepPush p spare) ({ s with mtx := none }.setPush p c (.wake err))
  | wake {p spare : ℕ} {c : Push τ} (err : Option QueueErr) (hc : s.pushes[p]? = some c)
      (hpc : c.pc = .wake err) :
      Effect s (.stepPush p spare) ({ s with sig := true }.setPush p c (.done err))
  | close : Effect s .close { s with closes := s.closes ++ [.swap] }
  | closeAgain {c : ℕ} (hc : s.closes[c]? = some .swap) (h : s.closed = true) :
      Effect s (.stepClose c) { s with closes := s.closes.set c .done }
  | closeFlag {c : ℕ} (hc : s.closes[c]? = some .swap) (h : s.closed = false) :
      Effect s (.stepClose c) { s with closed := true, closes := s.closes.set c .wake }
  | closeWake {c : ℕ} (hc : s.closes[c]? = some .wake) :
      Effect s (.stepClose c) { s with sig := true, closes := s.closes.set c .done }
  | ring : Effect s .wake { s with sig := true }
  | receive (h : s.sig = true) : Effect s .receive { s with sig := false }
  | callRange (hr : s.range = .idle) :
      Effect s .callRange { s with range := .lock, rangeLate := s.closeReturned }
  | rangeLock (hr : s.range = .lock) (hm : s.mtx = none) :
      Effect s .stepRange { s with mtx := some .range, range := .test }
  | rangeEmpty (hr : s.range = .test) (h : s.write.len = 0) :
      Effect s .stepRange { s with range := .leave }
  | rangeSome (hr : s.range = .test) (h : s.write.len ≠ 0) :
      Effect s .stepRange { s with range := .swap }
  | rangeLeave (hr : s.range = .leave) : Effect s .stepRange { s with mtx := none }.returnRange
  | rangeSwap (hr : s.range = .swap) :
      Effect s .stepRange
        { s with write := s.read.truncate, read := s.write, range := .unlock }
  | rangeUnlock (hr : s.range = .unlock) :
      Effect s .stepRange { s with mtx := none, range := .loop 0 }
  | deliver {i : ℕ} {x : τ} (hr : s.range = .loop i)
      (hx : (s.read.elems s.arrays)[i]? = some x) :
      Effect s .stepRange { s with delivered := s.delivered ++ [x], range := .loop (i + 1) }
  | loopEnd {i : ℕ} (hr : s.range = .loop i) (hx : (s.read.elems s.arrays)[i]? = none) :
      Effect s .stepRange { s with range := .clear }
  | clear (hr : s.range = .clear) :
      Effect s .stepRange { s with arrays := s.read.clear s.arrays, range := .shrink }
  | shrink (hr : s.range = .shrink) (h : s.size < s.read.cap s.arrays) :
      Effect s .stepRange
        { s with
          arrays := (Slice.make s.arrays s.size).1
          read := (Slice.make s.arrays s.size).2 }.returnRange
  | keep (hr : s.range = .shrink) (h : ¬s.size < s.read.cap s.arrays) :
      Effect s .stepRange s.returnRange
  | panic {i : ℕ} {x : τ} (hr : s.range = .loop i)
      (hx : (s.read.elems s.arrays)[i]? = some x) :
      Effect s .panic { s with delivered := s.delivered ++ [x], range := .idle }

theorem stepPush_effect {s t : State τ} {p spare : ℕ} (h : s.stepPush p spare = some t) :
    Effect s (.stepPush p spare) t := by
  unfold State.stepPush at h
  cases hc : s.pushes[p]? with
  | none => simp [hc] at h
  | some c =>
    rw [hc] at h
    cases hpc : c.pc with
    | lock =>
      simp only [hpc] at h
      obtain ⟨hm, h⟩ := Option.ite_none_right_eq_some.mp h
      cases h
      exact .lock hc hpc hm
    | load =>
      simp only [hpc] at h
      cases h
      cases hclosed : s.closed with
      | true => exact .refuse hc hpc hclosed
      | false => exact .enter hc hpc hclosed
    | room =>
      simp only [hpc] at h
      cases h
      by_cases hfull : s.maxSize ≤ s.write.len
      · rw [if_pos hfull]
        exact .full hc hpc hfull
      · rw [if_neg hfull]
        exact .fits hc hpc (Nat.lt_of_not_le hfull)
    | append =>
      simp only [hpc] at h
      cases h
      exact .append hc hpc
    | unlock err =>
      simp only [hpc] at h
      cases h
      exact .unlock err hc hpc
    | wake err =>
      simp only [hpc] at h
      cases h
      exact .wake err hc hpc
    | done err => simp [hpc] at h

theorem stepClose_effect {s t : State τ} {c : ℕ} (h : s.stepClose c = some t) :
    Effect s (.stepClose c) t := by
  unfold State.stepClose at h
  split at h
  · rename_i hc
    split at h
    · rename_i hclosed
      cases h
      exact .closeAgain hc hclosed
    · rename_i hclosed
      cases h
      exact .closeFlag hc (Bool.eq_false_iff.mpr hclosed)
  · rename_i hc
    cases h
    exact .closeWake hc
  · cases h

theorem stepRange_effect {s t : State τ} (h : s.stepRange = some t) : Effect s .stepRange t := by
  unfold State.stepRange at h
  cases hr : s.range with
  | idle => simp [hr] at h
  | lock =>
    simp only [hr] at h
    obtain ⟨hm, h⟩ := Option.ite_none_right_eq_some.mp h
    cases h
    exact .rangeLock hr hm
  | test =>
    simp only [hr] at h
    cases h
    by_cases hw : s.write.len = 0
    · rw [if_pos hw]
      exact .rangeEmpty hr hw
    · rw [if_neg hw]
      exact .rangeSome hr hw
  | leave =>
    simp only [hr] at h
    cases h
    exact .rangeLeave hr
  | swap =>
    simp only [hr] at h
    cases h
    exact .rangeSwap hr
  | unlock =>
    simp only [hr] at h
    cases h
    exact .rangeUnlock hr
  | loop i =>
    simp only [hr] at h
    cases hx : (s.read.elems s.arrays)[i]? with
    | some x =>
      rw [hx] at h
      cases h
      exact .deliver hr hx
    | none =>
      rw [hx] at h
      cases h
      exact .loopEnd hr hx
  | clear =>
    simp only [hr] at h
    cases h
    exact .clear hr
  | shrink =>
    simp only [hr] at h
    by_cases hcap : s.size < s.read.cap s.arrays
    · rw [if_pos hcap] at h
      cases h
      exact .shrink hr hcap
    · rw [if_neg hcap] at h
      cases h
      exact .keep hr hcap

theorem panic_effect {s t : State τ} (h : s.panic = some t) : Effect s .panic t := by
  unfold State.panic at h
  split at h
  · rename_i i hr
    split at h
    · rename_i x hx
      cases h
      exact .panic hr hx
    · cases h
  · cases h

theorem step_effect {s t : State τ} {a : Act τ} (h : step s a = some t) : Effect s a t := by
  cases a with
  | push x =>
    cases h
    exact .push x
  | stepPush p spare => exact stepPush_effect h
  | close =>
    cases h
    exact .close
  | stepClose c => exact stepClose_effect h
  | wake =>
    cases h
    exact .ring
  | receive =>
    obtain ⟨hsig, h⟩ := Option.ite_none_right_eq_some.mp h
    cases h
    exact .receive hsig
  | callRange =>
    obtain ⟨hr, h⟩ := Option.ite_none_right_eq_some.mp h
    cases h
    exact .callRange hr
  | stepRange => exact stepRange_effect h
  | panic => exact panic_effect h

end

end GameCluster.Buffers
