import GameCluster.Queue.Fifo

/-!
The statement-level queue refines `SwapQueue`, whose `Push` reads the flag,
compares the length and appends in one step. A call takes effect where it reads
the flag: from there on it has the mutex, so the length it compares later is the
one it has then, and nobody sees the write buffer before the element is in it.
Taking effect at the append would be wrong, since `Close` can set the flag in
between.
-/

namespace GameCluster

/-- One step of the queue as its users see it. -/
inductive SwapQueue.Move {τ : Type*} (q : SwapQueue τ) : SwapQueue τ → Prop
  | stay : Move q q
  | pushData {x : τ} {q' : SwapQueue τ} (h : q.pushData x = .ok q') : Move q q'
  | wake : Move q q.wake
  | receive : Move q { q with sig := false }
  | close : Move q { q with closed := true }
  | swap (h : q.read = []) : Move q q.swap
  | hand {x : τ} {rest : List τ} (h : q.read = x :: rest) : Move q { q with read := rest }

theorem SwapQueue.Move.maxSize_eq {τ : Type*} {q q' : SwapQueue τ} (h : q.Move q') :
    q'.maxSize = q.maxSize := by
  cases h with
  | pushData h =>
    unfold SwapQueue.pushData at h
    split at h
    · cases h
    · split at h
      · cases h
      · cases h
        rfl
  | swap h =>
    unfold SwapQueue.swap
    split <;> rfl
  | _ => rfl

namespace Buffers

open Lib

variable {τ : Type*} {s t : State τ} {a : Act τ}

/-- Whether a call at this point has taken effect and has not stored yet. -/
def PushPc.committed (s : State τ) : PushPc → Bool
  | .room => s.write.len < s.maxSize
  | .append => true
  | .lock | .load | .unlock _ | .wake _ | .done _ => false

/-- The element that the call with the mutex is going to store. -/
def State.pending (s : State τ) : List τ :=
  match s.mtx with
  | some (.push p) => ((s.pushes[p]?).filter fun c => c.pc.committed s).toList.map Push.elem
  | _ => []

/-- The queue as its users see it. -/
def State.abs (s : State τ) : SwapQueue τ where
  maxSize := s.maxSize
  write := s.write.elems s.arrays ++ s.pending
  read := s.remaining
  sig := s.sig
  closed := s.closed

theorem pending_of_free (h : s.mtx = none) : s.pending = [] := by
  rw [State.pending, h]

theorem pending_of_range (h : s.mtx = some .range) : s.pending = [] := by
  rw [State.pending, h]

variable {p : ℕ} {c : Push τ}

theorem pending_of_push (hm : s.mtx = some (.push p)) (hc : s.pushes[p]? = some c) :
    s.pending = if c.pc.committed s = true then [c.elem] else [] := by
  simp only [State.pending, hm, hc, Option.filter]
  split <;> simp_all

theorem Mutex.mtx_eq (h : Mutex s) (hc : s.pushes[p]? = some c) (hpc : c.pc.holds = true) :
    s.mtx = some (.push p) := by
  rw [← push_holds hc] at hpc
  exact (h _).mp hpc

/-- The call with the mutex, seen from its critical section. -/
theorem Mutex.pending (h : Mutex s) (hc : s.pushes[p]? = some c) (hpc : c.pc.holds = true) :
    s.pending = if c.pc.committed s = true then [c.elem] else [] :=
  pending_of_push (h.mtx_eq hc hpc) hc

/-- The same after the call has moved to `pc`. -/
theorem pending_moved {pc : PushPc} (hc : s.pushes[p]? = some c) (hm : t.mtx = some (.push p))
    (hp : t.pushes = s.pushes.set p { c with pc }) :
    t.pending = if pc.committed t = true then [c.elem] else [] := by
  refine pending_of_push (c := { c with pc }) hm ?_
  rw [hp, getElem?_set_some hc, if_pos rfl]

/-- A call outside its critical section is not the one with the mutex. -/
theorem Mutex.ne_of_not_holds (h : Mutex s) (hc : s.pushes[p]? = some c)
    (hpc : c.pc.holds = false) : s.mtx ≠ some (.push p) := by
  rw [ne_eq, ← h, push_holds hc, hpc]
  simp

theorem pending_frame (hm : t.mtx = s.mtx) (hw : t.write.len = s.write.len)
    (hmax : t.maxSize = s.maxSize)
    (hp : ∀ p, s.mtx = some (.push p) → t.pushes[p]? = s.pushes[p]?) : t.pending = s.pending := by
  have hcommitted : ∀ pc : PushPc, pc.committed t = pc.committed s := by
    intro pc
    cases pc <;> simp [PushPc.committed, hw, hmax]
  simp only [State.pending, hm]
  split
  · rename_i p hmtx
    simp only [hp p hmtx, hcommitted]
  · rfl

/-- The users see nothing of a step that changes only what they do not see. -/
theorem abs_eq (hmax : t.maxSize = s.maxSize)
    (hw : t.write.elems t.arrays ++ t.pending = s.write.elems s.arrays ++ s.pending)
    (hr : t.remaining = s.remaining) (hsig : t.sig = s.sig) (hclosed : t.closed = s.closed) :
    t.abs = s.abs := by
  simp only [State.abs, hmax, hw, hr, hsig, hclosed]

/-- A call with the mutex moves on without storing. -/
theorem Mutex.abs_setPush (h : Mutex s) {pc : PushPc} (hc : s.pushes[p]? = some c)
    (hpc : c.pc.holds = true) (hcom : pc.committed s = c.pc.committed s) :
    (s.setPush p c pc).abs = s.abs := by
  refine abs_eq rfl ?_ rfl rfl rfl
  rw [pending_moved (t := s.setPush p c pc) hc (h.mtx_eq hc hpc) rfl, h.pending hc hpc, ← hcom]
  rfl

/-- A call that finds the queue open takes effect. -/
theorem Inv.refines_enter (h : Inv s) (hc : s.pushes[p]? = some c) (hpc : c.pc = .load)
    (hopen : s.closed = false) :
    SwapQueue.Move s.abs (s.setPush p c .room).abs := by
  have hhold : c.pc.holds = true := by
    rw [hpc]
    rfl
  have hbefore : s.pending = [] := by
    rw [h.mutex.pending hc hhold, hpc]
    rfl
  have hafter : (s.setPush p c .room).pending =
      if PushPc.room.committed s = true then [c.elem] else [] := by
    rw [pending_moved (t := s.setPush p c .room) hc (h.mutex.mtx_eq hc hhold) rfl]
    rfl
  by_cases hroom : s.write.len < s.maxSize
  · have hcom : PushPc.room.committed s = true := decide_eq_true hroom
    rw [if_pos hcom] at hafter
    have hlen : ¬s.maxSize ≤ (s.write.elems s.arrays).length := by
      rw [h.memory.write.elems_length]
      exact Nat.not_le_of_lt hroom
    refine .pushData (x := c.elem) ?_
    simp only [SwapQueue.pushData, State.abs, hbefore, hafter, List.append_nil, hopen]
    rw [if_neg (by simp), if_neg hlen]
    simp [State.setPush, State.remaining, hopen]
  · have hcom : PushPc.room.committed s = false := decide_eq_false hroom
    rw [hcom] at hafter
    have habs : (s.setPush p c .room).abs = s.abs :=
      abs_eq rfl (by rw [hbefore, hafter]; rfl) rfl rfl rfl
    rw [habs]
    exact .stay

/-- The append itself is behind the call's effect. -/
theorem Inv.abs_append [Inhabited τ] (h : Inv s) (spare : ℕ) (hc : s.pushes[p]? = some c)
    (hpc : c.pc = .append) (ha : t.arrays = (Slice.append s.arrays s.write c.elem spare).1)
    (hw : t.write = (Slice.append s.arrays s.write c.elem spare).2)
    (hp : t.pushes = s.pushes.set p { c with pc := .unlock none }) (hm : t.mtx = s.mtx)
    (hread : t.read = s.read) (hrange : t.range = s.range) (hmax : t.maxSize = s.maxSize)
    (hsig : t.sig = s.sig) (hclosed : t.closed = s.closed) : t.abs = s.abs := by
  have hhold : c.pc.holds = true := by
    rw [hpc]
    rfl
  have kept := Slice.append_kept h.memory.read h.memory.apart.symm c.elem spare
  have hbefore : s.pending = [c.elem] := by
    rw [h.mutex.pending hc hhold, hpc]
    rfl
  have hafter : t.pending = [] := by
    rw [pending_moved hc (hm.trans (h.mutex.mtx_eq hc hhold)) hp]
    rfl
  refine abs_eq hmax ?_ (remaining_kept (ha ▸ kept) hread hrange) hsig hclosed
  rw [hbefore, hafter, ha, hw, Slice.append_elems h.memory.write, List.append_nil]

/-- A step of the consumer with nothing left to hand out, at either end. -/
theorem abs_consumer (hm : t.mtx = s.mtx ∨ s.pending = [] ∧ t.pending = []) (hw : t.write = s.write)
    (helems : s.write.elems t.arrays = s.write.elems s.arrays) (hp : t.pushes = s.pushes)
    (hmax : t.maxSize = s.maxSize) (hs : s.remaining = []) (ht : t.remaining = [])
    (hsig : t.sig = s.sig) (hclosed : t.closed = s.closed) : t.abs = s.abs := by
  have hpending : t.pending = s.pending := by
    rcases hm with hm | ⟨hs, ht⟩
    · exact pending_frame hm (by rw [hw]) hmax fun _ _ => by rw [hp]
    · rw [hs, ht]
  exact abs_eq hmax (by rw [hw, helems, hpending]) (ht.trans hs.symm) hsig hclosed

theorem Inv.refines [Inhabited τ] (h : Inv s) (hok : panicsLast s a) (e : Effect s a t) :
    SwapQueue.Move s.abs t.abs := by
  have same : t.abs = s.abs → SwapQueue.Move s.abs t.abs := fun heq => heq ▸ .stay
  cases e with
  | push x =>
    refine same (abs_eq rfl ?_ rfl rfl rfl)
    congr 1
    refine pending_frame rfl rfl rfl fun p hm => ?_
    have hp := (h.mutex _).mpr hm
    have hlt : p < s.pushes.length := by
      by_contra hge
      simp [State.holds, List.getElem?_eq_none (Nat.le_of_not_lt hge)] at hp
    exact List.getElem?_append_left hlt
  | lock hc hpc hfree =>
    refine same (abs_eq rfl ?_ rfl rfl rfl)
    rw [pending_of_free hfree, pending_moved hc rfl rfl]
    rfl
  | refuse hc hpc _ =>
    refine same (h.mutex.abs_setPush hc ?_ ?_)
    · rw [hpc]
      rfl
    · rw [hpc]
      rfl
  | enter hc hpc hopen => exact h.refines_enter hc hpc hopen
  | full hc hpc hle =>
    refine same (h.mutex.abs_setPush hc ?_ ?_)
    · rw [hpc]
      rfl
    · rw [hpc]
      exact (decide_eq_false (Nat.not_lt_of_le hle)).symm
  | fits hc hpc hlt =>
    refine same (h.mutex.abs_setPush hc ?_ ?_)
    · rw [hpc]
      rfl
    · rw [hpc]
      exact (decide_eq_true hlt).symm
  | @append p spare c hc hpc =>
    exact same (h.abs_append spare hc hpc rfl rfl rfl rfl rfl rfl rfl rfl rfl)
  | unlock err hc hpc =>
    refine same (abs_eq rfl ?_ rfl rfl rfl)
    rw [h.mutex.pending hc (by rw [hpc]; rfl), hpc, pending_of_free rfl]
    rfl
  | @wake p spare c err hc hpc =>
    have hne := h.mutex.ne_of_not_holds hc (by rw [hpc]; rfl)
    have hpending : ({ s with sig := true }.setPush p c (.done err)).pending = s.pending := by
      refine pending_frame rfl rfl rfl fun q hq => ?_
      rw [State.setPush, getElem?_set_some hc, if_neg]
      rintro rfl
      exact hne hq
    have habs : ({ s with sig := true }.setPush p c (.done err)).abs = s.abs.wake := by
      simp only [State.abs, hpending]
      rfl
    rw [habs]
    exact .wake
  | close | closeAgain _ _ => exact .stay
  | closeFlag _ _ => exact .close
  | closeWake _ | ring => exact .wake
  | receive _ => exact .receive
  | callRange hr | rangeEmpty hr _ | rangeSome hr _ | keep hr _ =>
    refine same (abs_consumer (.inl rfl) rfl rfl rfl rfl ?_ rfl rfl rfl)
    simp only [State.remaining, hr]
  | rangeLock hr hfree =>
    refine same (abs_consumer (.inr ⟨pending_of_free hfree, pending_of_range rfl⟩) rfl rfl rfl rfl
      ?_ rfl rfl rfl)
    simp only [State.remaining, hr]
  | rangeLeave hr =>
    have hm : s.mtx = some .range := (h.mutex .range).mp (by rw [State.holds, hr]; rfl)
    refine same (abs_consumer (.inr ⟨pending_of_range hm, pending_of_free rfl⟩) rfl rfl rfl rfl
      ?_ rfl rfl rfl)
    simp only [State.remaining, hr]
  | rangeSwap hr =>
    have hm : s.mtx = some .range := (h.mutex .range).mp (by rw [State.holds, hr]; rfl)
    have hrest : s.remaining = [] := by simp only [State.remaining, hr]
    have habs : State.abs { s with write := s.read.truncate, read := s.write, range := .unlock } =
        s.abs.swap := by
      simp only [State.abs, SwapQueue.swap, pending_of_range hm, List.append_nil, hrest]
      split
      · rename_i hempty
        simp [State.remaining, pending_of_range, hm, List.isEmpty_iff.mp hempty]
      · simp [State.remaining, pending_of_range, hm]
    rw [habs]
    exact .swap hrest
  | rangeUnlock hr =>
    have hm : s.mtx = some .range := (h.mutex .range).mp (by rw [State.holds, hr]; rfl)
    refine same (abs_eq rfl ?_ ?_ rfl rfl)
    · rw [pending_of_range hm, pending_of_free rfl]
    · simp only [State.remaining, hr, List.drop_zero]
  | deliver hr hx => exact .hand (remaining_loop hr hx)
  | loopEnd hr hx =>
    refine same (abs_consumer (.inl rfl) rfl rfl rfl rfl ?_ rfl rfl rfl)
    simp only [State.remaining, hr]
    exact List.drop_eq_nil_of_le (List.getElem?_eq_none_iff.mp hx)
  | clear hr =>
    refine same (abs_consumer (.inl rfl) rfl (Slice.clear_kept h.memory.apart).elems rfl rfl
      ?_ rfl rfl rfl)
    simp only [State.remaining, hr]
  | shrink hr _ =>
    refine same (abs_consumer (.inl rfl) rfl (Slice.make_kept h.memory.write s.size).elems rfl rfl
      ?_ rfl rfl rfl)
    simp only [State.remaining, hr]
  | @panic i x hr hx =>
    have hrest : s.remaining = [x] := by
      have hle : s.remaining.length ≤ 1 := hok
      rw [remaining_loop hr hx, List.length_cons] at hle
      have hlast : (s.read.elems s.arrays).drop (i + 1) = [] :=
        List.length_eq_zero_iff.mp (by omega)
      rw [remaining_loop hr hx, hlast]
    exact .hand hrest

/-- A step of a statement is, to the users, at most one step of the queue whose
calls take effect at once. -/
theorem step_refines [Inhabited τ] (h : (queue τ).Reachable panicsLast s) (hok : panicsLast s a)
    (hs : step s a = some t) : SwapQueue.Move s.abs t.abs :=
  (inv_of_reachable h).refines hok (step_effect hs)

/-- A run of the statements is a run of the queue as its users see it. -/
theorem run_refines [Inhabited τ] (h : (queue τ).Reachable panicsLast s) :
    Relation.ReflTransGen SwapQueue.Move { maxSize := s.maxSize } s.abs := by
  induction h with
  | init h =>
    obtain ⟨size, maxSize, rfl⟩ := h
    have hempty : (newSwapQueue size maxSize : State τ).abs = { maxSize } := by
      simp [State.abs, State.pending, State.remaining, newSwapQueue, Slice.make, Slice.elems]
    rw [hempty]
    exact .refl
  | step hr hok hs ih =>
    have hmove := step_refines hr hok hs
    have hmax := hmove.maxSize_eq
    simp only [State.abs] at hmax
    rw [hmax]
    exact ih.tail hmove

end Buffers

end GameCluster
