import GameCluster.Queue.Buffers
import Mathlib.Data.List.Nodup
import Mathlib.Logic.Relation

/-!
What the statement-level queue keeps over every run. The two slices never share
an array, so an append cannot reach what `Range` is walking. The mutex has one
holder, so the length that `Push` compares is the length it appends to. Hence
the elements stored are, in order, those handed out, those that the `Range`
under way still has to hand out, and those in the write buffer.

A `Range` whose callback panics abandons the rest of the read buffer. The
results are for runs in which a callback panics, if at all, on the last element
of the buffer it is handed from.
-/

namespace GameCluster.Buffers

open Lib

variable {τ : Type*} {s t : State τ} {a : Act τ}

namespace State

/-- What the `Range` under way has still to hand out. -/
def remaining (s : State τ) : List τ :=
  match s.range with
  | .unlock => s.read.elems s.arrays
  | .loop i => (s.read.elems s.arrays).drop i
  | _ => []

/-- Stored and not handed out, oldest first. -/
def waiting (s : State τ) : List τ := s.remaining ++ s.write.elems s.arrays

end State

/-- A callback panics on the last element of its buffer only. -/
def panicsLast (s : State τ) : Act τ → Prop
  | .panic => s.remaining.length ≤ 1
  | _ => True

def noPanic (_ : State τ) : Act τ → Prop
  | .panic => False
  | _ => True

instance (s : State τ) (a : Act τ) : Decidable (panicsLast s a) :=
  match a with
  | .panic => inferInstanceAs (Decidable (s.remaining.length ≤ 1))
  | .push _ | .stepPush _ _ | .close | .stepClose _ | .wake | .receive | .callRange | .stepRange =>
    inferInstanceAs (Decidable True)

instance (s : State τ) (a : Act τ) : Decidable (noPanic s a) :=
  match a with
  | .panic => inferInstanceAs (Decidable False)
  | .push _ | .stepPush _ _ | .close | .stepClose _ | .wake | .receive | .callRange | .stepRange =>
    inferInstanceAs (Decidable True)

theorem noPanic_panicsLast (h : noPanic s a) : panicsLast s a := by
  cases a with
  | panic => exact h.elim
  | _ => trivial

/-! ### The buffers -/

structure Memory (s : State τ) : Prop where
  write : s.write.Valid s.arrays
  read : s.read.Valid s.arrays
  apart : s.write.array ≠ s.read.array

theorem Memory.frame (h : Memory s) (ha : t.arrays = s.arrays) (hw : t.write = s.write)
    (hr : t.read = s.read) : Memory t := by
  constructor
  · rw [ha, hw]
    exact h.write
  · rw [ha, hr]
    exact h.read
  · rw [hw, hr]
    exact h.apart

theorem newSwapQueue_memory [Inhabited τ] (size maxSize : ℕ) :
    Memory (newSwapQueue size maxSize : State τ) := by
  have hwrite := Slice.make_valid ([] : Arrays τ) size
  constructor
  · exact (Slice.make_kept hwrite size).valid hwrite
  · exact Slice.make_valid _ size
  · exact Slice.make_array_ne hwrite size

theorem Memory.effect [Inhabited τ] (h : Memory s) (e : Effect s a t) : Memory t := by
  cases e with
  | @append p spare c hc hpc =>
    have kept := Slice.append_kept h.read h.apart.symm c.elem spare
    constructor
    · exact Slice.append_valid h.write c.elem spare
    · exact kept.valid h.read
    · exact (Slice.append_array_ne h.read h.apart.symm c.elem spare).symm
  | rangeSwap hr =>
    constructor
    · exact h.read.truncate
    · exact h.write
    · exact h.apart.symm
  | clear hr =>
    constructor
    · exact (Slice.clear_kept h.apart).valid h.write
    · exact Slice.clear_valid h.read
    · exact h.apart
  | shrink hr hcap =>
    constructor
    · exact (Slice.make_kept h.write s.size).valid h.write
    · exact Slice.make_valid _ _
    · exact Slice.make_array_ne h.write s.size
  | _ => exact h.frame rfl rfl rfl

/-! ### The mutex -/

def PushPc.holds : PushPc → Bool
  | .load | .room | .append | .unlock _ => true
  | .lock | .wake _ | .done _ => false

def RangePc.holds : RangePc → Bool
  | .test | .leave | .swap | .unlock => true
  | .idle | .lock | .loop _ | .clear | .shrink => false

def State.holds (s : State τ) : Owner → Bool
  | .push p => (s.pushes[p]?).any (·.pc.holds)
  | .range => s.range.holds

/-- Whoever is between `Lock` and `Unlock` has the mutex, and nobody else. -/
def Mutex (s : State τ) : Prop := ∀ o, s.holds o = true ↔ s.mtx = some o

namespace Mutex

theorem frame (h : Mutex s) (hh : ∀ o, t.holds o = s.holds o) (hm : t.mtx = s.mtx) : Mutex t := by
  intro o
  rw [hh, hm]
  exact h o

theorem take (h : Mutex s) {o : Owner} (hfree : s.mtx = none) (hm : t.mtx = some o)
    (hh : ∀ o', t.holds o' = if o' = o then true else s.holds o') : Mutex t := by
  intro o'
  rw [hh, hm]
  by_cases ho : o' = o
  · simp [ho]
  · rw [if_neg ho, h o', hfree]
    simp [Ne.symm ho]

theorem release (h : Mutex s) {o : Owner} (hold : s.holds o = true) (hm : t.mtx = none)
    (hh : ∀ o', t.holds o' = if o' = o then false else s.holds o') : Mutex t := by
  intro o'
  rw [hh, hm]
  by_cases ho : o' = o
  · simp [ho]
  · rw [if_neg ho, h o', (h o).mp hold]
    simp [Ne.symm ho]

/-- Two holders are one. -/
theorem unique (h : Mutex s) {o o' : Owner} (ho : s.holds o = true) (ho' : s.holds o' = true) :
    o = o' :=
  Option.some.inj (((h o).mp ho).symm.trans ((h o').mp ho'))

theorem push_holds {p : ℕ} {c : Push τ} (hc : s.pushes[p]? = some c) :
    s.holds (.push p) = c.pc.holds := by
  simp [State.holds, hc]

end Mutex

variable {p q : ℕ} {c d : Push τ} {pc : PushPc}

theorem holds_setPush (hc : s.pushes[p]? = some c) (pc : PushPc) (o : Owner) :
    (s.setPush p c pc).holds o = if o = .push p then pc.holds else s.holds o := by
  cases o with
  | range => rfl
  | push q =>
    simp only [State.holds, State.setPush, getElem?_set_some hc, Owner.push.injEq]
    split <;> rfl

/-- A call that moves on inside or outside its critical section. -/
theorem holds_setPush_same (hc : s.pushes[p]? = some c) (hpc : pc.holds = c.pc.holds) (o : Owner) :
    (s.setPush p c pc).holds o = s.holds o := by
  rw [holds_setPush hc]
  split
  · rename_i ho
    rw [ho, Mutex.push_holds hc, hpc]
  · rfl

theorem newSwapQueue_mutex [Inhabited τ] (size maxSize : ℕ) :
    Mutex (newSwapQueue size maxSize : State τ) := by
  intro o
  cases o with
  | push p => simp [State.holds, newSwapQueue]
  | range => simp [State.holds, newSwapQueue, RangePc.holds]

/-- The holders after a step of the consumer that leaves the calls alone. -/
theorem holds_range (hp : t.pushes = s.pushes) (o : Owner) :
    t.holds o = if o = .range then t.range.holds else s.holds o := by
  cases o with
  | range => rfl
  | push p => simp [State.holds, hp]

theorem holds_range_same (hp : t.pushes = s.pushes) (hr : t.range.holds = s.range.holds)
    (o : Owner) : t.holds o = s.holds o := by
  rw [holds_range hp]
  split
  · rename_i ho
    rw [ho, hr, State.holds]
  · rfl

theorem Mutex.effect [Inhabited τ] (h : Mutex s) (e : Effect s a t) : Mutex t := by
  cases e with
  | push x =>
    refine h.frame (fun o => ?_) rfl
    cases o with
    | range => rfl
    | push p =>
      simp only [State.holds, getElem?_concat]
      by_cases hp : p = s.pushes.length
      · simp [hp, PushPc.holds]
      · rw [if_neg hp]
  | lock hc hpc hm =>
    refine h.take hm rfl fun o => ?_
    exact holds_setPush hc .load o
  | refuse hc hpc _ | enter hc hpc _ | full hc hpc _ | fits hc hpc _ | append hc hpc
  | wake err hc hpc =>
    exact h.frame (holds_setPush_same hc (by rw [hpc]; rfl)) rfl
  | unlock err hc hpc =>
    refine h.release (by rw [push_holds hc, hpc]; rfl) rfl fun o => ?_
    exact holds_setPush hc (.wake err) o
  | rangeLock hr hm =>
    refine h.take hm rfl fun o => ?_
    exact holds_range (by rfl) o
  | rangeLeave hr | rangeUnlock hr =>
    refine h.release (o := .range) (by rw [State.holds, hr]; rfl) rfl fun o => ?_
    exact holds_range (by rfl) o
  | callRange hr | rangeEmpty hr _ | rangeSome hr _ | rangeSwap hr | deliver hr _
  | loopEnd hr _ | clear hr | shrink hr _ | keep hr _ | panic hr _ =>
    exact h.frame (holds_range_same rfl (by rw [hr]; rfl)) rfl
  | close | closeAgain _ _ | closeFlag _ _ | closeWake _ | ring | receive _ =>
    exact h.frame (holds_range_same rfl rfl) rfl

/-! ### The bound -/

structure Bounded (s : State τ) : Prop where
  len_le : s.write.len ≤ s.maxSize
  room : ∀ {p : ℕ} {c : Push τ}, s.pushes[p]? = some c → c.pc = .append → s.write.len < s.maxSize

/-- The calls after one of them moved to a point that satisfies `P` if the
point it was at did. -/
theorem forall_set {P : Push τ → Prop} (h : ∀ {q : ℕ} {d : Push τ}, s.pushes[q]? = some d → P d)
    (hc : s.pushes[p]? = some c) (hP : P c → P { c with pc })
    (hd : (s.pushes.set p { c with pc })[q]? = some d) : P d := by
  rw [getElem?_set_some hc] at hd
  split at hd
  · cases hd
    exact hP (h hc)
  · exact h hd

theorem forall_push {P : Push τ → Prop} {x : τ}
    (h : ∀ {q : ℕ} {d : Push τ}, s.pushes[q]? = some d → P d) (hP : P ⟨x, s.closeReturned, .lock⟩)
    (hd : (s.pushes ++ [⟨x, s.closeReturned, .lock⟩])[q]? = some d) : P d := by
  rw [getElem?_concat] at hd
  split at hd
  · cases hd
    exact hP
  · exact h hd

theorem Bounded.move (h : Bounded s) (hc : s.pushes[p]? = some c) (hw : t.write = s.write)
    (hm : t.maxSize = s.maxSize) (hp : t.pushes = s.pushes.set p { c with pc })
    (hpc : pc = .append → s.write.len < s.maxSize) : Bounded t := by
  constructor
  · rw [hw, hm]
    exact h.len_le
  · rw [hw, hm, hp]
    exact forall_set h.room hc fun _ hap => hpc hap

theorem Bounded.frame (h : Bounded s) (hw : t.write = s.write) (hm : t.maxSize = s.maxSize)
    (hp : t.pushes = s.pushes) : Bounded t := by
  constructor
  · rw [hw, hm]
    exact h.len_le
  · rw [hw, hm, hp]
    exact h.room

/-- While somebody else has the mutex no call is about to append. -/
theorem Mutex.not_append (h : Mutex s) {o : Owner} (ho : s.holds o = true)
    (hd : s.pushes[q]? = some d) (hne : o ≠ .push q) : d.pc ≠ .append := by
  intro hpc
  apply hne
  apply h.unique ho
  rw [push_holds hd, hpc]
  rfl

theorem Bounded.effect [Inhabited τ] (h : Bounded s) (hm : Mutex s) (e : Effect s a t) :
    Bounded t := by
  cases e with
  | push x => exact ⟨h.len_le, forall_push h.room fun hap => by cases hap⟩
  | lock hc _ _ | refuse hc _ _ | enter hc _ _ | full hc _ _ | unlock _ hc _ | wake _ hc _ =>
    exact h.move hc rfl rfl rfl fun hap => by cases hap
  | fits hc _ hlt => exact h.move hc rfl rfl rfl fun _ => hlt
  | @append p spare c hc hpc =>
    have hlt := h.room hc hpc
    have hlen := Slice.append_len s.arrays s.write c.elem spare
    constructor
    · change (Slice.append s.arrays s.write c.elem spare).2.len ≤ s.maxSize
      omega
    · intro q d hd hap
      rw [State.setPush, getElem?_set_some hc] at hd
      split at hd
      · cases hd
        cases hap
      · rename_i hq
        refine absurd hap (hm.not_append (o := .push p) ?_ hd ?_)
        · rw [Mutex.push_holds hc, hpc]
          rfl
        · exact fun ho => hq (Owner.push.inj ho).symm
  | rangeSwap hr =>
    constructor
    · exact Nat.zero_le _
    · intro q d hd hap
      refine absurd hap (hm.not_append (o := .range) ?_ hd ?_)
      · rw [State.holds, hr]
        rfl
      · exact fun ho => by cases ho
  | _ => exact h.frame rfl rfl rfl

/-! ### The elements -/

/-- Nothing is lost, nothing is doubled and nothing overtakes. -/
def Contents (s : State τ) : Prop := s.accepted.map Prod.snd = s.delivered ++ s.waiting

theorem Contents.frame (h : Contents s) (ha : t.accepted = s.accepted)
    (hd : t.delivered = s.delivered) (hw : t.waiting = s.waiting) : Contents t := by
  rw [Contents, ha, hd, hw]
  exact h

theorem remaining_kept (h : Slice.Kept s.arrays t.arrays s.read) (hr : t.read = s.read)
    (hrange : t.range = s.range) : t.remaining = s.remaining := by
  unfold State.remaining
  rw [hrange, hr, h.elems]

theorem waiting_of_range (hs : s.remaining = []) (ht : t.remaining = [])
    (hw : t.write.elems t.arrays = s.write.elems s.arrays) : t.waiting = s.waiting := by
  rw [State.waiting, State.waiting, hs, ht, hw]

theorem remaining_loop {i : ℕ} {x : τ} (hr : s.range = .loop i)
    (hx : (s.read.elems s.arrays)[i]? = some x) :
    s.remaining = x :: (s.read.elems s.arrays).drop (i + 1) := by
  obtain ⟨hlt, rfl⟩ := List.getElem?_eq_some_iff.mp hx
  simp only [State.remaining, hr]
  exact List.drop_eq_getElem_cons hlt

theorem Contents.effect [Inhabited τ] (h : Contents s) (hmem : Memory s) (hok : panicsLast s a)
    (e : Effect s a t) : Contents t := by
  cases e with
  | @append p spare c hc hpc =>
    have kept := Slice.append_kept hmem.read hmem.apart.symm c.elem spare
    have hstored := Slice.append_elems hmem.write c.elem spare
    have hsame := kept.elems
    unfold Contents State.waiting State.remaining at h ⊢
    simp only [State.setPush, List.map_append, h, hstored, hsame, List.map_cons, List.map_nil,
      List.append_assoc]
  | callRange hr | rangeLock hr _ | rangeEmpty hr _ | rangeSome hr _ | rangeLeave hr | keep hr _ =>
    refine h.frame rfl rfl (waiting_of_range ?_ rfl rfl)
    simp only [State.remaining, hr]
  | rangeSwap hr =>
    refine h.frame rfl rfl ?_
    simp only [State.waiting, State.remaining, hr, Slice.truncate_elems, List.append_nil,
      List.nil_append]
  | rangeUnlock hr =>
    refine h.frame rfl rfl ?_
    simp only [State.waiting, State.remaining, hr, List.drop_zero]
  | @deliver i x hr hx =>
    have hrest := remaining_loop hr hx
    simp only [Contents, State.waiting, hrest] at h ⊢
    rw [h]
    simp [State.remaining]
  | @loopEnd i hr hx =>
    refine h.frame rfl rfl (waiting_of_range ?_ rfl rfl)
    simp only [State.remaining, hr]
    exact List.drop_eq_nil_of_le (List.getElem?_eq_none_iff.mp hx)
  | clear hr =>
    refine h.frame rfl rfl (waiting_of_range ?_ rfl (Slice.clear_kept hmem.apart).elems)
    simp only [State.remaining, hr]
  | shrink hr hcap =>
    refine h.frame rfl rfl
      (waiting_of_range ?_ rfl (Slice.make_kept hmem.write s.size).elems)
    simp only [State.remaining, hr]
  | @panic i x hr hx =>
    have hrest := remaining_loop hr hx
    have hlast : (s.read.elems s.arrays).drop (i + 1) = [] := by
      have hle : s.remaining.length ≤ 1 := hok
      rw [hrest, List.length_cons] at hle
      exact List.length_eq_zero_iff.mp (by omega)
    simp only [Contents, State.waiting, hrest, hlast] at h ⊢
    rw [h]
    simp [State.remaining]
  | _ => exact h.frame rfl rfl rfl

/-! ### The calls -/

/-- The call has stored its element. -/
def PushPc.stored : PushPc → Bool
  | .unlock err | .wake err | .done err => err.isNone
  | .lock | .load | .room | .append => false

/-- Each call stores its element once or not at all. -/
structure Calls (s : State τ) : Prop where
  nodup : (s.accepted.map Prod.fst).Nodup
  mem_iff : ∀ p x, (p, x) ∈ s.accepted ↔
    ∃ c, s.pushes[p]? = some c ∧ c.elem = x ∧ c.pc.stored = true

theorem Calls.move (h : Calls s) (hc : s.pushes[p]? = some c) (ha : t.accepted = s.accepted)
    (hp : t.pushes = s.pushes.set p { c with pc }) (hpc : pc.stored = c.pc.stored) : Calls t := by
  refine ⟨by rw [ha]; exact h.nodup, fun q x => ?_⟩
  rw [ha, h.mem_iff q x, hp, getElem?_set_some hc]
  by_cases hq : q = p
  · subst hq
    simp [hc, hpc]
  · simp [hq]

theorem Calls.frame (h : Calls s) (ha : t.accepted = s.accepted) (hp : t.pushes = s.pushes) :
    Calls t := by
  constructor
  · rw [ha]
    exact h.nodup
  · rw [ha, hp]
    exact h.mem_iff

theorem Calls.effect [Inhabited τ] (h : Calls s) (e : Effect s a t) : Calls t := by
  cases e with
  | push x =>
    refine ⟨h.nodup, fun p y => (h.mem_iff p y).trans ?_⟩
    simp only [getElem?_concat]
    by_cases hp : p = s.pushes.length
    · subst hp
      simp [PushPc.stored]
    · simp [hp]
  | lock hc hpc _ | refuse hc hpc _ | enter hc hpc _ | full hc hpc _ | fits hc hpc _
  | unlock _ hc hpc | wake _ hc hpc => exact h.move hc rfl rfl (by rw [hpc]; rfl)
  | @append p spare c hc hpc =>
    have hnew : ∀ x, (p, x) ∉ s.accepted := by
      intro x hx
      obtain ⟨d, hd, _, hst⟩ := (h.mem_iff p x).mp hx
      obtain rfl : c = d := Option.some.inj (hc.symm.trans hd)
      rw [hpc] at hst
      cases hst
    constructor
    · simp only [State.setPush, List.map_append, List.map_cons, List.map_nil]
      refine h.nodup.append (List.nodup_singleton p) (List.disjoint_singleton.mpr ?_)
      intro hp
      obtain ⟨⟨_, x⟩, hx, rfl⟩ := List.mem_map.mp hp
      exact hnew x hx
    · intro q x
      simp only [State.setPush, List.mem_append, List.mem_singleton, Prod.mk.injEq,
        getElem?_set_some hc]
      by_cases hq : q = p
      · subst hq
        simp only [hnew x, true_and, false_or, if_true, Option.some.injEq]
        constructor
        · rintro rfl
          exact ⟨_, rfl, rfl, rfl⟩
        · rintro ⟨_, rfl, rfl, _⟩
          rfl
      · simp [hq, h.mem_iff q x]
  | _ => exact h.frame rfl rfl

/-! ### Close -/

/-- The call will return `ErrQueueClosed`, or has. -/
def PushPc.refused : PushPc → Bool
  | .lock | .load => true
  | .room | .append => false
  | .unlock err | .wake err | .done err => err = some .queueClosed

/-- The flag is set and no call got past it, so nothing is stored any more. -/
structure Sealed (s : State τ) : Prop where
  closed : s.closed = true
  calls : ∀ {p : ℕ} {c : Push τ}, s.pushes[p]? = some c → c.pc ≠ .room ∧ c.pc ≠ .append

theorem Sealed.move (h : Sealed s) (hc : s.pushes[p]? = some c) (hclosed : t.closed = s.closed)
    (hp : t.pushes = s.pushes.set p { c with pc }) (hpc : pc ≠ .room ∧ pc ≠ .append) :
    Sealed t := by
  constructor
  · rw [hclosed]
    exact h.closed
  · rw [hp]
    exact forall_set h.calls hc fun _ => hpc

theorem Sealed.frame (h : Sealed s) (hclosed : t.closed = s.closed) (hp : t.pushes = s.pushes) :
    Sealed t := by
  constructor
  · rw [hclosed]
    exact h.closed
  · rw [hp]
    exact h.calls

theorem Sealed.effect [Inhabited τ] (h : Sealed s) (e : Effect s a t) : Sealed t := by
  cases e with
  | push x => exact ⟨h.closed, forall_push h.calls (by simp)⟩
  | lock hc _ _ | refuse hc _ _ | full hc _ _ | unlock _ hc _ | wake _ hc _ =>
    exact h.move hc rfl rfl (by simp)
  | enter _ _ hopen | closeFlag _ hopen => exact absurd (h.closed.symm.trans hopen) (by simp)
  | fits hc hpc _ => exact absurd hpc (h.calls hc).1
  | append hc hpc => exact absurd hpc (h.calls hc).2
  | _ => exact h.frame rfl rfl

/-- Once the flag is set, whoever gets the free mutex finds no call past it. -/
theorem Sealed.of_free (hm : Mutex s) (hfree : s.mtx = none) (hclosed : s.closed = true) :
    Sealed s := by
  have hout : ∀ {p : ℕ} {c : Push τ}, s.pushes[p]? = some c → c.pc.holds = true → False := by
    intro p c hc hpc
    rw [← Mutex.push_holds hc, hm, hfree] at hpc
    cases hpc
  refine ⟨hclosed, fun hc => ⟨fun hpc => hout hc ?_, fun hpc => hout hc ?_⟩⟩
  · rw [hpc]
    rfl
  · rw [hpc]
    rfl

/-- The consumer has had the mutex in this call of `Range`. -/
def RangePc.entered : RangePc → Bool
  | .idle | .lock => false
  | .test | .leave | .swap | .unlock | .loop _ | .clear | .shrink => true

/-- The consumer has found the write buffer empty or has emptied it. -/
def RangePc.emptied : RangePc → Bool
  | .idle | .lock | .test | .swap => false
  | .leave | .unlock | .loop _ | .clear | .shrink => true

theorem RangePc.entered_of_emptied {r : RangePc} (h : r.emptied = true) : r.entered = true := by
  cases r with
  | idle | lock | test | swap => cases h
  | _ => rfl

/-- What `Close` has done, and what the late calls of `Push` can still do. -/
structure Flagged (s : State τ) : Prop where
  closes : ∀ {i : ℕ} {c : ClosePc}, s.closes[i]? = some c → c ≠ .swap → s.closed = true
  late : ∀ {p : ℕ} {c : Push τ}, s.pushes[p]? = some c → c.late = true →
    s.closed = true ∧ c.pc.refused = true

namespace Flagged

theorem returned (h : Flagged s) (hr : s.closeReturned = true) : s.closed = true := by
  obtain ⟨i, hi⟩ := List.mem_iff_getElem?.mp (of_decide_eq_true hr)
  exact h.closes hi (by simp)

theorem frame (h : Flagged s) (hcloses : t.closes = s.closes) (hclosed : t.closed = s.closed)
    (hp : t.pushes = s.pushes) : Flagged t := by
  constructor
  · rw [hcloses, hclosed]
    exact h.closes
  · rw [hclosed, hp]
    exact h.late

theorem move (h : Flagged s) {p : ℕ} {c : Push τ} {pc : PushPc} (hc : s.pushes[p]? = some c)
    (hcloses : t.closes = s.closes) (hclosed : t.closed = s.closed)
    (hp : t.pushes = s.pushes.set p { c with pc })
    (hpc : s.closed = true → c.pc.refused = true → pc.refused = true) : Flagged t := by
  constructor
  · rw [hcloses, hclosed]
    exact h.closes
  · rw [hclosed, hp]
    refine forall_set (P := fun d => d.late = true → s.closed = true ∧ d.pc.refused = true)
      h.late hc fun hcall hl => ?_
    obtain ⟨hcl, href⟩ := hcall hl
    exact ⟨hcl, hpc hcl href⟩

/-- A closer that moves once the flag is set. -/
theorem closer (h : Flagged s) (hclosed : t.closed = true) (hp : t.pushes = s.pushes)
    (hlate : s.closed = true ∨ ∀ d ∈ s.pushes, d.late = false) : Flagged t := by
  constructor
  · intro _ _ _ _
    exact hclosed
  · rw [hp]
    intro p d hd hl
    refine ⟨hclosed, ?_⟩
    cases hlate with
    | inl hcl => exact (h.late hd hl).2
    | inr hnone => exact absurd (hnone d (List.mem_of_getElem? hd)) (by simp [hl])

theorem effect [Inhabited τ] (h : Flagged s) (e : Effect s a t) : Flagged t := by
  cases e with
  | push x =>
    refine ⟨h.closes, ?_⟩
    refine forall_push (P := fun d => d.late = true → s.closed = true ∧ d.pc.refused = true)
      h.late fun hl => ⟨h.returned hl, rfl⟩
  | lock hc hpc _ | refuse hc hpc _ => exact h.move hc rfl rfl rfl fun _ _ => rfl
  | enter hc hpc hopen =>
    exact h.move hc rfl rfl rfl fun hcl _ => absurd (hcl.symm.trans hopen) (by simp)
  | full hc hpc _ | fits hc hpc _ | append hc hpc =>
    exact h.move hc rfl rfl rfl fun _ href => absurd href (by simp [hpc, PushPc.refused])
  | unlock err hc hpc | wake err hc hpc =>
    refine h.move hc rfl rfl rfl fun _ href => ?_
    rw [hpc] at href
    exact href
  | close =>
    refine ⟨fun {i c} hc hne => ?_, h.late⟩
    rw [getElem?_concat] at hc
    split at hc
    · cases hc
      exact absurd rfl hne
    · exact h.closes hc hne
  | closeAgain _ hcl => exact h.closer hcl rfl (.inl hcl)
  | closeFlag _ hopen =>
    refine h.closer rfl rfl (.inr fun d hd => ?_)
    obtain ⟨p, hp⟩ := List.mem_iff_getElem?.mp hd
    by_contra hl
    have hcl := (h.late hp (by simpa using hl)).1
    exact absurd (hcl.symm.trans hopen) (by simp)
  | closeWake hc =>
    have hcl := h.closes hc (by simp)
    exact h.closer hcl rfl (.inl hcl)
  | _ => exact h.frame rfl rfl rfl

end Flagged

/-- A `Range` that was called after a `Close` had returned. -/
structure LateRange (s : State τ) : Prop where
  closed : s.range ≠ .idle → s.rangeLate = true → s.closed = true
  shut : s.range.entered = true → s.rangeLate = true → Sealed s
  emptied : s.range.emptied = true → s.rangeLate = true → s.write.len = 0

namespace LateRange

theorem closed_effect [Inhabited τ] (hcl : s.closed = true) (e : Effect s a t) :
    t.closed = true := by
  cases e with
  | closeFlag _ _ => rfl
  | _ => exact hcl

theorem frame [Inhabited τ] (h : LateRange s) (e : Effect s a t) (hr : t.range = s.range)
    (hl : t.rangeLate = s.rangeLate) (hw : t.write = s.write) : LateRange t := by
  constructor
  · rw [hr, hl]
    exact fun hrange hlate => closed_effect (h.closed hrange hlate) e
  · rw [hr, hl]
    exact fun hrange hlate => (h.shut hrange hlate).effect e
  · rw [hr, hl, hw]
    exact h.emptied

/-- The consumer moves on inside the call. -/
theorem step [Inhabited τ] (h : LateRange s) (e : Effect s a t) (hs : s.range.entered = true)
    (hl : t.rangeLate = s.rangeLate)
    (hw : t.range.emptied = true → s.rangeLate = true → t.write.len = 0) : LateRange t := by
  have hshut : t.rangeLate = true → Sealed t := by
    rw [hl]
    exact fun hlate => (h.shut hs hlate).effect e
  constructor
  · exact fun _ hlate => (hshut hlate).closed
  · exact fun _ hlate => hshut hlate
  · rw [hl]
    exact hw

theorem idle (hr : t.range = .idle) : LateRange t := by
  constructor
  · exact fun hne => absurd hr hne
  · rw [hr]
    exact fun hent => by cases hent
  · rw [hr]
    exact fun hem => by cases hem

theorem effect [Inhabited τ] (h : LateRange s) (hf : Flagged s) (hm : Mutex s)
    (e : Effect s a t) : LateRange t := by
  have he := e
  cases e with
  | @append p spare c hc hpc =>
    refine ⟨h.closed, fun hr hl => ?_, fun hr hl => ?_⟩
    · exact absurd hpc ((h.shut hr hl).calls hc).2
    · exact absurd hpc ((h.shut (RangePc.entered_of_emptied hr) hl).calls hc).2
  | callRange hr =>
    refine ⟨fun _ hl => hf.returned hl, fun hent => ?_, fun hem => ?_⟩
    · cases hent
    · cases hem
  | rangeLock hr hfree =>
    have hcl : s.rangeLate = true → s.closed = true := h.closed (by simp [hr])
    refine ⟨fun _ hl => hcl hl, fun _ hl => ?_, fun hem => ?_⟩
    · exact (Sealed.of_free hm hfree (hcl hl)).frame rfl rfl
    · cases hem
  | rangeEmpty hr hw => exact h.step he (by rw [hr]; rfl) rfl fun _ _ => hw
  | rangeSome hr hw => exact h.step he (by rw [hr]; rfl) rfl fun hem => by cases hem
  | rangeSwap hr => exact h.step he (by rw [hr]; rfl) rfl fun _ _ => rfl
  | rangeUnlock hr | deliver hr _ | loopEnd hr _ | clear hr =>
    exact h.step he (by rw [hr]; rfl) rfl fun _ hl => h.emptied (by rw [hr]; rfl) hl
  | rangeLeave hr | shrink hr _ | keep hr _ | panic hr _ => exact idle rfl
  | _ => exact h.frame he rfl rfl rfl

end LateRange

/-- Everything stored has been handed out, for good. -/
def Drained (s : State τ) : Prop := Sealed s ∧ s.accepted.map Prod.snd = s.delivered

theorem Contents.waiting_eq_nil (h : Contents s) (hd : s.accepted.map Prod.snd = s.delivered) :
    s.waiting = [] := by
  rw [Contents, hd] at h
  exact List.self_eq_append_right.mp h

theorem Drained.effect [Inhabited τ] (h : Drained s) (hC : Contents s) (e : Effect s a t) :
    Drained t := by
  refine ⟨h.1.effect e, ?_⟩
  have hnone := hC.waiting_eq_nil h.2
  cases e with
  | append hc hpc => exact absurd hpc (h.1.calls hc).2
  | deliver hr hx | panic hr hx =>
    rw [State.waiting, remaining_loop hr hx] at hnone
    cases hnone
  | _ => exact h.2

/-- A late `Range` at one of its returns. -/
theorem LateRange.drained (h : LateRange s) (hC : Contents s) (hmem : Memory s)
    (hr : s.range.emptied = true) (hrem : s.remaining = []) (hl : s.rangeLate = true) :
    Drained s := by
  refine ⟨h.shut (RangePc.entered_of_emptied hr) hl, ?_⟩
  have hw : s.write.elems s.arrays = [] := hmem.write.elems_eq_nil_iff.mpr (h.emptied hr hl)
  rw [hC, State.waiting, hrem, hw]
  simp

theorem drained_effect [Inhabited τ] (h : s.drained = true → Drained s) (hC : Contents s)
    (hmem : Memory s) (hl : LateRange s) (e : Effect s a t) : t.drained = true → Drained t := by
  have he := e
  cases e with
  | rangeLeave hr | shrink hr _ | keep hr _ =>
    intro hd
    have hs : Drained s := by
      rcases Bool.or_eq_true _ _ ▸ hd with hd | hlate
      · exact h hd
      · exact hl.drained hC hmem (by rw [hr]; rfl) (by simp only [State.remaining, hr]) hlate
    exact hs.effect hC he
  | _ => exact fun hd => (h hd).effect hC he

/-! ### Every run -/

structure Inv (s : State τ) : Prop where
  memory : Memory s
  mutex : Mutex s
  bounded : Bounded s
  contents : Contents s
  calls : Calls s
  flagged : Flagged s
  late : LateRange s
  drained : s.drained = true → Drained s

variable [Inhabited τ]

theorem newSwapQueue_inv (size maxSize : ℕ) : Inv (newSwapQueue size maxSize : State τ) where
  memory := newSwapQueue_memory size maxSize
  mutex := newSwapQueue_mutex size maxSize
  bounded := ⟨Nat.zero_le _, by simp [newSwapQueue]⟩
  contents := by
    simp [Contents, State.waiting, State.remaining, newSwapQueue, Slice.make, Slice.elems]
  calls := ⟨List.nodup_nil, by simp [newSwapQueue]⟩
  flagged := ⟨by simp [newSwapQueue], by simp [newSwapQueue]⟩
  late := .idle rfl
  drained := fun h => by cases h

theorem Inv.effect (h : Inv s) (hok : panicsLast s a) (e : Effect s a t) : Inv t where
  memory := h.memory.effect e
  mutex := h.mutex.effect e
  bounded := h.bounded.effect h.mutex e
  contents := h.contents.effect h.memory hok e
  calls := h.calls.effect e
  flagged := h.flagged.effect e
  late := h.late.effect h.flagged h.mutex e
  drained := drained_effect h.drained h.contents h.memory h.late e

theorem inv_of_reachable (h : (queue τ).Reachable panicsLast s) : Inv s := by
  apply h.invariant
  · rintro s ⟨size, maxSize, rfl⟩
    exact newSwapQueue_inv size maxSize
  · intro s a t _ ih hok hs
    exact ih.effect hok (step_effect hs)

/-! ### A `Range` that nobody interrupts -/

/-- A bound on the statements that `Range` still has before it. -/
def State.rank (s : State τ) : ℕ :=
  match s.range with
  | .idle => 0
  | .shrink | .leave => 1
  | .clear => 2
  | .loop i => 3 + (s.read.len - i)
  | .unlock => 4 + s.read.len
  | .swap => 5 + s.write.len
  | .test => 6 + s.write.len
  | .lock => 7 + s.write.len

theorem rank_lt (h : Memory s) (e : Effect s .stepRange t) : t.rank < s.rank := by
  cases e with
  | @deliver i x hr hx =>
    have hlt := lt_length_of_some hx
    rw [h.read.elems_length] at hlt
    simp only [State.rank, hr]
    omega
  | rangeLock hr _ | rangeEmpty hr _ | rangeSome hr _ | rangeLeave hr | rangeSwap hr
  | rangeUnlock hr | loopEnd hr _ | clear hr | shrink hr _ | keep hr _ =>
    simp only [State.rank, State.returnRange, hr]
    omega

theorem stepRange_enabled (hr : s.range ≠ .idle) (hfree : s.range = .lock → s.mtx = none) :
    ∃ t, step s .stepRange = some t := by
  change ∃ t, s.stepRange = some t
  unfold State.stepRange
  cases hrange : s.range with
  | idle => exact absurd hrange hr
  | lock => simp [hfree hrange]
  | loop i | shrink =>
    simp only
    split <;> simp
  | _ => simp

/-- No step of `Range` goes back to the mutex or stores, and a call is over
with the write buffer empty. -/
theorem stepRange_keeps (e : Effect s .stepRange t)
    (h : s.range = .idle ∨ s.range.emptied = true → s.write.len = 0) :
    t.range ≠ .lock ∧ t.accepted = s.accepted ∧
      (t.range = .idle ∨ t.range.emptied = true → t.write.len = 0) := by
  cases e with
  | rangeLock hr _ | rangeSome hr hw => simp [RangePc.emptied]
  | rangeEmpty hr hw => simp [hw]
  | rangeSwap hr => simp [Slice.truncate]
  | rangeLeave hr | rangeUnlock hr | deliver hr _ | loopEnd hr _ | clear hr | shrink hr _
  | keep hr _ =>
    have hw : s.write.len = 0 := h (.inr (by rw [hr]; rfl))
    simp [State.returnRange, hw]

/-- With the mutex free a call of `Range` comes to its end by its own steps, and
leaves the write buffer empty. -/
theorem range_returns (h : Inv s) (hfree : s.range = .lock → s.mtx = none)
    (hw : s.range = .idle ∨ s.range.emptied = true → s.write.len = 0) :
    ∃ t, Relation.ReflTransGen (fun u v => step u .stepRange = some v) s t ∧ Inv t ∧
      t.range = .idle ∧ t.accepted = s.accepted ∧ t.write.len = 0 := by
  -- the rank bounds the number of steps
  induction hn : s.rank using Nat.strong_induction_on generalizing s with
  | _ n ih =>
    by_cases hr : s.range = .idle
    · exact ⟨s, .refl, h, hr, rfl, hw (.inl hr)⟩
    · obtain ⟨u, hu⟩ := stepRange_enabled hr hfree
      have e := step_effect hu
      obtain ⟨hnolock, hacc, hwu⟩ := stepRange_keeps e hw
      have hinv : Inv u := h.effect (a := .stepRange) trivial e
      have hlt : u.rank < n := hn ▸ rank_lt h.memory e
      obtain ⟨t, hsteps, ht, hidle, hacct, hwt⟩ :=
        ih u.rank hlt hinv (fun hl => absurd hl hnolock) hwu rfl
      exact ⟨t, hsteps.head hu, ht, hidle, hacct.trans hacc, hwt⟩

/-! ### The queue -/

/-- `SwapQueue` as its users rely on it. -/
structure ExactlyOnceFifo (s : State τ) : Prop where
  /-- The callbacks have been handed the elements stored, in the order of the
  critical sections that stored them, up to those that still wait. -/
  fifo : s.accepted.map Prod.snd = s.delivered ++ s.waiting
  /-- No call stores twice. -/
  once : (s.accepted.map Prod.fst).Nodup
  /-- The calls that returned nil are those that stored their element. -/
  returned : ∀ p c err, s.pushes[p]? = some c → c.pc = .done err →
    (err = none ↔ (p, c.elem) ∈ s.accepted)
  bounded : (s.write.elems s.arrays).length ≤ s.maxSize
  /-- `ErrQueueFull` is decided with the write buffer at its bound. -/
  full : ∀ p spare t c, step s (.stepPush p spare) = some t → t.pushes[p]? = some c →
    c.pc = .unlock (some .queueFull) → (s.write.elems s.arrays).length = s.maxSize
  /-- A call that starts after a `Close` has returned is refused. -/
  refused : ∀ c ∈ s.pushes, c.late = true → ∀ err, c.pc = .done err → err = some .queueClosed
  /-- One `Range` that starts after a `Close` has returned hands out the rest. -/
  drained : s.drained = true → s.delivered = s.accepted.map Prod.snd
  /-- A call of `Range` that finds the mutex free runs to its end, and by then
  everything stored has been handed out. -/
  drains : s.mtx = none → s.range = .idle → ∃ u t, step s .callRange = some u ∧
    Relation.ReflTransGen (fun u v => step u .stepRange = some v) u t ∧ t.range = .idle ∧
      t.delivered = s.accepted.map Prod.snd

theorem Inv.drains (h : Inv s) (hm : s.mtx = none) (hr : s.range = .idle) :
    ∃ u t, step s .callRange = some u ∧
      Relation.ReflTransGen (fun u v => step u .stepRange = some v) u t ∧ t.range = .idle ∧
        t.delivered = s.accepted.map Prod.snd := by
  have hu : step s .callRange = some { s with range := .lock, rangeLate := s.closeReturned } :=
    if_pos hr
  have hinv := h.effect (a := .callRange) trivial (step_effect hu)
  obtain ⟨t, hsteps, ht, hidle, hacc, hw⟩ := range_returns hinv (fun _ => hm) (by
    simp [RangePc.emptied])
  refine ⟨_, t, hu, hsteps, hidle, ?_⟩
  have hnone : t.waiting = [] := by
    rw [State.waiting, ht.memory.write.elems_eq_nil_iff.mpr hw]
    simp [State.remaining, hidle]
  have hC := ht.contents
  rw [Contents, hnone, List.append_nil, hacc] at hC
  exact hC.symm

theorem Inv.full (h : Inv s) {p spare : ℕ} (hs : step s (.stepPush p spare) = some t)
    (hc : t.pushes[p]? = some c) (hpc : c.pc = .unlock (some .queueFull)) :
    s.write.len = s.maxSize := by
  have at_p : ∀ {d : Push τ} {pc : PushPc}, s.pushes[p]? = some d →
      (s.pushes.set p { d with pc })[p]? = some c → pc = .unlock (some .queueFull) := by
    intro d pc hd hset
    rw [getElem?_set_some hd, if_pos rfl] at hset
    cases hset
    exact hpc
  cases step_effect hs with
  | full hd _ hle => exact Nat.le_antisymm h.bounded.len_le hle
  | lock hd _ _ | refuse hd _ _ | enter hd _ _ | fits hd _ _ | append hd _ | unlock _ hd _
  | wake _ hd _ => cases at_p hd hc

/-- While no callback panics, the elements stored are handed out once each and in order,
the bound is kept, and `Close` refuses what comes after it. -/
theorem swapQueue_exactly_once_fifo (h : (queue τ).Reachable noPanic s) : ExactlyOnceFifo s := by
  have inv : Inv s := inv_of_reachable (h.mono fun _ _ => noPanic_panicsLast)
  have hlen := inv.memory.write.elems_length
  constructor
  case fifo => exact inv.contents
  case once => exact inv.calls.nodup
  case returned =>
    intro p c err hc hpc
    rw [inv.calls.mem_iff]
    constructor
    · rintro rfl
      exact ⟨c, hc, rfl, by rw [hpc]; rfl⟩
    · rintro ⟨d, hd, _, hst⟩
      obtain rfl : c = d := Option.some.inj (hc.symm.trans hd)
      rw [hpc] at hst
      exact Option.isNone_iff_eq_none.mp hst
  case bounded =>
    rw [hlen]
    exact inv.bounded.len_le
  case full =>
    intro p spare t c hs hc hpc
    rw [hlen]
    exact inv.full hs hc hpc
  case refused =>
    intro c hc hl err hpc
    obtain ⟨p, hp⟩ := List.mem_iff_getElem?.mp hc
    have href := (inv.flagged.late hp hl).2
    rw [hpc] at href
    exact of_decide_eq_true href
  case drained => exact fun hd => (inv.drained hd).2.symm
  case drains => exact inv.drains

/-- A call that has read the flag stores its element after `Close` has returned.
The `Range` called after that waits for the mutex and hands the element out, and
the next call is refused. -/
theorem storedAfterClose_fifo : ∃ s : State ℕ, (queue ℕ).Reachable noPanic s ∧
    (s.drained = true ∧ s.delivered = [10] ∧
      s.pushes.map (·.pc) = [.done none, .done (some .queueClosed)]) ∧ ExactlyOnceFifo s := by
  obtain ⟨s, hs, hp⟩ := Machine.exec_reaches (m := queue ℕ) noPanic
    (fun s => s.drained = true ∧ s.delivered = [10] ∧
      s.pushes.map (·.pc) = [.done none, .done (some .queueClosed)])
    [.push 10, .stepPush 0 0, .stepPush 0 0, .close, .stepClose 0, .stepClose 0, .callRange,
      .stepPush 0 0, .stepPush 0 0, .push 20, .stepPush 0 0, .stepRange, .stepRange, .stepRange,
      .stepRange, .stepRange, .stepRange, .stepRange, .stepRange, .stepPush 0 0, .stepPush 1 0,
      .stepPush 1 0, .stepPush 1 0, .stepPush 1 0]
    ⟨1, 1, rfl⟩ (by decide +kernel)
  exact ⟨s, hs, hp, swapQueue_exactly_once_fifo hs⟩

end GameCluster.Buffers
