import GameCluster.Lib.Machine
import GameCluster.Save.Invariant

/-!
Batched saving against immediate saving. A saver is given ops with fields in
any order, between any of its own steps; the specification applies every op to
the Redis hashes the moment it is pushed, which is `setAll`. The saver lags
behind it: at any time what a hash holds is what the specification had after
some earlier push, the saver only ever moves forward through these versions,
and a flush that succeeds has caught up with everything merged.

Redis removes a key that has not been saved for seven days, which the
specification knows nothing of. From then on the hash holds only what was not
yet flushed at that time and what has been merged since.
-/

namespace GameCluster

open Lib

/-- A saver with its stores and their clock. `pushed` lists the ops its queue
accepted, `merged` those it has handed to `merge` and `unsaved` those of them
that it has merged since the last flush that succeeded, each in the order it
happened. -/
structure SaveRun (κ ν : Type) where
  saver : Saver κ ν
  stores : Stores κ ν
  now : Int
  pushed : List (OpSaveData κ ν)
  merged : List (OpSaveData κ ν)
  unsaved : List (OpSaveData κ ν)

inductive SaveAct (κ ν : Type) where
  | push (op : OpSaveData κ ν)
  | close
  | saver (a : SaverAct)
  | tick (seconds : Nat)
  | expire (id : RoleID)

variable {κ ν : Type}

namespace SaveRun

/-- The step on which `saveBatch` returns an error: the flush is over and the
batch, which was not empty, has not been replaced by a fresh one. -/
def FlushFails (s t : SaveRun κ ν) : Prop :=
  s.saver.flush.isSome ∧ t.saver.flush.isNone ∧ 0 < t.saver.batch.len

/-- The step on which `saveBatch` returns nil and the batch is replaced. -/
def FlushSucceeds (s t : SaveRun κ ν) : Prop :=
  s.saver.flush.isSome ∧ t.saver.flush.isNone ∧ t.saver.batch.len = 0

/-- The step on which the key of a role that has a hash expires. -/
def HashGoes (id : RoleID) (s t : SaveRun κ ν) : Prop :=
  s.stores.redis id ≠ ∅ ∧ t.stores.redis id = ∅

def push (s : SaveRun κ ν) (op : OpSaveData κ ν) : SaveRun κ ν :=
  let (q, err) := s.saver.q.push op
  { s with
    saver := { s.saver with q }
    pushed := if err = none then s.pushed ++ [op] else s.pushed }

end SaveRun

variable [DecidableEq κ]

namespace SaveRun

def step (s : SaveRun κ ν) : SaveAct κ ν → Option (SaveRun κ ν)
  | .push op => if 0 < op.values.len then some (s.push op) else none
  | .close => some { s with saver := { s.saver with q := s.saver.q.close } }
  | .saver a =>
    (s.saver.step s.now s.stores a).map fun (saver, stores, _) =>
      { s with
        saver
        stores
        merged := s.merged ++ s.saver.merges a
        unsaved :=
          if s.saver.flush.isSome ∧ saver.flush.isNone ∧ saver.batch.len = 0 then []
          else s.unsaved ++ s.saver.merges a }
  | .tick seconds => some { s with now := s.now + seconds }
  | .expire id => (s.stores.expire s.now id).map fun stores => { s with stores }

end SaveRun

/-- A saver from its start, over any stores, pushed any ops with fields. -/
def saveMachine (κ ν : Type) [DecidableEq κ] : Machine (SaveRun κ ν) (SaveAct κ ν) where
  init s := s.saver = newSaver ∧ s.pushed = [] ∧ s.merged = [] ∧ s.unsaved = []
  step := SaveRun.step

/-- Immediate saving: every op applied to the hashes when it is pushed, so that
each field of a role has the value of its last writer. -/
def immediate (redis₀ : RoleID → Map κ ν) (ops : List (OpSaveData κ ν)) (id : RoleID) :
    Map κ ν :=
  Map.lastWrites (writesOf ops id) ∪ redis₀ id

theorem immediate_append (redis₀ : RoleID → Map κ ν) (first second : List (OpSaveData κ ν))
    (id : RoleID) :
    immediate redis₀ (first ++ second) id = immediate (immediate redis₀ first) second id := by
  simp [immediate, Finmap.union_assoc]

namespace SaveRun

/-- What a step is: of the saver itself, of its queue, or of the stores. -/
inductive Move (s t : SaveRun κ ν) : Prop
  | push {op : OpSaveData κ ν} (hop : op.values ≠ ∅) (heq : t = s.push op)
  | close (heq : t = { s with saver := { s.saver with q := s.saver.q.close } })
  | saver {a : SaverAct} {out : Option (List RoleID)}
      (he : Saver.Effect s.saver s.stores a t.saver t.stores out)
      (hpushed : t.pushed = s.pushed) (hmerged : t.merged = s.merged ++ s.saver.merges a)
      (hunsaved : t.unsaved = if s.saver.flush.isSome ∧ t.saver.flush.isNone ∧
        t.saver.batch.len = 0 then [] else s.unsaved ++ s.saver.merges a)
  | tick {now : Int} (heq : t = { s with now })
  | expire {id : RoleID} (heq : t = { s with stores := s.stores.drop id })

variable {s t : SaveRun κ ν} {redis₀ : RoleID → Map κ ν} {id : RoleID}

theorem step_move {a : SaveAct κ ν} (hs : s.step a = some t) : Move s t := by
  cases a with
  | push op =>
    simp only [SaveRun.step, Option.ite_none_right_eq_some, Option.some.injEq] at hs
    obtain ⟨hlen, rfl⟩ := hs
    exact .push (fun hempty => by simp [hempty, Map.len] at hlen) rfl
  | close => exact .close (Option.some.inj hs).symm
  | saver a =>
    simp only [SaveRun.step, Option.map_eq_some_iff] at hs
    obtain ⟨⟨saver, stores, out⟩, hstep, rfl⟩ := hs
    exact .saver (Saver.step_effect hstep) rfl rfl rfl
  | tick seconds => exact .tick (Option.some.inj hs).symm
  | expire id =>
    simp only [SaveRun.step, Option.map_eq_some_iff] at hs
    obtain ⟨stores, hexp, rfl⟩ := hs
    exact .expire (by rw [Stores.expire_some hexp])

/-- The invariant of the run, relative to the hashes it started from. -/
structure Inv (redis₀ : RoleID → Map κ ν) (s : SaveRun κ ν) : Prop where
  wf : s.saver.WF
  written : s.saver.Written s.stores
  filled : s.saver.Filled
  live : s.saver.status ≠ .panicked
  queue : s.pushed = s.merged ++ s.saver.q.waiting
  unsaved : s.unsaved <:+ s.merged
  batch : ∀ id, s.saver.batch.fields id = Map.lastWrites (writesOf s.unsaved id)
  content : ∀ id, Map.Holds (immediate redis₀ s.merged id) (s.saver.content s.stores id)

theorem Inv.init (h : (saveMachine κ ν).init s) : Inv s.stores.redis s := by
  obtain ⟨hsaver, hpushed, hmerged, hunsaved⟩ := h
  constructor
  · rw [hsaver]
    exact Saver.newSaver_wf
  · exact .of_flush_none (by rw [hsaver]; rfl)
  · rw [hsaver]
    exact ⟨by simp [newSaver, SwapQueue.waiting], by simp [newSaver]⟩
  · simp [hsaver, newSaver]
  · simp [hsaver, hpushed, hmerged, newSaver, SwapQueue.waiting]
  · simp [hmerged, hunsaved]
  · simp [hsaver, hunsaved, newSaver]
  · intro id c v hv
    simpa [hsaver, hmerged, newSaver, Saver.content, immediate] using hv

theorem Inv.push (h : s.Inv redis₀) {op : OpSaveData κ ν} (hop : op.values ≠ ∅) :
    (s.push op).Inv redis₀ where
  wf := h.wf.push op
  written := h.written.frame h.wf rfl (fun _ _ => Or.inl rfl) (fun _ _ => rfl)
  filled := h.filled.push hop
  live := h.live
  queue := by
    simp only [SaveRun.push, SwapQueue.push_waiting, h.queue]
    split <;> simp
  unsaved := h.unsaved
  batch := h.batch
  content := h.content

theorem Inv.close (h : s.Inv redis₀) :
    Inv redis₀ { s with saver := { s.saver with q := s.saver.q.close } } where
  wf := h.wf.close
  written := h.written.frame h.wf rfl (fun _ _ => Or.inl rfl) (fun _ _ => rfl)
  filled := ⟨by simpa using h.filled.queued, h.filled.batched⟩
  live := h.live
  queue := by simpa using h.queue
  unsaved := h.unsaved
  batch := h.batch
  content := h.content

theorem Inv.drop (h : s.Inv redis₀) (id : RoleID) :
    Inv redis₀ { s with stores := s.stores.drop id } where
  wf := h.wf
  written := h.written.drop h.wf id
  filled := h.filled
  live := h.live
  queue := h.queue
  unsaved := h.unsaved
  batch := h.batch
  content x := by
    rcases s.stores.drop_redis id x with heq | heq
    · have hcontent := h.content x
      rw [Saver.content] at hcontent ⊢
      rwa [heq]
    · intro c v hv
      rw [Saver.content, heq, Finmap.union_empty] at hv
      exact h.content x c v (by simp [Saver.content, hv])

/-- What a flush has just written and cleared is held by the hash, unless that
has gone; nothing in it is older than the last merged op. -/
theorem Inv.redis_holds (h : s.Inv redis₀)
    (hpiped : (s.saver.batch.lookup id).isSome → s.saver.Piped id) :
    Map.Holds (immediate redis₀ s.merged id) (s.stores.redis id) := by
  have hcontent := h.content id
  cases hop : s.saver.batch.lookup id with
  | none => simpa [Saver.content, Batch.fields, hop] using hcontent
  | some op =>
    rcases h.written.held h.wf (hpiped (by simp [hop])) with hempty | hheld
    · rw [hempty]
      exact Map.holds_empty _
    · rwa [Saver.content, Map.holds_iff_union_eq.mp hheld] at hcontent

theorem holds_immediate {m : Map κ ν} (h : Map.Holds (immediate redis₀ s.merged id) m)
    (ops : List (OpSaveData κ ν)) :
    Map.Holds (immediate redis₀ (s.merged ++ ops) id)
      (Map.lastWrites (writesOf ops id) ∪ m) := by
  rw [immediate_append, immediate]
  intro c v hv
  rw [Map.lookup_union_or] at hv ⊢
  cases hc : (Map.lastWrites (writesOf ops id)).lookup c with
  | none =>
    rw [hc, Option.none_or] at hv
    rw [Option.none_or]
    exact h c v hv
  | some w =>
    rw [hc, Option.some_or] at hv
    rw [Option.some_or]
    exact hv

theorem Inv.effect (h : s.Inv redis₀) {a : SaverAct} {out : Option (List RoleID)}
    (he : Saver.Effect s.saver s.stores a t.saver t.stores out) (hpushed : t.pushed = s.pushed)
    (hmerged : t.merged = s.merged ++ s.saver.merges a)
    (hunsaved : t.unsaved = if s.saver.flush.isSome ∧ t.saver.flush.isNone ∧ t.saver.batch.len =
      0 then [] else s.unsaved ++ s.saver.merges a) :
    t.Inv redis₀ where
  wf := h.wf.effect he
  written := h.written.effect h.wf he
  filled := h.filled.effect h.wf he
  live := h.filled.not_panicked h.live he
  queue := by
    rw [hpushed, hmerged, h.queue, he.waiting, List.append_assoc]
  unsaved := by
    rw [hunsaved, hmerged]
    split
    · exact List.nil_suffix
    · obtain ⟨done, hdone⟩ := h.unsaved
      exact ⟨done, by rw [← hdone, List.append_assoc]⟩
  batch id := by
    rw [hunsaved]
    split
    · rename_i hdone
      simp [Map.len_eq_zero.mp hdone.2.2]
    · rename_i hkeep
      rw [he.fields h.wf (h.filled.not_panicked h.live he) hkeep, h.batch, writesOf_append,
        Map.lastWrites_append]
  content id := by
    rw [hmerged]
    rcases he.content_or_cleared h.wf (h.filled.not_panicked h.live he) id with
      heq | ⟨hnone, heq, hpiped⟩
    · rw [heq, setAll_apply]
      exact holds_immediate (h.content id) _
    · rw [heq, hnone, List.append_nil]
      exact h.redis_holds hpiped

theorem Inv.move (h : s.Inv redis₀) (hm : Move s t) : t.Inv redis₀ := by
  cases hm with
  | push hop heq => exact heq ▸ h.push hop
  | close heq => exact heq ▸ h.close
  | saver he hpushed hmerged hunsaved => exact h.effect he hpushed hmerged hunsaved
  | tick heq =>
    subst heq
    exact ⟨h.wf, h.written, h.filled, h.live, h.queue, h.unsaved, h.batch, h.content⟩
  | expire heq => exact heq ▸ h.drop _

/-- What the saver will make of a role's hash, and that the part of it which the
flush under way has written has not gone. -/
structure Tracks (id : RoleID) (s : SaveRun κ ν) (m : Map κ ν) : Prop where
  content : s.saver.content s.stores id = m
  held : s.saver.Piped id → s.stores.redis id ≠ ∅

/-- While the role's key does not expire, its contents change by the ops merged
for it. -/
theorem Tracks.move {m : Map κ ν} (h : Tracks id s m) (hinv : s.Inv redis₀) (hm : Move s t)
    (hstays : ¬HashGoes id s t) :
    ∃ ops, t.merged = s.merged ++ ops ∧
      Tracks id t (Map.lastWrites (writesOf ops id) ∪ m) := by
  have hsame : t.merged = s.merged → Tracks id t m → ∃ ops, t.merged = s.merged ++ ops ∧
      Tracks id t (Map.lastWrites (writesOf ops id) ∪ m) :=
    fun hmerged ht => ⟨[], by simp [hmerged], by simpa using ht⟩
  cases hm with
  | push hop heq => exact hsame (by rw [heq]; rfl) (heq ▸ ⟨h.content, h.held⟩)
  | close heq | tick heq => exact hsame (by rw [heq]) (heq ▸ ⟨h.content, h.held⟩)
  | @expire x heq =>
    have hredis : t.stores.redis id = s.stores.redis id := by
      rcases s.stores.drop_redis x id with hkeep | hgone
      · rw [heq]
        exact hkeep
      · by_contra hne
        have hempty : t.stores.redis id = ∅ := by
          rw [heq]
          exact hgone
        exact hstays ⟨fun hnone => hne (hempty.trans hnone.symm), hempty⟩
    subst heq
    refine hsame rfl ⟨?_, fun hp => ?_⟩
    · rw [← h.content, Saver.content, Saver.content, hredis]
    · rw [hredis]
      exact h.held hp
  | @saver a out he hpushed hmerged hunsaved =>
    have hlive := hinv.filled.not_panicked hinv.live he
    have hheld : s.saver.Piped id →
        Map.Holds (s.stores.redis id) (s.saver.batch.fields id) :=
      fun hp => (hinv.written.held hinv.wf hp).resolve_left (h.held hp)
    refine ⟨_, hmerged, ?_, fun hp hempty => ?_⟩
    · rw [he.content hinv.wf hheld hlive, setAll_apply, h.content]
    · rcases he.piped hinv.wf hp with ⟨hold, _⟩ | ⟨hsome, _, heq⟩
      · exact hstays ⟨h.held hold, hempty⟩
      · obtain ⟨op, hop⟩ := Option.isSome_iff_exists.mp hsome
        rw [hempty, Batch.fields_of_lookup hop] at heq
        exact hinv.filled.batched id op hop (Map.eq_empty_of_union_eq_empty heq.symm)

/-- A step leaves a hash alone, drops it, or brings it to what the saver has for
the role. -/
theorem Inv.redis_step (h : s.Inv redis₀) (hm : Move s t) (id : RoleID) :
    t.stores.redis id = s.stores.redis id ∨ t.stores.redis id = ∅ ∨
      t.stores.redis id = s.saver.content s.stores id := by
  cases hm with
  | push hop heq => exact Or.inl (by rw [heq]; rfl)
  | close heq | tick heq => exact Or.inl (by rw [heq])
  | expire heq => exact (s.stores.drop_redis _ id).imp (heq ▸ ·) fun hgone => Or.inl (heq ▸ hgone)
  | saver he =>
    rcases h.wf.redis_step he id with heq | ⟨_, heq⟩
    · exact Or.inl heq
    · exact Or.inr (Or.inr heq)

theorem Move.merged_prefix (hm : Move s t) : s.merged <+: t.merged := by
  cases hm with
  | push hop heq =>
    rw [heq]
    exact List.prefix_rfl
  | close heq | tick heq | expire heq =>
    rw [heq]
  | saver he hpushed hmerged =>
    rw [hmerged]
    exact List.prefix_append _ _

theorem FlushFails.keeps (hm : Move s t) (h : FlushFails s t) :
    t.saver.q = s.saver.q ∧ t.saver.batch = s.saver.batch := by
  obtain ⟨hflush, hnone, hlen⟩ := h
  cases hm with
  | push hop heq =>
    subst heq
    simp_all [SaveRun.push]
  | close heq | tick heq | expire heq =>
    subst heq
    simp_all
  | saver he => exact he.keeps_of_flush_ends hflush hnone hlen

end SaveRun

section Run

variable {run : ℕ → SaveRun κ ν}

theorem moves_of_isRun (hrun : (saveMachine κ ν).IsRun run) (n : ℕ) :
    run (n + 1) = run n ∨ SaveRun.Move (run n) (run (n + 1)) :=
  (hrun.2 n).imp id fun ⟨_, hs⟩ => SaveRun.step_move hs

theorem inv_of_isRun (hrun : (saveMachine κ ν).IsRun run) (n : ℕ) :
    (run n).Inv (run 0).stores.redis :=
  hrun.invariant (.init hrun.1) (fun _ _ _ h hs => h.move (SaveRun.step_move hs)) n

/-- The contents of a role from a point on, while its key does not expire. -/
theorem tracks_from (hrun : (saveMachine κ ν).IsRun run) {id : RoleID} {e : ℕ} {m : Map κ ν}
    (hstart : SaveRun.Tracks id (run e) m) (n : ℕ)
    (hstays : ∀ k, e ≤ k → k < e + n → ¬SaveRun.HashGoes id (run k) (run (k + 1))) :
    ∃ ops, (run (e + n)).merged = (run e).merged ++ ops ∧
      SaveRun.Tracks id (run (e + n)) (Map.lastWrites (writesOf ops id) ∪ m) := by
  induction n with
  | zero => exact ⟨[], by simp, by simpa using hstart⟩
  | succ n ih =>
    obtain ⟨ops, hops, htracks⟩ := ih fun k hk hkn => hstays k hk (by omega)
    rcases moves_of_isRun hrun (e + n) with heq | hm
    · rw [← Nat.add_assoc, heq]
      exact ⟨ops, hops, htracks⟩
    · obtain ⟨more, hmore, hnext⟩ := htracks.move (inv_of_isRun hrun _) hm
        (hstays (e + n) (by omega) (by omega))
      refine ⟨ops ++ more, ?_, ?_⟩
      · rw [← Nat.add_assoc, hmore, hops, List.append_assoc]
      · rw [writesOf_append, Map.lastWrites_append, Finmap.union_assoc]
        exact hnext

/-- The contents of a role whose key has not expired. -/
theorem content_of_stays (hrun : (saveMachine κ ν).IsRun run) {id : RoleID} (n : ℕ)
    (hstays : ∀ k < n, ¬SaveRun.HashGoes id (run k) (run (k + 1))) :
    (run n).saver.content (run n).stores id =
      immediate (run 0).stores.redis (run n).merged id := by
  obtain ⟨hsaver, _, hmerged, _⟩ := hrun.1
  have hstart : SaveRun.Tracks id (run 0) ((run 0).stores.redis id) := by
    refine ⟨by simp [Saver.content, hsaver, newSaver], ?_⟩
    rintro ⟨f, hf, _⟩
    simp [hsaver, newSaver] at hf
  obtain ⟨ops, hops, htracks⟩ := tracks_from hrun hstart n fun k _ hk => hstays k (by omega)
  rw [Nat.zero_add] at hops htracks
  rw [hmerged, List.nil_append] at hops
  rw [htracks.content, hops]
  rfl

/-- The versions of immediate saving that a hash goes through. -/
theorem exists_version (hrun : (saveMachine κ ν).IsRun run) (id : RoleID) :
    ∃ p : ℕ → ℕ, Monotone p ∧ ∀ n, p n ≤ (run n).merged.length ∧
      Map.Holds (immediate (run 0).stores.redis ((run n).merged.take (p n)) id)
        ((run n).stores.redis id) ∧
      ((∀ k < n, ¬SaveRun.HashGoes id (run k) (run (k + 1))) → (run n).stores.redis id =
        immediate (run 0).stores.redis ((run n).merged.take (p n)) id) := by
  let stays : ℕ → Prop := fun n => ∀ k < n, ¬SaveRun.HashGoes id (run k) (run (k + 1))
  refine exists_monotone_pointer (fun n => (run n).merged)
    (fun n => ((run n).stores.redis id, stays n))
    (fun ops hash => Map.Holds (immediate (run 0).stores.redis ops id) hash.1 ∧
      (hash.2 → hash.1 = immediate (run 0).stores.redis ops id)) ?_ ?_ ?_
  · intro n
    rcases moves_of_isRun hrun n with heq | hm
    · rw [heq]
    · exact hm.merged_prefix
  · simp [immediate, Map.Holds]
  · intro n
    have hbefore : stays (n + 1) → stays n := fun h k hk => h k (by omega)
    have hsame : (run (n + 1)).stores.redis id = (run n).stores.redis id →
        ∀ ops, (Map.Holds (immediate (run 0).stores.redis ops id) ((run n).stores.redis id) ∧
          (stays n → (run n).stores.redis id = immediate (run 0).stores.redis ops id)) →
        Map.Holds (immediate (run 0).stores.redis ops id) ((run (n + 1)).stores.redis id) ∧
          (stays (n + 1) →
            (run (n + 1)).stores.redis id = immediate (run 0).stores.redis ops id) := by
      intro heq ops hver
      rw [heq]
      exact ⟨hver.1, fun h => hver.2 (hbefore h)⟩
    rcases moves_of_isRun hrun n with heq | hm
    · exact Or.inl (hsame (by rw [heq]))
    · have hinv := inv_of_isRun hrun n
      rcases hinv.redis_step hm id with heq | hempty | heq
      · exact Or.inl (hsame heq)
      · by_cases hnone : (run n).stores.redis id = ∅
        · exact Or.inl (hsame (hempty.trans hnone.symm))
        · refine Or.inl fun ops _ => ⟨hempty ▸ Map.holds_empty _, fun h => ?_⟩
          exact absurd ⟨hnone, hempty⟩ (h n (Nat.lt_succ_self n))
      · refine Or.inr ⟨heq ▸ hinv.content id, fun h => ?_⟩
        exact heq.trans (content_of_stays hrun n (hbefore h))

/-- A key expires by a step of its own. -/
theorem SaveRun.HashGoes.expires {redis₀ : RoleID → Map κ ν} {s t : SaveRun κ ν} {id : RoleID}
    (h : HashGoes id s t) (hinv : s.Inv redis₀) (hm : Move s t) :
    ∃ x, t = { s with stores := s.stores.drop x } := by
  obtain ⟨hsome, hempty⟩ := h
  cases hm with
  | push hop heq | close heq | tick heq =>
    rw [heq] at hempty
    exact absurd hempty hsome
  | expire heq => exact ⟨_, heq⟩
  | saver he =>
    rcases hinv.wf.redis_step he id with heq | ⟨_, heq⟩
    · exact absurd (heq.symm.trans hempty) hsome
    · rw [hempty] at heq
      rw [Map.eq_empty_of_union_eq_empty heq.symm, Finmap.empty_union] at heq
      exact absurd heq.symm hsome

/-- Batched saving refines immediate saving. In every run no accepted op is
missing from the queue and from what has been merged, and what has been merged
since the last flush that succeeded is in the batch; a failed flush leaves
queue and batch as they were. What a hash holds is at all times what immediate
saving had after the first `p n` pushes, for a `p` that never goes back, and it
is all of that as long as the role's key has not expired. After a successful
flush the hash of such a role is that of immediate saving of everything merged.
The hash of a role whose key expired while no flush was under way is after a
later one that of immediate saving, from nothing, of what was in the batch when
it expired and what has been merged since. -/
theorem batched_refines_immediate (hrun : (saveMachine κ ν).IsRun run) :
    (∀ n, (run n).saver.status ≠ .panicked ∧
      (run n).pushed = (run n).merged ++ (run n).saver.q.waiting ∧
      (run n).unsaved <:+ (run n).merged ∧
      ∀ id, (run n).saver.batch.fields id = Map.lastWrites (writesOf (run n).unsaved id)) ∧
    (∀ n, SaveRun.FlushFails (run n) (run (n + 1)) →
      (run (n + 1)).saver.q = (run n).saver.q ∧
        (run (n + 1)).saver.batch = (run n).saver.batch) ∧
    (∀ id, ∃ p : ℕ → ℕ, Monotone p ∧ ∀ n, p n ≤ (run n).merged.length ∧
      Map.Holds (immediate (run 0).stores.redis ((run n).pushed.take (p n)) id)
        ((run n).stores.redis id) ∧
      ((∀ k < n, ¬SaveRun.HashGoes id (run k) (run (k + 1))) → (run n).stores.redis id =
        immediate (run 0).stores.redis ((run n).pushed.take (p n)) id)) ∧
    (∀ n id, SaveRun.FlushSucceeds (run n) (run (n + 1)) →
      (∀ k ≤ n, ¬SaveRun.HashGoes id (run k) (run (k + 1))) →
      (run (n + 1)).stores.redis id =
        immediate (run 0).stores.redis (run (n + 1)).merged id) ∧
    (∀ e n id, e < n → SaveRun.HashGoes id (run e) (run (e + 1)) →
      (run e).saver.flush = none → SaveRun.FlushSucceeds (run n) (run (n + 1)) →
      (∀ k, e < k → k ≤ n → ¬SaveRun.HashGoes id (run k) (run (k + 1))) →
      ∃ ops, (run (n + 1)).merged = (run e).merged ++ ops ∧
        (run (n + 1)).stores.redis id =
          immediate (fun _ => ∅) ((run e).unsaved ++ ops) id) := by
  have hinv := inv_of_isRun hrun
  have hredis : ∀ n id, SaveRun.FlushSucceeds (run n) (run (n + 1)) →
      (run (n + 1)).saver.content (run (n + 1)).stores id = (run (n + 1)).stores.redis id := by
    rintro n id ⟨_, _, hlen⟩
    simp [Saver.content, Map.len_eq_zero.mp hlen]
  refine ⟨fun n => ⟨(hinv n).live, (hinv n).queue, (hinv n).unsaved, (hinv n).batch⟩,
    ?_, ?_, ?_, ?_⟩
  · intro n hfails
    rcases moves_of_isRun hrun n with heq | hm
    · rw [heq]
      exact ⟨rfl, rfl⟩
    · exact hfails.keeps hm
  · intro id
    obtain ⟨p, hmono, hp⟩ := exists_version hrun id
    refine ⟨p, hmono, fun n => ⟨(hp n).1, ?_⟩⟩
    rw [(hinv n).queue, List.take_append_of_le_length (hp n).1]
    exact (hp n).2
  · intro n id hflush hstays
    rw [← hredis n id hflush]
    exact content_of_stays hrun (n + 1) fun k hk => hstays k (by omega)
  · intro e n id hen hgoes hnone hflush hstays
    have hm := (moves_of_isRun hrun e).resolve_left fun heq =>
      hgoes.1 (heq ▸ hgoes.2)
    obtain ⟨x, hx⟩ := hgoes.expires (hinv e) hm
    have hstart : SaveRun.Tracks id (run (e + 1)) ((run e).saver.batch.fields id) := by
      refine ⟨by rw [Saver.content, hgoes.2, Finmap.union_empty, hx], ?_⟩
      rintro ⟨f, hf, _⟩
      rw [hx] at hf
      cases hnone.symm.trans hf
    obtain ⟨ops, hops, htracks⟩ := tracks_from hrun hstart (n - e) fun k hk hkn =>
      hstays k (by omega) (by omega)
    have hend : e + 1 + (n - e) = n + 1 := by omega
    rw [hend] at hops htracks
    refine ⟨ops, by rw [hops, hx], ?_⟩
    rw [← hredis n id hflush, htracks.content, (hinv e).batch]
    simp [immediate]

end Run

/-- Role 7 is saved, over a hash with one field, at the second attempt. A week
later its key expires, and a save of another field follows. -/
def weekApart : ℕ → SaveRun Bool ℕ :=
  (saveMachine Bool ℕ).follow
    { saver := newSaver
      stores := ⟨fun _ => Finmap.singleton true 1, fun _ => ∅, fun _ => none⟩
      now := 0
      pushed := []
      merged := []
      unsaved := [] }
    [.push ⟨7, some (Finmap.singleton false 2), false⟩, .saver .drain, .saver .mergeNext,
      .saver (.beginFlush [7]), .saver (.execPipe false [7] []), .saver (.beginFlush [7]),
      .saver (.execPipe true [] []), .saver (.saveToDB true []), .tick 604800, .expire 7,
      .push ⟨7, some (Finmap.singleton true 3), false⟩, .saver .drain, .saver .mergeNext,
      .saver (.beginFlush [7]), .saver (.execPipe true [] []), .saver (.saveToDB true [])]

theorem weekApart_isRun : (saveMachine Bool ℕ).IsRun weekApart :=
  Machine.follow_isRun (by exact ⟨rfl, rfl, rfl, rfl⟩) _

theorem weekApart_refines_immediate :
    SaveRun.FlushFails (weekApart 4) (weekApart 5) ∧
      (weekApart 8).stores.redis 7 =
        immediate (weekApart 0).stores.redis (weekApart 8).merged 7 ∧
      ∃ ops, (weekApart 16).merged = (weekApart 9).merged ++ ops ∧
        (weekApart 16).stores.redis 7 =
          immediate (fun _ => ∅) ((weekApart 9).unsaved ++ ops) 7 := by
  obtain ⟨_, _, _, hfirst, hlater⟩ := batched_refines_immediate weekApart_isRun
  refine ⟨by unfold SaveRun.FlushFails; decide, ?_, ?_⟩
  · refine hfirst 7 7 (by unfold SaveRun.FlushSucceeds; decide) ?_
    unfold SaveRun.HashGoes
    decide
  · have hstays : ∀ k ≤ 15, 9 < k →
        ¬SaveRun.HashGoes 7 (weekApart k) (weekApart (k + 1)) := by
      unfold SaveRun.HashGoes
      decide
    refine hlater 9 15 7 (by decide) ?_ (by rfl) (by unfold SaveRun.FlushSucceeds; decide)
      fun k hk hkn => hstays k hkn hk
    unfold SaveRun.HashGoes
    decide

/-- After the second flush the hash has lost the field saved by the first. -/
theorem weekApart_not_immediate :
    ∃ (run : ℕ → SaveRun Bool ℕ) (n : ℕ), (saveMachine Bool ℕ).IsRun run ∧
      SaveRun.FlushSucceeds (run n) (run (n + 1)) ∧
      (run (n + 1)).stores.redis 7 ≠
        immediate (run 0).stores.redis (run (n + 1)).merged 7 := by
  refine ⟨weekApart, 15, weekApart_isRun, by unfold SaveRun.FlushSucceeds; decide, ?_⟩
  decide

end GameCluster
