import GameCluster.Role.Record
import GameCluster.Save.Fate
import GameCluster.Save.Refinement

/-!
Mongo as a mirror of Redis. A flush writes a role's batch entry to Redis, and to
Mongo as well if one of the merged ops had `Both` set. A component that was
saved without `Both` and flushed on its own is in Redis only, and stays so until
an op with `Both` set carries it again.

So an `EvtSaveSuccess` tells that the role's document has caught up with its
hash if every op with `Both` set carries all components that were saved without
it since. `Role.save` does not see to that: it carries the dirty components,
and saving a component without `Both` has cleared its flag.
-/

namespace GameCluster

open Lib

variable {κ ν : Type} [DecidableEq κ]

/-- The components whose last save among the ops had `Both` unset. -/
def redisOnly (ops : List (OpSaveData κ ν)) : Finset κ :=
  ops.foldl
    (fun only op => if op.both then only \ op.values.keys else only ∪ op.values.keys) ∅

theorem redisOnly_concat (ops : List (OpSaveData κ ν)) (op : OpSaveData κ ν) :
    redisOnly (ops ++ [op]) =
      if op.both then redisOnly ops \ op.values.keys else redisOnly ops ∪ op.values.keys := by
  simp [redisOnly]

/-- The component's value in Redis is also in Mongo. -/
def Synced (st : Stores κ ν) (id : RoleID) (c : κ) : Prop :=
  ∀ v, (st.redis id).lookup c = some v → (st.mongo id).lookup c = some v

/-- What the ops of a role that have been merged so far say about its two
store entries and its batch entry. -/
structure Mirror (s : Saver κ ν) (st : Stores κ ν) (id : RoleID)
    (done : List (OpSaveData κ ν)) : Prop where
  behind : ∀ c, c ∉ (s.batch.fields id).keys → Synced st id c ∨ c ∈ redisOnly done
  plain : ∀ op, s.batch.lookup id = some op → op.both = false → op.values.keys ⊆ redisOnly done
  full : ∀ op, s.batch.lookup id = some op → op.both = true → redisOnly done ⊆ op.values.keys
  covered : ∀ pre op post, s.waitingOf id = pre ++ op :: post → op.both = true →
    redisOnly (done ++ pre) ⊆ op.values.keys

namespace Mirror

variable {s s' : Saver κ ν} {st st' : Stores κ ν} {id : RoleID} {done : List (OpSaveData κ ν)}

theorem lookup_union_of_notMem {new old : Map κ ν} {c : κ} (h : c ∉ new.keys) :
    (new ∪ old).lookup c = old.lookup c := by
  rw [Finmap.mem_keys] at h
  exact Finmap.lookup_union_right h

/-- Merging an op. -/
theorem merge {op new : OpSaveData κ ν} (h : Mirror s st id done)
    (hwait : s.waitingOf id = op :: s'.waitingOf id) (hnew : s'.batch.lookup id = some new)
    (hvalues : new.values = op.values ∪ s.batch.fields id)
    (hboth : new.both = true ↔ op.both = true ∨
      ∃ old, s.batch.lookup id = some old ∧ old.both = true)
    (hredis : st'.redis id = st.redis id) (hmongo : st'.mongo id = st.mongo id) :
    Mirror s' st' id (done ++ [op]) := by
  have hkeys : new.values.keys = op.values.keys ∪ (s.batch.fields id).keys := by
    rw [hvalues, Finmap.keys_union]
  have hcover : op.both = true → redisOnly done ⊆ op.values.keys := by
    have hcovered := h.covered [] op (s'.waitingOf id) hwait
    rwa [List.append_nil] at hcovered
  refine ⟨?_, ?_, ?_, ?_⟩
  · intro c hc
    rw [Batch.fields_of_lookup hnew, hkeys, Finset.notMem_union] at hc
    rw [redisOnly_concat]
    rcases h.behind c hc.2 with hsync | hmem
    · left
      rw [Synced, hredis, hmongo]
      exact hsync
    · right
      split
      · exact Finset.mem_sdiff.mpr ⟨hmem, hc.1⟩
      · exact Finset.mem_union_left _ hmem
  · intro o ho hplain
    rw [hnew, Option.some.injEq] at ho
    subst ho
    have hnot := mt hboth.mpr (by simp [hplain])
    rw [not_or, Bool.not_eq_true] at hnot
    rw [redisOnly_concat, if_neg (by simp [hnot.1]), hkeys, Finset.union_comm]
    refine Finset.union_subset_union ?_ (Finset.Subset.refl _)
    cases hold : s.batch.lookup id with
    | none => simp [Batch.fields, hold]
    | some old =>
      rw [Batch.fields_of_lookup hold]
      exact h.plain old hold (Bool.not_eq_true _ ▸ fun hb => hnot.2 ⟨old, hold, hb⟩)
  · intro o ho hfull
    rw [hnew, Option.some.injEq] at ho
    subst ho
    rw [redisOnly_concat, hkeys]
    rcases hboth.mp hfull with hop | ⟨old, hold, hob⟩
    · rw [if_pos hop, Finset.sdiff_eq_empty_iff_subset.mpr (hcover hop)]
      exact Finset.empty_subset _
    · have hsub : redisOnly done ⊆ (s.batch.fields id).keys := by
        rw [Batch.fields_of_lookup hold]
        exact h.full old hold hob
      split
      · exact Finset.sdiff_subset.trans (hsub.trans Finset.subset_union_right)
      · rw [Finset.union_comm]
        exact Finset.union_subset_union (Finset.Subset.refl _) hsub
  · intro pre o post hsplit hob
    rw [List.append_assoc, List.singleton_append]
    exact h.covered (op :: pre) o post (by rw [hwait, hsplit, List.cons_append]) hob

/-- Writing batch entries changes only what is in the batch. -/
theorem keep (h : Mirror s st id done) (hwait : s'.waitingOf id = s.waitingOf id)
    (hbatch : s'.batch.lookup id = s.batch.lookup id)
    (hredis : st'.redis id = st.redis id ∨ st'.redis id = s.batch.fields id ∪ st.redis id)
    (hmongo : st'.mongo id = st.mongo id ∨ st'.mongo id = s.batch.fields id ∪ st.mongo id) :
    Mirror s' st' id done := by
  have hfields : s'.batch.fields id = s.batch.fields id := by
    rw [Batch.fields, hbatch, Batch.fields]
  refine ⟨?_, hbatch ▸ h.plain, hbatch ▸ h.full, hwait ▸ h.covered⟩
  intro c hc
  rw [hfields] at hc
  refine (h.behind c hc).imp_left fun hsync v hv => ?_
  have hr : (st'.redis id).lookup c = (st.redis id).lookup c := by
    rcases hredis with heq | heq
    · rw [heq]
    · rw [heq, lookup_union_of_notMem hc]
  have hm : (st'.mongo id).lookup c = (st.mongo id).lookup c := by
    rcases hmongo with heq | heq
    · rw [heq]
    · rw [heq, lookup_union_of_notMem hc]
  rw [hm]
  exact hsync v (hr ▸ hv)

/-- A component that has been written to both stores. -/
theorem synced_of_held {w : Map κ ν} {c : κ} (hc : c ∈ w.keys)
    (hredis : st.redis id = ∅ ∨ Map.Holds (st.redis id) w)
    (hmongo : Map.Holds (st.mongo id) w) : Synced st id c := by
  intro v hv
  obtain ⟨x, hx⟩ := Finmap.mem_iff.mp (Finmap.mem_keys.mp hc)
  rcases hredis with hempty | hheld
  · simp [hempty] at hv
  · obtain rfl : x = v := Option.some.inj ((hheld c x hx).symm.trans hv)
    exact hmongo c x hx

/-- A batch that has been written and cleared leaves the components of a plain
entry in Redis only, and those of a `Both` entry in both stores. -/
theorem clear (h : Mirror s st id done) (hwait : s'.waitingOf id = s.waitingOf id)
    (hbatch : s'.batch.lookup id = none)
    (hheld : ∀ op, s.batch.lookup id = some op →
      st.redis id = ∅ ∨ Map.Holds (st.redis id) op.values)
    (hboth : ∀ op, s.batch.lookup id = some op → op.both = true →
      Map.Holds (st.mongo id) op.values) : Mirror s' st id done := by
  refine ⟨?_, by simp [hbatch], by simp [hbatch], hwait ▸ h.covered⟩
  intro c _
  by_cases hc : c ∈ (s.batch.fields id).keys
  · cases hop : s.batch.lookup id with
    | none => simp [Batch.fields, hop] at hc
    | some op =>
      rw [Batch.fields_of_lookup hop] at hc
      cases hb : op.both with
      | false => exact Or.inr (h.plain op hop hb hc)
      | true => exact Or.inl (synced_of_held hc (hheld op hop) (hboth op hop hb))
  · exact h.behind c hc

theorem move (h : Mirror s st id done) (hwf : s.WF) (hwritten : s.Written st)
    (hm : Saver.Move s st s' st' id) (hlive : s'.status ≠ .panicked) :
    ∃ done', done' ++ s'.waitingOf id = done ++ s.waitingOf id ∧ Mirror s' st' id done' := by
  cases hm with
  | @merge op new hwait hnew hvalues hboth hredis hmongo =>
    exact ⟨done ++ [op], by simp [hwait], h.merge hwait hnew hvalues hboth hredis hmongo⟩
  | keep hwait hbatch hredis hmongo =>
    exact ⟨done, by rw [hwait], h.keep hwait hbatch (hredis.imp_right (·.2))
      (hmongo.imp_right (·.2))⟩
  | clear hwait hbatch hpiped hredis hmongo hboth =>
    refine ⟨done, by rw [hwait], ?_⟩
    have hheld : ∀ op, s.batch.lookup id = some op →
        st.redis id = ∅ ∨ Map.Holds (st.redis id) op.values := by
      intro op hop
      rw [← Batch.fields_of_lookup hop]
      exact hwritten.held hwf (hpiped (by simp [hop]))
    exact (h.clear hwait hbatch hheld hboth).keep rfl rfl (Or.inl hredis) (Or.inl hmongo)
  | panic hstatus => exact absurd hstatus hlive

theorem push (h : Mirror s st id done) {op : OpSaveData κ ν}
    (hcover : op.id = id → op.both = true → redisOnly (done ++ s.waitingOf id) ⊆ op.values.keys) :
    Mirror { s with q := (s.q.push op).1 } st id done := by
  refine ⟨h.behind, h.plain, h.full, ?_⟩
  intro pre o post hsplit hob
  rw [Saver.waitingOf_push] at hsplit
  split at hsplit
  · rename_i hop
    rcases List.eq_nil_or_concat post with rfl | ⟨post', x, rfl⟩
    · obtain ⟨hpre, ho⟩ := List.append_inj' hsplit rfl
      rw [← hpre, ← (List.cons.inj ho).1]
      exact hcover hop.2 ((List.cons.inj ho).1 ▸ hob)
    · rw [List.concat_eq_append, ← List.cons_append, ← List.append_assoc] at hsplit
      exact h.covered pre o post' (List.append_inj' hsplit rfl).1 hob
  · exact h.covered pre o post hsplit hob

/-- When a success event names the role, Mongo has all that Redis has. -/
theorem synced_of_post {a : SaverAct} {ids : List RoleID} (h : Mirror s st id done)
    (hwf : s.WF) (hwritten : s.Written st) (he : Saver.Effect s st a s' st' (some ids))
    (hid : id ∈ ids) (c : κ) : Synced st id c := by
  obtain ⟨op, hop, hboth, hpiped, hmongo⟩ := he.posted_entry hwf hwritten hid
  by_cases hc : c ∈ op.values.keys
  · have hheld := hwritten.held hwf hpiped
    rw [Batch.fields_of_lookup hop] at hheld
    exact synced_of_held hc hheld hmongo
  · have hfields : c ∉ (s.batch.fields id).keys := by
      rw [Batch.fields_of_lookup hop]
      exact hc
    rcases h.behind c hfields with hsync | hmem
    · exact hsync
    · exact absurd (h.full op hop hboth hmem) hc

end Mirror

/-- A saver from its start, over stores in which Mongo has all that Redis has,
pushed any ops. No key expires here, so that a hash holds all that was last
written to it; the saver never reads it back. -/
def saveHistory (κ ν : Type) [DecidableEq κ] : Machine (SaveRun κ ν) (SaveAct κ ν) where
  init s := s.saver = newSaver ∧ s.pushed = [] ∧
    ∀ id, Map.Holds (s.stores.mongo id) (s.stores.redis id)
  step s
    | .push op => some (s.push op)
    | .expire _ => none
    | a => s.step a

namespace SaveRun

/-- An op with `Both` set carries every component of its role whose last save
had it unset. -/
def covering (s : SaveRun κ ν) : SaveAct κ ν → Prop
  | .push op => op.both = true → redisOnly (s.pushed.filter (·.id = op.id)) ⊆ op.values.keys
  | _ => True

instance (s : SaveRun κ ν) (a : SaveAct κ ν) : Decidable (s.covering a) :=
  match a with
  | .push _ => inferInstanceAs (Decidable (_ → _))
  | .close | .saver _ | .tick _ | .expire _ => inferInstanceAs (Decidable True)

structure Mirrors (s : SaveRun κ ν) : Prop where
  wf : s.saver.WF
  written : s.saver.Written s.stores
  mirror : s.saver.status ≠ .panicked → ∀ id, ∃ done,
    s.pushed.filter (·.id = id) = done ++ s.saver.waitingOf id ∧
      Mirror s.saver s.stores id done

variable {s : SaveRun κ ν}

theorem Mirrors.init (h : (saveHistory κ ν).init s) : s.Mirrors := by
  obtain ⟨hsaver, hpushed, hstores⟩ := h
  refine ⟨?_, .of_flush_none (by rw [hsaver]; rfl), fun _ id => ⟨[], ?_, ?_, ?_, ?_, ?_⟩⟩
  · rw [hsaver]
    exact Saver.newSaver_wf
  · simp [hpushed, hsaver, newSaver, Saver.waitingOf, SwapQueue.waiting]
  · exact fun c _ => Or.inl (hstores id c)
  · simp [hsaver, newSaver]
  · simp [hsaver, newSaver]
  · simp [hsaver, newSaver, Saver.waitingOf, SwapQueue.waiting]

theorem Mirrors.push (h : s.Mirrors) {op : OpSaveData κ ν} (hok : s.covering (.push op)) :
    (s.push op).Mirrors := by
  refine ⟨h.wf.push op, h.written.frame h.wf rfl (fun _ _ => Or.inl rfl) (fun _ _ => rfl), ?_⟩
  intro hlive id
  obtain ⟨done, hqueue, hmirror⟩ := h.mirror hlive id
  refine ⟨done, ?_, hmirror.push ?_⟩
  · simp only [SaveRun.push, Saver.waitingOf_push]
    by_cases hroom : (s.saver.q.push op).2 = none
    · by_cases hid : op.id = id <;> simp [hroom, hid, hqueue]
    · simp [hroom, hqueue]
  · rintro rfl hboth
    rw [← hqueue]
    exact hok hboth

theorem Mirrors.effect (h : s.Mirrors) {a : SaverAct} {saver : Saver κ ν} {stores : Stores κ ν}
    {out : Option (List RoleID)} (merged unsaved : List (OpSaveData κ ν))
    (he : Saver.Effect s.saver s.stores a saver stores out) :
    Mirrors { s with saver, stores, merged, unsaved } := by
  refine ⟨h.wf.effect he, h.written.effect h.wf he, ?_⟩
  intro hlive id
  obtain ⟨done, hqueue, hmirror⟩ := h.mirror he.status_ne id
  obtain ⟨done', hdone, hmirror'⟩ := hmirror.move h.wf h.written (he.move h.wf h.written id) hlive
  exact ⟨done', hqueue.trans hdone.symm, hmirror'⟩

theorem Mirrors.close (h : s.Mirrors) :
    Mirrors { s with saver := { s.saver with q := s.saver.q.close } } := by
  refine ⟨h.wf.close, h.written.frame h.wf rfl (fun _ _ => Or.inl rfl) (fun _ _ => rfl), ?_⟩
  intro hlive id
  obtain ⟨done, hqueue, hmirror⟩ := h.mirror hlive id
  rw [Saver.close_waitingOf]
  refine ⟨done, hqueue, ?_⟩
  exact ⟨hmirror.behind, hmirror.plain, hmirror.full, by
    rw [Saver.close_waitingOf]
    exact hmirror.covered⟩

theorem Mirrors.reachable (h : (saveHistory κ ν).Reachable covering s) : s.Mirrors := by
  refine h.invariant (fun _ hinit => .init hinit) ?_
  intro s a t _ hi hok hs
  cases a with
  | push op =>
    cases hs
    exact hi.push hok
  | close =>
    cases hs
    exact hi.close
  | saver a =>
    simp only [saveHistory, SaveRun.step, Option.map_eq_some_iff] at hs
    obtain ⟨⟨saver, stores, out⟩, hstep, rfl⟩ := hs
    exact hi.effect _ _ (Saver.step_effect hstep)
  | tick seconds =>
    cases hs
    exact ⟨hi.wf, hi.written, hi.mirror⟩
  | expire id => cases hs

end SaveRun

/-- When the saver posts an `EvtSaveSuccess` with the role's ID, the role's
document holds every component of its hash, with the same value. -/
theorem mongo_mirrors_redis {s : SaveRun κ ν}
    (h : (saveHistory κ ν).Reachable SaveRun.covering s) {a : SaverAct} {saver : Saver κ ν}
    {stores : Stores κ ν} {ids : List RoleID}
    (hs : s.saver.step s.now s.stores a = some (saver, stores, some ids)) {id : RoleID}
    (hid : id ∈ ids) : Map.Holds (stores.mongo id) (stores.redis id) := by
  have hm := SaveRun.Mirrors.reachable h
  have he := Saver.step_effect hs
  obtain ⟨done, _, hmirror⟩ := hm.mirror he.status_ne id
  have hsync := hmirror.synced_of_post hm.wf hm.written he hid
  have hstores : stores = s.stores := by
    cases he
    rfl
  rw [hstores]
  exact hsync

/-- A saver over empty stores. -/
def SaveRun.fresh : SaveRun TypeComp Text where
  saver := newSaver
  stores := ⟨fun _ => ∅, fun _ => ∅, fun _ => none⟩
  now := 0
  pushed := []
  merged := []
  unsaved := []

theorem saveHistory_fresh : (saveHistory TypeComp Text).init .fresh :=
  ⟨rfl, rfl, fun _ => Map.holds_empty _⟩

/-- One op is pushed and merged, and a flush is begun and written. -/
def writeOne (op : OpSaveData TypeComp Text) : List (SaveAct TypeComp Text) :=
  [.push op, .saver .drain, .saver .mergeNext, .saver (.beginFlush [op.id]),
    .saver (.execPipe true [] []), .saver (.saveToDB true [])]

/-- The saver is about to post a success event for role 7. -/
def SaveRun.postsSeven (s : SaveRun TypeComp Text) : Bool :=
  (s.saver.postSuccess).any fun (_, ids) => 7 ∈ ids

theorem SaveRun.postsSeven_step {s : SaveRun TypeComp Text} (h : s.postsSeven) :
    ∃ saver ids, s.saver.step s.now s.stores .postSuccess = some (saver, s.stores, some ids) ∧
      7 ∈ ids := by
  simp only [postsSeven, Option.any_eq_true_iff_get] at h
  obtain ⟨hsome, hmem⟩ := h
  obtain ⟨⟨saver, ids⟩, hpost⟩ := Option.isSome_iff_exists.mp hsome
  refine ⟨saver, ids, by simp [Saver.step, hpost], ?_⟩
  simpa [hpost] using hmem

/-- `TCBase` is saved without `Both`, then with it. -/
def savedAgain : List (SaveAct TypeComp Text) :=
  writeOne ⟨7, some (Finmap.singleton .TCBase (.json {})), false⟩ ++
    writeOne ⟨7, some (Finmap.singleton .TCBase (.json {}) ∪
      Finmap.singleton .TCExample (.json {})), true⟩

theorem savedAgain_mirrored :
    ∃ s saver ids, (saveHistory TypeComp Text).Reachable SaveRun.covering s ∧
      s.saver.step s.now s.stores .postSuccess = some (saver, s.stores, some ids) ∧ 7 ∈ ids ∧
      Map.Holds (s.stores.mongo 7) (s.stores.redis 7) := by
  obtain ⟨s, hs, hposts⟩ := Machine.exec_reaches SaveRun.covering
    (fun s => s.postsSeven) savedAgain saveHistory_fresh (by decide +kernel)
  obtain ⟨saver, ids, hstep, hid⟩ := SaveRun.postsSeven_step hposts
  exact ⟨s, saver, ids, hs, hstep, hid, mongo_mirrors_redis hs hstep hid⟩

/-- `TCBase` is saved without `Both`, and another component with it. -/
def savedApart : List (SaveAct TypeComp Text) :=
  writeOne ⟨7, some (Finmap.singleton .TCBase (.json {})), false⟩ ++
    writeOne ⟨7, some (Finmap.singleton .TCExample (.json {})), true⟩

theorem savedApart_not_mirrored :
    ∃ s saver ids, (saveHistory TypeComp Text).Reachable Machine.anyStep s ∧
      s.saver.step s.now s.stores .postSuccess = some (saver, s.stores, some ids) ∧ 7 ∈ ids ∧
      ¬Map.Holds (s.stores.mongo 7) (s.stores.redis 7) := by
  obtain ⟨s, hs, hposts, hredis, hmongo⟩ := Machine.exec_reaches Machine.anyStep
    (fun s => s.postsSeven ∧ (s.stores.redis 7).lookup .TCBase = some (.json {}) ∧
      (s.stores.mongo 7).lookup .TCBase = none) savedApart saveHistory_fresh
    (by decide +kernel)
  obtain ⟨saver, ids, hstep, hid⟩ := SaveRun.postsSeven_step hposts
  refine ⟨s, saver, ids, hs, hstep, hid, fun hholds => ?_⟩
  simp [hholds _ _ hredis] at hmongo

end GameCluster
