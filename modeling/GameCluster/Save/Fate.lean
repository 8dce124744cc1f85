import GameCluster.Save.Invariant

/-!
What becomes of the last record a saver was given for a role. A record that
names every component replaces whatever came before it: from its push on it is
still in the queue, or it is all that queue, batch and hash have for the role.
That stays so as long as only the same record is pushed again. If the role's
key expires meanwhile, the hash may be empty instead.

With the `Both` flags followed as well, an `EvtSaveSuccess` that names the role
tells that the record is in both stores, provided no op with `Both` set was
outstanding when the record was pushed.
-/

namespace GameCluster

open Lib

variable {κ ν : Type}

namespace Saver

variable {s s' : Saver κ ν} {st st' : Stores κ ν} {a : SaverAct} {out : Option (List RoleID)}
  {id : RoleID} {l : Map κ ν} {quiet gone gone' : Prop}

/-- The ops of a role that wait to be merged. -/
def waitingOf (s : Saver κ ν) (id : RoleID) : List (OpSaveData κ ν) :=
  s.q.waiting.filter (·.id = id)

theorem waitingOf_push (s : Saver κ ν) (op : OpSaveData κ ν) (id : RoleID) :
    Saver.waitingOf { s with q := (s.q.push op).1 } id =
      if (s.q.push op).2 = none ∧ op.id = id then s.waitingOf id ++ [op]
      else s.waitingOf id := by
  rw [Saver.waitingOf, SwapQueue.push_waiting, Saver.waitingOf]
  by_cases hok : (s.q.push op).2 = none
  · by_cases hid : op.id = id <;> simp [hok, hid]
  · simp [hok]

theorem close_waitingOf (s : Saver κ ν) (id : RoleID) :
    Saver.waitingOf { s with q := s.q.close } id = s.waitingOf id := by
  simp [Saver.waitingOf]

/-- The save of `l` has yet to be merged, and nothing but `l` is behind it. If
`quiet`, neither the batch nor what is ahead of it in the queue goes to Mongo. -/
structure Queued (quiet : Prop) (s : Saver κ ν) (id : RoleID) (l : Map κ ν) : Prop where
  batch : quiet → ∀ op, s.batch.lookup id = some op → op.both = false
  split : ∃ pre op post, s.waitingOf id = pre ++ op :: post ∧
    (quiet → (∀ o ∈ pre, o.both = false) ∧ op.both = false) ∧ op.values = l ∧
    ∀ o ∈ post, o.values = l

/-- The save of `l` has been merged, and all there is for the role is `l`. If
`gone`, its key may have expired since it was written. -/
structure Merged (gone : Prop) (s : Saver κ ν) (st : Stores κ ν) (id : RoleID)
    (l : Map κ ν) : Prop where
  waiting : ∀ op ∈ s.waitingOf id, op.values = l
  batch : ∀ op, s.batch.lookup id = some op → op.values = l
  redis : s.batch.lookup id = none ∨ s.Piped id →
    st.redis id = l ∨ gone ∧ st.redis id = ∅

def Carries (quiet gone : Prop) (s : Saver κ ν) (st : Stores κ ν) (id : RoleID)
    (l : Map κ ν) : Prop :=
  Queued quiet s id l ∨ Merged gone s st id l

/-- `l` is in both stores, and a saver that still runs writes nothing else. -/
structure Stored (gone : Prop) (s : Saver κ ν) (st : Stores κ ν) (id : RoleID)
    (l : Map κ ν) : Prop where
  redis : st.redis id = l ∨ gone ∧ st.redis id = ∅
  mongo : st.mongo id = l
  merged : s.status ≠ .panicked → Merged gone s st id l

section Mono

variable (hgone : gone → gone')

include hgone

theorem Merged.mono (h : Merged gone s st id l) : Merged gone' s st id l :=
  ⟨h.waiting, h.batch, fun hw => (h.redis hw).imp_right (·.imp_left hgone)⟩

theorem Carries.mono (h : Carries quiet gone s st id l) : Carries quiet gone' s st id l :=
  h.imp_right (·.mono hgone)

theorem Stored.mono (h : Stored gone s st id l) : Stored gone' s st id l :=
  ⟨h.redis.imp_right (·.imp_left hgone), h.mongo, fun hlive => (h.merged hlive).mono hgone⟩

end Mono

/-- The role's key expires. -/
theorem Merged.drop (h : Merged gone s st id l) (hgone : gone) : Merged gone s (st.drop id) id l :=
  ⟨h.waiting, h.batch, fun _ => Or.inr ⟨hgone, by simp [Stores.drop]⟩⟩

theorem Carries.drop (h : Carries quiet gone s st id l) (hgone : gone) :
    Carries quiet gone s (st.drop id) id l :=
  h.imp_right (·.drop hgone)

theorem Stored.drop (h : Stored gone s st id l) (hgone : gone) : Stored gone s (st.drop id) id l :=
  ⟨Or.inr ⟨hgone, by simp [Stores.drop]⟩, h.mongo, fun hlive => (h.merged hlive).drop hgone⟩

private theorem Merged.push (h : Merged gone s st id l) (op : OpSaveData κ ν)
    (hfit : op.id = id → op.values = l) :
    Merged gone { s with q := (s.q.push op).1 } st id l where
  waiting o ho := by
    rw [waitingOf_push] at ho
    split at ho
    · rename_i hop
      rcases List.mem_append.mp ho with hold | hnew
      · exact h.waiting o hold
      · rw [List.mem_singleton.mp hnew]
        exact hfit hop.2
    · exact h.waiting o ho
  batch := h.batch
  redis := h.redis

private theorem Merged.close (h : Merged gone s st id l) :
    Merged gone { s with q := s.q.close } st id l :=
  ⟨fun o ho => h.waiting o (close_waitingOf s id ▸ ho), h.batch, h.redis⟩

private theorem Merged.stores (h : Merged gone s st id l)
    (hredis : st'.redis id = st.redis id) : Merged gone s st' id l :=
  ⟨h.waiting, h.batch, fun hw => hredis ▸ h.redis hw⟩

/-- A record accepted while, if `quiet`, no `Both` op of its role is outstanding. -/
theorem queued_push (quiet : Prop) {op : OpSaveData κ ν} (hroom : (s.q.push op).2 = none)
    (hbatch : quiet → ∀ o, s.batch.lookup op.id = some o → o.both = false)
    (hwait : quiet → ∀ o ∈ s.waitingOf op.id, o.both = false) (hboth : op.both = false) :
    Queued quiet { s with q := (s.q.push op).1 } op.id op.values where
  batch := hbatch
  split := ⟨s.waitingOf op.id, op, [], by rw [waitingOf_push, if_pos ⟨hroom, rfl⟩],
    fun hqt => ⟨hwait hqt, hboth⟩, rfl, by simp⟩

/-- A hash with nothing left to write holds the record. -/
theorem Carries.redis_of_empty (h : Carries quiet False s st id l) (hq : s.q.waiting = [])
    (hbatch : s.batch = ∅) : st.redis id = l := by
  rcases h with hqueued | hmerged
  · obtain ⟨pre, op, post, hsplit, _⟩ := hqueued.split
    simp [waitingOf, hq] at hsplit
  · exact (hmerged.redis (Or.inl (by simp [hbatch]))).resolve_right And.left

variable [DecidableEq κ]

theorem Effect.waitingOf (he : Effect s st a s' st' out) (id : RoleID) :
    s.waitingOf id = (s.merges a).filter (·.id = id) ++ s'.waitingOf id := by
  rw [Saver.waitingOf, he.waiting, List.filter_append]
  rfl

/-- A saver step as one role sees it. -/
inductive Move (s : Saver κ ν) (st : Stores κ ν) (s' : Saver κ ν) (st' : Stores κ ν)
    (id : RoleID) : Prop
  | merge {op new : OpSaveData κ ν} (hwait : s.waitingOf id = op :: s'.waitingOf id)
      (hnew : s'.batch.lookup id = some new)
      (hvalues : new.values = op.values ∪ s.batch.fields id)
      (hboth : new.both = true ↔ op.both = true ∨
        ∃ old, s.batch.lookup id = some old ∧ old.both = true)
      (hredis : st'.redis id = st.redis id) (hmongo : st'.mongo id = st.mongo id)
      (hpiped : ¬s'.Piped id)
  | keep (hwait : s'.waitingOf id = s.waitingOf id)
      (hbatch : s'.batch.lookup id = s.batch.lookup id)
      (hredis : st'.redis id = st.redis id ∨
        (s.batch.lookup id).isSome ∧ st'.redis id = s.batch.fields id ∪ st.redis id)
      (hmongo : st'.mongo id = st.mongo id ∨
        (∃ op, s.batch.lookup id = some op ∧ op.both = true) ∧
          st'.mongo id = s.batch.fields id ∪ st.mongo id)
      (hpiped : s'.Piped id → s.Piped id ∨
        (s.batch.lookup id).isSome ∧ st'.redis id = s.batch.fields id ∪ st.redis id)
  | clear (hwait : s'.waitingOf id = s.waitingOf id) (hbatch : s'.batch.lookup id = none)
      (hpiped : (s.batch.lookup id).isSome → s.Piped id)
      (hredis : st'.redis id = st.redis id) (hmongo : st'.mongo id = st.mongo id)
      (hboth : ∀ op, s.batch.lookup id = some op → op.both = true →
        Map.Holds (st.mongo id) op.values)
  | panic (hstatus : s'.status = .panicked) (hredis : st'.redis id = st.redis id)
      (hmongo : st'.mongo id = st.mongo id)
      (hbatch : s'.batch.lookup id = s.batch.lookup id)

private theorem move_nextChunk {f : Flush κ ν} (hwf : s.WF) (hwritten : s.Written st)
    (he : Effect s st a (s.nextChunk f) st out) (hflush : s.flush = some f)
    (hdone : f.stage = .bulkWrite ∧ f.models = [] ∨ ∃ ids, f.stage = .post ids) (id : RoleID) :
    Move s st (s.nextChunk f) st id := by
  have hstage : f.stage ≠ .pipeline := by
    rcases hdone with ⟨hs, _⟩ | ⟨ids, hs⟩ <;> simp [hs]
  have hbulked := hwritten.bulked hflush hdone
  by_cases hlast : f.i + chunkSize < f.allData.length
  · have hbatch : (s.nextChunk f).batch = s.batch := by simp [nextChunk, hlast]
    have hq : (s.nextChunk f).q = s.q := by simp [nextChunk, hlast]
    refine .keep (by rw [waitingOf, hq]; rfl) (by rw [hbatch]) (Or.inl rfl) (Or.inl rfl) ?_
    exact fun hpiped => (he.piped hwf hpiped).imp And.left fun h => ⟨h.1, h.2.2⟩
  · have hnext : s.nextChunk f = { s with flush := none, batch := ∅ } := if_neg hlast
    rw [hnext]
    rw [List.take_of_length_le (Nat.not_lt.mp hlast)] at hbulked
    refine .clear rfl (by simp) (hwf.piped_of_last hflush hstage hlast) rfl rfl ?_
    intro op hop hboth
    obtain rfl := hwf.ids id op hop
    exact hbulked op ((hwf.flushed f hflush op).mpr hop) hboth

theorem Effect.move (he : Effect s st a s' st' out) (hwf : s.WF) (hwritten : s.Written st)
    (id : RoleID) : Move s st s' st' id := by
  have hwait := he.waitingOf id
  have hredis := hwf.redis_step he id
  have hmongo := hwf.mongo_step he id
  have hpiped : s'.Piped id → s.Piped id ∨
      (s.batch.lookup id).isSome ∧ st'.redis id = s.batch.fields id ∪ st.redis id :=
    fun h => (he.piped hwf h).imp And.left fun h => ⟨h.1, h.2.2⟩
  have hnew := he
  cases he with
  | @merge op rest batch hrun hread hmerge =>
    obtain ⟨new, hid, hvalues, hboth, rfl⟩ := merge_some hwf.ids hmerge
    simp only [merges, hread, List.take_succ_cons, List.take_zero] at hwait
    by_cases heq : op.id = id
    · subst heq
      refine .merge (by simpa using hwait) (by simp) hvalues hboth rfl rfl ?_
      rintro ⟨f, hf, _⟩
      simp [hwf.quiet f hf] at hread
    · exact .keep (by simpa [heq] using hwait.symm) (by simp [Ne.symm heq]) (Or.inl rfl)
        (Or.inl rfl) hpiped
  | panic hread hmerge => exact .panic rfl rfl rfl rfl
  | bulkNone hrun hflush hstage hnone =>
    exact move_nextChunk hwf hwritten hnew hflush (Or.inl ⟨hstage, hnone⟩) id
  | post hrun hflush hstage =>
    exact move_nextChunk hwf hwritten hnew hflush (Or.inr ⟨_, hstage⟩) id
  | _ => exact .keep (by simpa [merges] using hwait.symm) rfl hredis hmongo hpiped

/-- A success event names a role whose batch entry has `Both` set and has been
written to both stores. -/
theorem Effect.posted_entry {ids : List RoleID} (he : Effect s st a s' st' (some ids))
    (hwf : s.WF) (hwritten : s.Written st) (hid : id ∈ ids) :
    ∃ op, s.batch.lookup id = some op ∧ op.both = true ∧ s.Piped id ∧
      Map.Holds (st.mongo id) op.values := by
  cases he with
  | @post f ids hrun hflush hstage =>
    rw [hwritten.posts f ids hflush hstage] at hid
    obtain ⟨op, hop, rfl⟩ := List.mem_map.mp hid
    obtain ⟨hchunk, hboth⟩ := List.mem_filter.mp hop
    have hdone : op ∈ f.allData.take (f.i + chunkSize) := by
      rw [take_add_chunkSize]
      exact List.mem_append_right _ hchunk
    refine ⟨op, (hwf.flushed f hflush op).mp (mem_chunk hchunk), hboth, ?_,
      hwritten.bulked hflush (Or.inr ⟨_, hstage⟩) op hdone hboth⟩
    exact ⟨f, hflush, op, by rwa [piped_of_stage (by simp [hstage])], rfl⟩

section Total

variable (htotal : ∀ k, (l.lookup k).isSome)

include htotal

theorem Merged.move (h : Merged gone s st id l) (hm : Move s st s' st' id)
    (hlive : s'.status ≠ .panicked) : Merged gone s' st' id l := by
  have hfields : (s.batch.lookup id).isSome → s.batch.fields id = l := by
    intro hsome
    obtain ⟨op, hop⟩ := Option.isSome_iff_exists.mp hsome
    exact (Batch.fields_of_lookup hop).trans (h.batch op hop)
  cases hm with
  | @merge op new hwait hnew hvalues hboth hredis hmongo hpiped =>
    have hop : op.values = l := h.waiting op (by simp [hwait])
    refine ⟨fun o ho => h.waiting o (by simp [hwait, ho]), ?_, ?_⟩
    · intro o ho
      rw [hnew, Option.some.injEq] at ho
      rw [← ho, hvalues, hop, Map.union_eq_left_of_total htotal]
    · rintro (hnone | hp)
      · simp [hnew] at hnone
      · exact absurd hp hpiped
  | keep hwait hbatch hredis hmongo hpiped =>
    refine ⟨fun o ho => h.waiting o (hwait ▸ ho), fun o ho => h.batch o (hbatch ▸ ho), ?_⟩
    have hover : (s.batch.lookup id).isSome → st'.redis id = s.batch.fields id ∪ st.redis id →
        st'.redis id = l := by
      intro hsome heq
      rw [heq, hfields hsome, Map.union_eq_left_of_total htotal]
    intro hwrote
    rw [hbatch] at hwrote
    have hold : s.batch.lookup id = none ∨ s.Piped id ∨ st'.redis id = l :=
      hwrote.imp_right fun hp => (hpiped hp).imp_right fun hw => hover hw.1 hw.2
    rcases hredis with heq | ⟨hsome, heq⟩
    · rcases hold with hnone | hp | hl
      · exact heq ▸ h.redis (Or.inl hnone)
      · exact heq ▸ h.redis (Or.inr hp)
      · exact Or.inl hl
    · exact Or.inl (hover hsome heq)
  | clear hwait hbatch hpiped hredis hmongo =>
    refine ⟨fun o ho => h.waiting o (hwait ▸ ho), by simp [hbatch], fun _ => ?_⟩
    rw [hredis]
    cases hlookup : s.batch.lookup id with
    | none => exact h.redis (Or.inl hlookup)
    | some op => exact h.redis (Or.inr (hpiped (by simp [hlookup])))
  | panic hstatus => exact absurd hstatus hlive

theorem Carries.move (h : Carries quiet gone s st id l) (hm : Move s st s' st' id)
    (hlive : s'.status ≠ .panicked) : Carries quiet gone s' st' id l := by
  rcases h with hq | hmerged
  · obtain ⟨pre, lop, post, hsplit, hquiet, hvalues, hpost⟩ := hq.split
    cases hm with
    | @merge op new hwait hnew hnewvalues hboth hredis hmongo hpiped =>
      rw [hsplit] at hwait
      -- Either an older op is merged, or the record itself.
      cases pre with
      | nil =>
        obtain ⟨rfl, hrest⟩ := List.cons.inj hwait
        refine Or.inr ⟨fun o ho => hpost o (hrest ▸ ho), ?_, ?_⟩
        · intro o ho
          rw [hnew, Option.some.injEq] at ho
          rw [← ho, hnewvalues, hvalues, Map.union_eq_left_of_total htotal]
        · rintro (hnone | hp)
          · simp [hnew] at hnone
          · exact absurd hp hpiped
      | cons o pre =>
        obtain ⟨rfl, hrest⟩ := List.cons.inj hwait
        refine Or.inl ⟨?_, pre, lop, post, hrest.symm, fun hqt => ?_, hvalues, hpost⟩
        · intro hqt o' ho'
          rw [hnew, Option.some.injEq] at ho'
          rw [← ho', ← Bool.not_eq_true, hboth]
          rintro (hb | ⟨old, hold, hb⟩)
          · simp [(hquiet hqt).1 o (List.mem_cons_self ..)] at hb
          · simp [hq.batch hqt old hold] at hb
        · exact ⟨fun o' ho' => (hquiet hqt).1 o' (List.mem_cons_of_mem _ ho'),
            (hquiet hqt).2⟩
    | keep hwait hbatch hredis hmongo =>
      exact Or.inl ⟨fun hqt o ho => hq.batch hqt o (hbatch ▸ ho), pre, lop, post,
        hwait.trans hsplit, hquiet, hvalues, hpost⟩
    | clear hwait hbatch hpiped hredis hmongo =>
      exact Or.inl ⟨by simp [hbatch], pre, lop, post, hwait.trans hsplit, hquiet,
        hvalues, hpost⟩
    | panic hstatus => exact absurd hstatus hlive
  · exact Or.inr (hmerged.move htotal hm hlive)

theorem Stored.effect (h : Stored gone s st id l) (hwf : s.WF) (hwritten : s.Written st)
    (he : Effect s st a s' st' out) : Stored gone s' st' id l := by
  have hmerged : Merged gone s st id l := h.merged (by simp [he.running])
  have hfields : ∀ op, s.batch.lookup id = some op → s.batch.fields id = l :=
    fun op hop => (Batch.fields_of_lookup hop).trans (hmerged.batch op hop)
  have hm := he.move hwf hwritten id
  refine ⟨?_, ?_, hmerged.move htotal hm⟩
  · cases hm with
    | keep hwait hbatch hredis hmongo =>
      rcases hredis with heq | ⟨hsome, heq⟩
      · exact heq ▸ h.redis
      · obtain ⟨op, hop⟩ := Option.isSome_iff_exists.mp hsome
        left
        rw [heq, hfields op hop, Map.union_eq_left_of_total htotal]
    | merge _ _ _ _ hredis _ | clear _ _ _ hredis _ | panic _ hredis _ => exact hredis ▸ h.redis
  · cases hm with
    | keep hwait hbatch hredis hmongo =>
      rcases hmongo with heq | ⟨⟨op, hop, _⟩, heq⟩
      · exact heq.trans h.mongo
      · rw [heq, hfields op hop, Map.union_eq_left_of_total htotal]
    | merge _ _ _ _ _ hmongo | clear _ _ _ _ hmongo | panic _ _ hmongo => exact hmongo.trans h.mongo

/-- The success event names the role only once the record is in both stores. -/
theorem Carries.stored_of_post {ids : List RoleID} (h : Carries True gone s st id l)
    (hwf : s.WF) (hwritten : s.Written st) (he : Effect s st a s' st' (some ids))
    (hid : id ∈ ids) : Stored gone s st id l := by
  obtain ⟨op, hlookup, hboth, hpiped, hmongo⟩ := he.posted_entry hwf hwritten hid
  rcases h with hq | hmerged
  · rw [hq.batch trivial op hlookup] at hboth
    cases hboth
  · rw [hmerged.batch op hlookup] at hmongo
    refine ⟨hmerged.redis (Or.inr hpiped), ?_, fun _ => hmerged⟩
    rw [← Map.holds_iff_union_eq.mp hmongo, Map.union_eq_left_of_total htotal]

end Total

/-- What holds of a role in its saver from some point on, whoever steps: other
roles' pushes, pushes of ops that `fits` the role's record, the saver's own
steps, and store writes for other roles. -/
structure Upheld (P : Saver κ ν → Stores κ ν → Prop) (id : RoleID)
    (fits : OpSaveData κ ν → Prop) : Prop where
  push : ∀ {s : Saver κ ν} {st : Stores κ ν} {op : OpSaveData κ ν}, P s st →
    (op.id = id → fits op) → P { s with q := (s.q.push op).1 } st
  close : ∀ {s : Saver κ ν} {st : Stores κ ν}, P s st → P { s with q := s.q.close } st
  effect : ∀ {s s' : Saver κ ν} {st st' : Stores κ ν} {a : SaverAct}
    {out : Option (List RoleID)}, s.WF → s.Written st → P s st →
    Effect s st a s' st' out → P s' st'
  stores : ∀ {s : Saver κ ν} {st st' : Stores κ ν}, P s st → st'.redis id = st.redis id →
    st'.mongo id = st.mongo id → P s st'

/-- A saver that has panicked stays so. -/
theorem Effect.status_ne (he : Effect s st a s' st' out) : s.status ≠ .panicked := by
  simp [he.running]

theorem carries_upheld (htotal : ∀ k, (l.lookup k).isSome) :
    Upheld (fun s st => s.status ≠ .panicked → Carries quiet gone s st id l) id
      (·.values = l) where
  push {s st op} h hfit hlive := by
    rcases h hlive with hq | hmerged
    · obtain ⟨pre, lop, post, hsplit, hquiet, hvalues, hpost⟩ := hq.split
      refine Or.inl ⟨hq.batch, ?_⟩
      rw [waitingOf_push]
      split
      · rename_i hop
        refine ⟨pre, lop, post ++ [op], by simp [hsplit], hquiet, hvalues, ?_⟩
        intro o ho
        rcases List.mem_append.mp ho with hold | hnew
        · exact hpost o hold
        · rw [List.mem_singleton.mp hnew]
          exact hfit hop.2
      · exact ⟨pre, lop, post, hsplit, hquiet, hvalues, hpost⟩
    · exact Or.inr (hmerged.push op hfit)
  close h hlive := by
    rcases h hlive with hq | hmerged
    · refine Or.inl ⟨hq.batch, ?_⟩
      rw [close_waitingOf]
      exact hq.split
    · exact Or.inr hmerged.close
  effect hwf hwritten h he hlive :=
    (h he.status_ne).move htotal (he.move hwf hwritten id) hlive
  stores h hredis _ hlive := (h hlive).imp_right fun hm => hm.stores hredis

theorem stored_upheld (htotal : ∀ k, (l.lookup k).isSome) :
    Upheld (fun s st => Stored gone s st id l) id (·.values = l) where
  push h hfit := ⟨h.redis, h.mongo, fun hlive => (h.merged hlive).push _ hfit⟩
  close h := ⟨h.redis, h.mongo, fun hlive => (h.merged hlive).close⟩
  effect hwf hwritten h he := h.effect htotal hwf hwritten he
  stores h hredis hmongo :=
    ⟨hredis ▸ h.redis, hmongo.trans h.mongo, fun hlive => (h.merged hlive).stores hredis⟩

end Saver

end GameCluster
