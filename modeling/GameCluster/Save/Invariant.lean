import GameCluster.Save.Saver

/-!
What each saver step can do, and the invariant every saver keeps: the flush
under way works on exactly the batch, and what its finished chunks carried is
in Redis unless the key has expired since. From it follows that no step changes
the *content* a role will have once everything accepted has been written, as
long as its key does not expire while a flush is under way.
-/

namespace GameCluster

open Lib

variable {κ ν : Type}

/-- The writes of `ops` that concern one role, in order. -/
def writesOf (ops : List (OpSaveData κ ν)) (id : RoleID) : List (Map κ ν) :=
  (ops.filter (·.id = id)).map (·.values)

@[simp] theorem writesOf_nil (id : RoleID) : writesOf ([] : List (OpSaveData κ ν)) id = [] := rfl

@[simp] theorem writesOf_append (first second : List (OpSaveData κ ν)) (id : RoleID) :
    writesOf (first ++ second) id = writesOf first id ++ writesOf second id := by
  simp [writesOf]

theorem writesOf_cons (op : OpSaveData κ ν) (rest : List (OpSaveData κ ν)) (id : RoleID) :
    writesOf (op :: rest) id =
      if op.id = id then op.values :: writesOf rest id else writesOf rest id := by
  by_cases h : op.id = id <;> simp [writesOf, h]

theorem Stores.drop_redis (st : Stores κ ν) (id x : RoleID) :
    (st.drop id).redis x = st.redis x ∨ (st.drop id).redis x = ∅ := by
  by_cases h : x = id
  · exact Or.inr (by simp [Stores.drop, h])
  · exact Or.inl (by simp [Stores.drop, Function.update_of_ne h])

theorem Stores.expire_some {st st' : Stores κ ν} {now : Int} {id : RoleID}
    (h : st.expire now id = some st') : st' = st.drop id := by
  unfold Stores.expire at h
  split at h
  · simpa using (Option.ite_none_right_eq_some.mp h).2.symm
  · cases h

/-- The fields of a role that its batch entry would write. -/
def Batch.fields (batch : Batch κ ν) (id : RoleID) : Map κ ν :=
  ((batch.lookup id).map (·.values)).getD ∅

theorem Batch.fields_of_lookup {batch : Batch κ ν} {id : RoleID}
    {op : OpSaveData κ ν} (h : batch.lookup id = some op) :
    batch.fields id = op.values := by
  simp [Batch.fields, h]

@[simp] theorem Batch.fields_empty (id : RoleID) : Batch.fields (∅ : Batch κ ν) id = ∅ := by
  simp [Batch.fields]

/-- How many ops of the flush a successful pipeline has written. -/
def Flush.piped (f : Flush κ ν) : Nat :=
  match f.stage with
  | .pipeline => f.i
  | _ => f.i + chunkSize

/-- How many ops of the flush a successful `saveToDB` has passed. -/
def Flush.bulked (f : Flush κ ν) : Nat :=
  match f.stage with
  | .post _ => f.i + chunkSize
  | _ => f.i

namespace Saver

/-- What a saver keeps: its batch is keyed by role ID, no `Range` is under way
during a flush, and the flush works on exactly the ops of the batch. -/
structure WF (s : Saver κ ν) : Prop where
  ids : ∀ id op, s.batch.lookup id = some op → op.id = id
  quiet : ∀ f, s.flush = some f → s.q.read = []
  flushed : ∀ f, s.flush = some f →
    ∀ op, op ∈ f.allData ↔ s.batch.lookup op.id = some op

theorem newSaver_wf : WF (newSaver : Saver κ ν) where
  ids := by simp [newSaver]
  quiet := by simp [newSaver]
  flushed := by simp [newSaver]

variable {s s' : Saver κ ν} {f : Flush κ ν} {op : OpSaveData κ ν}

/-- A push touches the write buffer only. -/
theorem WF.push (h : s.WF) (op : OpSaveData κ ν) : WF { s with q := (s.q.push op).1 } where
  ids := h.ids
  quiet f hf := (s.q.push_contents op).1.trans (h.quiet f hf)
  flushed := h.flushed

theorem WF.close (h : s.WF) : WF { s with q := s.q.close } where
  ids := h.ids
  quiet f hf := by
    have hread := h.quiet f hf
    unfold SwapQueue.close SwapQueue.wake
    split <;> exact hread
  flushed := h.flushed

private theorem WF.ofSameBatch (h : s.WF) (hbatch : s'.batch = s.batch)
    (hflush : ∀ f', s'.flush = some f' →
      s'.q.read = [] ∧ ∃ f, s.flush = some f ∧ f'.allData = f.allData) : WF s' where
  ids := by
    rw [hbatch]
    exact h.ids
  quiet f' hf' := (hflush f' hf').1
  flushed f' hf' := by
    obtain ⟨_, f, hf, hall⟩ := hflush f' hf'
    rw [hbatch, hall]
    exact h.flushed f hf

private theorem WF.ofNextChunk (h : s.WF) (hf : s.flush = some f) : WF (s.nextChunk f) := by
  unfold nextChunk
  split
  · refine h.ofSameBatch rfl ?_
    rintro f' ⟨⟩
    exact ⟨h.quiet f hf, f, hf, rfl⟩
  · exact ⟨by simp, by simp, by simp⟩

theorem nextChunk_batch (s : Saver κ ν) (f : Flush κ ν) :
    (s.nextChunk f).batch = s.batch ∨ (s.nextChunk f).batch = ∅ := by
  unfold nextChunk
  split
  · exact Or.inl rfl
  · exact Or.inr rfl

theorem mem_allData_of_enumerates {batch : Batch κ ν} {order : List RoleID}
    (hids : ∀ id op, batch.lookup id = some op → op.id = id)
    (horder : Map.Enumerates order batch) (op : OpSaveData κ ν) :
    op ∈ order.filterMap batch.lookup ↔ batch.lookup op.id = some op := by
  rw [List.mem_filterMap]
  constructor
  · rintro ⟨id, _, hlookup⟩
    rw [hids id op hlookup]
    exact hlookup
  · intro hlookup
    exact ⟨op.id, (horder.mem_iff op.id).mpr (by simp [hlookup]), hlookup⟩

theorem mem_chunk (h : op ∈ f.chunk) : op ∈ f.allData :=
  List.mem_of_mem_drop (List.mem_of_mem_take h)

theorem mem_models (h : op ∈ f.models) : op ∈ f.chunk ∧ op.both = true := by
  simp only [Flush.models, Flush.toDB, List.mem_filter] at h
  exact h.1

/-- An op of the chunk with `Both` set is a write model or has no fields. -/
private theorem mem_models_or_empty (hop : op ∈ f.chunk) (hboth : op.both = true) :
    op ∈ f.models ∨ op.values = ∅ := by
  by_cases hlen : op.values.len = 0
  · exact Or.inr (Map.len_eq_zero.mp hlen)
  · refine Or.inl (List.mem_filter.mpr ⟨List.mem_filter.mpr ⟨hop, hboth⟩, ?_⟩)
    simpa using Nat.pos_of_ne_zero hlen

/-- Ops of a flush that concern one role carry that role's batch fields. -/
theorem WF.agree (h : s.WF) (hf : s.flush = some f) (hop : op ∈ f.allData) {id : RoleID}
    (hid : op.id = id) :
    op.values = s.batch.fields id := by
  have hlookup := (h.flushed f hf op).mp hop
  rw [hid] at hlookup
  exact (Batch.fields_of_lookup hlookup).symm

private theorem WF.agree_ops (h : s.WF) (hf : s.flush = some f) (hop : op ∈ f.allData)
    {op' : OpSaveData κ ν} (hop' : op' ∈ f.allData) (hid : op'.id = op.id) :
    op'.values = op.values :=
  (h.agree hf hop' hid).trans (h.agree hf hop rfl).symm

theorem take_add_chunkSize (f : Flush κ ν) :
    f.allData.take (f.i + chunkSize) = f.allData.take f.i ++ f.chunk :=
  List.take_add

theorem piped_of_stage (hstage : f.stage ≠ .pipeline) : f.piped = f.i + chunkSize := by
  cases hs : f.stage with
  | pipeline => exact absurd hs hstage
  | bulkWrite | post ids => simp [Flush.piped, hs]

/-- The flush under way has written the role's hash. -/
def Piped (s : Saver κ ν) (id : RoleID) : Prop :=
  ∃ f, s.flush = some f ∧ ∃ op ∈ f.allData.take f.piped, op.id = id

/-- The last chunk of a flush leaves no role of the batch unwritten. -/
theorem WF.piped_of_last (hwf : s.WF) (hflush : s.flush = some f) (hstage : f.stage ≠ .pipeline)
    (hlast : ¬f.i + chunkSize < f.allData.length) {id : RoleID} (hid : (s.batch.lookup id).isSome) :
    s.Piped id := by
  obtain ⟨op, hop⟩ := Option.isSome_iff_exists.mp hid
  obtain rfl := hwf.ids id op hop
  refine ⟨f, hflush, op, ?_, rfl⟩
  rw [piped_of_stage hstage, List.take_of_length_le (Nat.not_lt.mp hlast)]
  exact (hwf.flushed f hflush op).mpr hop

/-- No op without fields has got into the saver. -/
structure Filled (s : Saver κ ν) : Prop where
  queued : ∀ op ∈ s.q.waiting, op.values ≠ ∅
  batched : ∀ id op, s.batch.lookup id = some op → op.values ≠ ∅

theorem Filled.push (h : s.Filled) (hop : op.values ≠ ∅) :
    Filled { s with q := (s.q.push op).1 } where
  queued op' hop' := by
    rw [SwapQueue.push_waiting] at hop'
    split at hop'
    · rcases List.mem_append.mp hop' with hold | hnew
      · exact h.queued op' hold
      · rw [List.mem_singleton.mp hnew]
        exact hop
    · exact h.queued op' hop'
  batched := h.batched

end Saver

variable [DecidableEq κ]

theorem setFields_apply (store : RoleID → Map κ ν) (op : OpSaveData κ ν) (id : RoleID) :
    setFields store op id =
      if op.id = id then op.values ∪ store id else store id := by
  by_cases h : op.id = id
  · subst h
    simp [setFields]
  · rw [setFields, Function.update_of_ne (Ne.symm h), if_neg h]

/-- A pipeline leaves in each role's hash the last writer of every field. -/
theorem setAll_apply (store : RoleID → Map κ ν) (ops : List (OpSaveData κ ν)) (id : RoleID) :
    setAll store ops id = Map.lastWrites (writesOf ops id) ∪ store id := by
  induction ops generalizing store with
  | nil => simp [setAll]
  | cons op rest ih =>
    rw [setAll, List.foldl_cons, ← setAll, ih, setFields_apply, writesOf_cons]
    by_cases h : op.id = id
    · simp only [if_pos h, Map.lastWrites_cons, Finmap.union_assoc]
    · simp only [if_neg h]

theorem setAll_append (store : RoleID → Map κ ν) (first second : List (OpSaveData κ ν)) :
    setAll store (first ++ second) = setAll (setAll store first) second :=
  List.foldl_append

/-- When all ops of a role carry the same fields, however many of them a
pipeline applies, the hash gets these fields or stays as it is. -/
theorem setAll_of_agree (store : RoleID → Map κ ν) (ops : List (OpSaveData κ ν))
    (id : RoleID) (w : Map κ ν) (h : ∀ op ∈ ops, op.id = id → op.values = w) :
    setAll store ops id =
      if ∃ op ∈ ops, op.id = id then w ∪ store id else store id := by
  induction ops generalizing store with
  | nil => simp [setAll]
  | cons op rest ih =>
    have hrest := ih (setFields store op) fun op' hop' => h op' (List.mem_cons_of_mem _ hop')
    rw [setAll, List.foldl_cons, ← setAll, hrest, setFields_apply]
    by_cases hid : op.id = id
    · have hw : op.values = w := h op (List.mem_cons_self ..) hid
      simp [hid, hw]
    · simp [hid]

/-- All that later proofs need of `merge`: one entry changes, it keeps its ID,
its fields are overlaid and its `Both` flag is or-ed. -/
theorem merge_some {batch batch' : Batch κ ν} {data : OpSaveData κ ν}
    (hids : ∀ id op, batch.lookup id = some op → op.id = id)
    (h : merge batch data = some batch') :
    ∃ op, op.id = data.id ∧ op.values = data.values ∪ batch.fields data.id ∧
      (op.both = true ↔ data.both = true ∨
        ∃ old, batch.lookup data.id = some old ∧ old.both = true) ∧
      batch' = batch.insert data.id op := by
  unfold merge at h
  cases hold : batch.lookup data.id with
  | none =>
    simp only [hold, Option.some.injEq] at h
    exact ⟨data, rfl, by simp [Batch.fields, hold], by simp, h.symm⟩
  | some old =>
    have hid : old.id = data.id := hids _ _ hold
    cases hfields : old.data with
    | some fields =>
      simp only [hold, hfields, Option.some.injEq] at h
      refine ⟨⟨old.id, some (data.values ∪ fields), old.both || data.both⟩,
        hid, ?_, ?_, h.symm⟩
      · simp [Batch.fields, hold, OpSaveData.values, hfields]
      · simp [or_comm]
    | none =>
      by_cases hlen : data.values.len = 0
      · simp only [hold, hfields, if_pos hlen, Option.some.injEq] at h
        have hempty : data.values = ∅ := Map.len_eq_zero.mp hlen
        refine ⟨⟨old.id, none, old.both || data.both⟩, hid, ?_, ?_, h.symm⟩
        · rw [hempty]
          simp [Batch.fields, hold, OpSaveData.values, hfields]
        · simp [or_comm]
      · simp [hold, hfields, if_neg hlen] at h

/-- `merge` panics exactly when it would assign to a field of a nil map. -/
theorem merge_eq_none_iff (batch : Batch κ ν) (data : OpSaveData κ ν) :
    merge batch data = none ↔
      data.values ≠ ∅ ∧ ∃ old, batch.lookup data.id = some old ∧ old.data = none := by
  unfold merge
  cases hold : batch.lookup data.id with
  | none => simp
  | some old =>
    cases hfields : old.data with
    | some fields => simp [hfields]
    | none => simp [hfields, Map.len_eq_zero]

namespace Saver

/-- Everything one saver step can do, guards included; when the keys expire from
then on is left open. -/
inductive Effect (s : Saver κ ν) (st : Stores κ ν) :
    SaverAct → Saver κ ν → Stores κ ν → Option (List RoleID) → Prop
  | drain (hidle : s.Idle) :
      Effect s st .drain { s with q := { s.q with sig := false }.swap } st none
  | merge {op : OpSaveData κ ν} {rest : List (OpSaveData κ ν)} {batch : Batch κ ν}
      (hrun : s.status = .running) (hread : s.q.read = op :: rest)
      (hmerge : merge s.batch op = some batch) :
      Effect s st .mergeNext { s with q := { s.q with read := rest }, batch } st none
  | panic {op : OpSaveData κ ν} {rest : List (OpSaveData κ ν)}
      (hread : s.q.read = op :: rest) (hmerge : GameCluster.merge s.batch op = none)
      (hrun : s.status = .running) :
      Effect s st .mergeNext
        { s with q := { s.q with read := rest }, status := .panicked } st none
  | beginFlush {order : List RoleID} (hidle : s.Idle) (hlen : 0 < s.batch.len)
      (horder : Map.Enumerates order s.batch) :
      Effect s st (.beginFlush order)
        { s with flush := some ⟨order.filterMap s.batch.lookup, 0, .pipeline⟩ } st none
  | pipeOk {f : Flush κ ν} {applied renewed : List RoleID} {expireAt : RoleID → Option Int}
      (hrun : s.status = .running) (hflush : s.flush = some f) (hstage : f.stage = .pipeline)
      (hfields : ∀ op ∈ f.chunk, op.values ≠ ∅) :
      Effect s st (.execPipe true applied renewed)
        { s with flush := some { f with stage := .bulkWrite } }
        { st with redis := setAll st.redis f.chunk, expireAt } none
  | pipeFail {f : Flush κ ν} {applied renewed : List RoleID} {expireAt : RoleID → Option Int}
      (hrun : s.status = .running) (hflush : s.flush = some f)
      (hstage : f.stage = .pipeline) :
      Effect s st (.execPipe false applied renewed) { s with flush := none }
        { st with redis := setAll st.redis (f.chunk.filter (·.id ∈ applied)), expireAt } none
  | bulkNone {f : Flush κ ν} {ok : Bool} {applied : List RoleID}
      (hrun : s.status = .running)
      (hflush : s.flush = some f) (hstage : f.stage = .bulkWrite)
      (hnone : f.models = []) :
      Effect s st (.saveToDB ok applied) (s.nextChunk f) st none
  | bulkOk {f : Flush κ ν} {applied : List RoleID} (hrun : s.status = .running)
      (hflush : s.flush = some f) (hstage : f.stage = .bulkWrite) :
      Effect s st (.saveToDB true applied)
        { s with flush := some { f with stage := .post (f.toDB.map (·.id)) } }
        { st with mongo := setAll st.mongo f.models } none
  | bulkFail {f : Flush κ ν} {applied : List RoleID} (hrun : s.status = .running)
      (hflush : s.flush = some f) (hstage : f.stage = .bulkWrite) :
      Effect s st (.saveToDB false applied) { s with flush := none }
        { st with mongo := setAll st.mongo (f.models.filter (·.id ∈ applied)) } none
  | post {f : Flush κ ν} {ids : List RoleID} (hrun : s.status = .running)
      (hflush : s.flush = some f) (hstage : f.stage = .post ids) :
      Effect s st .postSuccess (s.nextChunk f) st (some ids)
  | exit (hidle : s.Idle) (hclosed : s.q.closed = true) (hwrite : s.q.write = [])
      (hbatch : s.batch = ∅) : Effect s st .exit { s with status := .exited } st none

variable {s s' : Saver κ ν} {st st' : Stores κ ν} {a : SaverAct} {out : Option (List RoleID)}
  {f : Flush κ ν} {id : RoleID}

theorem step_effect {now : Int} (h : s.step now st a = some (s', st', out)) :
    Effect s st a s' st' out := by
  cases a with
  | drain =>
    simp only [step, drain, Option.map_eq_some_iff, Option.ite_none_right_eq_some] at h
    obtain ⟨s₁, ⟨hguard, heq₁⟩, heq⟩ := h
    cases heq₁
    cases heq
    exact .drain hguard.1
  | mergeNext =>
    simp only [step, mergeNext, Option.map_eq_some_iff] at h
    obtain ⟨s₁, h, heq⟩ := h
    cases heq
    split at h
    · rename_i op rest hrun hread
      split at h
      · rename_i batch hmerge
        cases h
        exact .merge hrun hread hmerge
      · rename_i hmerge
        cases h
        exact .panic hread hmerge hrun
    · cases h
  | beginFlush order =>
    simp only [step, beginFlush, Option.map_eq_some_iff,
      Option.ite_none_right_eq_some] at h
    obtain ⟨s₁, ⟨⟨hidle, hlen, horder⟩, heq₁⟩, heq⟩ := h
    cases heq₁
    cases heq
    exact .beginFlush hidle hlen horder
  | execPipe ok applied renewed =>
    simp only [step, execPipe, Option.map_eq_some_iff] at h
    obtain ⟨⟨s₁, st₁⟩, h, heq⟩ := h
    cases heq
    split at h
    · rename_i allData i hrun hflush
      cases ok with
      | true =>
        simp only [if_true, Option.ite_none_right_eq_some] at h
        obtain ⟨hall, heq⟩ := h
        cases heq
        refine .pipeOk hrun hflush rfl ?_
        intro op hop hempty
        have hpos := List.all_eq_true.mp hall op hop
        simp [hempty, Map.len] at hpos
      | false =>
        simp only [Bool.false_eq_true, if_false] at h
        cases h
        exact .pipeFail hrun hflush rfl
    · cases h
  | saveToDB ok applied =>
    simp only [step, saveToDB, Option.map_eq_some_iff] at h
    obtain ⟨⟨s₁, st₁⟩, h, heq⟩ := h
    cases heq
    split at h
    · rename_i allData i hrun hflush
      split at h
      · rename_i hnone
        cases h
        exact .bulkNone hrun hflush rfl (List.isEmpty_iff.mp hnone)
      · cases ok with
        | true =>
          simp only [if_true] at h
          cases h
          exact .bulkOk hrun hflush rfl
        | false =>
          simp only [Bool.false_eq_true, if_false] at h
          cases h
          exact .bulkFail hrun hflush rfl
    · cases h
  | postSuccess =>
    simp only [step, postSuccess, Option.map_eq_some_iff] at h
    obtain ⟨⟨s₁, ids⟩, h, heq⟩ := h
    cases heq
    split at h
    · rename_i allData i ids' hrun hflush
      cases h
      exact .post hrun hflush rfl
    · cases h
  | exit =>
    simp only [step, exit, Option.map_eq_some_iff, Option.ite_none_right_eq_some] at h
    obtain ⟨s₁, ⟨⟨hidle, hclosed, hwrite, hbatch⟩, heq₁⟩, heq⟩ := h
    cases heq₁
    cases heq
    exact .exit hidle hclosed (List.isEmpty_iff.mp hwrite) (Map.len_eq_zero.mp hbatch)

/-- A saver that has panicked or returned does nothing more. -/
theorem Effect.running (he : Effect s st a s' st' out) : s.status = .running := by
  cases he with
  | drain hidle | beginFlush hidle | exit hidle => exact hidle.1
  | merge hrun | panic _ _ hrun | pipeOk hrun | pipeFail hrun | bulkNone hrun | bulkOk hrun
  | bulkFail hrun | post hrun => exact hrun

theorem WF.effect (h : s.WF) (he : Effect s st a s' st' out) : WF s' := by
  cases he with
  | drain hidle | exit hidle hclosed hwrite hbatch =>
    refine h.ofSameBatch rfl ?_
    intro f' hf'
    have hnone : s.flush = none := by simpa using hidle.2.1
    simp [hnone] at hf'
  | merge hrun hread hmerge =>
    have hnone : s.flush = none := by
      cases hf : s.flush with
      | none => rfl
      | some f => simp [h.quiet f hf] at hread
    obtain ⟨new, hid, _, _, rfl⟩ := merge_some h.ids hmerge
    refine ⟨?_, by simp [hnone], by simp [hnone]⟩
    intro id op hlookup
    rw [Map.lookup_insert_ite] at hlookup
    split at hlookup
    · rename_i heq
      cases hlookup
      rw [hid, heq]
    · exact h.ids id op hlookup
  | panic hread hmerge =>
    refine h.ofSameBatch rfl ?_
    intro f' hf'
    simp [h.quiet f' hf'] at hread
  | beginFlush hidle hlen horder =>
    refine ⟨h.ids, ?_, ?_⟩
    · intro f' hf'
      simpa using hidle.2.2
    · rintro f' ⟨⟩ op
      exact mem_allData_of_enumerates h.ids horder op
  | @pipeOk f _ _ _ hrun hflush hstage hfields | @bulkOk f applied hrun hflush hstage =>
    refine h.ofSameBatch rfl ?_
    rintro f' ⟨⟩
    exact ⟨h.quiet f hflush, f, hflush, rfl⟩
  | pipeFail hrun hflush hstage | bulkFail hrun hflush hstage => exact h.ofSameBatch rfl (by simp)
  | bulkNone hrun hflush hstage hnone | post hrun hflush hstage => exact h.ofNextChunk hflush

/-- Writing any of a flush's ops leaves a store's entry alone or lays the
role's batch entry over it. -/
theorem WF.setAll_flush (h : s.WF) (hf : s.flush = some f) {ops : List (OpSaveData κ ν)}
    (hops : ∀ op ∈ ops, op ∈ f.allData) (store : RoleID → Map κ ν) (id : RoleID) :
    setAll store ops id = store id ∨
      (∃ op ∈ ops, s.batch.lookup id = some op) ∧
        setAll store ops id = s.batch.fields id ∪ store id := by
  rw [setAll_of_agree store ops id (s.batch.fields id)
    fun op hop hid => h.agree hf (hops op hop) hid]
  split
  · rename_i hex
    obtain ⟨op, hop, rfl⟩ := hex
    exact Or.inr ⟨⟨op, hop, (h.flushed f hf op).mp (hops op hop)⟩, rfl⟩
  · exact Or.inl rfl

/-- A saver step leaves a hash alone or lays the role's batch entry over it. -/
theorem WF.redis_step (h : s.WF) (he : Effect s st a s' st' out) (id : RoleID) :
    st'.redis id = st.redis id ∨
      (s.batch.lookup id).isSome ∧ st'.redis id = s.batch.fields id ∪ st.redis id := by
  have hsome : ∀ {ops : List (OpSaveData κ ν)}, (∃ op ∈ ops, s.batch.lookup id = some op) →
      (s.batch.lookup id).isSome := by
    rintro ops ⟨op, _, hlookup⟩
    simp [hlookup]
  cases he with
  | pipeOk hrun hflush hstage hfields =>
    exact (h.setAll_flush hflush (fun _ => mem_chunk) st.redis id).imp_right (.imp_left hsome)
  | pipeFail hrun hflush hstage =>
    exact (h.setAll_flush hflush (fun _ hop => mem_chunk (List.mem_of_mem_filter hop))
      st.redis id).imp_right (.imp_left hsome)
  | _ => exact Or.inl rfl

/-- The same of the Mongo documents, which only `Both` ops reach. -/
theorem WF.mongo_step (h : s.WF) (he : Effect s st a s' st' out) (id : RoleID) :
    st'.mongo id = st.mongo id ∨
      (∃ op, s.batch.lookup id = some op ∧ op.both = true) ∧
        st'.mongo id = s.batch.fields id ∪ st.mongo id := by
  cases he with
  | @bulkOk f applied hrun hflush hstage =>
    refine (h.setAll_flush hflush (fun _ hop => mem_chunk (mem_models hop).1)
      st.mongo id).imp_right ?_
    rintro ⟨⟨op, hop, hlookup⟩, heq⟩
    exact ⟨⟨op, hlookup, (mem_models hop).2⟩, heq⟩
  | @bulkFail f applied hrun hflush hstage =>
    refine (h.setAll_flush hflush
      (fun _ hop => mem_chunk (mem_models (List.mem_of_mem_filter hop)).1)
      st.mongo id).imp_right ?_
    rintro ⟨⟨op, hop, hlookup⟩, heq⟩
    exact ⟨⟨op, hlookup, (mem_models (List.mem_of_mem_filter hop)).2⟩, heq⟩
  | _ => exact Or.inl rfl

/-- What the finished chunks of the flush under way carried is in the stores,
unless the key of a hash has expired. -/
structure Written (s : Saver κ ν) (st : Stores κ ν) : Prop where
  redis : ∀ f, s.flush = some f → ∀ op ∈ f.allData.take f.piped,
    st.redis op.id = ∅ ∨ Map.Holds (st.redis op.id) op.values
  mongo : ∀ f, s.flush = some f → ∀ op ∈ f.allData.take f.bulked, op.both = true →
    Map.Holds (st.mongo op.id) op.values
  posts : ∀ f ids, s.flush = some f → f.stage = .post ids → ids = f.toDB.map (·.id)

/-- Only the entries of the roles in the batch matter, and a hash may go. -/
theorem Written.frame (h : s.Written st) (hwf : s.WF) (hflush : s'.flush = s.flush)
    (hredis : ∀ id, (s.batch.lookup id).isSome → st'.redis id = st.redis id ∨ st'.redis id = ∅)
    (hmongo : ∀ id, (s.batch.lookup id).isSome → st'.mongo id = st.mongo id) :
    s'.Written st' where
  redis f hf op hop := by
    rw [hflush] at hf
    have hlookup := (hwf.flushed f hf op).mp (List.mem_of_mem_take hop)
    rcases hredis op.id (by simp [hlookup]) with heq | heq
    · rw [heq]
      exact h.redis f hf op hop
    · exact Or.inl heq
  mongo f hf op hop hboth := by
    rw [hflush] at hf
    have hlookup := (hwf.flushed f hf op).mp (List.mem_of_mem_take hop)
    rw [hmongo op.id (by simp [hlookup])]
    exact h.mongo f hf op hop hboth
  posts f ids hf := by
    rw [hflush] at hf
    exact h.posts f ids hf

theorem Written.drop (h : s.Written st) (hwf : s.WF) (id : RoleID) : s.Written (st.drop id) :=
  h.frame hwf rfl (fun x _ => st.drop_redis id x) fun _ _ => rfl

theorem Written.of_flush_none (h : s.flush = none) : s.Written st :=
  ⟨by simp [h], by simp [h], by simp [h]⟩

private theorem holds_setAll {store : RoleID → Map κ ν} {ops : List (OpSaveData κ ν)}
    {op : OpSaveData κ ν} (hagree : ∀ op' ∈ ops, op'.id = op.id → op'.values = op.values)
    (h : op ∈ ops ∨ Map.Holds (store op.id) op.values) :
    Map.Holds (setAll store ops op.id) op.values := by
  rw [setAll_of_agree store ops op.id op.values hagree]
  split
  · exact Map.holds_union _ _
  · rename_i hnone
    rcases h with hop | hold
    · exact absurd ⟨op, hop, rfl⟩ hnone
    · exact hold

/-- The chunk that just succeeded joins the finished ones. -/
private theorem Written.ofNextChunk
    (hredis : ∀ op ∈ f.allData.take (f.i + chunkSize),
      st.redis op.id = ∅ ∨ Map.Holds (st.redis op.id) op.values)
    (hmongo : ∀ op ∈ f.allData.take (f.i + chunkSize), op.both = true →
      Map.Holds (st.mongo op.id) op.values) : (s.nextChunk f).Written st := by
  unfold nextChunk
  split
  · refine ⟨?_, ?_, ?_⟩
    · rintro f' ⟨⟩
      exact hredis
    · rintro f' ⟨⟩
      exact hmongo
    · rintro f' ids ⟨⟩ ⟨⟩
  · exact .of_flush_none rfl

/-- What the chunks up to the next one carried is in Redis. -/
theorem Written.piped (h : s.Written st) (hflush : s.flush = some f)
    (hstage : f.stage ≠ .pipeline) :
    ∀ op ∈ f.allData.take (f.i + chunkSize),
      st.redis op.id = ∅ ∨ Map.Holds (st.redis op.id) op.values := by
  have hpiped := h.redis f hflush
  rwa [piped_of_stage hstage] at hpiped

/-- A hash that the flush under way has written holds the role's batch entry, or
its key has expired since. -/
theorem Written.held (h : s.Written st) (hwf : s.WF) (hpiped : s.Piped id) :
    st.redis id = ∅ ∨ Map.Holds (st.redis id) (s.batch.fields id) := by
  obtain ⟨f, hflush, op, hop, rfl⟩ := hpiped
  rw [← hwf.agree hflush (List.mem_of_mem_take hop) rfl]
  exact h.redis f hflush op hop

/-- And what their `Both` ops carried is in Mongo, once the bulk write is done or
there was nothing to write. -/
theorem Written.bulked (h : s.Written st) (hflush : s.flush = some f)
    (hdone : f.stage = .bulkWrite ∧ f.models = [] ∨ ∃ ids, f.stage = .post ids) :
    ∀ op ∈ f.allData.take (f.i + chunkSize), op.both = true →
      Map.Holds (st.mongo op.id) op.values := by
  have hbulked := h.mongo f hflush
  rcases hdone with ⟨hstage, hnone⟩ | ⟨ids, hstage⟩
  · simp only [Flush.bulked, hstage] at hbulked
    intro op hop hboth
    rw [take_add_chunkSize] at hop
    rcases List.mem_append.mp hop with hdone | hchunk
    · exact hbulked op hdone hboth
    · rcases mem_models_or_empty hchunk hboth with hmodel | hempty
      · simp [hnone] at hmodel
      · rw [hempty]
        exact Map.holds_empty _
  · simpa [Flush.bulked, hstage] using hbulked

theorem Written.effect (h : s.Written st) (hwf : s.WF) (he : Effect s st a s' st' out) :
    s'.Written st' := by
  cases he with
  | drain hidle | merge hrun hread hmerge | panic hread hmerge
  | exit hidle hclosed hwrite hbatch =>
    exact h.frame hwf rfl (fun _ _ => Or.inl rfl) (fun _ _ => rfl)
  | beginFlush hidle hlen horder =>
    refine ⟨?_, ?_, ?_⟩
    · rintro f' ⟨⟩ op hop
      simp [Flush.piped] at hop
    · rintro f' ⟨⟩ op hop
      simp [Flush.bulked] at hop
    · rintro f' ids ⟨⟩ ⟨⟩
  | pipeFail hrun hflush hstage | bulkFail hrun hflush hstage => exact .of_flush_none rfl
  | @pipeOk f _ _ _ hrun hflush hstage hfields =>
    refine ⟨?_, ?_, ?_⟩
    · rintro f' ⟨⟩ op hop
      have hall : op ∈ f.allData := List.mem_of_mem_take hop
      have hagree : ∀ op' ∈ f.chunk, op'.id = op.id → op'.values = op.values :=
        fun op' hop' => hwf.agree_ops hflush hall (mem_chunk hop')
      have hparts : op ∈ f.allData.take f.i ++ f.chunk := by
        rw [← take_add_chunkSize]
        exact hop
      rcases List.mem_append.mp hparts with hdone | hchunk
      · -- Written by an earlier chunk, and by this one again or not.
        have hold := h.redis f hflush op (by simpa [Flush.piped, hstage] using hdone)
        change setAll st.redis f.chunk op.id = ∅ ∨
          Map.Holds (setAll st.redis f.chunk op.id) op.values
        rw [setAll_of_agree st.redis f.chunk op.id op.values hagree]
        split
        · exact Or.inr (Map.holds_union _ _)
        · exact hold
      · exact Or.inr (holds_setAll hagree (Or.inl hchunk))
    · rintro f' ⟨⟩ op hop
      exact h.mongo f hflush op (by simpa [Flush.bulked, hstage] using hop)
    · rintro f' ids ⟨⟩ ⟨⟩
  | bulkNone hrun hflush hstage hnone =>
    exact .ofNextChunk (h.piped hflush (by simp [hstage]))
      (h.bulked hflush (Or.inl ⟨hstage, hnone⟩))
  | @bulkOk f applied hrun hflush hstage =>
    have hpiped := h.redis f hflush
    have hbulked := h.mongo f hflush
    simp only [Flush.piped, Flush.bulked, hstage] at hpiped hbulked
    refine ⟨?_, ?_, ?_⟩
    · rintro f' ⟨⟩
      exact hpiped
    · rintro f' ⟨⟩ op hop hboth
      have hall : op ∈ f.allData := List.mem_of_mem_take hop
      have hagree : ∀ op' ∈ f.models, op'.id = op.id → op'.values = op.values :=
        fun op' hop' => hwf.agree_ops hflush hall (mem_chunk (mem_models hop').1)
      simp only [Flush.bulked, take_add_chunkSize] at hop
      rcases List.mem_append.mp hop with hdone | hchunk
      · exact holds_setAll hagree (Or.inr (hbulked op hdone hboth))
      · rcases mem_models_or_empty hchunk hboth with hmodel | hempty
        · exact holds_setAll hagree (Or.inl hmodel)
        · rw [hempty]
          exact Map.holds_empty _
    · rintro f' ids ⟨⟩ ⟨⟩
      rfl
  | post hrun hflush hstage =>
    exact .ofNextChunk (h.piped hflush (by simp [hstage]))
      (h.bulked hflush (Or.inr ⟨_, hstage⟩))

/-- A role's hash with its batch entry laid over it: what the hash will hold
once the batch has been flushed. -/
def content (s : Saver κ ν) (st : Stores κ ν) (id : RoleID) : Map κ ν :=
  s.batch.fields id ∪ st.redis id

/-- The op that a step hands to `merge`. -/
def merges (s : Saver κ ν) : SaverAct → List (OpSaveData κ ν)
  | .mergeNext => s.q.read.take 1
  | _ => []

/-- Ops leave the queue only towards `merge`, oldest first. -/
theorem Effect.waiting (he : Effect s st a s' st' out) :
    s.q.waiting = s.merges a ++ s'.q.waiting := by
  have hnext : ∀ f : Flush κ ν, (s.nextChunk f).q = s.q := by
    intro f
    unfold nextChunk
    split <;> rfl
  cases he with
  | drain hidle =>
    have hread : s.q.read = [] := by simpa using hidle.2.2
    exact (SwapQueue.swap_waiting { s.q with sig := false } hread).symm
  | merge hrun hread hmerge | panic hread hmerge => simp [merges, SwapQueue.waiting, hread]
  | @bulkNone f | @post f => simp [merges, hnext f]
  | _ => rfl

/-- A hash becomes one that the flush under way has written only by being
written. -/
theorem Effect.piped (he : Effect s st a s' st' out) (hwf : s.WF) (hpiped : s'.Piped id) :
    s.Piped id ∧ s'.batch = s.batch ∨
      (s.batch.lookup id).isSome ∧ s'.batch = s.batch ∧
        st'.redis id = s.batch.fields id ∪ st.redis id := by
  obtain ⟨f', hf', op, hop, hid⟩ := hpiped
  have same : s'.flush = s.flush → s.Piped id := fun heq => ⟨f', heq ▸ hf', op, hop, hid⟩
  have hnext : ∀ f : Flush κ ν, s.flush = some f → f.stage ≠ .pipeline →
      (s.nextChunk f).flush = some f' → s.Piped id ∧ (s.nextChunk f).batch = s.batch := by
    intro f hflush hstage heq
    unfold nextChunk at heq ⊢
    split at heq
    · rename_i hmore
      cases heq
      rw [if_pos hmore]
      exact ⟨⟨f, hflush, op, by rwa [piped_of_stage hstage], hid⟩, rfl⟩
    · cases heq
  cases he with
  | drain | panic | exit => exact Or.inl ⟨same rfl, rfl⟩
  | merge hrun hread hmerge => simp [hwf.quiet f' hf'] at hread
  | beginFlush hidle hlen horder =>
    cases hf'
    simp [Flush.piped] at hop
  | @pipeOk f _ _ _ hrun hflush hstage hfields =>
    cases hf'
    have hagree : ∀ o ∈ f.chunk, o.id = id → o.values = s.batch.fields id :=
      fun o ho hoid => hwf.agree hflush (mem_chunk ho) hoid
    have hparts : op ∈ f.allData.take f.i ++ f.chunk := by
      rw [← take_add_chunkSize]
      exact hop
    rcases List.mem_append.mp hparts with hdone | hchunk
    · exact Or.inl ⟨⟨f, hflush, op, by simpa [Flush.piped, hstage] using hdone, hid⟩, rfl⟩
    · have hlookup := (hwf.flushed f hflush op).mp (mem_chunk hchunk)
      rw [hid] at hlookup
      refine Or.inr ⟨by simp [hlookup], rfl, ?_⟩
      exact (setAll_of_agree st.redis f.chunk id _ hagree).trans
        (if_pos ⟨op, hchunk, hid⟩)
  | pipeFail | bulkFail => cases hf'
  | @bulkOk f _ hrun hflush hstage =>
    cases hf'
    refine Or.inl ⟨⟨f, hflush, op, ?_, hid⟩, rfl⟩
    simpa [Flush.piped, hstage] using hop
  | bulkNone hrun hflush hstage | post hrun hflush hstage =>
    exact Or.inl (hnext _ hflush (by simp [hstage]) hf')

/-- The contents change by merging an op, and when a flush ends: what it has
written is then in the hash, or gone with it. -/
theorem Effect.content_or_cleared (he : Effect s st a s' st' out) (hwf : s.WF)
    (hlive : s'.status ≠ .panicked) (id : RoleID) :
    s'.content st' id = setAll (s.content st) (s.merges a) id ∨
      s.merges a = [] ∧ s'.content st' id = st.redis id ∧
        ((s.batch.lookup id).isSome → s.Piped id) := by
  have sameBatch : s'.batch = s.batch →
      s'.content st' id = s.content st id := by
    intro hbatch
    rcases hwf.redis_step he id with heq | ⟨_, heq⟩
    · rw [Saver.content, Saver.content, hbatch, heq]
    · rw [Saver.content, Saver.content, hbatch, heq, Map.union_self_union]
  have hnext : ∀ f : Flush κ ν, s.flush = some f → f.stage ≠ .pipeline →
      (s.nextChunk f).content st id = s.content st id ∨
        (s.nextChunk f).content st id = st.redis id ∧
          ((s.batch.lookup id).isSome → s.Piped id) := by
    intro f hflush hstage
    unfold nextChunk
    split
    · exact Or.inl rfl
    · rename_i hlast
      exact Or.inr ⟨by simp [Saver.content], hwf.piped_of_last hflush hstage hlast⟩
  cases he with
  | @merge op rest batch hrun hread hmerge =>
    left
    obtain ⟨new, hid, hvalues, _, rfl⟩ := merge_some hwf.ids hmerge
    simp only [merges, hread, List.take_succ_cons, List.take_zero, setAll, List.foldl_cons,
      List.foldl_nil, setFields_apply, Saver.content, Batch.fields, Map.lookup_insert_ite]
    by_cases heq : op.id = id
    · subst heq
      simp [hvalues, Batch.fields, Finmap.union_assoc]
    · simp [heq, Ne.symm heq]
  | panic hread hmerge => exact absurd rfl hlive
  | bulkNone hrun hflush hstage hnone | post hrun hflush hstage =>
    exact (hnext _ hflush (by simp [hstage])).imp_right fun h => ⟨rfl, h⟩
  | _ => exact Or.inl (sameBatch rfl)

/-- As long as what the flush has written is still in the hash, the contents
change only by merging an op: flushing, in whole, in part or not at all, leaves
them as they are. -/
theorem Effect.content (he : Effect s st a s' st' out) (hwf : s.WF)
    (hheld : s.Piped id → Map.Holds (st.redis id) (s.batch.fields id))
    (hlive : s'.status ≠ .panicked) :
    s'.content st' id = setAll (s.content st) (s.merges a) id := by
  rcases he.content_or_cleared hwf hlive id with heq | ⟨hnone, heq, hpiped⟩
  · exact heq
  · rw [heq, hnone]
    cases hop : s.batch.lookup id with
    | none => simp [setAll, Saver.content, Batch.fields, hop]
    | some op => exact (Map.holds_iff_union_eq.mp (hheld (hpiped (by simp [hop])))).symm

/-- The batch holds the ops merged since it was last cleared. -/
theorem Effect.fields (he : Effect s st a s' st' out) (hwf : s.WF) (hlive : s'.status ≠ .panicked)
    (hkeep : ¬(s.flush.isSome ∧ s'.flush.isNone ∧ s'.batch.len = 0)) (id : RoleID) :
    s'.batch.fields id = Map.lastWrites (writesOf (s.merges a) id) ∪ s.batch.fields id := by
  have hnext : ∀ f : Flush κ ν, s.flush = some f →
      ¬(s.flush.isSome ∧ (s.nextChunk f).flush.isNone ∧ (s.nextChunk f).batch.len = 0) →
      (s.nextChunk f).batch.fields id = s.batch.fields id := by
    intro f hflush hmore
    unfold nextChunk at hmore ⊢
    split
    · rfl
    · rename_i hlast
      rw [if_neg hlast] at hmore
      exact absurd ⟨by simp [hflush], rfl, by simp [Map.len]⟩ hmore
  cases he with
  | @merge op rest batch hrun hread hmerge =>
    obtain ⟨new, hid, hvalues, _, rfl⟩ := merge_some hwf.ids hmerge
    simp only [merges, hread, List.take_succ_cons, List.take_zero, writesOf_cons, writesOf_nil,
      Batch.fields, Map.lookup_insert_ite]
    by_cases heq : op.id = id
    · subst heq
      simp [hvalues, Batch.fields]
    · simp [heq, Ne.symm heq]
  | panic hread hmerge => exact absurd rfl hlive
  | bulkNone hrun hflush hstage hnone | post hrun hflush hstage =>
    simpa [merges] using hnext _ hflush hkeep
  | _ => simp [merges]

/-- A batch entry was there before the step or has an op of the queue merged
into it. -/
theorem Effect.batch_origin (he : Effect s st a s' st' out) (hwf : s.WF) {new : OpSaveData κ ν}
    (hnew : s'.batch.lookup id = some new) :
    s.batch.lookup id = some new ∨ ∃ op ∈ s.q.waiting, op.id = id ∧
      new.values = op.values ∪ s.batch.fields id := by
  have hnext : ∀ f : Flush κ ν, (s.nextChunk f).batch.lookup id = some new →
      s.batch.lookup id = some new := by
    intro f hf
    rcases s.nextChunk_batch f with heq | heq <;> simp_all
  cases he with
  | @merge op rest batch hrun hread hmerge =>
    obtain ⟨o, _, hvalues, _, rfl⟩ := merge_some hwf.ids hmerge
    rw [Map.lookup_insert_ite] at hnew
    split at hnew
    · rename_i heq
      subst heq
      cases hnew
      exact Or.inr ⟨op, by simp [SwapQueue.waiting, hread], rfl, hvalues⟩
    · exact Or.inl hnew
  | bulkNone | post => exact Or.inl (hnext _ hnew)
  | _ => exact Or.inl hnew

theorem Filled.merge_ne_none (h : s.Filled) (op : OpSaveData κ ν) : merge s.batch op ≠ none := by
  intro hnone
  obtain ⟨_, old, hold, hdata⟩ := (merge_eq_none_iff s.batch op).mp hnone
  exact h.batched op.id old hold (by simp [OpSaveData.values, hdata])

theorem Filled.effect (h : s.Filled) (hwf : s.WF) (he : Effect s st a s' st' out) : s'.Filled where
  queued op hop := h.queued op (by rw [he.waiting]; exact List.mem_append_right _ hop)
  batched id new hnew := by
    rcases he.batch_origin hwf hnew with hold | ⟨op, hop, _, hvalues⟩
    · exact h.batched id new hold
    · rw [hvalues]
      exact fun hempty => h.queued op hop (Map.eq_empty_of_union_eq_empty hempty)

/-- A saver that has been given only ops with fields does not panic. -/
theorem Filled.not_panicked (h : s.Filled) (hlive : s.status ≠ .panicked)
    (he : Effect s st a s' st' out) : s'.status ≠ .panicked := by
  have hnext : ∀ f : Flush κ ν, (s.nextChunk f).status = s.status := by
    intro f
    unfold nextChunk
    split <;> rfl
  cases he with
  | panic hread hmerge => exact absurd hmerge (h.merge_ne_none _)
  | @bulkNone f | @post f => rwa [hnext f]
  | exit => exact SaverStatus.noConfusion
  | _ => exact hlive

/-- A flush that ends without emptying the batch has changed nothing in it. -/
theorem Effect.keeps_of_flush_ends (he : Effect s st a s' st' out) (hflush : s.flush.isSome)
    (hnone : s'.flush.isNone) (hlen : 0 < s'.batch.len) :
    s'.q = s.q ∧ s'.batch = s.batch := by
  obtain ⟨f, hf⟩ := Option.isSome_iff_exists.mp hflush
  have hnext : ∀ f : Flush κ ν, (s.nextChunk f).flush.isNone →
      ¬0 < (s.nextChunk f).batch.len := by
    intro f
    unfold nextChunk
    split <;> simp [Map.len]
  cases he with
  | drain | merge | panic => simp [hf] at hnone
  | bulkNone | post => exact absurd hlen (hnext _ hnone)
  | _ => exact ⟨rfl, rfl⟩

end Saver

end GameCluster
