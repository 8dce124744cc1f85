import GameCluster.Save.Invariant

/-!
`saveBatch` over stores that accept every well-formed command. The one command
that is not well formed is an `HSET` without fields, and the one call that may
not return is the post of `EvtSaveSuccess`, which waits for a place in `m.ops`.
So a call returns nil exactly when every op of the batch has fields and `m.ops`
has a place for each chunk that posts. The steps of a saver compute the same: a
flush none of whose calls fails ends with the batch cleared and the stores as
`saveBatch` leaves them.
-/

namespace GameCluster

open Lib

/-- What keeps `saveBatch` from returning nil. -/
inductive SaveStop where
  /-- The error of an `HSET` that Redis rejects. -/
  | rejected
  /-- `postEvent` waits for a place in `m.ops`. -/
  | blocked
  deriving DecidableEq, Repr

variable {κ ν : Type}

/-- The write models that `saveToDB` makes of a chunk. -/
def chunkModels (batch : List (OpSaveData κ ν)) : List (OpSaveData κ ν) :=
  (batch.filter (·.both)).filter fun op => 0 < op.values.len

/-- The chunks of `saveBatch`, in its order. -/
def chunks (allData : List (OpSaveData κ ν)) : List (List (OpSaveData κ ν)) :=
  (List.range' 0 ((allData.length + (chunkSize - 1)) / chunkSize) chunkSize).map fun i =>
    (allData.drop i).take chunkSize

/-- How many `EvtSaveSuccess` the chunks post. -/
def posts (chunks : List (List (OpSaveData κ ν))) : Nat :=
  chunks.countP fun chunk => !(chunkModels chunk).isEmpty

private theorem posts_cons (chunk : List (OpSaveData κ ν)) (rest : List (List (OpSaveData κ ν))) :
    posts (chunk :: rest) = posts [chunk] + posts rest := by
  simp only [posts, List.countP_cons, List.countP_nil]
  omega

private theorem chunks_from (allData : List (OpSaveData κ ν)) (n i : Nat)
    (hn : n = (allData.length - i + (chunkSize - 1)) / chunkSize) :
    ((List.range' i n chunkSize).map fun i => (allData.drop i).take chunkSize).flatten =
      allData.drop i := by
  induction n generalizing i with
  | zero =>
    have hdone : allData.length ≤ i := by
      simp only [chunkSize] at hn
      omega
    simp [List.drop_of_length_le hdone]
  | succ n ih =>
    rw [List.range'_succ, List.map_cons, List.flatten_cons, ih (i + chunkSize), ← List.drop_drop,
      List.take_append_drop]
    simp only [chunkSize] at hn ⊢
    omega

theorem flatten_chunks (allData : List (OpSaveData κ ν)) : (chunks allData).flatten = allData :=
  chunks_from allData _ 0 rfl

/-- No more events than ops are posted. -/
theorem posts_chunks_le (allData : List (OpSaveData κ ν)) :
    posts (chunks allData) ≤ allData.length := by
  refine List.countP_le_length.trans ?_
  rw [chunks, List.length_map, List.length_range']
  simp only [chunkSize]
  omega

variable {batch : List (OpSaveData κ ν)} {room : Nat}

theorem chunkModels_of_filled (h : ∀ op ∈ batch, op.values ≠ ∅) :
    chunkModels batch = batch.filter (·.both) := by
  rw [chunkModels, List.filter_eq_self]
  intro op hop
  simpa using Nat.pos_of_ne_zero fun hzero =>
    h op (List.mem_of_mem_filter hop) (Map.len_eq_zero.mp hzero)

theorem all_filled_iff (batch : List (OpSaveData κ ν)) :
    (batch.all fun op => 0 < op.values.len) = true ↔ ∀ op ∈ batch, op.values ≠ ∅ := by
  simp [List.all_eq_true, Nat.pos_iff_ne_zero, Map.len_eq_zero]

variable [DecidableEq κ]

/-- `saveChunk` with the `saveToDB` it ends in, while `m.ops` has `room` free
places. -/
def saveChunk (now : Int) (batch : List (OpSaveData κ ν)) (st : Stores κ ν) (room : Nat) :
    Except SaveStop (Stores κ ν × Nat) :=
  if batch.all (fun op => 0 < op.values.len) then
    let st := st.pipe now batch (batch.map (·.id))
    if (chunkModels batch).isEmpty then .ok (st, room)
    else
      match room with
      | 0 => .error .blocked
      | room + 1 => .ok ({ st with mongo := setAll st.mongo (chunkModels batch) }, room)
  else .error .rejected

/-- The loop of `saveBatch`, which ends with the first chunk that fails. -/
def saveChunks (now : Int) :
    List (List (OpSaveData κ ν)) → Stores κ ν → Nat → Except SaveStop (Stores κ ν × Nat)
  | [], st, room => .ok (st, room)
  | chunk :: rest, st, room =>
    match saveChunk now chunk st room with
    | .ok (st, room) => saveChunks now rest st room
    | .error e => .error e

def saveBatch (now : Int) (allData : List (OpSaveData κ ν)) (st : Stores κ ν) (room : Nat) :
    Except SaveStop (Stores κ ν × Nat) :=
  saveChunks now (chunks allData) st room

/-- A chunk whose ops have fields waits for nothing but the place of its event. -/
theorem saveChunk_of_filled (h : ∀ op ∈ batch, op.values ≠ ∅) (now : Int) (st : Stores κ ν)
    (hroom : posts [batch] ≤ room) :
    ∃ expireAt, saveChunk now batch st room =
      .ok (⟨setAll st.redis batch, setAll st.mongo (batch.filter (·.both)), expireAt⟩,
        room - posts [batch]) := by
  have hall := (all_filled_iff batch).mpr h
  refine ⟨(st.pipe now batch (batch.map (·.id))).expireAt, ?_⟩
  rw [← chunkModels_of_filled h, saveChunk, if_pos hall]
  cases hnone : (chunkModels batch).isEmpty with
  | true =>
    rw [List.isEmpty_iff.mp hnone]
    simp [posts, hnone, setAll, Stores.pipe]
  | false =>
    obtain ⟨room, rfl⟩ : ∃ r, room = r + 1 :=
      ⟨room - 1, by simp [posts, hnone] at hroom; omega⟩
    simp [posts, hnone, Stores.pipe]

theorem saveChunk_ok {now : Int} {st st' : Stores κ ν} {room room' : Nat}
    (h : saveChunk now batch st room = .ok (st', room')) :
    (∀ op ∈ batch, op.values ≠ ∅) ∧ posts [batch] ≤ room ∧ room' = room - posts [batch] := by
  unfold saveChunk at h
  split at h
  · rename_i hall
    refine ⟨(all_filled_iff batch).mp hall, ?_⟩
    split at h
    · rename_i hnone
      cases h
      simp [posts, hnone]
    · rename_i hnone
      cases room with
      | zero => cases h
      | succ room =>
        cases h
        simp [posts, hnone]
  · cases h

theorem saveChunks_of_filled (now : Int) (cs : List (List (OpSaveData κ ν)))
    (h : ∀ op ∈ cs.flatten, op.values ≠ ∅) (st : Stores κ ν) (hroom : posts cs ≤ room) :
    ∃ expireAt, saveChunks now cs st room =
      .ok (⟨setAll st.redis cs.flatten, setAll st.mongo (cs.flatten.filter (·.both)), expireAt⟩,
        room - posts cs) := by
  induction cs generalizing st room with
  | nil => exact ⟨st.expireAt, rfl⟩
  | cons chunk rest ih =>
    rw [posts_cons] at hroom
    rw [List.flatten_cons] at h
    have hhead : posts [chunk] ≤ room := by omega
    have htail : posts rest ≤ room - posts [chunk] := by omega
    obtain ⟨ends, hchunk⟩ := saveChunk_of_filled
      (fun op hop => h op (List.mem_append_left _ hop)) now st hhead
    obtain ⟨ends', hrest⟩ := ih (fun op hop => h op (List.mem_append_right _ hop))
      ⟨setAll st.redis chunk, setAll st.mongo (chunk.filter (·.both)), ends⟩ htail
    refine ⟨ends', ?_⟩
    rw [saveChunks, hchunk]
    refine hrest.trans ?_
    rw [List.flatten_cons, List.filter_append, setAll_append, setAll_append,
      posts_cons chunk rest, Nat.sub_sub]

theorem saveChunks_ok (now : Int) (cs : List (List (OpSaveData κ ν))) (st : Stores κ ν)
    (room : Nat) {st' : Stores κ ν} {room' : Nat}
    (h : saveChunks now cs st room = .ok (st', room')) :
    (∀ op ∈ cs.flatten, op.values ≠ ∅) ∧ posts cs ≤ room := by
  induction cs generalizing st room with
  | nil => simp [posts]
  | cons chunk rest ih =>
    rw [saveChunks] at h
    split at h
    · rename_i st₁ room₁ hchunk
      obtain ⟨hfilled, hroom, rfl⟩ := saveChunk_ok hchunk
      obtain ⟨hrest, hposts⟩ := ih st₁ _ h
      refine ⟨fun op hop => ?_, by rw [posts_cons]; omega⟩
      rw [List.flatten_cons, List.mem_append] at hop
      exact hop.elim (hfilled op) (hrest op)
    · cases h

theorem saveBatch_of_filled {allData : List (OpSaveData κ ν)} (h : ∀ op ∈ allData, op.values ≠ ∅)
    (now : Int) (st : Stores κ ν) (hroom : posts (chunks allData) ≤ room) :
    ∃ expireAt, saveBatch now allData st room =
      .ok (⟨setAll st.redis allData, setAll st.mongo (allData.filter (·.both)), expireAt⟩,
        room - posts (chunks allData)) := by
  obtain ⟨ends, hloop⟩ := saveChunks_of_filled now (chunks allData)
    (by rwa [flatten_chunks]) st hroom
  rw [flatten_chunks] at hloop
  exact ⟨ends, hloop⟩

/-- `saveBatch` returns nil exactly when every op has fields and `m.ops` has room
for the events of the call. -/
theorem saveBatch_ok_iff (now : Int) (allData : List (OpSaveData κ ν)) (st : Stores κ ν)
    (room : Nat) :
    (∃ st' room', saveBatch now allData st room = .ok (st', room')) ↔
      (∀ op ∈ allData, op.values ≠ ∅) ∧ posts (chunks allData) ≤ room := by
  constructor
  · rintro ⟨st', room', hok⟩
    have hloop := saveChunks_ok now (chunks allData) st room hok
    rwa [flatten_chunks] at hloop
  · rintro ⟨hfilled, hroom⟩
    obtain ⟨ends, hok⟩ := saveBatch_of_filled hfilled now st hroom
    exact ⟨_, _, hok⟩

namespace Saver

/-- A list of steps of a saver on its own while `m.ops` has `room` free places.
An event it posts takes one of them, and without one the post does not return. -/
def steps (s : Saver κ ν) (now : Int) (st : Stores κ ν) (room : Nat) :
    List SaverAct → Option (Saver κ ν × Stores κ ν × Nat)
  | [] => some (s, st, room)
  | a :: rest =>
    match s.step now st a, room with
    | some (s', st', none), room => steps s' now st' room rest
    | some (s', st', some _), room + 1 => steps s' now st' room rest
    | _, _ => none

variable {s : Saver κ ν} {now : Int} {st st' : Stores κ ν} {room room' : Nat}

theorem steps_append {s s' : Saver κ ν} {first : List SaverAct}
    (h : s.steps now st room first = some (s', st', room')) (second : List SaverAct) :
    s.steps now st room (first ++ second) = s'.steps now st' room' second := by
  induction first generalizing s st room with
  | nil =>
    cases h
    rfl
  | cons a rest ih =>
    cases hstep : s.step now st a with
    | none => simp [steps, hstep] at h
    | some next =>
      obtain ⟨s₁, st₁, out⟩ := next
      cases out with
      | none =>
        simp only [List.cons_append, steps, hstep] at h ⊢
        exact ih h
      | some ids =>
        cases room with
        | zero => simp [steps, hstep] at h
        | succ room =>
          simp only [List.cons_append, steps, hstep] at h ⊢
          exact ih h

/-- The steps of one chunk whose calls succeed do what `saveChunk` does. -/
theorem chunk_steps {f : Flush κ ν} (hrun : s.status = .running) (hflush : s.flush = some f)
    (hstage : f.stage = .pipeline) (hsave : saveChunk now f.chunk st room = .ok (st', room')) :
    ∃ acts, s.steps now st room acts = some (s.nextChunk f, st', room') := by
  obtain ⟨allData, i, stage⟩ := f
  subst hstage
  have hmodels : Flush.models (⟨allData, i, .bulkWrite⟩ : Flush κ ν) =
      chunkModels (Flush.chunk ⟨allData, i, .pipeline⟩) := rfl
  unfold saveChunk at hsave
  split at hsave
  · rename_i hall
    split at hsave
    · rename_i hnone
      cases hsave
      refine ⟨[.execPipe true [] [], .saveToDB true []], ?_⟩
      simp [steps, step, execPipe, saveToDB, hrun, hflush, hall, hmodels, hnone, nextChunk]
    · rename_i hnone
      cases room with
      | zero => cases hsave
      | succ room =>
        cases hsave
        refine ⟨[.execPipe true [] [], .saveToDB true [], .postSuccess], ?_⟩
        simp [steps, step, execPipe, saveToDB, postSuccess, hrun, hflush, hall, hmodels, hnone,
          nextChunk]
  · cases hsave

/-- A flush from index `i` on, when no call fails. -/
private theorem loop_steps {s : Saver κ ν} {now : Int} (hrun : s.status = .running)
    (allData : List (OpSaveData κ ν)) {st' : Stores κ ν} {room' : Nat} (n i : Nat)
    (st : Stores κ ν) (room : Nat)
    (hn : n + 1 = (allData.length - i + (chunkSize - 1)) / chunkSize)
    (hsave : saveChunks now ((List.range' i (n + 1) chunkSize).map fun i =>
        (allData.drop i).take chunkSize) st room = .ok (st', room')) :
    ∃ acts, Saver.steps { s with flush := some ⟨allData, i, .pipeline⟩ } now st room acts =
      some ({ s with flush := none, batch := ∅ }, st', room') := by
  induction n generalizing i st room with
  | zero =>
    rw [List.range'_succ, List.map_cons, saveChunks] at hsave
    split at hsave
    · rename_i st₁ room₁ hchunk
      cases hsave
      obtain ⟨acts, hacts⟩ := chunk_steps
        (s := { s with flush := some ⟨allData, i, .pipeline⟩ }) hrun rfl rfl hchunk
      have hlast : ¬i + chunkSize < allData.length := by
        simp only [chunkSize] at hn ⊢
        omega
      rw [nextChunk, if_neg hlast] at hacts
      exact ⟨acts, hacts⟩
    · cases hsave
  | succ n ih =>
    rw [List.range'_succ, List.map_cons, saveChunks] at hsave
    split at hsave
    · rename_i st₁ room₁ hchunk
      obtain ⟨first, hfirst⟩ := chunk_steps
        (s := { s with flush := some ⟨allData, i, .pipeline⟩ }) hrun rfl rfl hchunk
      have hmore : i + chunkSize < allData.length := by
        simp only [chunkSize] at hn ⊢
        omega
      rw [nextChunk, if_pos hmore] at hfirst
      obtain ⟨second, hsecond⟩ := ih (i + chunkSize) st₁ room₁
        (by simp only [chunkSize] at hn ⊢; omega) hsave
      exact ⟨first ++ second, (steps_append hfirst second).trans hsecond⟩
    · cases hsave

/-- When `saveBatch` returns nil, the saver gets through its flush, to the same
stores and an empty batch. -/
theorem flush_steps {order : List RoleID} (hidle : s.Idle) (hlen : 0 < s.batch.len)
    (horder : Map.Enumerates order s.batch)
    (hsave : saveBatch now (order.filterMap s.batch.lookup) st room = .ok (st', room')) :
    ∃ acts, s.steps now st room (.beginFlush order :: acts) =
      some ({ s with flush := none, batch := ∅ }, st', room') := by
  have hbegin : s.step now st (.beginFlush order) =
      some ({ s with flush := some ⟨order.filterMap s.batch.lookup, 0, .pipeline⟩ }, st,
        none) := by
    simp [step, beginFlush, hidle, hlen, horder]
  have hcount : 0 < (order.filterMap s.batch.lookup).length := by
    obtain ⟨id, hid⟩ := Finset.card_pos.mp hlen
    obtain ⟨op, hop⟩ := Finmap.mem_iff.mp (Finmap.mem_keys.mp hid)
    refine List.length_pos_of_mem (a := op) (List.mem_filterMap.mpr ⟨id, ?_, hop⟩)
    exact (horder.mem_iff id).mpr (by simp [hop])
  obtain ⟨n, hn⟩ : ∃ n, n + 1 =
      ((order.filterMap s.batch.lookup).length + (chunkSize - 1)) / chunkSize := by
    simp only [chunkSize]
    exact ⟨_, Nat.sub_add_cancel (by omega)⟩
  rw [saveBatch, chunks, ← hn] at hsave
  obtain ⟨acts, hacts⟩ := loop_steps hidle.1 _ n 0 st room hn hsave
  refine ⟨acts, ?_⟩
  simp only [steps, hbegin]
  exact hacts

/-- A slice of a batch has one op for each role, so writing it leaves each
role's fields in its hash. -/
theorem holds_setAll_slice {batch : Batch κ ν} {ops : List (OpSaveData κ ν)}
    (hops : ∀ op ∈ ops, batch.lookup op.id = some op) {op : OpSaveData κ ν} (hop : op ∈ ops)
    (store : RoleID → Map κ ν) : Map.Holds (setAll store ops op.id) op.values := by
  have hagree : ∀ o ∈ ops, o.id = op.id → o.values = op.values := by
    intro o ho hid
    have hlookup := hops o ho
    rw [hid, hops op hop, Option.some.injEq] at hlookup
    rw [hlookup]
  rw [setAll_of_agree store ops op.id op.values hagree, if_pos ⟨op, hop, rfl⟩]
  exact Map.holds_union _ _

/-- A batch whose ops have fields is saved if there is room for the events. -/
theorem Filled.saves (h : s.Filled) (hwf : s.WF) {order : List RoleID}
    (horder : Map.Enumerates order s.batch) (now : Int) (st : Stores κ ν)
    (hroom : posts (chunks (order.filterMap s.batch.lookup)) ≤ room) :
    ∃ st' room', saveBatch now (order.filterMap s.batch.lookup) st room = .ok (st', room') ∧
      ∀ id op, s.batch.lookup id = some op → Map.Holds (st'.redis id) op.values ∧
        (op.both = true → Map.Holds (st'.mongo id) op.values) := by
  have hmem := mem_allData_of_enumerates hwf.ids horder
  have hfilled : ∀ op ∈ order.filterMap s.batch.lookup, op.values ≠ ∅ := fun op hop =>
    h.batched op.id op ((hmem op).mp hop)
  obtain ⟨ends, hsave⟩ := saveBatch_of_filled hfilled now st hroom
  refine ⟨_, _, hsave, ?_⟩
  intro id op hlookup
  obtain rfl := hwf.ids id op hlookup
  have hop := (hmem op).mpr hlookup
  refine ⟨holds_setAll_slice (fun o ho => (hmem o).mp ho) hop st.redis, fun hboth => ?_⟩
  exact holds_setAll_slice (fun o ho => (hmem o).mp (List.mem_of_mem_filter ho))
    (List.mem_filter.mpr ⟨hop, hboth⟩) st.mongo

end Saver

end GameCluster
