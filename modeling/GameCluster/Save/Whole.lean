import GameCluster.Save.Invariant

/-!
Savers over stores that can lose a hash. Redis drops a role's hash when its
key expires, and from then on a save writes into an empty hash. A hash is whole
if it has some required fields and every field of the role's document; it stays
whole as long as the ops that are written into an empty hash are themselves
whole.
-/

namespace GameCluster

open Lib

variable {κ ν : Type}

namespace Saver

/-- Every op in the saver satisfies `P`. -/
structure Every (P : Map κ ν → Prop) (s : Saver κ ν) : Prop where
  queued : ∀ op ∈ s.q.waiting, P op.values
  batched : ∀ id, P (s.batch.fields id)

theorem Every.push {P : Map κ ν → Prop} {s : Saver κ ν} (h : s.Every P) {op : OpSaveData κ ν}
    (hop : P op.values) :
    Every P { s with q := (s.q.push op).1 } where
  queued o ho := by
    rw [SwapQueue.push_waiting] at ho
    split at ho
    · rcases List.mem_append.mp ho with hold | hnew
      · exact h.queued o hold
      · rw [List.mem_singleton.mp hnew]
        exact hop
    · exact h.queued o ho
  batched := h.batched

end Saver

variable [DecidableEq κ]

/-- A hash that exists has the required fields and those of the document. -/
def Whole (required : Finset κ) (st : Stores κ ν) : Prop :=
  ∀ id, st.redis id ≠ ∅ → required ∪ (st.mongo id).keys ⊆ (st.redis id).keys

namespace Saver

/-- The ops whose `HSET` a step applies. -/
def piping (s : Saver κ ν) : SaverAct → List (OpSaveData κ ν)
  | .execPipe ok applied _ =>
    match s.flush with
    | some f => if ok then f.chunk else f.chunk.filter (·.id ∈ applied)
    | none => []
  | _ => []

end Saver

section

variable {required : Finset κ} {s s' : Saver κ ν} {st st' : Stores κ ν} {a : SaverAct}
  {out : Option (List RoleID)}

/-- Writing whole ops into the empty hashes among those written keeps every
hash whole. -/
private theorem Whole.pipe {f : Flush κ ν} (h : Whole required st) (hwf : s.WF)
    (hflush : s.flush = some f) {ops : List (OpSaveData κ ν)} (hops : ∀ op ∈ ops, op ∈ f.allData)
    (hnew : ∀ op ∈ ops, st.redis op.id = ∅ →
      required ∪ (st.mongo op.id).keys ⊆ op.values.keys) (expireAt : RoleID → Option Int) :
    Whole required { st with redis := setAll st.redis ops, expireAt } := by
  intro id hne
  change setAll st.redis ops id ≠ ∅ at hne
  change required ∪ (st.mongo id).keys ⊆ (setAll st.redis ops id).keys
  rcases hwf.setAll_flush hflush hops st.redis id with heq | ⟨⟨op, hop, hlookup⟩, heq⟩
  · rw [heq] at hne ⊢
    exact h id hne
  · obtain rfl := hwf.ids id op hlookup
    rw [heq, Finmap.keys_union, Batch.fields_of_lookup hlookup]
    by_cases hempty : st.redis op.id = ∅
    · exact (hnew op hop hempty).trans Finset.subset_union_left
    · exact (h op.id hempty).trans Finset.subset_union_right

private theorem Whole.bulk {f : Flush κ ν} (h : Whole required st) (hwf : s.WF)
    (hwritten : s.Written st) (hflush : s.flush = some f) (hstage : f.stage = .bulkWrite)
    {ops : List (OpSaveData κ ν)} (hops : ∀ op ∈ ops, op ∈ f.chunk) :
    Whole required { st with mongo := setAll st.mongo ops } := by
  intro id hne
  change required ∪ (setAll st.mongo ops id).keys ⊆ (st.redis id).keys
  rcases hwf.setAll_flush hflush (fun op hop => Saver.mem_chunk (hops op hop)) st.mongo id with
    heq | ⟨⟨op, hop, hlookup⟩, heq⟩
  · rw [heq]
    exact h id hne
  · obtain rfl := hwf.ids id op hlookup
    have htake : op ∈ f.allData.take f.piped := by
      rw [Saver.piped_of_stage (by simp [hstage]), Saver.take_add_chunkSize]
      exact List.mem_append_right _ (hops op hop)
    have hsub := ((hwritten.redis f hflush op htake).resolve_left hne).keys_subset
    have hold := h op.id hne
    rw [heq, Finmap.keys_union, Batch.fields_of_lookup hlookup]
    intro c hc
    simp only [Finset.mem_union] at hc
    rcases hc with hreq | hop | hmongo
    · exact hold (Finset.mem_union_left _ hreq)
    · exact hsub hop
    · exact hold (Finset.mem_union_right _ hmongo)

/-- A saver step keeps every hash whole if what it writes into an empty hash
is whole. -/
theorem Whole.effect (h : Whole required st) (hwf : s.WF) (hwritten : s.Written st)
    (he : Saver.Effect s st a s' st' out)
    (hnew : ∀ op ∈ s.piping a, st.redis op.id = ∅ →
      required ∪ (st.mongo op.id).keys ⊆ op.values.keys) : Whole required st' := by
  cases he with
  | pipeOk hrun hflush hstage hfields =>
    rw [Saver.piping, hflush] at hnew
    exact h.pipe hwf hflush (fun _ => Saver.mem_chunk) hnew _
  | pipeFail hrun hflush hstage =>
    rw [Saver.piping, hflush] at hnew
    exact h.pipe hwf hflush (fun _ hop => Saver.mem_chunk (List.mem_of_mem_filter hop)) hnew _
  | bulkOk hrun hflush hstage =>
    exact h.bulk hwf hwritten hflush hstage fun _ hop => (Saver.mem_models hop).1
  | bulkFail hrun hflush hstage =>
    exact h.bulk hwf hwritten hflush hstage fun _ hop =>
      (Saver.mem_models (List.mem_of_mem_filter hop)).1
  | _ => exact h

theorem Whole.drop (h : Whole required st) (id : RoleID) : Whole required (st.drop id) := by
  intro x hne
  rcases st.drop_redis id x with heq | heq
  · rw [heq] at hne ⊢
    exact h x hne
  · exact absurd heq hne

/-- No saver step removes a field from a store. -/
theorem Saver.WF.fields_mono (hwf : s.WF) (he : Saver.Effect s st a s' st' out) (id : RoleID) :
    (st.redis id).keys ⊆ (st'.redis id).keys ∧ (st.mongo id).keys ⊆ (st'.mongo id).keys := by
  constructor
  · rcases hwf.redis_step he id with heq | ⟨_, heq⟩
    · rw [heq]
    · rw [heq, Finmap.keys_union]
      exact Finset.subset_union_right
  · rcases hwf.mongo_step he id with heq | ⟨_, heq⟩
    · rw [heq]
    · rw [heq, Finmap.keys_union]
      exact Finset.subset_union_right

end

namespace Saver

variable {P : Map κ ν → Prop} {s s' : Saver κ ν} {st st' : Stores κ ν} {a : SaverAct}
  {out : Option (List RoleID)}

theorem Every.effect (h : s.Every P) (hwf : s.WF) (hempty : P ∅)
    (hunion : ∀ new old, P new → P old → P (new ∪ old)) (he : Effect s st a s' st' out) :
    s'.Every P where
  queued op hop := h.queued op (by rw [he.waiting]; exact List.mem_append_right _ hop)
  batched id := by
    cases hnew : s'.batch.lookup id with
    | none =>
      rw [Batch.fields, hnew]
      exact hempty
    | some new =>
      rw [Batch.fields_of_lookup hnew]
      rcases he.batch_origin hwf hnew with hold | ⟨op, hop, rfl, hvalues⟩
      · rw [← Batch.fields_of_lookup hold]
        exact h.batched id
      · rw [hvalues]
        exact hunion _ _ (h.queued op hop) (h.batched op.id)

end Saver

end GameCluster
