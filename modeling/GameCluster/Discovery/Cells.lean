import GameCluster.Discovery.Nodes

/-!
The node group as it is in memory (`pkg/discovery/node.go`). The map holds pointers:
`Add` makes a new `nodeMeta`, a copy of the map shares the ones it takes over, and
`UpdateLoad` writes to the one that the map points to. Every `nodeMeta` made so far
is in `metas`, and a pointer is its place there.

A group in memory is looked at as a `NodeGroup`, whose map holds the loads
themselves, and each operation does to the one what it does to the other.
-/

namespace GameCluster.Discovery

open Lib

/-- `nodeMeta`. -/
structure Meta where
  nodeID : Int32
  load : Int32

/-- `nodeGroupState`, with the memory that its pointers lead to. -/
structure Cells where
  metas : List Meta
  nodes : Map Int32 ℕ
  nodeIDs : List Int32
  listed : Map.Enumerates nodeIDs nodes
  pointed : ∀ id p, nodes.lookup id = some p → ∃ m, metas[p]? = some m ∧ m.nodeID = id

/-- The order in which a map of pointers is ranged over. -/
abbrev CellIter := (nodes : Map Int32 ℕ) → { order : List Int32 // Map.Enumerates order nodes }

namespace Cells

/-- `newNodeGroup`. -/
def new : Cells where
  metas := []
  nodes := ∅
  nodeIDs := []
  listed := ⟨List.nodup_nil, rfl⟩
  pointed := nofun

section Code

variable (iter : CellIter)

def add (c : Cells) (msg : Node) : Cells where
  metas := c.metas ++ [⟨msg.nodeID, msg.load⟩]
  nodes := c.nodes.insert msg.nodeID c.metas.length
  nodeIDs := (iter (c.nodes.insert msg.nodeID c.metas.length)).1
  listed := (iter (c.nodes.insert msg.nodeID c.metas.length)).2
  pointed := by
    intro id p hp
    rw [Map.lookup_insert_ite] at hp
    split at hp
    · rename_i hid
      obtain rfl := Option.some.inj hp
      exact ⟨⟨msg.nodeID, msg.load⟩, by simp, hid.symm⟩
    · obtain ⟨m, hm, hid⟩ := c.pointed id p hp
      refine ⟨m, ?_, hid⟩
      rw [List.getElem?_append_left (lt_length_of_some hm), hm]

/-- The group without the node, and whether it is empty. -/
def delete (c : Cells) (nodeID : Int32) : Cells × Bool :=
  match c.nodes.lookup nodeID with
  | none => (c, Map.len c.nodes = 0)
  | some _ =>
    let newNodes : Map Int32 ℕ := c.nodes.erase nodeID
    ({ metas := c.metas
       nodes := newNodes
       nodeIDs := (iter newNodes).1
       listed := (iter newNodes).2
       pointed := by
         intro id p hp
         rw [Map.lookup_erase_ite] at hp
         split at hp
         · cases hp
         · exact c.pointed id p hp }, Map.len newNodes = 0)

end Code

def updateLoad (c : Cells) (nodeID load : Int32) : Cells :=
  match c.nodes.lookup nodeID with
  | none => c
  | some q =>
    { c with
      metas := c.metas.modify q fun m => { m with load }
      pointed := by
        intro id p hp
        obtain ⟨m, hm, hid⟩ := c.pointed id p hp
        rw [List.getElem?_modify, hm]
        split
        · exact ⟨_, rfl, hid⟩
        · exact ⟨m, rfl, hid⟩ }

/-- The `nodeMeta` that the map has for an ID. -/
def meta? (c : Cells) (id : Int32) : Option Meta := (c.nodes.lookup id).bind (c.metas[·]?)

def getLoad (c : Cells) (id : Int32) : Option Int32 := (c.meta? id).map (·.load)

/-- `SelectNode`, with the two random numbers. `none` is a panic: an index out of
range or a nil pointer. -/
def selectNode (c : Cells) (i j : ℕ) : Option (Option Int32) :=
  if c.nodeIDs.length = 0 then some none
  else if c.nodeIDs.length = 1 then c.nodeIDs[0]?.map some
  else do
    let id₁ ← c.nodeIDs[i]?
    let id₂ ← c.nodeIDs[if j ≥ i then j + 1 else j]?
    let node₁ ← c.meta? id₁
    let node₂ ← c.meta? id₂
    if node₁.load ≤ node₂.load then some (some node₁.nodeID) else some (some node₂.nodeID)

/-- What the group is to those who use it. -/
def view (c : Cells) : NodeGroup where
  nodes := Map.tabulate c.nodeIDs fun id => (c.getLoad id).getD 0
  nodeIDs := c.nodeIDs
  listed := Map.enumerates_tabulate c.listed.1 _

section Loads

variable (iter : CellIter) (c : Cells)

theorem meta?_eq_some {id : Int32} {m : Meta} (h : c.meta? id = some m) : m.nodeID = id := by
  obtain ⟨p, hp, hm⟩ := Option.bind_eq_some_iff.mp h
  obtain ⟨m', hm', hid⟩ := c.pointed id p hp
  obtain rfl : m = m' := Option.some.inj (hm.symm.trans hm')
  exact hid

theorem isSome_meta? (id : Int32) : (c.meta? id).isSome = (c.nodes.lookup id).isSome := by
  unfold meta?
  cases hp : c.nodes.lookup id with
  | none => rfl
  | some p =>
    obtain ⟨m, hm, -⟩ := c.pointed id p hp
    simp [hm]

theorem mem_nodeIDs (id : Int32) : id ∈ c.nodeIDs ↔ (c.getLoad id).isSome := by
  rw [getLoad, Option.isSome_map, isSome_meta?]
  exact c.listed.mem_iff id

theorem getLoad_new (id : Int32) : new.getLoad id = none := by rfl

theorem getLoad_add (msg : Node) (id : Int32) :
    (c.add iter msg).getLoad id = if id = msg.nodeID then some msg.load else c.getLoad id := by
  simp only [getLoad, meta?, add, Map.lookup_insert_ite]
  split
  · simp
  · cases hp : c.nodes.lookup id with
    | none => rfl
    | some p =>
      obtain ⟨m, hm, -⟩ := c.pointed id p hp
      simp [List.getElem?_append_left (lt_length_of_some hm)]

theorem getLoad_delete (nodeID id : Int32) :
    (c.delete iter nodeID).1.getLoad id = if id = nodeID then none else c.getLoad id := by
  unfold delete
  split
  · rename_i hnone
    split
    · rename_i hid
      rw [hid, getLoad, meta?, hnone]
      rfl
    · rfl
  · simp only [getLoad, meta?, Map.lookup_erase_ite]
    split <;> rfl

/-- A `nodeMeta` belongs to one node, so that no other load changes. -/
theorem getLoad_updateLoad (nodeID load id : Int32) :
    (c.updateLoad nodeID load).getLoad id =
      (c.getLoad id).map fun old => if id = nodeID then load else old := by
  unfold updateLoad
  split
  · rename_i hnone
    by_cases hid : id = nodeID
    · rw [hid, getLoad, meta?, hnone]
      rfl
    · simp [hid]
  · rename_i q hq
    simp only [getLoad, meta?]
    cases hp : c.nodes.lookup id with
    | none => rfl
    | some p =>
      obtain ⟨m, hm, hid⟩ := c.pointed id p hp
      obtain ⟨m', hm', hid'⟩ := c.pointed nodeID q hq
      simp only [Option.bind_some, List.getElem?_modify, hm]
      by_cases hpq : q = p
      · subst hpq
        obtain rfl : m = m' := Option.some.inj (hm.symm.trans hm')
        simp [← hid, hid']
      · have hne : id ≠ nodeID := by
          rintro rfl
          exact hpq (Option.some.inj (hq.symm.trans hp))
        simp [hpq, hne]

theorem len_nodes : Map.len c.nodes = c.nodeIDs.length := by
  rw [Map.len, ← c.listed.2, List.toFinset_card_of_nodup c.listed.1]

theorem delete_iff (nodeID : Int32) :
    (c.delete iter nodeID).2 = true ↔ (c.delete iter nodeID).1.nodeIDs = [] := by
  have hlen : (c.delete iter nodeID).2 =
      decide (Map.len (c.delete iter nodeID).1.nodes = 0) := by
    unfold delete
    split <;> rfl
  rw [hlen, decide_eq_true_iff, len_nodes, List.length_eq_zero_iff]

end Loads

section View

variable (c : Cells)

@[simp] theorem lookup_view (id : Int32) : c.view.nodes.lookup id = c.getLoad id := by
  rw [view, Map.lookup_tabulate]
  split
  · rename_i hmem
    obtain ⟨load, hload⟩ := Option.isSome_iff_exists.mp ((c.mem_nodeIDs id).mp hmem)
    rw [hload, Option.getD_some]
  · rename_i hmem
    rw [mem_nodeIDs, Option.not_isSome_iff_eq_none] at hmem
    exact hmem.symm

theorem exists_meta {k : ℕ} (hk : k < c.nodeIDs.length) :
    ∃ id m, c.nodeIDs[k]? = some id ∧ c.meta? id = some m ∧ m.nodeID = id ∧
      c.view.nodes.lookup id = some m.load := by
  have hmem := (c.mem_nodeIDs c.nodeIDs[k]).mp (List.getElem_mem hk)
  rw [getLoad, Option.isSome_map] at hmem
  obtain ⟨m, hm⟩ := Option.isSome_iff_exists.mp hmem
  refine ⟨_, m, List.getElem?_eq_getElem hk, hm, c.meta?_eq_some hm, ?_⟩
  rw [lookup_view, getLoad, hm]
  rfl

/-- With numbers as `rand.IntN` draws them there is no panic, and the answer is that of
the view. -/
theorem selectNode_view {i j : ℕ}
    (hdraw : 2 ≤ c.nodeIDs.length → i < c.nodeIDs.length ∧ j < c.nodeIDs.length - 1) :
    c.selectNode i j = some (c.view.selectNode i j) ∧
      (c.view.selectNode i j = none ↔ c.nodeIDs = []) := by
  have hids : c.view.nodeIDs = c.nodeIDs := rfl
  unfold selectNode NodeGroup.selectNode
  rw [hids]
  by_cases hzero : c.nodeIDs.length = 0
  · rw [if_pos hzero, if_pos hzero]
    exact ⟨rfl, fun _ => List.length_eq_zero_iff.mp hzero, fun _ => rfl⟩
  · have hne : c.nodeIDs ≠ [] := mt List.length_eq_zero_iff.mpr hzero
    rw [if_neg hzero, if_neg hzero]
    by_cases hone : c.nodeIDs.length = 1
    · obtain ⟨id, hid⟩ := List.length_eq_one_iff.mp hone
      rw [if_pos hone, if_pos hone, hid]
      simp
    · obtain ⟨hi, hj⟩ := hdraw (by omega)
      have hk : (if j ≥ i then j + 1 else j) < c.nodeIDs.length := by
        split <;> omega
      obtain ⟨id₁, m₁, hid₁, hm₁, rfl, hload₁⟩ := c.exists_meta hi
      obtain ⟨id₂, m₂, hid₂, hm₂, rfl, hload₂⟩ := c.exists_meta hk
      rw [if_neg hone, if_neg hone, hid₁, hid₂]
      simp only [Option.bind_eq_bind, Option.bind_some, hm₁, hm₂, hload₁, hload₂]
      split <;> simp [hne]

end View

/-- One call that changes the group. -/
inductive Op where
  | add (msg : Node)
  | delete (nodeID : Int32)
  | updateLoad (nodeID load : Int32)

/-- The group after one call, in which maps are ranged over as `iter` says. -/
def apply (c : Cells) (iter : CellIter) : Op → Cells
  | .add msg => c.add iter msg
  | .delete nodeID => (c.delete iter nodeID).1
  | .updateLoad nodeID load => c.updateLoad nodeID load

/-- The group after some calls, each with its own order. -/
def run (calls : List (CellIter × Op)) : Cells :=
  calls.foldl (fun c call => c.apply call.1 call.2) new

theorem run_concat (calls : List (CellIter × Op)) (call : CellIter × Op) :
    run (calls ++ [call]) = (run calls).apply call.1 call.2 := by
  rw [run, List.foldl_concat, run]

namespace Op

/-- The call adds the node or takes it away. -/
def Replaces (id : Int32) : Op → Prop
  | .add msg => msg.nodeID = id
  | .delete nodeID => nodeID = id
  | .updateLoad _ _ => False

/-- The load that the call gives to a node that is there. -/
def setsLoad (id : Int32) : Op → Option Int32
  | .updateLoad nodeID load => if nodeID = id then some load else none
  | _ => none

/-- The load of the latest `Add` or `UpdateLoad` of the node since it was last added,
and there is none if it has been deleted after that. -/
def Latest (ops : List Op) (id load : Int32) : Prop :=
  ∃ before msg after, ops = before ++ .add msg :: after ∧ msg.nodeID = id ∧
    (∀ op ∈ after, ¬op.Replaces id) ∧ load = (after.filterMap (setsLoad id)).getLastD msg.load

theorem latest_concat {ops : List Op} {op : Op} {id load : Int32} :
    Latest (ops ++ [op]) id load ↔
      (∃ msg, op = .add msg ∧ msg.nodeID = id ∧ load = msg.load) ∨
        ¬op.Replaces id ∧ ∃ old, Latest ops id old ∧ load = (op.setsLoad id).getD old := by
  constructor
  · rintro ⟨before, msg, after, hops, hid, hafter, rfl⟩
    rcases List.eq_nil_or_concat' after with rfl | ⟨after, op', rfl⟩
    · obtain ⟨-, hop⟩ := List.append_inj' hops rfl
      exact Or.inl ⟨msg, (List.cons.inj hop).1, hid, rfl⟩
    · have hsplit : ops ++ [op] = (before ++ .add msg :: after) ++ [op'] := by simpa using hops
      obtain ⟨rfl, hop⟩ := List.append_inj' hsplit rfl
      obtain rfl : op = op' := (List.cons.inj hop).1
      refine Or.inr ⟨hafter op (by simp), _, ⟨before, msg, after, rfl, hid, ?_, rfl⟩, ?_⟩
      · exact fun op' hop' => hafter op' (List.mem_append_left _ hop')
      · cases hset : op.setsLoad id <;> simp [hset]
  · rintro (⟨msg, rfl, hid, rfl⟩ | ⟨hop, old, ⟨before, msg, after, rfl, hid, hafter, rfl⟩, rfl⟩)
    · exact ⟨ops, msg, [], rfl, hid, by simp, rfl⟩
    · refine ⟨before, msg, after ++ [op], by simp, hid, ?_, ?_⟩
      · intro op' hop'
        rcases List.mem_append.mp hop' with hop' | hop'
        · exact hafter op' hop'
        · exact List.mem_singleton.mp hop' ▸ hop
      · cases hset : op.setsLoad id <;> simp [hset]

end Op

section Runs

theorem getLoad_apply (c : Cells) (iter : CellIter) (op : Op) (id load : Int32) :
    (c.apply iter op).getLoad id = some load ↔
      (∃ msg, op = .add msg ∧ msg.nodeID = id ∧ load = msg.load) ∨
        ¬op.Replaces id ∧ ∃ old, c.getLoad id = some old ∧ load = (op.setsLoad id).getD old := by
  cases op with
  | add msg =>
    rw [apply, getLoad_add]
    by_cases hid : id = msg.nodeID
    · simp [hid, Op.Replaces, eq_comm]
    · simp [hid, Ne.symm hid, Op.Replaces, Op.setsLoad]
  | delete nodeID =>
    rw [apply, getLoad_delete]
    by_cases hid : id = nodeID
    · simp [hid, Op.Replaces]
    · simp [hid, Ne.symm hid, Op.Replaces, Op.setsLoad]
  | updateLoad nodeID new =>
    rw [apply, getLoad_updateLoad, Option.map_eq_some_iff]
    by_cases hid : id = nodeID
    · simp [hid, Op.Replaces, Op.setsLoad, eq_comm]
    · simp [hid, Ne.symm hid, Op.Replaces, Op.setsLoad, eq_comm]

theorem getLoad_run (calls : List (CellIter × Op)) (id load : Int32) :
    (run calls).getLoad id = some load ↔ Op.Latest (calls.map (·.2)) id load := by
  induction calls using List.reverseRecOn generalizing load with
  | nil =>
    refine ⟨nofun, ?_⟩
    rintro ⟨before, msg, after, hops, -⟩
    cases before <;> cases hops
  | append_singleton calls call ih =>
    rw [run_concat, getLoad_apply, List.map_append, List.map_cons, List.map_nil, Op.latest_concat]
    simp only [ih]

/-- After any calls the list holds the keys of the map, each once, the loads are the
latest ones, `Delete` says whether no node is left, and for any two random numbers in
range `SelectNode` finds a node unless there is none. With two nodes or more there is
another one whose load is not below that of its answer. -/
theorem nodeGroup_run (calls : List (CellIter × Op)) :
    (run calls).nodeIDs.Nodup ∧
    (∀ id, id ∈ (run calls).nodeIDs ↔ id ∈ (run calls).nodes) ∧
    (∀ id load, (run calls).getLoad id = some load ↔ Op.Latest (calls.map (·.2)) id load) ∧
    (∀ iter nodeID, ((run calls).delete iter nodeID).2 = true ↔
      ((run calls).delete iter nodeID).1.nodeIDs = []) ∧
    ∀ i j : ℕ, (2 ≤ (run calls).nodeIDs.length →
        i < (run calls).nodeIDs.length ∧ j < (run calls).nodeIDs.length - 1) →
      ∃ answer, (run calls).selectNode i j = some answer ∧
        (answer = none ↔ (run calls).nodeIDs = []) ∧
        ∀ id, answer = some id → ∃ load, (run calls).getLoad id = some load ∧
          (2 ≤ (run calls).nodeIDs.length → ∃ id' load', id' ≠ id ∧
            (run calls).getLoad id' = some load' ∧ load ≤ load') := by
  generalize hc : run calls = c
  refine ⟨c.listed.1, ?_, ?_, fun iter => c.delete_iff iter, ?_⟩
  · intro id
    rw [c.listed.mem_iff, Finmap.lookup_isSome]
  · intro id load
    rw [← hc]
    exact getLoad_run calls id load
  · intro i j hdraw
    obtain ⟨hselect, hnone⟩ := c.selectNode_view hdraw
    refine ⟨_, hselect, hnone, ?_⟩
    intro id hid
    obtain ⟨load, hload, hother⟩ := (c.view.selectNode_iff id).mp ⟨i, j, hid⟩
    rw [lookup_view] at hload
    refine ⟨load, hload, fun htwo => ?_⟩
    rcases hother with halone | ⟨id', load', hne, hload', hle⟩
    · have hle : c.nodeIDs.length ≤ 1 := c.view.length_le_one halone
      omega
    · exact ⟨id', load', hne, (c.lookup_view id').symm.trans hload', hle⟩

noncomputable def anyOrder : CellIter := fun nodes =>
  ⟨nodes.keys.toList, nodes.keys.nodup_toList, nodes.keys.toList_toFinset⟩

/-- Three nodes, of which node 1 has the highest load. -/
noncomputable def threeNodes : List (CellIter × Op) :=
  [(anyOrder, .add ⟨"game", 1, 20⟩), (anyOrder, .add ⟨"game", 2, 50⟩),
    (anyOrder, .add ⟨"game", 3, 10⟩), (anyOrder, .updateLoad 1 100)]

theorem highest_not_selected :
    ∃ answer, (run threeNodes).selectNode 0 1 = some answer ∧ answer ≠ some 1 := by
  have hlen : (run threeNodes).nodeIDs.length = 3 := by
    rw [← len_nodes]
    decide +kernel
  obtain ⟨-, -, -, -, hselect⟩ := nodeGroup_run threeNodes
  obtain ⟨answer, hanswer, -, hid⟩ := hselect 0 1 fun _ => by omega
  refine ⟨answer, hanswer, fun heq => ?_⟩
  obtain ⟨load, hload, hother⟩ := hid 1 heq
  obtain ⟨id', load', hne, hload', hle⟩ := hother (by omega)
  have hloads : ∀ id, (run threeNodes).getLoad id = if id = 1 then some 100 else
      if id = 3 then some 10 else if id = 2 then some 50 else none := by
    intro id
    simp only [run, threeNodes, List.foldl_cons, List.foldl_nil, apply, getLoad_updateLoad,
      getLoad_add, getLoad_new]
    by_cases hone : id = 1
    · subst hone
      rfl
    · simp [hone]
  rw [hloads, if_pos rfl] at hload
  rw [hloads, if_neg hne] at hload'
  obtain rfl := Option.some.inj hload
  split at hload'
  · obtain rfl := Option.some.inj hload'
    exact absurd hle (by decide)
  · split at hload'
    · obtain rfl := Option.some.inj hload'
      exact absurd hle (by decide)
    · cases hload'

end Runs

end Cells

end GameCluster.Discovery
