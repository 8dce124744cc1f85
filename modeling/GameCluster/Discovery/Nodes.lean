import GameCluster.Lib.Map
import GameCluster.Lib.Table

/-!
The nodes of one service (`pkg/discovery/node.go`). A group holds a map from node
IDs to loads and the list of the IDs that the map was ranged over when it was
made. `iter` is the order in which a map is ranged over, about which Go says
nothing.
-/

namespace GameCluster.Discovery

open Lib

structure Node where
  svcName : String
  nodeID : Int32
  load : Int32
  deriving DecidableEq

/-- `nodeGroupState`, with the load of each `nodeMeta`. -/
structure NodeGroup where
  nodes : Map Int32 Int32
  nodeIDs : List Int32
  listed : Map.Enumerates nodeIDs nodes

abbrev Iter := (nodes : Map Int32 Int32) → { order : List Int32 // Map.Enumerates order nodes }

def newNodeGroup : NodeGroup := ⟨∅, [], List.nodup_nil, rfl⟩

namespace NodeGroup

section Code

variable (iter : Iter)

/-- A new state with its list of IDs. -/
def ofNodes (nodes : Map Int32 Int32) : NodeGroup := ⟨nodes, (iter nodes).1, (iter nodes).2⟩

def add (g : NodeGroup) (msg : Node) : NodeGroup :=
  ofNodes iter (g.nodes.insert msg.nodeID msg.load)

/-- The group without the node, and whether it is empty. -/
def delete (g : NodeGroup) (nodeID : Int32) : NodeGroup × Bool :=
  match g.nodes.lookup nodeID with
  | none => (g, Map.len g.nodes = 0)
  | some _ =>
    let newNodes : Map Int32 Int32 := g.nodes.erase nodeID
    (ofNodes iter newNodes, Map.len newNodes = 0)

end Code

def updateLoad (g : NodeGroup) (nodeID load : Int32) : NodeGroup :=
  if h : nodeID ∈ g.nodes then
    { g with
      nodes := g.nodes.insert nodeID load
      listed := g.listed.insert h load }
  else g

/-- `SelectNode`, with the two random numbers. -/
def selectNode (g : NodeGroup) (i j : ℕ) : Option Int32 :=
  if g.nodeIDs.length = 0 then none
  else if g.nodeIDs.length = 1 then g.nodeIDs[0]?
  else do
    let id₁ ← g.nodeIDs[i]?
    let id₂ ← g.nodeIDs[if j ≥ i then j + 1 else j]?
    let load₁ ← g.nodes.lookup id₁
    let load₂ ← g.nodes.lookup id₂
    if load₁ ≤ load₂ then some id₁ else some id₂

def existsNode (g : NodeGroup) (id : Int32) : Bool := (g.nodes.lookup id).isSome

def allNodeIDs (g : NodeGroup) : List Int32 := g.nodeIDs

section Nodes

variable (iter : Iter) (g : NodeGroup)

theorem mem_nodeIDs (id : Int32) : id ∈ g.nodeIDs ↔ g.existsNode id = true := g.listed.mem_iff id

theorem existsNode_iff (id : Int32) :
    g.existsNode id = true ↔ ∃ load, g.nodes.lookup id = some load := Option.isSome_iff_exists

theorem existsNode_new (id : Int32) : newNodeGroup.existsNode id = false := by rfl

theorem existsNode_add (msg : Node) (id : Int32) :
    (g.add iter msg).existsNode id = true ↔ id = msg.nodeID ∨ g.existsNode id = true := by
  simp only [existsNode, add, ofNodes, Map.lookup_insert_ite]
  split
  · rename_i heq
    simp [heq]
  · rename_i hne
    simp [hne]

theorem existsNode_delete (nodeID id : Int32) :
    (g.delete iter nodeID).1.existsNode id = true ↔ id ≠ nodeID ∧ g.existsNode id = true := by
  unfold delete
  split
  · rename_i hnone
    refine ⟨fun hid => ⟨?_, hid⟩, And.right⟩
    rintro rfl
    rw [existsNode, hnone] at hid
    cases hid
  · simp only [existsNode, ofNodes, Map.lookup_erase_ite]
    split
    · rename_i heq
      simp [heq]
    · rename_i hne
      simp [hne]

/-- `Delete` reports whether no node is left. -/
theorem delete_empty (nodeID : Int32) (h : (g.delete iter nodeID).2 = true) (id : Int32) :
    (g.delete iter nodeID).1.existsNode id = false := by
  unfold delete at h ⊢
  split at h
  · have hempty := Map.len_eq_zero.mp (of_decide_eq_true h)
    simp only [existsNode, hempty]
    rfl
  · have hempty := Map.len_eq_zero.mp (of_decide_eq_true h)
    simp only [existsNode, ofNodes, hempty]
    rfl

theorem lookup_updateLoad (nodeID load id : Int32) :
    (g.updateLoad nodeID load).nodes.lookup id =
      (g.nodes.lookup id).map fun old => if id = nodeID then load else old := by
  unfold updateLoad
  split
  · rename_i hmem
    rw [Map.lookup_insert_ite]
    split
    · rename_i heq
      obtain ⟨old, hold⟩ := Finmap.mem_iff.mp hmem
      rw [heq, hold]
      rfl
    · simp
  · rename_i hmem
    by_cases heq : id = nodeID
    · rw [heq, Finmap.lookup_eq_none.mpr hmem]
      rfl
    · simp [heq]

theorem existsNode_updateLoad (nodeID load id : Int32) :
    (g.updateLoad nodeID load).existsNode id = g.existsNode id := by
  rw [existsNode, lookup_updateLoad, existsNode, Option.isSome_map]

end Nodes

section Select

variable (g : NodeGroup)

/-- What two random numbers that name two different nodes lead to. -/
theorem selectNode_pair {i k : ℕ} {id id' load load' : Int32} (hi : g.nodeIDs[i]? = some id)
    (hk : g.nodeIDs[k]? = some id') (hik : i ≠ k) (hload : g.nodes.lookup id = some load)
    (hload' : g.nodes.lookup id' = some load') :
    ∃ j, g.selectNode i j = if load ≤ load' then some id else some id' := by
  have hlt := lt_length_of_some hi
  have hlt' := lt_length_of_some hk
  refine ⟨if i < k then k - 1 else k, ?_⟩
  have hsecond : (if (if i < k then k - 1 else k) ≥ i then (if i < k then k - 1 else k) + 1
      else if i < k then k - 1 else k) = k := by
    split <;> split <;> omega
  rw [selectNode, if_neg (by omega), if_neg (by omega), hsecond, hi, hk]
  simp only [Option.bind_eq_bind, Option.bind_some, hload, hload']

theorem length_le_one {id : Int32} (halone : ∀ id', g.existsNode id' = true → id' = id) :
    g.nodeIDs.length ≤ 1 := by
  have hall := List.eq_replicate_of_mem fun x hx => halone x ((g.mem_nodeIDs x).mp hx)
  exact List.nodup_replicate.mp (hall ▸ g.listed.1)

/-- The answers of `SelectNode`: a node that is alone, or one that another node's
load is not below. -/
theorem selectNode_iff (id : Int32) :
    (∃ i j, g.selectNode i j = some id) ↔
      ∃ load, g.nodes.lookup id = some load ∧
        ((∀ id', g.existsNode id' = true → id' = id) ∨
          ∃ id' load', id' ≠ id ∧ g.nodes.lookup id' = some load' ∧ load ≤ load') := by
  constructor
  · rintro ⟨i, j, hsel⟩
    unfold selectNode at hsel
    split at hsel
    · cases hsel
    · split at hsel
      · rename_i hone
        obtain ⟨x, hx⟩ := List.length_eq_one_iff.mp hone
        rw [hx] at hsel
        obtain rfl : x = id := Option.some.inj hsel
        have hself : g.existsNode x = true := by
          rw [← mem_nodeIDs, hx]
          exact List.mem_singleton_self x
        obtain ⟨load, hload⟩ := (g.existsNode_iff x).mp hself
        refine ⟨load, hload, Or.inl fun id' hid' => ?_⟩
        rw [← mem_nodeIDs, hx] at hid'
        exact List.mem_singleton.mp hid'
      · obtain ⟨id₁, hi, hsel⟩ := Option.bind_eq_some_iff.mp hsel
        obtain ⟨id₂, hj, hsel⟩ := Option.bind_eq_some_iff.mp hsel
        obtain ⟨load₁, h₁, hsel⟩ := Option.bind_eq_some_iff.mp hsel
        obtain ⟨load₂, h₂, hsel⟩ := Option.bind_eq_some_iff.mp hsel
        have hne : id₁ ≠ id₂ := by
          rintro rfl
          have hidx := (List.getElem?_inj (lt_length_of_some hi) g.listed.1).mp
            (hi.trans hj.symm)
          split at hidx <;> omega
        split at hsel
        · rename_i hle
          cases hsel
          exact ⟨load₁, h₁, Or.inr ⟨id₂, load₂, hne.symm, h₂, hle⟩⟩
        · rename_i hle
          cases hsel
          exact ⟨load₂, h₂, Or.inr ⟨id₁, load₁, hne, h₁, Int32.le_of_lt (Int32.not_le.mp hle)⟩⟩
  · rintro ⟨load, hload, hother⟩
    have hmem : id ∈ g.nodeIDs := by
      rw [mem_nodeIDs, existsNode_iff]
      exact ⟨load, hload⟩
    rcases hother with halone | ⟨id', load', hne, hload', hle⟩
    · have hall := List.eq_replicate_of_mem fun x hx => halone x ((g.mem_nodeIDs x).mp hx)
      have hlen : g.nodeIDs.length = 1 :=
        Nat.le_antisymm (g.length_le_one halone) (List.length_pos_of_mem hmem)
      refine ⟨0, 0, ?_⟩
      rw [selectNode, if_neg (by omega), if_pos hlen, hall, hlen]
      rfl
    · have hmem' : id' ∈ g.nodeIDs := by
        rw [mem_nodeIDs, existsNode_iff]
        exact ⟨load', hload'⟩
      obtain ⟨i, hi⟩ := List.mem_iff_getElem?.mp hmem
      obtain ⟨k, hk⟩ := List.mem_iff_getElem?.mp hmem'
      have hik : i ≠ k := by
        rintro rfl
        exact hne (Option.some.inj (hk.symm.trans hi))
      obtain ⟨j, hj⟩ := g.selectNode_pair hi hk hik hload hload'
      exact ⟨i, j, hj.trans (if_pos hle)⟩

end Select

end NodeGroup

end GameCluster.Discovery
