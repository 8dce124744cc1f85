import GameCluster.Discovery.Nodes
import GameCluster.Discovery.Paths

/-!
A `Discoverer` (`pkg/discovery/discover.go`): the groups of the services that it
watches, the snapshot that loads a group, the events that change one, and the
queries. What the queries answer depends on the loads that are kept, and which
nodes they answer with only on the nodes that have a load.

Of the JSON package only this is used, that unmarshalling a marshalled `Node`
gives it back.
-/

namespace GameCluster.Discovery

open Lib

structure Codec (ω : Type) where
  marshal : Node → ω
  unmarshal : ω → Option Node
  unmarshal_marshal : ∀ node, unmarshal (marshal node) = some node

structure Discoverer where
  services : Map String NodeGroup
  watching : Finset String

/-- What etcd and Redis reply to a query: the keys with their values and the
revision, if there is a reply, and the load of each node. -/
structure Reply (ω : Type) where
  get : Option (List (String × ω) × ℕ)
  mget : Int32 → Option Int32

section Code

variable {ω : Type} (iter : Iter) (json : Codec ω)

def upsertNode (d : Discoverer) (key : String) (val : ω) : Discoverer :=
  match json.unmarshal val with
  | none => d
  | some node =>
    match parseServicePath key with
    | none => d
    | some (svcName, svcID) =>
      let one := (d.services.lookup svcName).getD newNodeGroup
      { d with
        services := d.services.insert svcName (one.add iter { node with nodeID := svcID }) }

def removeNode (d : Discoverer) (key : String) : Discoverer :=
  match parseServicePath key with
  | none => d
  | some (svcName, svcID) =>
    match d.services.lookup svcName with
    | none => d
    | some one =>
      let (one, empty) := one.delete iter svcID
      if empty then { d with services := d.services.erase svcName }
      else { d with services := d.services.insert svcName one }

/-- One turn of the loop over `resp.Kvs`: the group and the IDs in it. -/
def addKv (acc : NodeGroup × List Int32) (kv : String × ω) : NodeGroup × List Int32 :=
  match json.unmarshal kv.2, parseServicePath kv.1 with
  | some node, some (_, serID) =>
    (acc.1.add iter { node with nodeID := serID }, acc.2 ++ [serID])
  | _, _ => acc

/-- The loads that Redis has for some of the nodes. -/
def loadFrom (mget : Int32 → Option Int32) (g : NodeGroup) (id : Int32) : NodeGroup :=
  match mget id with
  | some load => g.updateLoad id load
  | none => g

def syncSvcFullState (d : Discoverer) (svcName : String) (reply : Reply ω) : Discoverer × ℕ :=
  match reply.get with
  | none => (d, 0)
  | some (kvs, revision) =>
    let (newGroup, nodeIDs) := kvs.foldl (addKv iter json) (newNodeGroup, [])
    let newGroup := nodeIDs.foldl (loadFrom reply.mget) newGroup
    ({ d with services := d.services.insert svcName newGroup }, revision)

/-- `Watch`, up to the start of its goroutines. -/
def watch (d : Discoverer) (svcName : String) (reply : Reply ω) : Discoverer :=
  if svcName ∈ d.watching then d
  else
    (syncSvcFullState iter json { d with watching := insert svcName d.watching } svcName reply).1

def getService (d : Discoverer) (svcName : String) (reply : Reply ω) :
    Discoverer × Option NodeGroup :=
  match d.services.lookup svcName with
  | some one => (d, some one)
  | none =>
    let d := watch iter json d svcName reply
    (d, d.services.lookup svcName)

def select (d : Discoverer) (svcName : String) (reply : Reply ω) (i j : ℕ) : Option Int32 :=
  match (getService iter json d svcName reply).2 with
  | some one => one.selectNode i j
  | none => none

def existsNode (d : Discoverer) (svcName : String) (reply : Reply ω) (id : Int32) : Bool :=
  match (getService iter json d svcName reply).2 with
  | some one => one.existsNode id
  | none => false

def getAllNodes (d : Discoverer) (svcName : String) (reply : Reply ω) : List Int32 × Bool :=
  match (getService iter json d svcName reply).2 with
  | some one => (one.allNodeIDs, true)
  | none => ([], false)

/-- A load that `watchRedis` receives. -/
def updateLoad (d : Discoverer) (msg : Node) : Discoverer :=
  match d.services.lookup msg.svcName with
  | some group =>
    { d with services := d.services.insert msg.svcName (group.updateLoad msg.nodeID msg.load) }
  | none => d

end Code

section Statement

variable {ω : Type} (iter : Iter) (json : Codec ω)

/-- The two answer the queries about the service with the same nodes. For `Select`,
which compares loads, this means: with the same loads, the same answers are
possible. -/
structure SameNodes (d d' : Discoverer) (svc : String) : Prop where
  exist : ∀ reply id, existsNode iter json d svc reply id = existsNode iter json d' svc reply id
  allNodes : ∀ reply id,
    id ∈ (getAllNodes iter json d svc reply).1 ↔ id ∈ (getAllNodes iter json d' svc reply).1
  answer : ∀ reply i j id,
    (select iter json d svc reply i j = some id → existsNode iter json d' svc reply id = true) ∧
      (select iter json d' svc reply i j = some id → existsNode iter json d svc reply id = true)
  select : ∀ msgs : List Node,
    (∀ reply id, existsNode iter json d svc reply id = true →
      ∃ msg ∈ msgs, msg.svcName = svc ∧ msg.nodeID = id) →
    ∀ reply id,
      (∃ i j, Discovery.select iter json (msgs.foldl updateLoad d) svc reply i j = some id) ↔
        ∃ i j, Discovery.select iter json (msgs.foldl updateLoad d') svc reply i j = some id

end Statement

section Loads

variable {ω : Type} {iter : Iter} {json : Codec ω}

/-- The load that is kept for a node, if the node is known. -/
def Discoverer.load (d : Discoverer) (svc : String) (id : Int32) : Option Int32 :=
  (d.services.lookup svc).bind (·.nodes.lookup id)

variable {d d' : Discoverer} {svc : String} {reply : Reply ω}

/-- A service that is watched is not loaded again. -/
theorem getService_watched (hw : svc ∈ d.watching) :
    (getService iter json d svc reply).2 = d.services.lookup svc := by
  unfold getService
  cases hsvc : d.services.lookup svc with
  | some one => rfl
  | none => simp only [watch, if_pos hw, hsvc]

theorem existsNode_watched (hw : svc ∈ d.watching) (id : Int32) :
    existsNode iter json d svc reply id = (d.load svc id).isSome := by
  rw [existsNode, getService_watched hw, Discoverer.load]
  cases d.services.lookup svc <;> rfl

theorem mem_getAllNodes (hw : svc ∈ d.watching) (id : Int32) :
    id ∈ (getAllNodes iter json d svc reply).1 ↔ (d.load svc id).isSome = true := by
  rw [getAllNodes, getService_watched hw, Discoverer.load]
  cases d.services.lookup svc with
  | none => simp
  | some one => exact one.mem_nodeIDs id

/-- The answers of `Select` are determined by the loads. -/
theorem select_iff (hw : svc ∈ d.watching) (id : Int32) :
    (∃ i j, select iter json d svc reply i j = some id) ↔
      ∃ load, d.load svc id = some load ∧
        ((∀ id', (d.load svc id').isSome = true → id' = id) ∨
          ∃ id' load', id' ≠ id ∧ d.load svc id' = some load' ∧ load ≤ load') := by
  simp only [select, getService_watched hw, Discoverer.load]
  cases d.services.lookup svc with
  | none => simp
  | some one => exact one.selectNode_iff id

theorem updateLoad_watching (d : Discoverer) (msg : Node) :
    (updateLoad d msg).watching = d.watching := by
  unfold updateLoad
  split <;> rfl

theorem load_updateLoad (d : Discoverer) (msg : Node) (svc : String) (id : Int32) :
    (updateLoad d msg).load svc id =
      (d.load svc id).map fun old =>
        if msg.svcName = svc ∧ msg.nodeID = id then msg.load else old := by
  unfold updateLoad
  by_cases hsvc : svc = msg.svcName
  · subst hsvc
    split
    · rename_i group hgroup
      simp only [Discoverer.load, Map.lookup_insert_ite, if_true, hgroup, Option.bind_some,
        NodeGroup.lookup_updateLoad, true_and, eq_comm]
    · rename_i hnone
      simp only [Discoverer.load, hnone, Option.bind_none, Option.map_none]
  · have hne : msg.svcName ≠ svc := Ne.symm hsvc
    split
    · simp only [Discoverer.load, Map.lookup_insert_ite, hsvc, if_false, hne, false_and,
        Option.map_id']
    · simp only [hne, false_and, if_false, Option.map_id']

/-- The load of a node after some messages. -/
def loadAfter (svc : String) (id : Int32) (msgs : List Node) (load : Int32) : Int32 :=
  msgs.foldl (fun old msg => if msg.svcName = svc ∧ msg.nodeID = id then msg.load else old) load

theorem load_foldl (msgs : List Node) (d : Discoverer) (svc : String) (id : Int32) :
    (msgs.foldl updateLoad d).load svc id = (d.load svc id).map (loadAfter svc id msgs) := by
  induction msgs generalizing d with
  | nil =>
    simp only [List.foldl_nil]
    exact Option.map_id'.symm
  | cons msg rest ih =>
    rw [List.foldl_cons, ih, load_updateLoad, Option.map_map]
    rfl

theorem foldl_watching (msgs : List Node) (d : Discoverer) :
    (msgs.foldl updateLoad d).watching = d.watching := by
  induction msgs generalizing d with
  | nil => rfl
  | cons msg rest ih => rw [List.foldl_cons, ih, updateLoad_watching]

/-- A message for the node decides its load. -/
theorem loadAfter_covered {svc : String} {id : Int32} {msgs : List Node}
    (hmsg : ∃ msg ∈ msgs, msg.svcName = svc ∧ msg.nodeID = id) (load load' : Int32) :
    loadAfter svc id msgs load = loadAfter svc id msgs load' := by
  induction msgs generalizing load load' with
  | nil =>
    obtain ⟨msg, hmem, -⟩ := hmsg
    cases hmem
  | cons first rest ih =>
    simp only [loadAfter, List.foldl_cons]
    by_cases hfirst : first.svcName = svc ∧ first.nodeID = id
    · rw [if_pos hfirst, if_pos hfirst]
    · rw [if_neg hfirst, if_neg hfirst]
      obtain ⟨msg, hmem, hfor⟩ := hmsg
      rcases List.mem_cons.mp hmem with rfl | hrest
      · exact absurd hfor hfirst
      · exact ih ⟨msg, hrest, hfor⟩ load load'

theorem existsNode_of_select (hw : svc ∈ d.watching) {i j : ℕ} {id : Int32}
    (hsel : select iter json d svc reply i j = some id) : (d.load svc id).isSome = true := by
  obtain ⟨load, hload, -⟩ := (select_iff hw id).mp ⟨i, j, hsel⟩
  rw [hload]
  rfl

/-- Two discoverers that know the same nodes answer with the same nodes. -/
theorem SameNodes.of_known (hw : svc ∈ d.watching) (hw' : svc ∈ d'.watching)
    (hknown : ∀ id, (d.load svc id).isSome = (d'.load svc id).isSome) :
    SameNodes iter json d d' svc where
  exist reply id := by rw [existsNode_watched hw, existsNode_watched hw', hknown]
  allNodes reply id := by rw [mem_getAllNodes hw, mem_getAllNodes hw', hknown]
  answer reply i j id := by
    rw [existsNode_watched hw, existsNode_watched hw']
    exact ⟨fun hsel => hknown id ▸ existsNode_of_select hw hsel,
      fun hsel => hknown id ▸ existsNode_of_select hw' hsel⟩
  select msgs hcovers reply id := by
    have hloads : ∀ id, (msgs.foldl updateLoad d).load svc id =
        (msgs.foldl updateLoad d').load svc id := by
      intro id
      have hsome := hknown id
      rw [load_foldl, load_foldl]
      cases hold : d.load svc id with
      | none =>
        rw [hold] at hsome
        rw [Option.isNone_iff_eq_none.mp (Option.isSome_eq_false_iff.mp hsome.symm)]
      | some load =>
        rw [hold] at hsome
        obtain ⟨load', hload'⟩ := Option.isSome_iff_exists.mp hsome.symm
        have hexists : existsNode iter json d svc reply id = true := by
          rw [existsNode_watched hw, hold]
          rfl
        rw [hload', Option.map_some, Option.map_some,
          loadAfter_covered (hcovers reply id hexists) load load']
    rw [select_iff (foldl_watching msgs d ▸ hw), select_iff (foldl_watching msgs d' ▸ hw')]
    simp only [hloads]

end Loads

end GameCluster.Discovery
