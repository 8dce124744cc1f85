import GameCluster.Discovery.Discoverer

/-!
The nodes that a `Discoverer` knows against the keys in etcd. The history of etcd
is a list of revisions, each with the events that it brought; a revision may
bring several, as when a lease with several keys runs out. A snapshot is
`syncSvcFullState` at some revision, and the watch hands the events of later
revisions to `upsertNode` and `removeNode`.

Both sides follow the last event on each key. Redis supplies loads, which play no
part in which nodes are known.
-/

namespace GameCluster.Discovery

open Lib

section Etcd

inductive Event where
  | put (key : Key) (node : Node)
  | delete (key : Key)

def Event.key : Event → Key
  | .put key _ => key
  | .delete key => key

variable {ω : Type} (iter : Iter) (json : Codec ω) (prod : String)

/-- A put or a delete on the keys of etcd. -/
def commit (store : List (String × ω)) : Event → List (String × ω)
  | .put key node =>
    let path := key.path (servicePrefix prod)
    store.filter (·.1 ≠ path) ++ [(path, json.marshal node)]
  | .delete key => store.filter (·.1 ≠ key.path (servicePrefix prod))

/-- The keys at revision `r`. -/
def storeAt (history : List (List Event)) (r : ℕ) : List (String × ω) :=
  (history.take r).flatten.foldl (commit json prod) []

/-- `Get` with `WithPrefix`. -/
def getPrefix (store : List (String × ω)) (pre : String) : List (String × ω) :=
  store.filter fun kv => pre.toList.isPrefixOf kv.1.toList

/-- `syncSvcFullState` at revision `r`. `Watch` has put the service into `watching`
before. -/
def snapshot (d : Discoverer) (svc : String) (history : List (List Event)) (r : ℕ)
    (mget : Int32 → Option Int32) : Discoverer :=
  (syncSvcFullState iter json { d with watching := insert svc d.watching } svc
    ⟨some (getPrefix (storeAt json prod history r) (etcdSvcPrefix (servicePrefix prod) svc), r),
      mget⟩).1

/-- The events of the revisions after `r` up to `n`. -/
def between (history : List (List Event)) (r n : ℕ) : List Event :=
  ((history.take n).drop r).flatten

/-- The watch of the service hands the event on. -/
def watched (svc : String) (ev : Event) : Bool :=
  (etcdSvcPrefix (servicePrefix prod) svc).toList.isPrefixOf
    (ev.key.path (servicePrefix prod)).toList

/-- The body of the loop over `wresp.Events`. -/
def onEvent (d : Discoverer) : Event → Discoverer
  | .put key node => upsertNode iter json d (key.path (servicePrefix prod)) (json.marshal node)
  | .delete key => removeNode iter d (key.path (servicePrefix prod))

end Etcd

section Tracking

variable {ω : Type} {iter : Iter} {json : Codec ω} {prod : String}

def Event.isPut : Event → Bool
  | .put _ _ => true
  | .delete _ => false

/-- Whether a key is there after an event, by whether it was before. -/
def track (k : Key) (known : Bool) (ev : Event) : Bool := if ev.key = k then ev.isPut else known

theorem onEvent_put (d : Discoverer) (key : Key) (node : Node) :
    onEvent iter json prod d (.put key node) =
      { d with
        services := d.services.insert key.svc
          (((d.services.lookup key.svc).getD newNodeGroup).add iter
            { node with nodeID := key.id }) } := by
  simp only [onEvent, upsertNode, json.unmarshal_marshal, parse_path]

theorem onEvent_delete (d : Discoverer) (key : Key) :
    onEvent iter json prod d (.delete key) =
      (d.services.lookup key.svc).elim d fun one =>
        if (one.delete iter key.id).2 then { d with services := d.services.erase key.svc }
        else { d with services := d.services.insert key.svc (one.delete iter key.id).1 } := by
  simp only [onEvent, removeNode, parse_path]
  cases d.services.lookup key.svc <;> rfl

/-- An event of one service leaves the other services as they are. -/
theorem onEvent_other (d : Discoverer) (ev : Event) {other : String} (hne : ev.key.svc ≠ other) :
    (onEvent iter json prod d ev).services.lookup other = d.services.lookup other := by
  cases ev with
  | put key node =>
    change key.svc ≠ other at hne
    rw [onEvent_put, Map.lookup_insert_ite, if_neg hne.symm]
  | delete key =>
    change key.svc ≠ other at hne
    rw [onEvent_delete]
    cases d.services.lookup key.svc with
    | none => rfl
    | some one =>
      rw [Option.elim_some]
      split
      · rw [Map.lookup_erase_ite, if_neg hne.symm]
      · rw [Map.lookup_insert_ite, if_neg hne.symm]

theorem onEvent_watching (d : Discoverer) (ev : Event) :
    (onEvent iter json prod d ev).watching = d.watching := by
  cases ev with
  | put key node => rw [onEvent_put]
  | delete key =>
    rw [onEvent_delete]
    cases d.services.lookup key.svc with
    | none => rfl
    | some one =>
      rw [Option.elim_some]
      split <;> rfl

theorem load_put (d : Discoverer) (key : Key) (node : Node) (id : Int32) :
    ((onEvent iter json prod d (.put key node)).load key.svc id).isSome = true ↔
      id = key.id ∨ (d.load key.svc id).isSome = true := by
  rw [Discoverer.load, onEvent_put, Map.lookup_insert_ite, if_pos rfl, Option.bind_some]
  refine (NodeGroup.existsNode_add iter _ _ id).trans ?_
  rw [Discoverer.load]
  cases d.services.lookup key.svc with
  | none => simp [NodeGroup.existsNode_new]
  | some one => rfl

theorem load_delete (d : Discoverer) (key : Key) (id : Int32) :
    ((onEvent iter json prod d (.delete key)).load key.svc id).isSome = true ↔
      id ≠ key.id ∧ (d.load key.svc id).isSome = true := by
  rw [onEvent_delete, Discoverer.load, Discoverer.load]
  cases hone : d.services.lookup key.svc with
  | none => simp [hone]
  | some one =>
    have hdelete := one.existsNode_delete iter key.id id
    rw [Option.elim_some]
    split
    · rename_i hempty
      rw [Map.lookup_erase_ite, if_pos rfl, Option.bind_none]
      have hgone := one.delete_empty iter key.id hempty id
      rw [hgone] at hdelete
      exact hdelete
    · rw [Map.lookup_insert_ite, if_pos rfl, Option.bind_some]
      exact hdelete

/-- What the discoverer knows of a node follows the events on its key. -/
theorem load_onEvent (d : Discoverer) (ev : Event) (k : Key) :
    ((onEvent iter json prod d ev).load k.svc k.id).isSome =
      track k (d.load k.svc k.id).isSome ev := by
  by_cases hsvc : ev.key.svc = k.svc
  · have hkey : k.id = ev.key.id ↔ ev.key = k :=
      ⟨fun hid => Key.ext hsvc hid.symm, fun heq => heq ▸ rfl⟩
    rw [track, Bool.eq_iff_iff, ← hsvc]
    cases ev with
    | put key node =>
      refine (load_put d key node k.id).trans ((or_congr hkey Iff.rfl).trans ?_)
      split
      · rename_i heq
        exact ⟨fun _ => rfl, fun _ => Or.inl heq⟩
      · rename_i hne
        exact or_iff_right hne
    | delete key =>
      refine (load_delete d key k.id).trans ((and_congr (not_congr hkey) Iff.rfl).trans ?_)
      split
      · rename_i heq
        exact ⟨fun hnot => absurd heq hnot.1, fun hfalse => nomatch hfalse⟩
      · rename_i hne
        exact and_iff_right hne
  · have hne : ev.key ≠ k := fun heq => hsvc (heq ▸ rfl)
    rw [track, if_neg hne, Discoverer.load, onEvent_other d ev hsvc, Discoverer.load]

theorem load_events (evs : List Event) (d : Discoverer) (k : Key) :
    ((evs.foldl (onEvent iter json prod) d).load k.svc k.id).isSome =
      evs.foldl (track k) (d.load k.svc k.id).isSome := by
  induction evs generalizing d with
  | nil => rfl
  | cons ev rest ih => rw [List.foldl_cons, ih, load_onEvent, List.foldl_cons]

theorem events_watching (evs : List Event) (d : Discoverer) :
    (evs.foldl (onEvent iter json prod) d).watching = d.watching := by
  induction evs generalizing d with
  | nil => rfl
  | cons ev rest ih => rw [List.foldl_cons, ih, onEvent_watching]

theorem watched_iff {svc : String} (hsvc : '/' ∉ svc.toList) (ev : Event) :
    watched prod svc ev = true ↔ ev.key.svc = svc := by
  rw [watched, List.isPrefixOf_iff_prefix]
  exact svcPrefix_iff (servicePrefix prod) hsvc ev.key

/-- Only the events that the watch hands on say something about a node of the service. -/
theorem track_filter (prod : String) (evs : List Event) (k : Key) (known : Bool) :
    (evs.filter (watched prod k.svc)).foldl (track k) known = evs.foldl (track k) known := by
  induction evs generalizing known with
  | nil => rfl
  | cons ev rest ih =>
    rw [List.filter_cons, List.foldl_cons]
    split
    · rw [List.foldl_cons, ih]
    · rename_i hnot
      have hne : ev.key ≠ k := by
        intro heq
        exact hnot ((watched_iff k.noSlash ev).mpr (by rw [heq]))
      rw [ih, track, if_neg hne]

end Tracking

section Stored

variable {ω : Type} {json : Codec ω} {prod : String}

/-- The key is in etcd. -/
def stored (prod : String) (store : List (String × ω)) (k : Key) : Bool :=
  store.any (·.1 = k.path (servicePrefix prod))

theorem stored_iff {store : List (String × ω)} {k : Key} :
    stored prod store k = true ↔ ∃ kv ∈ store, kv.1 = k.path (servicePrefix prod) := by
  simp [stored]

theorem stored_filter (store : List (String × ω)) (key k : Key) :
    stored prod (store.filter (·.1 ≠ key.path (servicePrefix prod))) k = true ↔
      key ≠ k ∧ stored prod store k = true := by
  simp only [stored_iff, List.mem_filter, decide_eq_true_eq]
  constructor
  · rintro ⟨kv, ⟨hmem, hne⟩, hkey⟩
    exact ⟨fun heq => hne (heq ▸ hkey), kv, hmem, hkey⟩
  · rintro ⟨hne, kv, hmem, hkey⟩
    exact ⟨kv, ⟨hmem, fun heq => hne (path_inj prod (heq.symm.trans hkey))⟩, hkey⟩

theorem stored_commit (store : List (String × ω)) (ev : Event) (k : Key) :
    stored prod (commit json prod store ev) k = track k (stored prod store k) ev := by
  rw [Bool.eq_iff_iff, track]
  cases ev with
  | put key node =>
    have happend : stored prod (commit json prod store (.put key node)) k = true ↔
        stored prod (store.filter (·.1 ≠ key.path (servicePrefix prod))) k = true ∨
          key = k := by
      simp only [commit, stored, List.any_append, Bool.or_eq_true, List.any_cons, List.any_nil,
        Bool.or_false, decide_eq_true_eq]
      exact or_congr Iff.rfl ⟨path_inj prod, fun heq => heq ▸ rfl⟩
    rw [happend, stored_filter]
    by_cases heq : key = k <;> simp [heq, Event.key, Event.isPut]
  | delete key =>
    refine (stored_filter store key k).trans ?_
    by_cases heq : key = k <;> simp [heq, Event.key, Event.isPut]

theorem stored_events (evs : List Event) (store : List (String × ω)) (k : Key) :
    stored prod (evs.foldl (commit json prod) store) k =
      evs.foldl (track k) (stored prod store k) := by
  induction evs generalizing store with
  | nil => rfl
  | cons ev rest ih => rw [List.foldl_cons, ih, stored_commit, List.foldl_cons]

/-- The keys at a later revision, by the events in between. -/
theorem storeAt_between {r n : ℕ} (history : List (List Event)) (hrn : r ≤ n) :
    storeAt json prod history n =
      (between history r n).foldl (commit json prod) (storeAt json prod history r) := by
  have hsplit : (history.take n).take r ++ (history.take n).drop r = history.take n :=
    List.take_append_drop r _
  rw [List.take_take, min_eq_left hrn] at hsplit
  rw [storeAt, storeAt, between, ← List.foldl_append, ← List.flatten_append, hsplit]

/-- A key with the encoding of a node. -/
def Entry (json : Codec ω) (prod : String) (kv : String × ω) : Prop :=
  ∃ (k : Key) (node : Node), kv = (k.path (servicePrefix prod), json.marshal node)

theorem entry_commit {store : List (String × ω)} (hstore : ∀ kv ∈ store, Entry json prod kv)
    (ev : Event) : ∀ kv ∈ commit json prod store ev, Entry json prod kv := by
  intro kv hkv
  cases ev with
  | put key node =>
    rcases List.mem_append.mp hkv with hold | hnew
    · exact hstore kv (List.mem_of_mem_filter hold)
    · exact ⟨key, node, List.mem_singleton.mp hnew⟩
  | delete key => exact hstore kv (List.mem_of_mem_filter hkv)

theorem entry_events (evs : List Event) {store : List (String × ω)}
    (hstore : ∀ kv ∈ store, Entry json prod kv) :
    ∀ kv ∈ evs.foldl (commit json prod) store, Entry json prod kv := by
  induction evs generalizing store with
  | nil => exact hstore
  | cons ev rest ih => exact ih (entry_commit hstore ev)

theorem entry_storeAt (history : List (List Event)) (r : ℕ) :
    ∀ kv ∈ storeAt json prod history r, Entry json prod kv :=
  entry_events _ fun _ hkv => nomatch hkv

end Stored

section Snapshot

variable {ω : Type} {iter : Iter} {json : Codec ω} {prod : String}

theorem existsNode_kvs (kvs : List (String × ω)) (hkvs : ∀ kv ∈ kvs, Entry json prod kv)
    (acc : NodeGroup × List Int32) (id : Int32) :
    (kvs.foldl (addKv iter json) acc).1.existsNode id = true ↔
      acc.1.existsNode id = true ∨
        ∃ k : Key, k.id = id ∧ ∃ kv ∈ kvs, kv.1 = k.path (servicePrefix prod) := by
  induction kvs generalizing acc with
  | nil => simp
  | cons kv rest ih =>
    obtain ⟨k, node, rfl⟩ := hkvs kv List.mem_cons_self
    have hadd : (addKv iter json acc (k.path (servicePrefix prod), json.marshal node)).1 =
        acc.1.add iter { node with nodeID := k.id } := by
      simp only [addKv, json.unmarshal_marshal, parse_path]
    rw [List.foldl_cons, ih (fun kv hkv => hkvs kv (List.mem_cons_of_mem _ hkv)), hadd,
      NodeGroup.existsNode_add]
    constructor
    · rintro ((rfl | hold) | ⟨k', hid, kv, hmem, hkey⟩)
      · exact Or.inr ⟨k, rfl, _, List.mem_cons_self, rfl⟩
      · exact Or.inl hold
      · exact Or.inr ⟨k', hid, kv, List.mem_cons_of_mem _ hmem, hkey⟩
    · rintro (hold | ⟨k', rfl, kv, hmem, hkey⟩)
      · exact Or.inl (Or.inr hold)
      · rcases List.mem_cons.mp hmem with rfl | hrest
        · exact Or.inl (Or.inl (congrArg Key.id (path_inj prod hkey).symm))
        · exact Or.inr ⟨k', rfl, kv, hrest, hkey⟩

theorem existsNode_loads (mget : Int32 → Option Int32) (ids : List Int32) (g : NodeGroup)
    (id : Int32) : (ids.foldl (loadFrom mget) g).existsNode id = g.existsNode id := by
  induction ids generalizing g with
  | nil => rfl
  | cons first rest ih =>
    rw [List.foldl_cons, ih, loadFrom]
    split
    · exact g.existsNode_updateLoad _ _ id
    · rfl

/-- A snapshot knows the nodes whose keys are in etcd. -/
theorem load_snapshot (d : Discoverer) (history : List (List Event)) (r : ℕ)
    (mget : Int32 → Option Int32) (k : Key) :
    ((snapshot iter json prod d k.svc history r mget).load k.svc k.id).isSome =
      stored prod (storeAt json prod history r) k := by
  rw [Discoverer.load, snapshot, syncSvcFullState]
  simp only [Map.lookup_insert_ite, if_true, Option.bind_some]
  refine (existsNode_loads mget _ _ k.id).trans ?_
  have hentry : ∀ kv ∈ getPrefix (storeAt json prod history r)
      (etcdSvcPrefix (servicePrefix prod) k.svc), Entry json prod kv :=
    fun kv hkv => entry_storeAt history r kv (List.mem_of_mem_filter hkv)
  rw [Bool.eq_iff_iff, existsNode_kvs _ hentry, stored_iff]
  simp only [NodeGroup.existsNode_new, Bool.false_eq_true, false_or, getPrefix, List.mem_filter,
    List.isPrefixOf_iff_prefix]
  constructor
  · rintro ⟨k', hid, kv, ⟨hmem, hpre⟩, hkey⟩
    rw [hkey, svcPrefix_iff _ k.noSlash] at hpre
    obtain rfl : k' = k := Key.ext hpre hid
    exact ⟨kv, hmem, hkey⟩
  · rintro ⟨kv, hmem, hkey⟩
    refine ⟨k, rfl, kv, ⟨hmem, ?_⟩, hkey⟩
    rw [hkey, svcPrefix_iff _ k.noSlash]

theorem snapshot_watching (d : Discoverer) (svc : String) (history : List (List Event)) (r : ℕ)
    (mget : Int32 → Option Int32) :
    svc ∈ (snapshot iter json prod d svc history r mget).watching :=
  Finset.mem_insert_self svc d.watching

end Snapshot

/-- A snapshot at revision `r` and the events up to revision `n` lead to the same
nodes as a snapshot at revision `n`, whatever was known before: those whose keys
are in etcd then. `evs` are the events of these revisions, with those of other
services or without. -/
theorem discovery_mirrors_etcd {ω : Type} (iter : Iter) (json : Codec ω) (prod : String)
    (history : List (List Event)) {r n : ℕ} (hrn : r ≤ n) {svc : String}
    (hsvc : '/' ∉ svc.toList) (evs : List Event)
    (hevs : evs.filter (watched prod svc) = (between history r n).filter (watched prod svc))
    (d d' : Discoverer) (mget mget' : Int32 → Option Int32) :
    SameNodes iter json
        (evs.foldl (onEvent iter json prod) (snapshot iter json prod d svc history r mget))
        (snapshot iter json prod d' svc history n mget') svc ∧
      (∀ id, ((snapshot iter json prod d' svc history n mget').load svc id).isSome = true ↔
        ∃ kv ∈ storeAt json prod history n,
          kv.1 = Key.path (servicePrefix prod) ⟨svc, id, hsvc⟩) ∧
      ∀ (d : Discoverer) (ev : Event) (other : String), ev.key.svc ≠ other →
        (onEvent iter json prod d ev).services.lookup other = d.services.lookup other ∧
          (onEvent iter json prod d ev).watching = d.watching := by
  refine ⟨SameNodes.of_known ?_ (snapshot_watching d' svc history n mget') fun id => ?_,
    fun id => by rw [load_snapshot d' history n mget' ⟨svc, id, hsvc⟩, stored_iff],
    fun d ev other hne => ⟨onEvent_other d ev hne, onEvent_watching d ev⟩⟩
  · rw [events_watching]
    exact snapshot_watching d svc history r mget
  · let k : Key := ⟨svc, id, hsvc⟩
    have hsame : ∀ known,
        evs.foldl (track k) known = (between history r n).foldl (track k) known := by
      intro known
      rw [← track_filter prod evs k, ← track_filter prod (between history r n) k, hevs]
    calc ((evs.foldl (onEvent iter json prod)
          (snapshot iter json prod d svc history r mget)).load svc id).isSome
      _ = evs.foldl (track k)
            ((snapshot iter json prod d svc history r mget).load svc id).isSome :=
          load_events evs _ k
      _ = evs.foldl (track k) (stored prod (storeAt json prod history r) k) :=
          congrArg (evs.foldl (track k)) (load_snapshot d history r mget k)
      _ = (between history r n).foldl (track k) (stored prod (storeAt json prod history r) k) :=
          hsame _
      _ = stored prod (storeAt json prod history n) k := by
          rw [storeAt_between history hrn, stored_events]
      _ = ((snapshot iter json prod d' svc history n mget').load svc id).isSome :=
          (load_snapshot d' history n mget' k).symm

/-- Nodes as their own encodings. -/
def plainNodes : Codec Node := ⟨id, some, fun _ => rfl⟩

noncomputable def anyOrder : Iter := fun nodes =>
  ⟨nodes.keys.toList, nodes.keys.nodup_toList, nodes.keys.toList_toFinset⟩

/-- A service loses its only node and gets it back, between events of another one. -/
def nodeComesBack : List (List Event) :=
  let game : Key := ⟨"game", 1, by decide⟩
  let gate : Key := ⟨"gate", 1, by decide⟩
  [[.put game ⟨"game", 1, 0⟩], [.put gate ⟨"gate", 1, 0⟩], [.delete game, .delete gate],
    [.put game ⟨"game", 1, 5⟩]]

theorem nodeComesBack_mirrored :
    SameNodes anyOrder plainNodes
        (((between nodeComesBack 1 4).filter (watched "prod" "game")).foldl
          (onEvent anyOrder plainNodes "prod")
          (snapshot anyOrder plainNodes "prod" ⟨∅, ∅⟩ "game" nodeComesBack 1 fun _ => none))
        (snapshot anyOrder plainNodes "prod" ⟨∅, ∅⟩ "game" nodeComesBack 4 fun _ => some 7)
        "game" ∧
      (((between nodeComesBack 1 3).foldl (onEvent anyOrder plainNodes "prod")
          (snapshot anyOrder plainNodes "prod" ⟨∅, ∅⟩ "game" nodeComesBack 1 fun _ => none)).load
        "game" 1 = none) ∧
      (snapshot anyOrder plainNodes "prod" ⟨∅, ∅⟩ "game" nodeComesBack 4 fun _ => some 7).load
        "game" 1 = some 7 :=
  ⟨(discovery_mirrors_etcd anyOrder plainNodes "prod" nodeComesBack (by decide) (by decide) _
      (by simp) ⟨∅, ∅⟩ ⟨∅, ∅⟩ (fun _ => none) (fun _ => some 7)).1,
    by decide +kernel, by decide +kernel⟩

end GameCluster.Discovery
