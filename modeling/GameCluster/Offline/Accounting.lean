import GameCluster.Offline.Events

/-!
Where an offline event can be. In runs that keep `Do` and the cut of `Add` apart
every event is handled once, waits in the list, or was cut off with at least
`MaxEvents` newer ones behind it. The two ends of the list are told apart by
`Phase`: between the commands of a `Do` the elements that it has read are a
prefix of the list, and those of them that it has come past are the ones in the
list that have been handled.
-/

namespace GameCluster.Offline

open Lib

variable {h : Handlers} {s t : State} {a : Act}

/-- The `RPUSH` of this `Add` has run. -/
def State.Pushed (s : State) (i : ℕ) : Prop := ∃ c, s.adds[i]? = some c ∧ c.pc ≠ .rpush

def State.Found (s : State) (i : ℕ) : Prop :=
  i ∈ s.handled ∨ i ∈ s.list ∨ ∃ e ∈ s.evicted, e.id = i

/-- Every event that was added is handled exactly once, or still in the list, or
was evicted with at least `MaxEvents` newer events in the list. -/
structure State.Accounted (s : State) : Prop where
  once : s.handled.Nodup
  found : ∀ i, s.Pushed i → s.Found i
  evicted : ∀ e ∈ s.evicted, maxEvents ≤ e.newer ∧ e.id ∉ s.list ∧ e.id ∉ s.handled
  unhandled : s.calm = true → ∀ i ∈ s.list, i ∉ s.handled

theorem State.calm_iff :
    s.calm = true ↔ ∀ (d : ℕ) (ss : List ℕ) (i : ℕ), s.dos[d]? ≠ some (.handling ss i) := by
  rw [State.calm, List.all_eq_true]
  constructor
  · intro hall d ss i hd
    exact absurd (hall _ (List.mem_of_getElem? hd)) (by simp [DoPc.reading])
  · intro hnone pc hpc
    obtain ⟨d, hd⟩ := List.mem_iff_getElem?.mp hpc
    cases pc with
    | handling ss i => exact absurd hd (hnone d ss i)
    | lrange | done => rfl

theorem id_mem_of_mem_cut {l : List ℕ} {e : Evicted} (he : e ∈ cut l) :
    e.id ∈ l.take (l.length - maxEvents) ∧ maxEvents ≤ e.newer := by
  obtain ⟨⟨id, i⟩, hmem, rfl⟩ := List.mem_map.mp he
  have hid := List.mem_zipIdx_iff_getElem?.mp hmem
  have hi := lt_length_of_some hid
  rw [List.length_take] at hi
  exact ⟨List.mem_of_getElem? hid, by simp only; omega⟩

theorem exists_mem_cut {l : List ℕ} {id : ℕ} (hid : id ∈ l.take (l.length - maxEvents)) :
    ∃ e ∈ cut l, e.id = id := by
  obtain ⟨i, hi⟩ := List.mem_iff_getElem?.mp hid
  exact ⟨_, List.mem_map.mpr ⟨(id, i), List.mem_zipIdx_iff_getElem?.mpr hi, rfl⟩, rfl⟩

/-- The handled elements of the list: none while no `Do` is between its commands,
and otherwise those that the one such `Do` has come past. -/
inductive Phase (s : State) : Prop
  | calm (hnone : ∀ (d : ℕ) (ss : List ℕ) (i : ℕ), s.dos[d]? ≠ some (.handling ss i))
      (hfresh : ∀ id ∈ s.list, id ∉ s.handled)
  | reading {d : ℕ} {ss : List ℕ} {i : ℕ} (hd : s.dos[d]? = some (.handling ss i))
      (halone : ∀ (d' : ℕ) (ss' : List ℕ) (i' : ℕ),
        s.dos[d']? = some (.handling ss' i') → d' = d)
      (hfront : ss <+: s.list) (hpast : ∀ id ∈ s.list, id ∈ s.handled ↔ id ∈ ss.take i)

theorem Phase.calm_of (hp : Phase s) (hcalm : s.calm = true) : ∀ id ∈ s.list, id ∉ s.handled := by
  cases hp with
  | calm _ hfresh => exact hfresh
  | reading hd => exact absurd hd (State.calm_iff.mp hcalm _ _ _)

structure Inv (h : Handlers) (s : State) : Prop where
  passes : ∀ (i : ℕ) (c : AddCall), s.adds[i]? = some c → h.passes c.evt = true
  nodup : s.list.Nodup
  once : s.handled.Nodup
  found : ∀ i, s.Pushed i ↔ s.Found i
  evicted : ∀ e ∈ s.evicted, maxEvents ≤ e.newer ∧ e.id ∉ s.list ∧ e.id ∉ s.handled
  phase : Phase s

theorem Inv.accounted (hi : Inv h s) : s.Accounted where
  once := hi.once
  found i := (hi.found i).mp
  evicted := hi.evicted
  unhandled := hi.phase.calm_of

theorem Inv.init : Inv h {} where
  passes _ _ hc := nomatch hc
  nodup := List.nodup_nil
  once := List.nodup_nil
  found i := by simp [State.Pushed, State.Found]
  evicted _ he := nomatch he
  phase := .calm (fun _ _ _ hd => nomatch hd) (fun _ hid => nomatch hid)

variable {d i j : ℕ} {ss : List ℕ} {c : AddCall} {pc : AddPc}

/-- The `Do` that is between its commands is the one of the phase. -/
theorem Phase.at_handling (hp : Phase s) (hd : s.dos[d]? = some (.handling ss i)) :
    (∀ (d' : ℕ) (ss' : List ℕ) (i' : ℕ), s.dos[d']? = some (.handling ss' i') → d' = d) ∧
      ss <+: s.list ∧ ∀ id ∈ s.list, id ∈ s.handled ↔ id ∈ ss.take i := by
  cases hp with
  | calm hnone => exact absurd hd (hnone d ss i)
  | reading hd' halone hfront hpast =>
    obtain rfl := halone d ss i hd
    obtain ⟨rfl, rfl⟩ := DoPc.handling.inj (Option.some.inj (hd.symm.trans hd'))
    exact ⟨halone, hfront, hpast⟩

/-- A step outside `Do` that lets the list grow by elements not handled. -/
theorem Phase.grow (hp : Phase s) (hdos : t.dos = s.dos) (hhandled : t.handled = s.handled)
    {more : List ℕ} (hlist : t.list = s.list ++ more) (hmore : ∀ id ∈ more, id ∉ s.handled)
    (hnew : ∀ id ∈ more, id ∉ s.list) : Phase t := by
  cases hp with
  | calm hnone hfresh =>
    refine .calm (hdos ▸ hnone) fun id hid => ?_
    rw [hhandled]
    rw [hlist] at hid
    exact (List.mem_append.mp hid).elim (hfresh id) (hmore id)
  | reading hd halone hfront hpast =>
    refine .reading (hdos ▸ hd) (hdos ▸ halone) (hlist ▸ hfront.trans (List.prefix_append _ _))
      fun id hid => ?_
    rw [hhandled]
    rw [hlist] at hid
    rcases List.mem_append.mp hid with hold | hid
    · exact hpast id hold
    · refine iff_of_false (hmore id hid) fun htake => ?_
      exact hnew id hid (hfront.subset (List.mem_of_mem_take htake))

theorem Phase.frame (hp : Phase s) (hdos : t.dos = s.dos) (hhandled : t.handled = s.handled)
    (hlist : t.list = s.list) : Phase t :=
  hp.grow hdos hhandled (hlist.trans (List.append_nil _).symm) (fun _ hid => nomatch hid)
    (fun _ hid => nomatch hid)

theorem pushed_concat {evt : EvtOffline} (hadds : t.adds = s.adds ++ [⟨evt, .rpush⟩]) (i : ℕ) :
    t.Pushed i ↔ s.Pushed i := by
  unfold State.Pushed
  rw [hadds, getElem?_concat]
  split
  · rename_i hi
    simp [hi]
  · exact Iff.rfl

theorem pushed_set (hc : s.adds[j]? = some c) (hadds : t.adds = s.adds.set j { c with pc })
    (hpc : pc ≠ .rpush) (i : ℕ) :
    t.Pushed i ↔ i = j ∨ s.Pushed i := by
  unfold State.Pushed
  rw [hadds, getElem?_set_some hc]
  split
  · rename_i hi
    exact iff_of_true ⟨_, rfl, hpc⟩ (Or.inl hi)
  · rename_i hi
    simp [hi]

/-- A step of an `Add` whose `RPUSH` has run. -/
theorem pushed_set_later (hc : s.adds[j]? = some c) (hadds : t.adds = s.adds.set j { c with pc })
    (hpc : pc ≠ .rpush) (hold : c.pc ≠ .rpush) (i : ℕ) : t.Pushed i ↔ s.Pushed i := by
  rw [pushed_set hc hadds hpc]
  exact or_iff_right_of_imp fun hi => ⟨c, hi ▸ hc, hold⟩

theorem passes_set (hc : s.adds[j]? = some c)
    (hpasses : ∀ (i : ℕ) (c : AddCall), s.adds[i]? = some c → h.passes c.evt = true) (i : ℕ)
    (c' : AddCall) (hc' : (s.adds.set j { c with pc })[i]? = some c') :
    h.passes c'.evt = true := by
  rw [getElem?_set_some hc] at hc'
  split at hc'
  · cases hc'
    exact hpasses j c hc
  · exact hpasses i c' hc'

/-- A step that moves no event. -/
theorem Inv.frame (hi : Inv h s) (hlist : t.list = s.list) (hhandled : t.handled = s.handled)
    (hevicted : t.evicted = s.evicted)
    (hpasses : ∀ (i : ℕ) (c : AddCall), t.adds[i]? = some c → h.passes c.evt = true)
    (hpushed : ∀ i, t.Pushed i ↔ s.Pushed i) (hphase : Phase t) : Inv h t where
  passes := hpasses
  nodup := hlist ▸ hi.nodup
  once := hhandled ▸ hi.once
  found i := by
    rw [hpushed, hi.found, State.Found, State.Found, hlist, hhandled, hevicted]
  evicted := by
    rw [hlist, hhandled, hevicted]
    exact hi.evicted
  phase := hphase

theorem Inv.rpush (hi : Inv h s) (hc : s.adds[i]? = some c) (hpc : c.pc = .rpush) :
    Inv h ({ s with list := s.list ++ [i] }.setAdd i c .ltrim) := by
  have hnot : ¬s.Found i := by
    rw [← hi.found]
    rintro ⟨c', hc', hpc'⟩
    obtain rfl := Option.some.inj (hc.symm.trans hc')
    exact hpc' hpc
  have hlist : i ∉ s.list := fun hmem => hnot (Or.inr (Or.inl hmem))
  refine ⟨passes_set hc hi.passes, ?_, hi.once, fun j => ?_, fun e he => ?_, ?_⟩
  · exact hi.nodup.append (List.nodup_singleton i) (List.disjoint_singleton.mpr hlist)
  · rw [pushed_set hc rfl (by decide), hi.found]
    simp only [State.Found, State.setAdd, List.mem_append, List.mem_singleton]
    tauto
  · obtain ⟨hnewer, hnlist, hnhandled⟩ := hi.evicted e he
    refine ⟨hnewer, fun hmem => ?_, hnhandled⟩
    rcases List.mem_append.mp hmem with hmem | hmem
    · exact hnlist hmem
    · exact hnot (Or.inr (Or.inr ⟨e, he, List.mem_singleton.mp hmem⟩))
  · refine hi.phase.grow (by rfl) (by rfl) (by rfl) (fun id hid => ?_) fun id hid => ?_
    · rw [List.mem_singleton.mp hid]
      exact fun hmem => hnot (Or.inl hmem)
    · rw [List.mem_singleton.mp hid]
      exact hlist

/-- The cut of an `Add`, at a time when no `Do` is between its commands or there
is nothing to cut. -/
theorem Inv.ltrim (hi : Inv h s) (hc : s.adds[i]? = some c) (hpc : c.pc = .ltrim)
    (hok : s.calm = true ∨ s.list.length ≤ maxEvents) :
    Inv h ({ s with
      list := s.list.drop (s.list.length - maxEvents)
      evicted := s.evicted ++ cut s.list }.setAdd i c .expire) := by
  have hold : c.pc ≠ .rpush := by rw [hpc]; decide
  rcases hok with hcalm | hlen
  · have hfresh := hi.phase.calm_of hcalm
    have hsplit := List.take_append_drop (s.list.length - maxEvents) s.list
    refine ⟨passes_set hc hi.passes, hi.nodup.sublist (List.drop_sublist _ _), hi.once,
      fun j => ?_, fun e he => ?_, ?_⟩
    · rw [pushed_set_later hc rfl (by decide) hold, hi.found]
      have hcut : (∃ e ∈ cut s.list, e.id = j) ↔ j ∈ s.list.take (s.list.length - maxEvents) :=
        ⟨fun ⟨e, he, hj⟩ => hj ▸ (id_mem_of_mem_cut he).1, exists_mem_cut⟩
      have hmem : j ∈ s.list ↔ j ∈ s.list.take (s.list.length - maxEvents) ∨
          j ∈ s.list.drop (s.list.length - maxEvents) := by
        rw [← List.mem_append, hsplit]
      simp only [State.Found, State.setAdd, List.mem_append, or_and_right, exists_or, hcut, hmem,
        or_assoc, or_comm]
    · rcases List.mem_append.mp he with he | he
      · obtain ⟨hnewer, hnlist, hnhandled⟩ := hi.evicted e he
        exact ⟨hnewer, fun hmem => hnlist (List.mem_of_mem_drop hmem), hnhandled⟩
      · obtain ⟨htake, hnewer⟩ := id_mem_of_mem_cut he
        have hdisjoint := List.disjoint_take_drop hi.nodup (le_refl (s.list.length - maxEvents))
        exact ⟨hnewer, fun hmem => hdisjoint htake hmem,
          hfresh _ (List.mem_of_mem_take htake)⟩
    · exact .calm (State.calm_iff.mp hcalm) fun id hid => hfresh id (List.mem_of_mem_drop hid)
  · have hzero : s.list.length - maxEvents = 0 := by omega
    have hlist : s.list.drop (s.list.length - maxEvents) = s.list := by
      rw [hzero, List.drop_zero]
    refine hi.frame hlist rfl ?_ (passes_set hc hi.passes)
      (pushed_set_later hc rfl (by decide) hold) (hi.phase.frame rfl rfl hlist)
    simp only [State.setAdd, cut, hzero, List.take_zero, List.zipIdx_nil, List.map_nil,
      List.append_nil]

/-- The step of a `Do` leaves the other calls of `Do` where they are. -/
theorem dos_set {pc pc' : DoPc} (hd : s.dos[d]? = some pc) (hdos : t.dos = s.dos.set d pc')
    {d' : ℕ} (hd' : t.dos[d']? = some (.handling ss i)) :
    d' = d ∧ pc' = .handling ss i ∨ s.dos[d']? = some (.handling ss i) := by
  rw [hdos, getElem?_set_some hd] at hd'
  split at hd'
  · rename_i heq
    exact Or.inl ⟨heq, Option.some.inj hd'⟩
  · exact Or.inr hd'

theorem Phase.call (hp : Phase s) : Phase { s with dos := s.dos ++ [.lrange] } := by
  have hback : ∀ (d : ℕ) (ss : List ℕ) (i : ℕ),
      (s.dos ++ [.lrange])[d]? = some (.handling ss i) → s.dos[d]? = some (.handling ss i) := by
    intro d ss i hd
    rw [getElem?_concat] at hd
    split at hd
    · cases hd
    · exact hd
  cases hp with
  | calm hnone hfresh => exact .calm (fun d ss i hd => hnone d ss i (hback d ss i hd)) hfresh
  | reading hd halone hfront hpast =>
    refine .reading ?_ (fun d ss i hd => halone d ss i (hback d ss i hd)) hfront hpast
    rw [getElem?_concat, if_neg (lt_length_of_some hd).ne]
    exact hd

theorem Phase.read (hp : Phase s) (hcalm : s.calm = true) (hd : s.dos[d]? = some .lrange) :
    Phase { s with dos := s.dos.set d (.handling (s.list.take maxEvents) 0) } := by
  have hself : (s.dos.set d (.handling (s.list.take maxEvents) 0))[d]? =
      some (.handling (s.list.take maxEvents) 0) := by
    rw [getElem?_set_some hd, if_pos rfl]
  refine .reading hself (fun d' ss' i' hd' => ?_) (List.take_prefix _ _) fun id hid => ?_
  · rcases dos_set hd rfl hd' with ⟨heq, _⟩ | hd'
    · exact heq
    · exact absurd hd' (State.calm_iff.mp hcalm d' ss' i')
  · exact iff_of_false (hp.calm_of hcalm id hid) (by simp)

theorem Phase.leave (hp : Phase s) (hcalm : s.calm = true) (hd : s.dos[d]? = some .lrange) :
    Phase { s with dos := s.dos.set d .done } := by
  refine .calm (fun d' ss' i' hd' => ?_) (hp.calm_of hcalm)
  rcases dos_set hd rfl hd' with ⟨_, hpc⟩ | hd'
  · cases hpc
  · exact State.calm_iff.mp hcalm d' ss' i' hd'

theorem Inv.handle (hi : Inv h s) {i id : ℕ} (hd : s.dos[d]? = some (.handling ss i))
    (hid : ss[i]? = some id) :
    Inv h { s with
      handled := if s.passes h id then s.handled ++ [id] else s.handled
      dos := s.dos.set d (.handling ss (i + 1)) } := by
  obtain ⟨halone, hfront, hpast⟩ := hi.phase.at_handling hd
  have hlist : id ∈ s.list := hfront.subset (List.mem_of_getElem? hid)
  obtain ⟨c, hc, hpc⟩ := (hi.found id).mpr (Or.inr (Or.inl hlist))
  have hpasses : s.passes h id = true := by
    rw [State.passes, hc]
    exact hi.passes id c hc
  -- the list has no element twice, so this one is not among those before it
  have hnew : id ∉ s.handled := by
    rw [hpast id hlist]
    have hnodup := hi.nodup.sublist hfront.sublist
    rw [eq_take_cons_drop hid] at hnodup
    exact fun hmem => (List.nodup_append.mp hnodup).2.2 id hmem id (List.mem_cons_self ..) rfl
  have htake : ss.take (i + 1) = ss.take i ++ [id] := by
    rw [List.take_add_one, hid]
    rfl
  rw [if_pos hpasses]
  refine ⟨hi.passes, hi.nodup, ?_, fun j => ?_, fun e he => ?_, ?_⟩
  · exact hi.once.append (List.nodup_singleton id) (List.disjoint_singleton.mpr hnew)
  · refine (hi.found j).trans ?_
    simp only [State.Found, List.mem_append, List.mem_singleton]
    constructor
    · exact Or.imp_left Or.inl
    · rintro ((hj | rfl) | hj)
      · exact Or.inl hj
      · exact Or.inr (Or.inl hlist)
      · exact Or.inr hj
  · obtain ⟨hnewer, hnlist, hnhandled⟩ := hi.evicted e he
    refine ⟨hnewer, hnlist, fun hmem => ?_⟩
    rcases List.mem_append.mp hmem with hmem | hmem
    · exact hnhandled hmem
    · exact hnlist (List.mem_singleton.mp hmem ▸ hlist)
  · have hself : (s.dos.set d (.handling ss (i + 1)))[d]? = some (.handling ss (i + 1)) := by
      rw [getElem?_set_some hd, if_pos rfl]
    refine .reading hself (fun d' ss' i' hd' => ?_) hfront fun j hj => ?_
    · rcases dos_set hd rfl hd' with ⟨heq, _⟩ | hd'
      · exact heq
      · exact halone d' ss' i' hd'
    · rw [htake, List.mem_append, List.mem_append, hpast j hj]

theorem Inv.trim (hi : Inv h s) (hd : s.dos[d]? = some (.handling ss i)) (hend : ss.length ≤ i) :
    Inv h { s with list := s.list.drop ss.length, dos := s.dos.set d .done } := by
  obtain ⟨halone, ⟨rest, hrest⟩, hpast⟩ := hi.phase.at_handling hd
  rw [List.take_of_length_le hend] at hpast
  have hdrop : s.list.drop ss.length = rest := by rw [← hrest, List.drop_left]
  have hnodup : (ss ++ rest).Nodup := hrest ▸ hi.nodup
  have hmem : ∀ j, j ∈ s.list ↔ j ∈ ss ∨ j ∈ rest := fun j => by rw [← hrest, List.mem_append]
  rw [hdrop]
  refine ⟨hi.passes, hnodup.sublist (List.sublist_append_right _ _), hi.once, fun j => ?_,
    fun e he => ?_, ?_⟩
  · refine (hi.found j).trans ⟨?_, ?_⟩
    · rintro (hj | hj | hj)
      · exact Or.inl hj
      · rcases (hmem j).mp hj with hss | hj'
        · exact Or.inl ((hpast j hj).mpr hss)
        · exact Or.inr (Or.inl hj')
      · exact Or.inr (Or.inr hj)
    · rintro (hj | hj | hj)
      · exact Or.inl hj
      · exact Or.inr (Or.inl ((hmem j).mpr (Or.inr hj)))
      · exact Or.inr (Or.inr hj)
  · obtain ⟨hnewer, hnlist, hnhandled⟩ := hi.evicted e he
    exact ⟨hnewer, fun hj => hnlist ((hmem _).mpr (Or.inr hj)), hnhandled⟩
  · refine .calm (fun d' ss' i' hd' => ?_) fun j hj => ?_
    · rcases dos_set hd rfl hd' with ⟨_, hpc⟩ | hold
      · cases hpc
      · have heq := halone d' ss' i' hold
        rw [heq, getElem?_set_some hd, if_pos rfl] at hd'
        cases hd'
    · rw [hpast j ((hmem j).mpr (Or.inr hj))]
      exact fun hss => (List.nodup_append.mp hnodup).2.2 j hss j hj rfl

theorem Inv.effect (hi : Inv h s) (hok : apart h s a) (e : Effect h s a t) : Inv h t := by
  cases e with
  | add evt =>
    refine hi.frame rfl rfl rfl (fun i c hc => ?_) (pushed_concat rfl)
      (hi.phase.frame rfl rfl rfl)
    rw [getElem?_concat] at hc
    split at hc
    · cases hc
      exact hok
    · exact hi.passes i c hc
  | rpush hc hpc => exact hi.rpush hc hpc
  | ltrim hc hpc => exact hi.ltrim hc hpc (hok (by rw [hc]; exact decide_eq_true hpc))
  | expire hc hpc =>
    refine hi.frame rfl rfl rfl (passes_set hc hi.passes)
      (pushed_set_later hc rfl (by decide) ?_) (hi.phase.frame rfl rfl rfl)
    rw [hpc]
    decide
  | call => exact hi.frame rfl rfl rfl hi.passes (fun _ => Iff.rfl) hi.phase.call
  | empty hd _ =>
    exact hi.frame rfl rfl rfl hi.passes (fun _ => Iff.rfl) (hi.phase.leave (hok hd) hd)
  | read hd => exact hi.frame rfl rfl rfl hi.passes (fun _ => Iff.rfl) (hi.phase.read (hok hd) hd)
  | handle hd hid => exact hi.handle hd hid
  | trim hd hend => exact hi.trim hd hend

theorem inv_of_reachable (hr : (offlineEvents h).Reachable (apart h) s) : Inv h s := by
  refine hr.invariant (P := Inv h) ?_ ?_
  · rintro s rfl
    exact Inv.init
  · intro s a t _ hi hok hs
    exact hi.effect hok (step_effect hs)

/-- Between an event's `RPUSH` and any later point of a run that keeps the calls
apart, the event has been handled once, or is in the list, or has been evicted
by `MaxEvents` newer ones. -/
theorem offline_events_accounted (hr : (offlineEvents h).Reachable (apart h) s) : s.Accounted :=
  (inv_of_reachable hr).accounted

def loginEvent : EvtOffline where
  msgName := "pb.S2SReqLogin"
  data := [8, 1]
  roleID := 5000

/-- The calls of `Add` from number `i` on, each to its end. -/
def addCalls (i n : ℕ) : List Act :=
  (List.range' i n).flatMap fun i => [.add loginEvent, .stepAdd i, .stepAdd i, .stepAdd i]

/-- Two events, and a third that arrives between the commands of the `Do` that
handles the two. -/
theorem thirdEvent_accounted : ∃ s,
    (offlineEvents everyHandler).Reachable (apart everyHandler) s ∧
      (s.handled = [0, 1] ∧ s.list = [2]) ∧ s.Accounted := by
  obtain ⟨s, hr, hs⟩ := Machine.exec_reaches (m := offlineEvents everyHandler)
    (apart everyHandler) (fun s => s.handled = [0, 1] ∧ s.list = [2])
    (addCalls 0 2 ++ [Act.call, .stepDo 0] ++ addCalls 2 1 ++
      [Act.stepDo 0, .stepDo 0, .stepDo 0]) rfl
    (by decide +kernel)
  exact ⟨s, hr, hs, offline_events_accounted hr⟩

/-- Ten events wait and a `Do` has read them. The `Add` of an eleventh evicts the
oldest, so that the cut of the `Do` by ten elements takes the eleventh away with
the nine that are left, and no `Do` ever sees it. -/
theorem eleventhEvent_lost : ∃ s,
    (offlineEvents everyHandler).Reachable Machine.anyStep s ∧ ¬s.Accounted := by
  obtain ⟨s, hr, hpushed, hhandled, hlist, hevicted⟩ :=
    Machine.exec_reaches (m := offlineEvents everyHandler) Machine.anyStep
      (fun s => s.adds[10]? = some ⟨loginEvent, .done⟩ ∧ 10 ∉ s.handled ∧ s.list = [] ∧
        s.evicted = [⟨0, 10⟩])
      (addCalls 0 10 ++ [Act.call, .stepDo 0] ++ addCalls 10 1 ++
        List.replicate 11 (Act.stepDo 0)) rfl
      (by decide +kernel)
  refine ⟨s, hr, fun hacc => ?_⟩
  rcases hacc.found 10 ⟨_, hpushed, by decide⟩ with hmem | hmem | ⟨e, he, hid⟩
  · exact hhandled hmem
  · rw [hlist] at hmem
    cases hmem
  · rw [hevicted, List.mem_singleton] at he
    rw [he] at hid
    cases hid

end GameCluster.Offline
