import GameCluster.Logon.History
import GameCluster.Logon.Savers
import GameCluster.Logon.Simulation

/-!
Role IDs that are closed: no role of theirs waits for its `EvtLogout` to be
processed, so all that is left of them is the record of the last one. While an
ID is closed, its entry remembers that record, and nothing but that record is
pushed to its saver.
-/

namespace GameCluster

open Lib Protocol

variable {s s' : State} {id : RoleID} {l : Record}

variable {ok : State → Act → Prop} {r : Nat} {data : DataToSave} {login : S2SReqLogin} {a : Act}
  {rest : List LogonEvent}

/-- Entries leave their initial state within the step that makes them. -/
theorem no_stateInit (h : gameServer.Reachable ok s) :
    ∀ (id : RoleID) (v : LoginData), s.data.lookup id = some v → v.state ≠ .stateInit := by
  refine h.invariant
    (P := fun s => ∀ id (v : LoginData), s.data.lookup id = some v → v.state ≠ .stateInit) ?_ ?_
  · rintro _ ⟨now, stores, rfl⟩
    simp [State.initial]
  · intro s a t _ hi _ hs id v hv
    cases (State.step_effect hs).entryMove id with
    | same heq => exact hi id v (heq ▸ hv)
    | saveRole hops hid hold heq =>
      rw [hv, Option.some.injEq] at heq
      subst heq
      have hne := hi id _ hold
      exact hne
    | release hold hstate heq => simp [hv] at heq
    | kick _ _ heq | load _ _ heq | create _ _ _ _ heq | reject _ _ _ _ heq
    | logout _ _ _ heq | acked _ _ _ _ heq =>
      rw [hv, Option.some.injEq] at heq
      simp [heq]

/-- What is known of the states of a run whose steps are all `serial`. -/
structure Orderly (s : State) : Prop where
  inv : Inv s.control
  tagged : Tagged s
  saves : SavesAhead s
  sound : ∀ r ∈ s.roles, r.Sound
  savers : SaversOk s
  opened : s.pc ≠ .exited → ∀ k, (s.savers k).q.closed = false
  begun : ∀ (id : RoleID) (v : LoginData), s.data.lookup id = some v → v.state ≠ .stateInit

theorem Orderly.reachable (hserial : ∀ s a, ok s a → s.serial a) (h : gameServer.Reachable ok s) :
    Orderly s where
  inv := control_inv hserial h
  tagged := .reachable h
  saves := .reachable h
  sound := sound_reachable h
  savers := .reachable h
  opened := queues_open h
  begun := no_stateInit h

/-- The entry of the ID, if any, is neither online nor being kicked. -/
def State.Closed (s : State) (id : RoleID) : Prop :=
  ∀ v, s.data.lookup id = some v → v.state ≠ .stateOnline ∧ v.state ≠ .stateKicking

theorem closed_iff :
    s.Closed id ↔ s.control.state id ≠ some .stateOnline ∧
      s.control.state id ≠ some .stateKicking := by
  cases hv : s.data.lookup id <;> simp [State.Closed, State.control, hv]

/-- Every role of a closed ID has had its `EvtLogout` processed. -/
theorem State.Closed.logged (h : s.Closed id) (ho : Orderly s) {i : Nat} {r : Role}
    (hr : s.roles[i]? = some r) (hid : r.id = id) : i ∈ s.logged := by
  by_contra hlog
  exact ho.inv.exclusive.noneOpen (closed_iff.mp h) i r.control ⟨State.control_roles hr, hlog⟩ hid

theorem closed_of_noneOpen (ho : Orderly s) (h : NoneOpen s.control id) : s.Closed id := by
  have hclosed : ¬(s.control.state id = some .stateOnline ∨
      s.control.state id = some .stateKicking) := by
    intro hstate
    obtain ⟨i, r, hopen, hid⟩ := ho.inv.exclusive.state_role id hstate
    exact h i r hopen hid
  exact closed_iff.mpr (not_or.mp hclosed)

/-- The event's signal is in the channel of the protocol. -/
theorem signal_mem {e : LogonEvent} {sig : Signal} (he : e ∈ s.ops) (hsig : e.signal = some sig) :
    sig ∈ s.control.signals :=
  List.mem_filterMap.mpr ⟨e, he, hsig⟩

/-- The `EvtLogout` of a closed ID is not in the channel, -/
theorem State.Closed.no_logout (h : s.Closed id) (ho : Orderly s) (he : .logout data r ∈ s.ops) :
    data.roleID ≠ id := by
  intro hid
  obtain ⟨role, hr, hrid, _⟩ := ho.tagged.events _ he
  obtain ⟨_, _, _, hlog⟩ := (ho.inv.channel.logout r).mp (signal_mem he rfl)
  exact hlog (h.logged ho hr (hrid.trans hid))

/-- nor is a save of one of its roles. -/
theorem State.Closed.no_saveRole (h : s.Closed id) (ho : Orderly s) {both : Bool}
    (he : .saveRole data both r ∈ s.ops) : data.roleID ≠ id := by
  intro hid
  obtain ⟨⟨role, hr, hrid⟩, _⟩ := ho.tagged.events _ he
  exact ho.saves.unlogged _ he r rfl (h.logged ho hr (hrid.trans hid))

/-- The entry of a role whose load has been heard is pending. -/
theorem loaded_pending (ho : Orderly s) {msg : S2SReqLogin} {i : Nat}
    (he : .dbLoaded msg data i ∈ s.ops) :
    s.control.state data.roleID = some .statePending := by
  obtain ⟨⟨ld, hl, rfl⟩, hid⟩ := ho.tagged.events _ he
  obtain ⟨c, hc, hp⟩ := (ho.inv.channel.loaded i).mp (signal_mem he rfl)
  rw [State.control_loads hl, Option.some.injEq] at hc
  rw [hid]
  exact ho.inv.exclusive.load_state i ld.control (State.control_loads hl) (by simp [hc, hp])

/-- `initRole` is called for closed IDs only. -/
theorem Starts.closed (h : Starts s data login) (ho : Orderly s) :
    data.roleID = login.roleID ∧ s.Closed data.roleID := by
  cases h with
  | relogin hops hv hstate =>
    refine ⟨rfl, fun w hw => ?_⟩
    rw [hv, Option.some.injEq] at hw
    subst hw
    rcases hstate with hst | hst <;> simp [hst]
  | @loaded _ _ i rest hops =>
    have he : .dbLoaded login data i ∈ s.ops := by simp [hops]
    refine ⟨(ho.tagged.events _ he).2, closed_iff.mpr ?_⟩
    simp [loaded_pending ho he]
  | @reentry _ g rest v hops hv =>
    obtain ⟨w, hw, hlogin⟩ := ho.tagged.events (.reentry login g) (by simp [hops])
    have hquiet := (ho.inv.heardReentry_quiet (control_signals hops rfl)
      (State.control_reentries hw)).1
    have hid : w.control.id = login.roleID := by rw [← hlogin]; rfl
    rw [hid] at hquiet
    exact ⟨rfl, closed_of_noneOpen ho hquiet⟩

/-- An ID that is closed after a step was so before, unless the step processed
an `EvtLogout` of it. -/
theorem Effect.closed_before (he : Effect s a s') (ho : Orderly s) (h : s'.Closed id)
    (hlogout : ∀ data r rest, LogoutStep s a data r rest s' → data.roleID ≠ id) :
    s.Closed id := by
  cases he.entryMove id with
  | same heq => exact fun v hv => h v (heq ▸ hv)
  | kick hv hstate heq => exact absurd rfl (h _ heq).2
  | @load v hv hstate heq =>
    intro w hw
    rw [hw, Option.getD_some] at hv
    subst hv
    rcases hstate with hst | hst <;> simp [hst]
  | create hstart hid haccept hv heq | reject hstart hid hbad hv heq =>
    exact hid ▸ (hstart.closed ho).2
  | @logout data r rest v hops hid hv heq hlogged =>
    rcases he.logged with hsame | ⟨data', r', rest', hstep⟩
    · simp [hlogged] at hsame
    · have hdata := hstep.ops
      rw [hops, List.cons.injEq, LogonEvent.logout.injEq] at hdata
      exact absurd hid (hdata.1.1 ▸ hlogout _ _ _ hstep)
  | saveRole hops hid hv heq =>
    intro w hw
    rw [hv, Option.some.injEq] at hw
    subst hw
    have hclosed := h _ heq
    exact hclosed
  | acked hops hmem hv hstate heq | release hv hstate heq =>
    intro w hw
    rw [hv, Option.some.injEq] at hw
    simp [← hw, hstate]

/-- The entry of an ID whose last role logged out with `l` remembers it. -/
def Remembers (s : State) (id : RoleID) (l : Record) : Prop :=
  ∀ v, s.data.lookup id = some v → v.state = .stateOffline ∨ v.state = .stateCanDel →
    v.cache = some l

/-- A re-entry that is heard while its ID is closed finds an offline entry. -/
theorem Orderly.reentry_offline (ho : Orderly s) {g : Nat}
    (hops : s.ops = .reentry login g :: rest) (hclosed : s.Closed login.roleID) {v : LoginData}
    (hv : s.data.lookup login.roleID = some v) :
    v.state = .stateOffline ∨ v.state = .stateCanDel := by
  obtain ⟨w, hw, hlogin⟩ := ho.tagged.events (.reentry login g) (by simp [hops])
  obtain ⟨c, hc, hp⟩ := (ho.inv.channel.reentry g).mp
    (signal_mem (e := .reentry login g) (by simp [hops]) rfl)
  rw [State.control_reentries hw, Option.some.injEq] at hc
  have hstate := (ho.inv.ordered.state g w.control (State.control_reentries hw)
    (by simp [hc, hp])).2
  rw [Reentry.control, hlogin, control_state hv] at hstate
  have hne := hclosed v hv
  have hni := ho.begun _ v hv
  cases hst : v.state <;> simp_all

/-- `initRole` is called with the remembered record or with a loaded one. -/
theorem Starts.remembered (h : Starts s data login) (ho : Orderly s)
    (hrem : Remembers s data.roleID l) :
    data.data = some l ∨ ∃ msg i rest, s.ops = .dbLoaded msg data i :: rest := by
  have hclosed := (h.closed ho).2
  cases h with
  | relogin hops hv hstate => exact Or.inl (hrem _ hv hstate)
  | loaded hops => exact Or.inr ⟨_, _, _, hops⟩
  | reentry hops hv => exact Or.inl (hrem _ hv (ho.reentry_offline hops hclosed hv))

/-- A closed ID goes on remembering its record, provided `NewRole` accepts what
the loaders deliver for it. -/
theorem Remembers.step (h : Remembers s id l) (he : Effect s a s') (ho : Orderly s)
    (hrec : LogoutRecord l) (hclosed : s.Closed id)
    (haccept : a = .logon .onOps → ∀ msg data i rest, s.ops = .dbLoaded msg data i :: rest →
      data.roleID = id → unmarshalRole data s.now ≠ none) :
    Remembers s' id l := by
  intro w hw hstate
  cases he.entryMove id with
  | same heq => exact h w (heq ▸ hw) hstate
  | @reject data login v hstart hid hbad hv heq hact =>
    subst hid
    rcases hbad with hnone | hne
    · exfalso
      rcases hstart.remembered ho h with hdata | ⟨msg, i, rest, hops⟩
      · exact hrec.accepted data.roleID s.now (hdata ▸ hnone)
      · exact haccept hact msg data i rest hops rfl hnone
    · exact absurd (hstart.closed ho).1 hne
  | @logout data r rest v hops hid hv heq =>
    exact absurd hid (hclosed.no_logout ho (mem_of_head hops))
  | @saveRole data both r rest v hops hid hv heq =>
    exact absurd hid (hclosed.no_saveRole ho (mem_of_head hops))
  | acked hops hmem hv hold heq =>
    rw [hw, Option.some.injEq] at heq
    subst heq
    have hcache := h _ hv (Or.inl hold)
    exact hcache
  | release hv hold heq => simp [hw] at heq
  | kick _ _ heq | load _ _ heq | create _ _ _ _ heq =>
    rw [hw, Option.some.injEq] at heq
    simp [heq] at hstate

/-- The entry that an `EvtLogout` leaves remembers the event's record. -/
theorem LogoutStep.remembers (h : LogoutStep s a data r rest s') (hl : data.data = some l) :
    Remembers s' data.roleID l := by
  intro w hw _
  rw [h.state] at hw
  have hlookup := ({ s with ops := rest }.setState data.roleID .stateOffline).saveOne_lookup
    ⟨data.roleID, data.data, false⟩ data.roleID
  rw [if_pos rfl] at hlookup
  rw [hlookup] at hw
  obtain ⟨v, _, rfl⟩ := Option.map_eq_some_iff.mp hw
  exact hl

/-- The ID of an `EvtLogout` is not closed before it is processed. -/
theorem LogoutStep.state_before (h : LogoutStep s a data r rest s') (ho : Orderly s) :
    s.control.state data.roleID = some .stateOnline ∨
      s.control.state data.roleID = some .stateKicking := by
  by_contra hstate
  exact (closed_iff.mpr (not_or.mp hstate)).no_logout ho (mem_of_head h.ops) rfl

theorem LogoutStep.state_after (h : LogoutStep s a data r rest s') (ho : Orderly s) :
    s'.control.state data.roleID = some .stateOffline := by
  have hbefore := h.state_before ho
  have hsome : ∃ v, s.data.lookup data.roleID = some v := by
    cases hv : s.data.lookup data.roleID with
    | none => simp [State.control, hv] at hbefore
    | some v => exact ⟨v, rfl⟩
  obtain ⟨v, hv⟩ := hsome
  have hlookup := ({ s with ops := rest }.setState data.roleID .stateOffline).saveOne_lookup
    ⟨data.roleID, data.data, false⟩ data.roleID
  rw [State.setState_lookup] at hlookup
  simp only [if_true, hv, Option.map_some] at hlookup
  rw [h.state]
  simp [State.control, hlookup]

/-- The saver of the role accepts the record. -/
theorem LogoutStep.accepted (h : LogoutStep s a data r rest s') (ho : Orderly s) :
    ((s.saver data.roleID).q.push ⟨data.roleID, data.data, false⟩).2 = none ∧
      s'.saver data.roleID =
        { s.saver data.roleID with
          q := ((s.saver data.roleID).q.push ⟨data.roleID, data.data, false⟩).1 } := by
  refine ⟨SwapQueue.push_accepted (ho.opened (by simp [h.idle]) _) h.room, ?_⟩
  rw [h.state]
  simp [State.saver, State.saveOne, State.push, State.setCache, State.setState]

/-- Nothing but the remembered record is pushed for a closed ID. -/
theorem Remembers.pushes (h : Remembers s id l) (ho : Orderly s)
    (hclosed : s.Closed id) (op : OpSaveData TypeComp Text)
    (hpush : Pushes s op) (hid : op.id = id) : op.values = l := by
  cases hpush with
  | logout hops => exact absurd hid (hclosed.no_logout ho (mem_of_head hops))
  | saveRole hops => exact absurd hid (hclosed.no_saveRole ho (mem_of_head hops))
  | @cleanup x v hv hstate =>
    obtain rfl : x = id := hid
    simp [OpSaveData.values, h v hv (Or.inl hstate)]

/-- The induction over a run for what holds of every closed ID and the record it
last logged out with: the `EvtLogout` establishes it, and every step that
leaves the ID closed preserves it. -/
theorem closed_invariant {K : State → RoleID → Record → Prop}
    (hserial : ∀ s a, ok s a → s.serial a)
    (hlogout : ∀ (s : State) (a : Act) (s' : State) (data : DataToSave) (r : Nat)
      (rest : List LogonEvent) (l : Record), gameServer.Reachable ok s → Orderly s → ok s a →
      LogoutStep s a data r rest s' → data.data = some l → LogoutRecord l → K s' data.roleID l)
    (hstep : ∀ (s : State) (a : Act) (s' : State) (id : RoleID) (l : Record),
      gameServer.Reachable ok s → Orderly s → ok s a → Effect s a s' → s.lastLogout id = some l →
      LogoutRecord l → s.Closed id → s'.Closed id → K s id l → K s' id l)
    (h : gameServer.Reachable ok s) (hl : s.lastLogout id = some l) (hclosed : s.Closed id) :
    K s id l := by
  revert id l
  refine h.invariant
    (P := fun s => ∀ {id l}, s.lastLogout id = some l → s.Closed id → K s id l) ?_ ?_
  · rintro _ ⟨now, stores, rfl⟩ id l hl
    simp [State.initial, State.lastLogout, State.logouts] at hl
  · intro s a s' hr hi hok hs id l hl hclosed'
    have ho : Orderly s := .reachable hserial hr
    have he := State.step_effect hs
    have keep : s.lastLogout id = some l →
        (∀ data r rest, LogoutStep s a data r rest s' → data.roleID ≠ id) → K s' id l := by
      intro hold hno
      have hclosed := he.closed_before ho hclosed' hno
      exact hstep s a s' id l hr ho hok he hold (lastLogout_record ho.tagged ho.sound hold)
        hclosed hclosed' (hi hold hclosed)
    rcases he.lastLogout ho.tagged ho.sound with
      ⟨hlog, heq⟩ | ⟨data, r, rest, l', hout, hl', hrec, heq⟩
    · refine keep (heq ▸ hl) fun data r rest hout => ?_
      simp [hout.logged] at hlog
    · by_cases hid : data.roleID = id
      · subst hid
        rw [heq, Function.update_self, Option.some.injEq] at hl
        exact hlogout s a s' data r rest l hr ho hok hout (hl ▸ hl') (hl ▸ hrec)
      · rw [heq, Function.update_of_ne (Ne.symm hid)] at hl
        refine keep hl fun data' r' rest' hout' => ?_
        have hdata := hout'.ops
        rw [hout.ops, List.cons.injEq, LogonEvent.logout.injEq] at hdata
        exact hdata.1.1 ▸ hid

end GameCluster
