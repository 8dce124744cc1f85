import GameCluster.Logon.Blocking
import GameCluster.Logon.Closed

/-!
What a closed ID has settled. As long as `NewRole` accepts what the loaders
deliver, the entry of a role that has logged out caches the complete record of
its last `EvtLogout`. If the role's key does not expire either, that record is
what Redis will hold once the savers have written everything they were given.

A first load that `NewRole` rejects breaks this: the entry turns offline
without a record, and the next login is served from its nil cache.
-/

namespace GameCluster

open Lib Protocol

variable {s s' : State} {id : RoleID} {l : Record}

/-- A pending entry has no record yet. -/
def PendingUncached (s : State) : Prop :=
  ∀ id v, s.data.lookup id = some v → v.state = .statePending → v.cache = none

variable {a : Act} {ok : State → Act → Prop} {data : DataToSave}

theorem PendingUncached.step (h : PendingUncached s) (ho : Orderly s) (he : Effect s a s') :
    PendingUncached s' := by
  intro id v hv hstate
  cases he.entryMove id with
  | same heq => exact h id v (heq ▸ hv) hstate
  | @load w hw hold heq =>
    rw [heq, Option.some.injEq] at hv
    rw [← hv]
    change w.cache = none
    cases hlookup : s.data.lookup id with
    | none =>
      rw [hlookup, Option.getD_none] at hw
      rw [← hw]
    | some u =>
      rw [hlookup, Option.getD_some] at hw
      subst hw
      exact h id u hlookup (hold.resolve_left (ho.begun id u hlookup))
  | @saveRole data both r rest w hops hid hw heq =>
    rw [heq, Option.some.injEq] at hv
    have hpending : w.state = .statePending := by
      rw [← hstate, ← hv]
    have hclosed : s.Closed id := by
      intro u hu
      rw [hw, Option.some.injEq] at hu
      simp [← hu, hpending]
    exact absurd hid (hclosed.no_saveRole ho (mem_of_head hops))
  | release hw hold heq => simp [hv] at heq
  | kick _ _ heq | create _ _ _ _ heq | reject _ _ _ _ heq | logout _ _ _ heq
  | acked _ _ _ _ heq =>
    rw [heq, Option.some.injEq] at hv
    simp [← hv] at hstate

theorem PendingUncached.reachable (hserial : ∀ s a, ok s a → s.serial a)
    (h : gameServer.Reachable ok s) :
    PendingUncached s := by
  refine h.invariant ?_ fun s a t hr hi _ hs =>
    hi.step (.reachable hserial hr) (State.step_effect hs)
  rintro _ ⟨now, stores, rfl⟩
  simp [State.initial, PendingUncached]

/-- With nothing cached for it, a load must deliver a record that `NewRole`
accepts. -/
theorem loaded_accepted (ho : Orderly s) (hp : PendingUncached s)
    (hok : s.cachedReject (.logon .onOps)) {msg : S2SReqLogin} {i : Nat} {rest : List LogonEvent}
    (hops : s.ops = .dbLoaded msg data i :: rest) :
    unmarshalRole data s.now ≠ none := by
  intro hnone
  have hstate := loaded_pending ho (mem_of_head hops)
  obtain ⟨v, hv, hpending⟩ : ∃ v, s.data.lookup data.roleID = some v ∧
      v.state = .statePending := by
    cases hv : s.data.lookup data.roleID with
    | none => simp [State.control, hv] at hstate
    | some v => exact ⟨v, rfl, by simpa [State.control, hv] using hstate⟩
  simp only [State.cachedReject, hops, decide_eq_true_eq] at hok
  have hcached := (LoginData.cached_iff v).mp (hok v hv (by simp [State.rejects, hnone]))
  simp [hp _ v hv hpending] at hcached

theorem Remembers.settled_step (h : Remembers s id l) (ho : Orderly s) (he : Effect s a s')
    (hp : PendingUncached s) (hok : s.cachedReject a) (hrec : LogoutRecord l)
    (hclosed : s.Closed id) : Remembers s' id l := by
  refine h.step he ho hrec hclosed fun hact msg data i rest hops _ => ?_
  subst hact
  exact loaded_accepted ho hp hok hops

theorem remembers_reachable (hserial : ∀ s a, ok s a → s.serial a)
    (hreject : ∀ s a, ok s a → s.cachedReject a) (h : gameServer.Reachable ok s)
    (hl : s.lastLogout id = some l) (hclosed : s.Closed id) : Remembers s id l := by
  refine closed_invariant (K := Remembers) hserial ?_ ?_ h hl hclosed
  · intro s a s' data r rest l _ _ _ hstep hdata _
    exact hstep.remembers hdata
  · intro s a s' id l hr ho hok he _ hrec hclosed _ hrem
    exact hrem.settled_step ho he (.reachable hserial hr) (hreject s a hok) hrec hclosed

/-- No key of a role that has logged out expires before a role of its ID is
started again. -/
def State.awayKept (s : State) : Act → Bool
  | .expire id => (s.lastLogout id).isNone ∨
      ∃ v ∈ s.data.lookup id, v.state = .stateOnline ∨ v.state = .stateKicking
  | _ => true

/-- Where the record of a closed ID is on its way to Redis. -/
def Settled (s : State) (id : RoleID) (l : Record) : Prop :=
  (s.saver id).status ≠ .panicked → (s.saver id).Carries False False s.stores id l

theorem LogoutStep.settled {r : Nat} {rest : List LogonEvent} (h : LogoutStep s a data r rest s')
    (ho : Orderly s) (hl : data.data = some l) :
    Settled s' data.roleID l := by
  intro _
  obtain ⟨haccepted, hsaver⟩ := h.accepted ho
  have hq := Saver.queued_push False haccepted (fun hf => hf.elim)
    (fun hf => hf.elim) rfl
  rw [hsaver]
  refine Or.inl ?_
  simpa [OpSaveData.values, hl] using hq

theorem settled_reachable (hserial : ∀ s a, ok s a → s.serial a)
    (hreject : ∀ s a, ok s a → s.cachedReject a) (hkept : ∀ s a, ok s a → s.awayKept a)
    (h : gameServer.Reachable ok s) (hl : s.lastLogout id = some l) (hclosed : s.Closed id) :
    Settled s id l := by
  refine closed_invariant (K := Settled) hserial ?_ ?_ h hl hclosed
  · intro s a s' data r rest l _ ho _ hstep hdata _
    exact hstep.settled ho hdata
  · intro s a s' id l hr ho hok he hlast hrec hclosed _ hset
    refine (Saver.carries_upheld hrec.total).move ho.savers he.saverMove
      ((remembers_reachable hserial hreject hr hlast hclosed).pushes ho hclosed) ?_ hset
    rintro rfl
    have haway : s.lastLogout id = none ∨ ∃ v, s.data.lookup id = some v ∧
        (v.state = .stateOnline ∨ v.state = .stateKicking) := by
      simpa [State.awayKept] using hkept s _ hok
    rcases haway with hnone | ⟨v, hv, hopen⟩
    · simp [hnone] at hlast
    · exact absurd hopen (not_or.mpr (hclosed v hv))

/-- The steps of the runs in which the cache of an offline entry is complete. -/
def settledOk (s : State) (a : Act) : Prop := s.serial a ∧ s.cachedReject a

instance (s : State) (a : Act) : Decidable (settledOk s a) :=
  inferInstanceAs (Decidable (_ ∧ _))

/-- Every offline entry belongs to an ID that has logged out. -/
def OfflineLogged (s : State) : Prop :=
  ∀ id v, s.data.lookup id = some v → v.state = .stateOffline ∨ v.state = .stateCanDel →
    ∃ l, s.lastLogout id = some l

theorem Effect.lastLogout_mono (he : Effect s a s') (ho : Orderly s)
    (h : ∃ l, s.lastLogout id = some l) : ∃ l, s'.lastLogout id = some l := by
  rcases he.lastLogout ho.tagged ho.sound with ⟨_, heq⟩ | ⟨data, r, rest, l', _, _, _, heq⟩
  · exact heq ▸ h
  · rw [heq]
    by_cases hid : id = data.roleID
    · exact ⟨l', by rw [hid, Function.update_self]⟩
    · rw [Function.update_of_ne hid]
      exact h

/-- `initRole` rejects nothing. -/
theorem Starts.accepted {login : S2SReqLogin} (hstart : Starts s data login) (ho : Orderly s)
    (hp : PendingUncached s) (hoff : OfflineLogged s)
    (hrem : ∀ {id l}, s.lastLogout id = some l → s.Closed id → Remembers s id l)
    (hok : s.cachedReject (.logon .onOps)) :
    unmarshalRole data s.now ≠ none ∧ data.roleID = login.roleID := by
  obtain ⟨hid, hclosed⟩ := hstart.closed ho
  refine ⟨?_, hid⟩
  have remembered : ∀ {l : Record}, s.lastLogout data.roleID = some l →
      unmarshalRole data s.now ≠ none := by
    intro l hl
    rcases hstart.remembered ho (hrem hl hclosed) with hdata | ⟨msg, i, rest, hops⟩
    · have hdata' : data = ⟨data.roleID, some l⟩ := by rw [← hdata]
      rw [hdata']
      exact (lastLogout_record ho.tagged ho.sound hl).accepted data.roleID s.now
    · exact loaded_accepted ho hp hok hops
  cases hstart with
  | relogin hops hv hstate =>
    obtain ⟨l, hl⟩ := hoff _ _ hv hstate
    exact remembered hl
  | loaded hops => exact loaded_accepted ho hp hok hops
  | @reentry _ g rest v hops hv =>
    obtain ⟨l, hl⟩ := hoff _ v hv (ho.reentry_offline hops hclosed hv)
    exact remembered hl

theorem OfflineLogged.step (h : OfflineLogged s) (ho : Orderly s) (hp : PendingUncached s)
    (hrem : ∀ {id l}, s.lastLogout id = some l → s.Closed id → Remembers s id l)
    (hok : s.cachedReject a) (he : Effect s a s') : OfflineLogged s' := by
  intro id v hv hstate
  cases he.entryMove id with
  | same heq => exact he.lastLogout_mono ho (h id v (heq ▸ hv) hstate)
  | reject hstart hid hbad hw heq hact =>
    subst hact
    obtain ⟨haccept, hlogin⟩ := hstart.accepted ho hp h hrem hok
    exact absurd hlogin (hbad.resolve_left haccept)
  | logout hops hid hw heq hlogged =>
    rcases he.lastLogout ho.tagged ho.sound with
      ⟨hsame, _⟩ | ⟨data, r, rest, l, hout, _, _, hlast⟩
    · simp [hlogged] at hsame
    · have hdata := hout.ops
      rw [hops, List.cons.injEq, LogonEvent.logout.injEq] at hdata
      rw [hlast, ← hid, hdata.1.1]
      exact ⟨l, Function.update_self ..⟩
  | saveRole hops hid hw heq =>
    rw [heq, Option.some.injEq] at hv
    rw [← hv] at hstate
    exact he.lastLogout_mono ho (h id _ hw hstate)
  | acked hops hmem hw hold heq => exact he.lastLogout_mono ho (h id _ hw (Or.inl hold))
  | release hw hold heq => simp [hv] at heq
  | kick _ _ heq | load _ _ heq | create _ _ _ _ heq =>
    rw [heq, Option.some.injEq] at hv
    simp [← hv] at hstate

/-- An offline entry caches the complete record of its ID's last `EvtLogout`. -/
def CacheComplete (s : State) : Prop :=
  ∀ id v, s.data.lookup id = some v → v.state = .stateOffline ∨ v.state = .stateCanDel →
    ∃ l, s.lastLogout id = some l ∧ v.cache = some l ∧ ∀ c, (l.lookup c).isSome

/-- In the runs in which `NewRole` rejects no record of a role without a cached
one, the cache of every offline entry is complete. -/
theorem offline_cache_complete (h : gameServer.Reachable settledOk s) : CacheComplete s := by
  have hserial : ∀ s a, settledOk s a → s.serial a := fun _ _ hok => hok.1
  have hrem : ∀ {s : State}, gameServer.Reachable settledOk s →
      ∀ {id l}, s.lastLogout id = some l → s.Closed id → Remembers s id l :=
    fun hr => remembers_reachable hserial (fun _ _ hok => hok.2) hr
  have hoff : OfflineLogged s := by
    refine h.invariant (P := OfflineLogged) ?_ fun s a t hr hi hok hs =>
      hi.step (.reachable hserial hr) (.reachable hserial hr) (hrem hr) hok.2
        (State.step_effect hs)
    rintro _ ⟨now, stores, rfl⟩
    simp [State.initial, OfflineLogged]
  have ho : Orderly s := .reachable hserial h
  intro id v hv hstate
  obtain ⟨l, hl⟩ := hoff id v hv hstate
  have hclosed : s.Closed id := by
    intro w hw
    rw [hv, Option.some.injEq] at hw
    rcases hstate with hst | hst <;> simp [← hw, hst]
  exact ⟨l, hl, hrem h hl hclosed v hv hstate,
    (lastLogout_record ho.tagged ho.sound hl).total⟩

theorem oneLogout_cache_complete :
    ∃ s v, gameServer.Reachable settledOk s ∧ s.data.lookup 10 = some v ∧
      v.state = .stateOffline ∧ ∃ l, s.lastLogout 10 = some l ∧ v.cache = some l := by
  obtain ⟨s, hs, hstate⟩ := Machine.exec_reaches (m := gameServer) settledOk
    (fun s => (s.data.lookup 10).map (·.state) = some .stateOffline) oneLogout
    gameServer_empty (by decide +kernel)
  obtain ⟨v, hv, hoff⟩ := Option.map_eq_some_iff.mp hstate
  obtain ⟨l, hl, hcache, _⟩ := offline_cache_complete hs 10 v hv (Or.inl hoff)
  exact ⟨s, v, hs, hv, hoff, l, hl, hcache⟩

/-- The entry of role 7, whose record has no `TCBase`, turns offline. -/
theorem rejectedLoad_cache_empty :
    ∃ s, gameServer.Reachable Machine.anyStep s ∧ ¬CacheComplete s := by
  obtain ⟨s, hs, hentry⟩ := Machine.exec_reaches (m := gameServer) Machine.anyStep
    (fun s => (s.data.lookup 7).map (fun v => (v.state, v.cache.isNone)) =
      some (.stateOffline, true))
    rejectedLoad (s := State.initial 0 noBase) ⟨0, noBase, rfl⟩ (by decide +kernel)
  obtain ⟨v, hv, heq⟩ := Option.map_eq_some_iff.mp hentry
  obtain ⟨hoff, hnone⟩ := Prod.mk.inj heq
  refine ⟨s, hs, fun hcomplete => ?_⟩
  obtain ⟨l, _, hcache, _⟩ := hcomplete 7 v hv (Or.inl hoff)
  simp [hcache] at hnone

end GameCluster
