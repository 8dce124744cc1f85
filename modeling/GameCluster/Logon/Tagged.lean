import GameCluster.Logon.Moves

/-!
The bookkeeping that holds in every run, whatever the scheduling: each event
belongs to the goroutine it names and carries that goroutine's data.
-/

namespace GameCluster

open Lib

/-- The event fits the goroutine it names. -/
def EventOk (s : State) : LogonEvent → Prop
  | .dbLoaded msg data i =>
    (∃ l, s.loads[i]? = some l ∧ l.login = msg) ∧ data.roleID = msg.roleID
  | .reentry msg g => ∃ v, s.reentries[g]? = some v ∧ v.login = msg
  | .logout data i =>
    ∃ r, s.roles[i]? = some r ∧ r.id = data.roleID ∧ Protocol.Posted r.phase ∧
      r.logout = data.data
  | .saveRole data _ i =>
    (∃ r, s.roles[i]? = some r ∧ r.id = data.roleID) ∧ ∃ m, data.data = some m ∧ m ≠ ∅
  | _ => True

variable {s s' : State} {e : LogonEvent} {a : Act}

theorem EventOk.mono (h : EventOk s e) (hx : Extends s s') : EventOk s' e := by
  cases e with
  | dbLoaded msg data i =>
    obtain ⟨⟨l, hl, hmsg⟩, hid⟩ := h
    obtain ⟨l', hl', hsame⟩ := hx.loads i l hl
    exact ⟨⟨l', hl', Eq.trans hsame hmsg⟩, hid⟩
  | reentry msg g =>
    obtain ⟨v, hv, hmsg⟩ := h
    obtain ⟨v', hv', hsame⟩ := hx.reentries g v hv
    exact ⟨v', hv', Eq.trans hsame hmsg⟩
  | logout data i =>
    obtain ⟨r, hr, hid, hposted, hlogout⟩ := h
    obtain ⟨r', hr', hid', _, _, hkeep⟩ := hx.roles i r hr
    exact ⟨r', hr', hid'.trans hid, (hkeep hposted).1, (hkeep hposted).2.trans hlogout⟩
  | saveRole data both i =>
    obtain ⟨⟨r, hr, hid⟩, hdata⟩ := h
    obtain ⟨r', hr', hid', _⟩ := hx.roles i r hr
    exact ⟨⟨r', hr', hid'.trans hid⟩, hdata⟩
  | login msg | saveSuccess ids => trivial

/-- Data read by a loader is for the login's role. -/
def LoadedOk (loads : List Load) : Prop :=
  ∀ (i : Nat) (l : Load) (data : DataToSave), loads[i]? = some l → l.phase = .loaded data →
    data.roleID = l.login.roleID

structure Tagged (s : State) : Prop where
  starting : s.Starting
  events : ∀ e ∈ s.ops, EventOk s e
  loaded : LoadedOk s.loads
  logged : ∀ i ∈ s.logged, ∃ r, s.roles[i]? = some r ∧ Protocol.Posted r.phase

theorem LoadedOk.set {loads : List Load} (h : LoadedOk loads) {i : Nat} {l : Load}
    (hl : loads[i]? = some l) {phase : LoadPhase}
    (hphase : ∀ data, phase = .loaded data → data.roleID = l.login.roleID) :
    LoadedOk (loads.set i { l with phase }) := by
  intro j l' data hl' hp
  rw [getElem?_set_some hl] at hl'
  by_cases hj : j = i
  · rw [if_pos hj, Option.some.injEq] at hl'
    subst hl'
    exact hphase data hp
  · rw [if_neg hj] at hl'
    exact h j l' data hl' hp

theorem LoadedOk.concat {loads : List Load} (h : LoadedOk loads) (login : S2SReqLogin) :
    LoadedOk (loads ++ [{ login, phase := .queued }]) := by
  intro j l data hl hp
  rw [getElem?_concat] at hl
  split at hl
  · cases hl
    cases hp
  · exact h j l data hl hp

theorem LoadedOk.setLoad (h : LoadedOk s.loads) (i : Nat) {phase : LoadPhase}
    (hphase : ∀ l data, s.loads[i]? = some l → phase = .loaded data → data.roleID =
      l.login.roleID) :
    LoadedOk (s.setLoad i phase).loads := by
  simp only [State.setLoad]
  cases hl : s.loads[i]? with
  | none => exact h
  | some l => exact h.set hl fun data hp => hphase l data hl hp

theorem OnOps.loadedOk (h : OnOps s e s') (hl : LoadedOk s.loads) : LoadedOk s'.loads := by
  cases h with
  | relogin hv hstate hinit | reentry hv hinit =>
    rw [hinit.frame.2.1]
    exact hl
  | loaded hinit =>
    rw [hinit.frame.2.1]
    exact hl.setLoad _ (by simp)
  | reload | firstLoad => exact hl.concat _
  | _ => exact hl

theorem OnOps.starting (h : OnOps s e s') (hpc : s.pc = .idle) : s'.Starting := by
  have idle : ∀ t : State, t.pc = .idle → t.Starting := by
    intro t ht r stage hst
    simp [ht] at hst
  have init : ∀ {t t' : State} {data : DataToSave} {login : S2SReqLogin}, t.pc = .idle →
      InitRole t data login t' → t'.Starting := by
    intro t t' data login ht hinit
    cases hinit with
    | reject hbad | missing hv => exact idle _ ht
    | create hcomps hid hv =>
      rintro r stage ⟨⟩
      exact ⟨_, List.getElem?_concat_length, rfl⟩
  cases h with
  | relogin hv hstate hinit => exact init hpc hinit
  | loaded hinit => exact init (t := s.setLoad _ _) hpc hinit
  | reentry hv hinit => exact init (t := s.setReentry _ _) hpc hinit
  | _ => exact idle _ hpc

/-- A role that is being started is touched by nothing but a cancellation. -/
theorem State.Starting.roles (h : s.Starting) (hpc : s'.pc = s.pc)
    (hroles : ∀ (i : Nat) (r : Role), s.roles[i]? = some r → r.phase = .created → ∃ r',
      s'.roles[i]? = some r' ∧ r'.phase = .created) :
    s'.Starting := by
  intro r stage hst
  rw [hpc] at hst
  obtain ⟨role, hrole, hp⟩ := h r stage hst
  exact hroles r role hrole hp

theorem kick_created (s : State) (k i : Nat) (r : Role) (hr : s.roles[i]? = some r)
    (hp : r.phase = .created) :
    ∃ r', (s.kick k).roles[i]? = some r' ∧ r'.phase = .created := by
  simp only [State.kick]
  cases hk : s.roles[k]? with
  | none => exact ⟨r, hr, hp⟩
  | some q =>
    rw [getElem?_set_some hk]
    by_cases hik : i = k
    · subst hik
      rw [hr, Option.some.injEq] at hk
      exact ⟨{ q with cancelled := true }, by simp, hk ▸ hp⟩
    · exact ⟨r, by simp [hik, hr], hp⟩

theorem set_created {k : Nat} {q q' : Role} (hq : s.roles[k]? = some q)
    (hphase : q.phase ≠ .created) (i : Nat) (r : Role) (hr : s.roles[i]? = some r)
    (hp : r.phase = .created) :
    ∃ r', (s.roles.set k q')[i]? = some r' ∧ r'.phase = .created := by
  have hik : i ≠ k := by
    rintro rfl
    rw [hr, Option.some.injEq] at hq
    exact hphase (hq ▸ hp)
  exact ⟨r, by rw [getElem?_set_some hq, if_neg hik, hr], hp⟩

theorem Effect.starting (he : Effect s a s') (h : s.Starting) : s'.Starting := by
  cases he with
  | logon hl =>
    cases hl with
    | onOps hpc hops hon => exact hon.starting hpc
    | registerSes hpc hr | registerRole hpc hr =>
      rintro r stage ⟨⟩
      exact h _ _ hpc
    | drain hpc hctx => exact h.roles rfl fun i r hr hp => ⟨r, hr, hp⟩
    | _ => rintro r stage ⟨⟩
  | load hl hload => cases hload <;> exact h.roles rfl fun i r hr hp => ⟨r, hr, hp⟩
  | reentry hv hre =>
    cases hre with
    | kickFound hp hreg => exact h.roles rfl (kick_created s _)
    | _ => exact h.roles rfl fun i r hr hp => ⟨r, hr, hp⟩
  | role hr hrole =>
    cases hrole with
    | cancel => exact h.roles rfl (kick_created s _)
    | touch hp | save hp hne =>
      exact h.roles rfl (set_created hr (by rcases hp with hp | hp <;> simp [hp]))
    | online hp | exit hp | panic hp | leaveSes hp | loseSes hp | leaveReg hp | postLogout hp
    | done hp => exact h.roles rfl (set_created hr (by simp [hp]))
  | close hc =>
    cases hc with
    | kick hk => exact h.roles rfl (kick_created s _)
    | _ => exact h.roles rfl fun i r hr hp => ⟨r, hr, hp⟩
  | _ => exact h.roles rfl fun i r hr hp => ⟨r, hr, hp⟩

/-- Every event a step adds to the channel fits the goroutine that posted it. -/
theorem Effect.posts (he : Effect s a s') (h : Tagged s) (e : LogonEvent) (hmem : e ∈ s'.ops) :
    e ∈ s.ops ∨ EventOk s' e := by
  have posted : ∀ {e' : LogonEvent}, e ∈ s.ops ++ [e'] → EventOk s' e' →
      e ∈ s.ops ∨ EventOk s' e := by
    intro e' he' hok
    rcases List.mem_append.mp he' with hold | hnew
    · exact Or.inl hold
    · rw [List.mem_singleton.mp hnew]
      exact Or.inr hok
  cases he with
  | login => exact posted hmem trivial
  | logon hl =>
    cases hl with
    | onOps hpc hops hon =>
      rw [hon.ops] at hmem
      exact Or.inl (by rw [hops]; exact List.mem_cons_of_mem _ hmem)
    | _ => exact Or.inl hmem
  | @load i l a t hl hload =>
    cases hload with
    | @post data hp =>
      have hl' : (s.setLoad i .posted).loads[i]? = some { l with phase := .posted } := by
        simp [State.setLoad, hl, getElem?_set_some hl]
      exact posted hmem ⟨⟨_, hl', rfl⟩, h.loaded i l data hl hp⟩
    | _ => exact Or.inl hmem
  | @reentry g v a t hv hre =>
    cases hre with
    | post hp =>
      have hv' : (s.setReentry g .posted).reentries[g]? =
          some { v with phase := .posted } := by
        simp [State.setReentry, hv, getElem?_set_some hv]
      exact posted hmem ⟨_, hv', rfl⟩
    | _ => exact Or.inl hmem
  | @role i r a t hr hrole =>
    have hset : ∀ q : Role, (s.roles.set i q)[i]? = some q := by
      intro q
      rw [getElem?_set_some hr, if_pos rfl]
    cases hrole with
    | save hp hne => exact posted hmem ⟨⟨_, hset _, rfl⟩, _, rfl, hne⟩
    | postLogout hp => exact posted hmem ⟨_, hset _, rfl, trivial, rfl⟩
    | _ => exact Or.inl hmem
  | @saver k a saver stores out hs =>
    cases out with
    | none => exact Or.inl (by simpa using hmem)
    | some ids => exact posted hmem trivial
  | close hc => cases hc <;> exact Or.inl hmem
  | _ => exact Or.inl hmem

theorem Effect.loadedOk (he : Effect s a s') (h : LoadedOk s.loads) : LoadedOk s'.loads := by
  cases he with
  | logon hl =>
    cases hl with
    | onOps hpc hops hon => exact hon.loadedOk h
    | _ => exact h
  | @load i l a t hl hload =>
    have hlogin : ∀ l', s.loads[i]? = some l' → l' = l :=
      fun l' hl' => Option.some.inj (hl'.symm.trans hl)
    cases hload with
    | hit hp hsome =>
      refine h.setLoad i ?_
      rintro l' data hl' ⟨⟩
      rw [hlogin l' hl']
    | @mongo last hp hlast =>
      refine h.setLoad i ?_
      rintro l' data hl' ⟨⟩
      rw [hlogin l' hl']
      exact fromDB_roleID _ _ _
    | miss | post | drop => exact h.setLoad i (by simp)
  | reentry hv he | role hr he | close he => cases he <;> exact h
  | _ => exact h

theorem Tagged.step (h : Tagged s) (he : Effect s a s') : Tagged s' where
  starting := he.starting h.starting
  events e hmem :=
    (he.posts h e hmem).elim (fun hold => (h.events e hold).mono (he.extends h.starting)) id
  loaded := he.loadedOk h.loaded
  logged i hi := by
    have hposted : ∃ r, s.roles[i]? = some r ∧ Protocol.Posted r.phase := by
      rcases he.logged with heq | ⟨data, j, rest, hstep⟩
      · exact h.logged i (heq ▸ hi)
      · rw [hstep.logged] at hi
        rcases List.mem_append.mp hi with hold | hnew
        · exact h.logged i hold
        · obtain ⟨r, hr, _, hp, _⟩ := h.events (.logout data j) (mem_of_head hstep.ops)
          exact ⟨r, by rw [List.mem_singleton.mp hnew, hr], hp⟩
    obtain ⟨r, hr, hp⟩ := hposted
    obtain ⟨r', hr', _, _, _, hkeep⟩ := (he.extends h.starting).roles i r hr
    exact ⟨r', hr', (hkeep hp).1⟩

theorem Tagged.reachable {ok : State → Act → Prop} (h : gameServer.Reachable ok s) : Tagged s := by
  refine h.invariant ?_ fun _ _ _ _ ht _ hs => ht.step (State.step_effect hs)
  rintro _ ⟨now, stores, rfl⟩
  exact ⟨by rintro r stage ⟨⟩, by simp [State.initial], by simp [State.initial, LoadedOk],
    by simp [State.initial]⟩

end GameCluster
