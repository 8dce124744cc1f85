import GameCluster.Logon.Tagged

/-!
The life of a role: what its goroutine and those who start and cancel it can do
to it, what that says about its components and its logout record, in which
order its events reach the login goroutine, and which record was the last one a
role ID logged out with.
-/

namespace GameCluster

open Lib Protocol

/-- The `Offline` hooks have run. -/
def Left : RolePhase → Prop
  | .leaving | .leftSes | .unregistered | .posted | .done => True
  | _ => False

/-- The counts of the role's components are as they must be for its `Offline`
hooks not to panic, and they have not. -/
def Role.Fair (r : Role) : Prop :=
  match r.phase with
  | .created | .started => r.comps.Balanced
  | .running => r.comps.offline.Balanced
  | .panicked => False
  | _ => True

/-- What a role keeps about its own record. -/
structure Role.Sound (r : Role) : Prop where
  logout : Posted r.phase → r.logout = some (r.comps.marshal true)
  counts : Left r.phase → r.comps.Balanced
  /-- A role that starts from the logout of another finds the counts equal. -/
  lineage : (∃ c : Comps, c.Balanced ∧ r.start = some (c.marshal true)) → r.Fair

theorem RoleStep.sound {r r' : Role} (hs : RoleStep r r') (h : r.Sound) : r'.Sound := by
  obtain ⟨hlogout, hcounts, hlineage⟩ := h
  cases hs with
  | cancel => exact ⟨hlogout, hcounts, hlineage⟩
  | online hp =>
    refine ⟨by simp [Posted], by simp [Left], fun hstart => ?_⟩
    have hbal : r.comps.Balanced := by simpa [Role.Fair, hp] using hlineage hstart
    exact hbal.online_offline
  | touch hp =>
    refine ⟨fun hposted => ?_, fun hleft => ?_, fun hstart => ?_⟩
    · rcases hp with hp | hp <;> simp [hp, Posted] at hposted
    · rcases hp with hp | hp <;> simp [hp, Left] at hleft
    · have hfair := hlineage hstart
      rcases hp with hp | hp <;> simp only [Role.Fair, hp] at hfair ⊢
      · exact hfair.touch _ _ _
      · exact hfair.touch_offline _ _ _
  | save hp => exact ⟨fun hposted => by
    rcases hp with hp | hp <;> simp [hp, Posted] at hposted, hcounts, hlineage⟩
  | exit hp hbal => exact ⟨by simp [Posted], fun _ => hbal, fun _ => trivial⟩
  | panic hp hbal =>
    refine ⟨by simp [Posted], by simp [Left], fun hstart => ?_⟩
    exact hbal (by simpa [Role.Fair, hp] using hlineage hstart)
  | leaveSes hp =>
    exact ⟨by simp [Posted], fun _ => hcounts (by simp [hp, Left]), fun _ => trivial⟩
  | unregister hp =>
    refine ⟨by simp [Posted], fun _ => hcounts ?_, fun _ => trivial⟩
    rcases hp with hp | hp <;> simp [hp, Left]
  | postLogout hp =>
    exact ⟨fun _ => rfl, fun _ => hcounts (by simp [hp, Left]), fun _ => trivial⟩
  | done hp =>
    exact ⟨fun _ => hlogout (by simp [hp, Posted]), fun _ => hcounts (by simp [hp, Left]),
      fun _ => trivial⟩

/-- What `NewRole` makes keeps its counts. -/
theorem Role.Sound.created {data : DataToSave} {login : S2SReqLogin} {comps : Comps} {now : Int}
    (hcomps : unmarshalRole data now = some comps) :
    Role.Sound
      { id := data.roleID, sesID := login.sesID, comps, phase := .created, cancelled := false,
        start := data.data, logout := none } where
  logout := by simp [Posted]
  counts := by simp [Left]
  lineage := by
    rintro ⟨c, hc, hstart⟩
    obtain ⟨comps', hcomps', hbal⟩ := unmarshalRole_marshal c data.roleID now
    have hdata : data = ⟨data.roleID, some (c.marshal true)⟩ := by
      rw [← hstart]
    rw [← hdata, hcomps, Option.some.injEq] at hcomps'
    rw [Role.Fair, hcomps']
    exact hbal hc

variable {r : Role} {s s' : State} {a : Act} {l : Record}

theorem Role.Sound.run (h : r.Sound) (hp : r.phase = .created) :
    Role.Sound { r with phase := .started } where
  logout := by simp [Posted]
  counts := by simp [Left]
  lineage := by simpa [Role.Fair, hp] using h.lineage

theorem sound_step (h : ∀ r ∈ s.roles, r.Sound) (hm : RoleMove s a s') :
    ∀ r ∈ s'.roles, r.Sound := by
  intro q hq
  cases hm with
  | same heq => exact h q (heq ▸ hq)
  | create hstart hcomps heq =>
    rw [heq] at hq
    rcases List.mem_append.mp hq with hold | hnew
    · exact h q hold
    · rw [List.mem_singleton.mp hnew]
      exact .created hcomps
  | run hr hp hpc heq =>
    rw [heq] at hq
    rcases List.mem_or_eq_of_mem_set hq with hold | rfl
    · exact h q hold
    · exact (h _ (List.mem_of_getElem? hr)).run hp
  | set hr hstep heq =>
    rw [heq] at hq
    rcases List.mem_or_eq_of_mem_set hq with hold | rfl
    · exact h q hold
    · exact hstep.sound (h _ (List.mem_of_getElem? hr))

theorem sound_reachable {ok : State → Act → Prop} (h : gameServer.Reachable ok s) :
    ∀ r ∈ s.roles, r.Sound := by
  refine h.invariant (P := fun s => ∀ r ∈ s.roles, r.Sound) ?_ fun s a t hr hi _ hs =>
    sound_step hi ((State.step_effect hs).roleMove (Tagged.reachable hr).starting)
  rintro _ ⟨now, stores, rfl⟩
  simp [State.initial]

/-- The role whose `EvtLogout` the event is. -/
def LogonEvent.loggedOut : LogonEvent → Option Nat
  | .logout _ r => some r
  | _ => none

/-- The role whose `EvtSaveRole` the event is. -/
def LogonEvent.savedBy : LogonEvent → Option Nat
  | .saveRole _ _ r => some r
  | _ => none

/-- A role's saves reach the login goroutine before its `EvtLogout`. -/
structure SavesAhead (s : State) : Prop where
  ordered : s.ops.Pairwise fun e e' => ∀ i, e.loggedOut = some i → e'.savedBy ≠ some i
  unlogged : ∀ e ∈ s.ops, ∀ i, e.savedBy = some i → i ∉ s.logged

/-- A role that can still save has neither posted its `EvtLogout` nor had it
processed. -/
theorem Posts.saver_unposted (ht : Tagged s) {e : LogonEvent} (h : Posts s e) {i : Nat}
    (hi : e.savedBy = some i) :
    i ∉ s.logged ∧ ∀ e' ∈ s.ops, e'.loggedOut ≠ some i := by
  cases h with
  | @saveRole j r both hr hp =>
    obtain rfl : j = i := by simpa [LogonEvent.savedBy] using hi
    have hunposted : ∀ q, s.roles[j]? = some q → ¬Posted q.phase := by
      intro q hq
      rw [hr, Option.some.injEq] at hq
      subst hq
      rcases hp with hp | hp <;> simp [hp, Posted]
    refine ⟨fun hlog => ?_, fun e' he' hout => ?_⟩
    · obtain ⟨q, hq, hposted⟩ := ht.logged j hlog
      exact hunposted q hq hposted
    · cases e' with
      | logout data k =>
        obtain rfl : k = j := by simpa [LogonEvent.loggedOut] using hout
        obtain ⟨q, hq, _, hposted, _⟩ := ht.events _ he'
        exact hunposted q hq hposted
      | _ => simp [LogonEvent.loggedOut] at hout
  | _ => simp [LogonEvent.savedBy] at hi

theorem SavesAhead.step (h : SavesAhead s) (ht : Tagged s) (he : Effect s a s') :
    SavesAhead s' := by
  cases he.opsMove with
  | same hops hlogged =>
    refine ⟨hops ▸ h.ordered, fun e hmem i hi => ?_⟩
    rw [hops] at hmem
    rw [hlogged]
    exact h.unlogged e hmem i hi
  | @take e rest hhead hops =>
    have hordered := h.ordered
    rw [hhead, List.pairwise_cons] at hordered
    refine ⟨hops ▸ hordered.2, fun e' hmem i hi => ?_⟩
    rw [hops] at hmem
    have hold := h.unlogged e' (by simp [hhead, hmem]) i hi
    rcases he.logged with heq | ⟨data, r, rest', hstep⟩
    · rw [heq]
      exact hold
    · have hhead' := hstep.ops
      rw [hhead, List.cons.injEq] at hhead'
      rw [hstep.logged, List.mem_append, List.mem_singleton]
      rintro (hlog | rfl)
      · exact hold hlog
      · exact hordered.1 e' hmem i (by rw [hhead'.1]; rfl) hi
  | @post e hpost hops hlogged =>
    refine ⟨?_, fun e' hmem i hi => ?_⟩
    · rw [hops, List.pairwise_append]
      refine ⟨h.ordered, List.pairwise_singleton _ _, ?_⟩
      rintro e₁ he₁ e₂ he₂ i hout hsaved
      rw [List.mem_singleton.mp he₂] at hsaved
      exact (hpost.saver_unposted ht hsaved).2 e₁ he₁ hout
    · rw [hlogged]
      rw [hops] at hmem
      rcases List.mem_append.mp hmem with hold | hnew
      · exact h.unlogged e' hold i hi
      · rw [List.mem_singleton.mp hnew] at hi
        exact (hpost.saver_unposted ht hi).1

theorem SavesAhead.reachable {ok : State → Act → Prop} (h : gameServer.Reachable ok s) :
    SavesAhead s := by
  refine h.invariant ?_ fun _ _ _ hr hi _ hs =>
    hi.step (Tagged.reachable hr) (State.step_effect hs)
  rintro _ ⟨now, stores, rfl⟩
  exact ⟨by simp [State.initial], by simp [State.initial]⟩

/-- The processed logouts in order, with their records. -/
def State.logouts (s : State) : List (RoleID × Record) :=
  s.logged.filterMap fun i => (s.roles[i]?).bind fun r => r.logout.map (r.id, ·)

/-- The record of the role's last processed `EvtLogout`. -/
def State.lastLogout (s : State) (id : RoleID) : Option Record :=
  (s.logouts.filter (·.1 = id)).getLast?.map (·.2)

/-- A record that a role logged out with: all components, counts equal. -/
def LogoutRecord (l : Record) : Prop := ∃ c : Comps, c.Balanced ∧ l = c.marshal true

theorem LogoutRecord.total (h : LogoutRecord l) (c : TypeComp) : (l.lookup c).isSome := by
  obtain ⟨comps, _, rfl⟩ := h
  exact comps.marshal_true_total c

theorem LogoutRecord.accepted (h : LogoutRecord l) (id : RoleID) (now : Int) :
    unmarshalRole ⟨id, some l⟩ now ≠ none := by
  obtain ⟨comps, _, rfl⟩ := h
  obtain ⟨comps', hcomps', _⟩ := unmarshalRole_marshal comps id now
  simp [hcomps']

theorem Role.Sound.logoutRecord (h : r.Sound) (hp : Posted r.phase) :
    ∃ l, r.logout = some l ∧ LogoutRecord l := by
  refine ⟨_, h.logout hp, r.comps, h.counts ?_, rfl⟩
  cases hphase : r.phase <;> simp_all [Posted, Left]

/-- A step that processes no `EvtLogout` leaves the logouts as they are; one
that does appends the event's record. -/
theorem Effect.logouts (he : Effect s a s') (ht : Tagged s) (hsound : ∀ r ∈ s.roles, r.Sound) :
    s'.logouts = s.logouts ∧ s'.logged = s.logged ∨
      ∃ data r rest l, LogoutStep s a data r rest s' ∧ data.data = some l ∧ LogoutRecord l ∧
        s'.logouts = s.logouts ++ [(data.roleID, l)] := by
  have hext := (he.extends ht.starting).roles
  have hold : s.logged.filterMap (fun i => (s'.roles[i]?).bind fun r => r.logout.map (r.id, ·)) =
      s.logouts := by
    apply List.filterMap_congr
    intro i hi
    obtain ⟨r, hr, hp⟩ := ht.logged i hi
    obtain ⟨r', hr', hid, _, _, hkeep⟩ := hext i r hr
    rw [hr, hr', Option.bind_some, Option.bind_some, hid, (hkeep hp).2]
  rcases he.logged with heq | ⟨data, i, rest, hstep⟩
  · exact Or.inl ⟨by rw [State.logouts, heq, hold], heq⟩
  · obtain ⟨r, hr, hid, hp, hlogout⟩ := ht.events (.logout data i) (mem_of_head hstep.ops)
    obtain ⟨l, hl, hrec⟩ := (hsound r (List.mem_of_getElem? hr)).logoutRecord hp
    obtain ⟨r', hr', hid', _, _, hkeep⟩ := hext i r hr
    refine Or.inr ⟨data, i, rest, l, hstep, hlogout.symm.trans hl, hrec, ?_⟩
    rw [State.logouts, hstep.logged, List.filterMap_append, hold]
    simp [hr', hid', hid, (hkeep hp).2, hl]

theorem Effect.lastLogout (he : Effect s a s') (ht : Tagged s) (hsound : ∀ r ∈ s.roles, r.Sound) :
    s'.logged = s.logged ∧ s'.lastLogout = s.lastLogout ∨
      ∃ data r rest l, LogoutStep s a data r rest s' ∧ data.data = some l ∧ LogoutRecord l ∧
        s'.lastLogout = Function.update s.lastLogout data.roleID (some l) := by
  rcases he.logouts ht hsound with ⟨heq, hlog⟩ | ⟨data, r, rest, l, hstep, hl, hrec, heq⟩
  · refine Or.inl ⟨hlog, ?_⟩
    funext x
    rw [State.lastLogout, heq, State.lastLogout]
  · refine Or.inr ⟨data, r, rest, l, hstep, hl, hrec, ?_⟩
    funext x
    rw [State.lastLogout, heq, Function.update_apply, State.lastLogout]
    by_cases hx : x = data.roleID
    · simp [hx]
    · simp [hx, Ne.symm hx]

/-- The last record of every role ID is a logout record. -/
theorem lastLogout_record (ht : Tagged s) (hsound : ∀ r ∈ s.roles, r.Sound) {id : RoleID}
    (h : s.lastLogout id = some l) : LogoutRecord l := by
  obtain ⟨⟨id', l'⟩, hlast, rfl⟩ := Option.map_eq_some_iff.mp h
  have hmem := (List.mem_filter.mp (List.mem_of_getLast? hlast)).1
  obtain ⟨i, hi, hbind⟩ := List.mem_filterMap.mp hmem
  obtain ⟨r, hr, hmap⟩ := Option.bind_eq_some_iff.mp hbind
  obtain ⟨l₀, hl₀, heq⟩ := Option.map_eq_some_iff.mp hmap
  obtain ⟨q, hq, hp⟩ := ht.logged i hi
  rw [hr, Option.some.injEq] at hq
  obtain ⟨l₁, hl₁, hrec⟩ := (hsound r (List.mem_of_getElem? hr)).logoutRecord (hq ▸ hp)
  rw [hl₀, Option.some.injEq] at hl₁
  rw [← (Prod.mk.inj heq).2, hl₁]
  exact hrec

end GameCluster
