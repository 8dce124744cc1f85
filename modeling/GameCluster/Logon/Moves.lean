import GameCluster.Logon.Effect

/-!
A server step seen from one side at a time: what it does to the table of roles,
to the event channel, to the savers, to the loads, and to the entry of one role
in `m.data`. Each view is derived from `Effect` once, with the guards that
matter to it.
-/

namespace GameCluster

open Lib

variable {s s' : State} {data : DataToSave} {login : S2SReqLogin} {e : LogonEvent}
  {rest : List LogonEvent} {a : Act}

/-- What `initRole` leaves alone, and what it posts: nothing. -/
theorem InitRole.frame (h : InitRole s data login s') :
    s'.ops = s.ops ∧ s'.loads = s.loads ∧ s'.reentries = s.reentries ∧
      s'.savers = s.savers ∧ s'.stores = s.stores ∧ s'.logged = s.logged ∧
      s'.ses = s.ses ∧ s'.reg = s.reg ∧ s'.close = s.close ∧ s'.ctxDone = s.ctxDone ∧
      s'.now = s.now ∧ s'.draining = s.draining := by
  cases h <;> exact ⟨rfl, rfl, rfl, rfl, rfl, rfl, rfl, rfl, rfl, rfl, rfl, rfl⟩

theorem InitRole.cleared (h : InitRole s data login s') : s'.cleared = s.cleared := by
  cases h <;> rfl

theorem OnOps.ops (h : OnOps s e s') : s'.ops = s.ops := by
  cases h with
  | relogin hv hstate hinit | loaded hinit | reentry hv hinit => exact hinit.frame.1
  | _ => rfl

theorem mem_of_head (hops : s.ops = e :: rest) : e ∈ s.ops := by
  simp [hops]

/-- The login goroutine does not come back. -/
theorem Effect.exited (he : Effect s a s') (h : s.pc = .exited) : s'.pc = .exited := by
  cases he with
  | logon hl => cases hl <;> simp_all
  | load hl he | reentry hv he | role hr he | close he => cases he <;> exact h
  | _ => exact h

/-- What `onOps` leaves alone of a shutdown. It may start a role, but does not
return. -/
theorem OnOps.shut (h : OnOps s e s') (hpc : s.pc = .idle) :
    s'.close = s.close ∧ s'.ctxDone = s.ctxDone ∧ s'.draining = s.draining ∧
      s'.pc ≠ .exited := by
  have hinit : ∀ {s₀ : State} {data : DataToSave} {login : S2SReqLogin},
      InitRole s₀ data login s' → s₀.pc = .idle → s'.pc ≠ .exited := by
    intro s₀ data login h hpc
    cases h <;> simp [State.setState, hpc]
  cases h with
  | relogin hv hstate h | loaded h | reentry hv h =>
    exact ⟨h.frame.2.2.2.2.2.2.2.2.1, h.frame.2.2.2.2.2.2.2.2.2.1,
      h.frame.2.2.2.2.2.2.2.2.2.2.2, hinit h hpc⟩
  | _ => exact ⟨rfl, rfl, rfl, by simp [State.setState, State.saveOne, State.push,
      State.setCache, State.setReentry, hpc]⟩

/-- A server step seen from a `Close` call and the end of the login goroutine. -/
inductive ShutMove (s : State) (a : Act) (s' : State) : Prop
  | same (hclose : s'.close = s.close) (hctx : s'.ctxDone = s.ctxDone)
      (hdrain : s'.draining = s.draining) (hpc : s'.pc = .exited → s.pc = .exited)
  | drain (hctx : s.ctxDone = true) (hpc : s.pc = .idle)
      (h : s' = { s with draining := true })
  | exit (hops : s.ops = []) (hdrain : s.draining = true)
      (h : s' =
        { s with
          pc := .exited
          savers := fun k => { s.savers k with q := (s.savers k).q.close } })
  | close {c : CloseAct} (hact : a = .close c) (h : CloseEffect s c s')

theorem Effect.shutMove (he : Effect s a s') : ShutMove s a s' := by
  cases he with
  | logon hl =>
    cases hl with
    | onOps hpc hops hon =>
      obtain ⟨hclose, hctx, hdrain, hne⟩ := hon.shut hpc
      exact .same hclose hctx hdrain fun h => absurd h hne
    | drain hpc hctx => exact .drain hctx hpc rfl
    | exit hpc hops hdrain => exact .exit hops hdrain rfl
    | _ => exact .same rfl rfl rfl (by simp)
  | load hl he | reentry hv he | role hr he => cases he <;> exact .same rfl rfl rfl id
  | close hc => exact .close rfl hc
  | _ => exact .same rfl rfl rfl id

/-- The step processes an `EvtLogout`. -/
structure LogoutStep (s : State) (a : Act) (data : DataToSave) (r : Nat)
    (rest : List LogonEvent) (s' : State) : Prop where
  act : a = .logon .onOps
  idle : s.pc = .idle
  ops : s.ops = .logout data r :: rest
  room : ((s.savers (State.saverOf data.roleID)).q.push
    ⟨data.roleID, data.data, false⟩).2 ≠ some .queueFull
  state : s' =
    { ({ s with ops := rest }.setState data.roleID .stateOffline).saveOne
        ⟨data.roleID, data.data, false⟩ with
      logged := s.logged ++ [r] }

theorem LogoutStep.logged {r : Nat} (h : LogoutStep s a data r rest s') :
    s'.logged = s.logged ++ [r] := by
  rw [h.state]

/-- A role is logged when its `EvtLogout` is processed, and only then. -/
theorem Effect.logged (he : Effect s a s') :
    s'.logged = s.logged ∨ ∃ data r rest, LogoutStep s a data r rest s' := by
  cases he with
  | logon hl =>
    cases hl with
    | onOps hpc hops hon =>
      cases hon with
      | relogin hv hstate hinit | loaded hinit | reentry hv hinit =>
        exact Or.inl hinit.frame.2.2.2.2.2.1
      | logout hroom => exact Or.inr ⟨_, _, _, rfl, hpc, hops, hroom, rfl⟩
      | _ => exact Or.inl rfl
    | _ => exact Or.inl rfl
  | load hl he | reentry hv he | role hr he | close he => cases he <;> exact Or.inl rfl
  | _ => exact Or.inl rfl

theorem Effect.logged_mono (he : Effect s a s') {i : Nat} (hi : i ∈ s.logged) : i ∈ s'.logged := by
  rcases he.logged with heq | ⟨data, r, rest, hstep⟩
  · exact heq ▸ hi
  · rw [hstep.logged]
    exact List.mem_append_left _ hi

/-- The calls of `initRole` that the login goroutine can make next. -/
inductive Starts (s : State) : DataToSave → S2SReqLogin → Prop
  | relogin {msg : S2SReqLogin} {rest : List LogonEvent} {v : LoginData}
      (hops : s.ops = .login msg :: rest) (hv : s.data.lookup msg.roleID = some v)
      (hstate : v.state = .stateOffline ∨ v.state = .stateCanDel) :
      Starts s ⟨msg.roleID, v.cache⟩ msg
  | loaded {msg : S2SReqLogin} {data : DataToSave} {i : Nat} {rest : List LogonEvent}
      (hops : s.ops = .dbLoaded msg data i :: rest) : Starts s data msg
  | reentry {msg : S2SReqLogin} {g : Nat} {rest : List LogonEvent} {v : LoginData}
      (hops : s.ops = .reentry msg g :: rest) (hv : s.data.lookup msg.roleID = some v) :
      Starts s ⟨msg.roleID, v.cache⟩ msg

/-- What a server step can do to a role, apart from starting it. -/
inductive RoleStep (r : Role) : Role → Prop
  | cancel : RoleStep r { r with cancelled := true }
  | online (hp : r.phase = .started) :
      RoleStep r { r with phase := .running, comps := r.comps.online }
  | touch {c : TypeComp} {body : String} {dirty : Bool}
      (hp : r.phase = .started ∨ r.phase = .running) :
      RoleStep r { r with comps := r.comps.touch c body dirty }
  | save (hp : r.phase = .started ∨ r.phase = .running) :
      RoleStep r { r with comps := r.comps.clearDirty }
  | exit (hp : r.phase = .running) (hbal : r.comps.offline.Balanced) :
      RoleStep r { r with phase := .leaving, comps := r.comps.offline }
  | panic (hp : r.phase = .running) (hbal : ¬r.comps.offline.Balanced) :
      RoleStep r { r with phase := .panicked, comps := r.comps.offline }
  | leaveSes (hp : r.phase = .leaving) : RoleStep r { r with phase := .leftSes }
  | unregister (hp : r.phase = .leaving ∨ r.phase = .leftSes) :
      RoleStep r { r with phase := .unregistered }
  | postLogout (hp : r.phase = .unregistered) :
      RoleStep r { r with phase := .posted, logout := some (r.comps.marshal true) }
  | done (hp : r.phase = .posted) : RoleStep r { r with phase := .done }

theorem RoleStep.id {r r' : Role} (h : RoleStep r r') : r'.id = r.id := by
  cases h <;> rfl

/-- What a server step can do to the table of roles. -/
inductive RoleMove (s : State) (a : Act) (s' : State) : Prop
  | same (h : s'.roles = s.roles)
  | create {data : DataToSave} {login : S2SReqLogin} {comps : Comps}
      (hstart : Starts s data login) (hcomps : unmarshalRole data s.now = some comps)
      (h : s'.roles = s.roles ++
        [{ id := data.roleID, sesID := login.sesID, comps, phase := .created,
           cancelled := false, start := data.data, logout := none }])
      (hact : a = .logon .onOps)
  | run {i : Nat} {r : Role} (hr : s.roles[i]? = some r) (hp : r.phase = .created)
      (hpc : s.pc = .starting i .run) (h : s'.roles = s.roles.set i { r with phase := .started })
      (hact : a = .logon .register)
  | set {i : Nat} {r r' : Role} (hr : s.roles[i]? = some r) (hstep : RoleStep r r')
      (h : s'.roles = s.roles.set i r') (hact : r'.phase = r.phase ∨ ∃ b, a = .role i b)

theorem InitRole.roleMove {s s₀ s' : State} (h : InitRole s₀ data login s')
    (hstart : Starts s data login) (hroles : s₀.roles = s.roles) (hnow : s₀.now = s.now) :
    RoleMove s (.logon .onOps) s' := by
  cases h with
  | reject hbad | missing hv => exact .same hroles
  | create hcomps hid hv =>
    rw [hnow] at hcomps
    exact .create hstart hcomps (by rw [← hroles]) rfl

theorem kick_roleMove (s : State) (a : Act) (i : Nat) (h : s'.roles = (s.kick i).roles) :
    RoleMove s a s' := by
  simp only [State.kick] at h
  cases hr : s.roles[i]? with
  | none => exact .same (by simpa [hr] using h)
  | some r => exact .set hr .cancel (by simpa [hr] using h) (Or.inl rfl)

theorem Effect.roleMove (he : Effect s a s') (hs : s.Starting) : RoleMove s a s' := by
  cases he with
  | logon hl =>
    cases hl with
    | onOps hpc hops hon =>
      cases hon with
      | relogin hv hstate hinit => exact hinit.roleMove (.relogin hops hv hstate) rfl rfl
      | loaded hinit => exact hinit.roleMove (.loaded hops) rfl rfl
      | reentry hv hinit => exact hinit.roleMove (.reentry hops hv) rfl rfl
      | _ => exact .same rfl
    | run hpc hr =>
      obtain ⟨role, hrole, hp⟩ := hs _ _ hpc
      rw [hr, Option.some.injEq] at hrole
      exact .run hr (hrole ▸ hp) hpc rfl rfl
    | _ => exact .same rfl
  | load hl hload => cases hload <;> exact .same rfl
  | reentry hv hre =>
    cases hre with
    | kickFound hp hreg => exact kick_roleMove s _ _ rfl
    | _ => exact .same rfl
  | role hr hrole =>
    cases hrole with
    | cancel => exact kick_roleMove s _ _ rfl
    | online hp => exact .set hr (.online hp) rfl (Or.inr ⟨_, rfl⟩)
    | touch hp => exact .set hr (.touch hp) rfl (Or.inr ⟨_, rfl⟩)
    | save hp hne => exact .set hr (.save hp) rfl (Or.inr ⟨_, rfl⟩)
    | exit hp hbal => exact .set hr (.exit hp hbal) rfl (Or.inr ⟨_, rfl⟩)
    | panic hp hbal => exact .set hr (.panic hp hbal) rfl (Or.inr ⟨_, rfl⟩)
    | leaveSes hp hses => exact .set hr (.leaveSes hp) rfl (Or.inr ⟨_, rfl⟩)
    | loseSes hp hses => exact .set hr (.unregister (Or.inl hp)) rfl (Or.inr ⟨_, rfl⟩)
    | leaveReg hp => exact .set hr (.unregister (Or.inr hp)) rfl (Or.inr ⟨_, rfl⟩)
    | postLogout hp => exact .set hr (.postLogout hp) rfl (Or.inr ⟨_, rfl⟩)
    | done hp => exact .set hr (.done hp) rfl (Or.inr ⟨_, rfl⟩)
  | close hc =>
    cases hc with
    | kick hk => exact kick_roleMove s _ _ rfl
    | _ => exact .same rfl
  | _ => exact .same rfl

/-- The events that goroutines other than the login goroutine can post next. -/
inductive Posts (s : State) : LogonEvent → Prop
  | login {msg : S2SReqLogin} : Posts s (.login msg)
  | dbLoaded {i : Nat} {l : Load} {data : DataToSave} (hl : s.loads[i]? = some l)
      (hp : l.phase = .loaded data) : Posts s (.dbLoaded l.login data i)
  | reentry {g : Nat} {v : Reentry} (hv : s.reentries[g]? = some v) (hp : v.phase = .posting) :
      Posts s (.reentry v.login g)
  | saveRole {i : Nat} {r : Role} {both : Bool} (hr : s.roles[i]? = some r)
      (hp : r.phase = .started ∨ r.phase = .running) :
      Posts s (.saveRole ⟨r.id, some (r.comps.marshal false)⟩ both i)
  | logout {i : Nat} {r : Role} (hr : s.roles[i]? = some r) (hp : r.phase = .unregistered) :
      Posts s (.logout ⟨r.id, some (r.comps.marshal true)⟩ i)
  | saveSuccess {k : Fin saveGoCnt} {a : SaverAct} {saver : Saver TypeComp Text}
      {stores : Stores TypeComp Text} {ids : List RoleID}
      (h : Saver.Effect (s.savers k) s.stores a saver stores (some ids)) :
      Posts s (.saveSuccess ids)

/-- What a server step can do to `m.ops`. -/
inductive OpsMove (s s' : State) : Prop
  | same (h : s'.ops = s.ops) (hlogged : s'.logged = s.logged)
  | take {e : LogonEvent} {rest : List LogonEvent} (hops : s.ops = e :: rest)
      (h : s'.ops = rest)
  | post {e : LogonEvent} (hpost : Posts s e) (h : s'.ops = s.ops ++ [e])
      (hlogged : s'.logged = s.logged)

theorem Effect.opsMove (he : Effect s a s') : OpsMove s s' := by
  cases he with
  | login => exact .post .login rfl rfl
  | logon hl =>
    cases hl with
    | onOps hpc hops hon => exact .take hops hon.ops
    | _ => exact .same rfl rfl
  | load hl hload =>
    cases hload with
    | post hp => exact .post (.dbLoaded hl hp) rfl rfl
    | _ => exact .same rfl rfl
  | reentry hv hre =>
    cases hre with
    | post hp => exact .post (.reentry hv hp) rfl rfl
    | _ => exact .same rfl rfl
  | role hr hrole =>
    cases hrole with
    | save hp hne => exact .post (.saveRole hr hp) rfl rfl
    | postLogout hp => exact .post (.logout hr hp) rfl rfl
    | _ => exact .same rfl rfl
  | @saver k a saver stores out hs =>
    cases out with
    | none => exact .same (by simp) rfl
    | some ids => exact .post (.saveSuccess hs) rfl rfl
  | close hc => cases hc <;> exact .same rfl rfl
  | _ => exact .same rfl rfl

namespace State

/-- The saver of a role. -/
def saver (s : State) (id : RoleID) : Saver TypeComp Text := s.savers (saverOf id)

end State

/-- The ops that the login goroutine can push next. -/
inductive Pushes (s : State) : OpSaveData TypeComp Text → Prop
  | logout {data : DataToSave} {r : Nat} {rest : List LogonEvent}
      (hops : s.ops = .logout data r :: rest) : Pushes s ⟨data.roleID, data.data, false⟩
  | saveRole {data : DataToSave} {both : Bool} {r : Nat} {rest : List LogonEvent}
      (hops : s.ops = .saveRole data both r :: rest) :
      Pushes s ⟨data.roleID, data.data, both⟩
  | cleanup {id : RoleID} {v : LoginData} (hv : s.data.lookup id = some v)
      (hstate : v.state = .stateOffline) : Pushes s ⟨id, v.cache, true⟩

/-- What a server step does to the savers and the stores. -/
inductive SaverMove (s : State) (act : Act) (s' : State) : Prop
  | quiet (hsavers : s'.savers = s.savers) (hstores : s'.stores = s.stores)
  | push {op : OpSaveData TypeComp Text} (hpush : Pushes s op)
      (hsavers : s'.savers = (s.push op).savers) (hstores : s'.stores = s.stores)
  | close (hsavers : ∀ k, s'.savers k = { s.savers k with q := (s.savers k).q.close })
      (hstores : s'.stores = s.stores) (hpc : s'.pc = .exited)
  | saver {k : Fin saveGoCnt} {a : SaverAct} {saver : Saver TypeComp Text}
      {out : Option (List RoleID)}
      (h : Saver.Effect (s.savers k) s.stores a saver s'.stores out)
      (hsavers : s'.savers = Function.update s.savers k saver) (hact : act = .saver k a)
  | expire {id : RoleID} (hsavers : s'.savers = s.savers) (hstores : s'.stores = s.stores.drop id)
      (hact : act = .expire id)

theorem OnOps.saverMove (hops : s.ops = e :: rest) (h : OnOps { s with ops := rest } e s') :
    SaverMove s (.logon .onOps) s' := by
  cases h with
  | relogin hv hstate hinit | loaded hinit | reentry hv hinit =>
    exact .quiet hinit.frame.2.2.2.1 hinit.frame.2.2.2.2.1
  | logout hroom => exact .push (.logout hops) rfl rfl
  | saveRole => exact .push (.saveRole hops) rfl rfl
  | _ => exact .quiet rfl rfl

theorem Effect.saverMove (he : Effect s a s') : SaverMove s a s' := by
  cases he with
  | logon hl =>
    cases hl with
    | onOps hpc hops hon => exact hon.saverMove hops
    | cleanupSave hpc hv hstate => exact .push (.cleanup hv hstate) rfl rfl
    | exit hpc hops hdrain => exact .close (fun _ => rfl) rfl rfl
    | _ => exact .quiet rfl rfl
  | load hl he | reentry hv he | role hr he => cases he <;> exact .quiet rfl rfl
  | saver hs => exact .saver hs rfl rfl
  | close hc => cases hc <;> exact .quiet rfl rfl
  | expire => exact .expire rfl rfl rfl
  | _ => exact .quiet rfl rfl

/-- A server step as one saver sees it. -/
inductive SaverStep (s s' : State) (k : Fin saveGoCnt) : Prop
  | same (h : s'.savers k = s.savers k)
  | push {op : OpSaveData TypeComp Text} (hpush : Pushes s op)
      (h : s'.savers k = { s.savers k with q := ((s.savers k).q.push op).1 })
      (hk : State.saverOf op.id = k)
  | close (h : s'.savers k = { s.savers k with q := (s.savers k).q.close })
      (hpc : s'.pc = .exited)
  | own {a : SaverAct} {out : Option (List RoleID)}
      (h : Saver.Effect (s.savers k) s.stores a (s'.savers k) s'.stores out)

theorem SaverMove.saverStep (hm : SaverMove s a s') (k : Fin saveGoCnt) : SaverStep s s' k := by
  cases hm with
  | quiet hsavers hstores | expire hsavers hstores => exact .same (by rw [hsavers])
  | @push op hpush hsavers hstores =>
    by_cases hk : k = State.saverOf op.id
    · subst hk
      exact .push hpush (by simp [hsavers, State.push]) rfl
    · exact .same (by simp [hsavers, State.push, Function.update_of_ne hk])
  | close hsavers hstores hpc => exact .close (hsavers k) hpc
  | @saver j a sv out he hsavers =>
    by_cases hk : k = j
    · subst hk
      have hself : s'.savers k = sv := by rw [hsavers, Function.update_self]
      exact .own (hself ▸ he)
    · exact .same (by rw [hsavers, Function.update_of_ne hk])

namespace State

theorem setState_lookup (s : State) (id : RoleID) (state : LoginState) (x : RoleID) :
    (s.setState id state).data.lookup x =
      if x = id then (s.data.lookup id).map fun v => { v with state, stateTime := s.now }
      else s.data.lookup x := by
  simp only [setState]
  by_cases hx : x = id
  · subst hx
    cases hv : s.data.lookup x <;> simp [hv]
  · cases hv : s.data.lookup id <;> simp [hx]

theorem saveOne_lookup (s : State) (op : OpSaveData TypeComp Text) (x : RoleID) :
    (s.saveOne op).data.lookup x =
      if x = op.id then (s.data.lookup op.id).map fun v => { v with cache := op.data }
      else s.data.lookup x := by
  simp only [saveOne, push, setCache]
  by_cases hx : x = op.id
  · subst hx
    cases hv : s.data.lookup op.id <;> simp [hv]
  · cases hv : s.data.lookup op.id <;> simp [hx]

/-- `saveSuccess` turns the offline entries of the IDs, and nothing else. -/
theorem saveSuccess_lookup (s : State) (ids : List RoleID) (x : RoleID) :
    (s.saveSuccess ids).data.lookup x = s.data.lookup x ∨
      x ∈ ids ∧ ∃ v, s.data.lookup x = some v ∧ v.state = .stateOffline ∧
        (s.saveSuccess ids).data.lookup x =
          some { v with state := .stateCanDel, stateTime := s.now } := by
  induction ids generalizing s with
  | nil => exact Or.inl rfl
  | cons id rest ih =>
    rw [saveSuccess, List.foldl_cons, ← saveSuccess]
    have hnow : (s.saveSuccessOne id).now = s.now := by
      unfold saveSuccessOne
      split
      · split <;> rfl
      · rfl
    have hone : (s.saveSuccessOne id).data.lookup x = s.data.lookup x ∨
        x = id ∧ ∃ v, s.data.lookup x = some v ∧ v.state = .stateOffline ∧
          (s.saveSuccessOne id).data.lookup x =
            some { v with state := .stateCanDel, stateTime := s.now } := by
      unfold saveSuccessOne
      split
      · rename_i v hv
        split
        · rename_i hoff
          by_cases hx : x = id
          · subst hx
            exact Or.inr ⟨rfl, v, hv, hoff, by simp [setState_lookup, hv]⟩
          · exact Or.inl (by simp [setState_lookup, hx])
        · exact Or.inl rfl
      · exact Or.inl rfl
    rcases ih (s.saveSuccessOne id) with hrest | ⟨hmem, v, hv, hoff, hrest⟩
    · rcases hone with heq | ⟨rfl, v, hv, hoff, heq⟩
      · exact Or.inl (hrest.trans heq)
      · exact Or.inr ⟨List.mem_cons_self .., v, hv, hoff, hrest.trans heq⟩
    · rcases hone with heq | ⟨rfl, w, _, _, heq⟩
      · exact Or.inr ⟨List.mem_cons_of_mem _ hmem, v, heq ▸ hv, hoff, hnow ▸ hrest⟩
      · rw [hv, Option.some.injEq] at heq
        simp [heq] at hoff

end State

/-- What a server step can do to the entry of one role. -/
inductive EntryMove (s : State) (a : Act) (s' : State) (id : RoleID) : Prop
  | same (h : s'.data.lookup id = s.data.lookup id)
  | kick {v : LoginData} (hv : s.data.lookup id = some v) (hstate : v.state = .stateOnline)
      (h : s'.data.lookup id = some { v with state := .stateKicking, stateTime := s.now })
  | load {v : LoginData} (hv : (s.data.lookup id).getD { state := .stateInit } = v)
      (hstate : v.state = .stateInit ∨ v.state = .statePending)
      (h : s'.data.lookup id = some { v with state := .statePending, stateTime := s.now })
  | create {data : DataToSave} {login : S2SReqLogin} {v : LoginData}
      (hstart : Starts s data login) (hid : data.roleID = id)
      (haccept : unmarshalRole data s.now ≠ none) (hv : s.data.lookup id = some v)
      (h : s'.data.lookup id =
        some
          { v with
            cache := data.data, loginSeq := login.seq, state := .stateOnline,
            stateTime := s.now })
  | reject {data : DataToSave} {login : S2SReqLogin} {v : LoginData}
      (hstart : Starts s data login) (hid : data.roleID = id)
      (hbad : unmarshalRole data s.now = none ∨ data.roleID ≠ login.roleID)
      (hv : s.data.lookup id = some v)
      (h : s'.data.lookup id = some { v with state := .stateOffline, stateTime := s.now })
      (hact : a = .logon .onOps)
  | logout {data : DataToSave} {r : Nat} {rest : List LogonEvent} {v : LoginData}
      (hops : s.ops = .logout data r :: rest) (hid : data.roleID = id)
      (hv : s.data.lookup id = some v)
      (h : s'.data.lookup id =
        some { v with state := .stateOffline, stateTime := s.now, cache := data.data })
      (hlogged : s'.logged = s.logged ++ [r])
  | saveRole {data : DataToSave} {both : Bool} {r : Nat} {rest : List LogonEvent}
      {v : LoginData} (hops : s.ops = .saveRole data both r :: rest) (hid : data.roleID = id)
      (hv : s.data.lookup id = some v)
      (h : s'.data.lookup id = some { v with cache := data.data })
  | acked {ids : List RoleID} {rest : List LogonEvent} {v : LoginData}
      (hops : s.ops = .saveSuccess ids :: rest) (hmem : id ∈ ids)
      (hv : s.data.lookup id = some v) (hstate : v.state = .stateOffline)
      (h : s'.data.lookup id = some { v with state := .stateCanDel, stateTime := s.now })
  | release {v : LoginData} (hv : s.data.lookup id = some v) (hstate : v.state = .stateCanDel)
      (h : s'.data.lookup id = none)

theorem InitRole.entryMove {s s₀ s' : State} (h : InitRole s₀ data login s')
    (hstart : Starts s data login) (hdata : s₀.data = s.data) (hnow : s₀.now = s.now)
    (id : RoleID) :
    EntryMove s (.logon .onOps) s' id := by
  cases h with
  | reject hbad =>
    rw [hnow] at hbad
    have hlookup := s₀.setState_lookup data.roleID .stateOffline id
    rw [hdata, hnow] at hlookup
    by_cases hid : id = data.roleID
    · subst hid
      cases hv : s.data.lookup data.roleID with
      | none => exact .same (by simpa [hv] using hlookup)
      | some v => exact .reject hstart rfl hbad hv (by simpa [hv] using hlookup) rfl
    · exact .same (by simpa [hid] using hlookup)
  | missing hv => exact .same (by rw [hdata])
  | @create comps v hcomps hid hv =>
    rw [hnow] at hcomps
    rw [hdata] at hv
    by_cases hx : id = data.roleID
    · subst hx
      have haccept : unmarshalRole data s.now ≠ none := by simp [hcomps]
      exact .create hstart rfl haccept hv (by rw [Finmap.lookup_insert, hnow])
    · exact .same (by simp [hx, hdata])

theorem OnOps.entryMove (hops : s.ops = e :: rest) (h : OnOps { s with ops := rest } e s')
    (id : RoleID) :
    EntryMove s (.logon .onOps) s' id := by
  cases h with
  | @kick msg v hv hstate =>
    by_cases hx : id = msg.roleID
    · subst hx
      exact .kick hv hstate (by simp)
    · exact .same (by simp [hx])
  | relogin hv hstate hinit => exact hinit.entryMove (.relogin hops hv hstate) rfl rfl id
  | ignore => exact .same rfl
  | @reload msg v hv hstate htime =>
    have hv' : s.data.lookup msg.roleID = some v := hv
    by_cases hx : id = msg.roleID
    · subst hx
      exact .load (by rw [hv', Option.getD_some]) (Or.inr hstate) (by simp)
    · exact .same (by simp [hx])
  | @firstLoad msg v hv hstate =>
    by_cases hx : id = msg.roleID
    · subst hx
      exact .load hv (Or.inl hstate) (by simp)
    · exact .same (by simp [hx])
  | loaded hinit => exact hinit.entryMove (.loaded hops) rfl rfl id
  | lost hv => exact .same rfl
  | reentry hv hinit => exact hinit.entryMove (.reentry hops hv) rfl rfl id
  | @logout data r hroom =>
    have hlookup := ({ s with ops := rest }.setState data.roleID .stateOffline).saveOne_lookup
      ⟨data.roleID, data.data, false⟩ id
    rw [State.setState_lookup, State.setState_lookup] at hlookup
    by_cases hx : id = data.roleID
    · subst hx
      cases hv : s.data.lookup data.roleID with
      | none => exact .same (by simpa [hv] using hlookup)
      | some v => exact .logout hops rfl hv (by simpa [hv] using hlookup) rfl
    · exact .same (by simpa [hx] using hlookup)
  | @saveRole data both r =>
    have hlookup := { s with ops := rest }.saveOne_lookup ⟨data.roleID, data.data, both⟩ id
    by_cases hx : id = data.roleID
    · subst hx
      cases hv : s.data.lookup data.roleID with
      | none => exact .same (by simpa [hv] using hlookup)
      | some v => exact .saveRole hops rfl hv (by simpa [hv] using hlookup)
    · exact .same (by simpa [hx] using hlookup)
  | @saveSuccess ids =>
    rcases { s with ops := rest }.saveSuccess_lookup ids id with
      heq | ⟨hmem, v, hv, hoff, heq⟩
    · exact .same heq
    · exact .acked hops hmem hv hoff heq

theorem Effect.entryMove (he : Effect s a s') (id : RoleID) : EntryMove s a s' id := by
  cases he with
  | logon hl =>
    cases hl with
    | onOps hpc hops hon => exact hon.entryMove hops id
    | @cleanupSave now x todo v hpc hv hstate =>
      have hlookup := s.saveOne_lookup ⟨x, v.cache, true⟩ id
      refine .same (hlookup.trans ?_)
      by_cases hx : id = x
      · subst hx
        simp [hv]
      · simp [hx]
    | @release now x todo v hpc hv hstate =>
      by_cases hx : id = x
      · subst hx
        exact .release hv hstate (by simp)
      · exact .same (by simp [hx])
    | _ => exact .same rfl
  | load hl he | reentry hv he | role hr he | close he => cases he <;> exact .same rfl
  | _ => exact .same rfl

/-- What a server step can do to a load. -/
inductive LoadStep (s : State) (l : Load) : LoadPhase → Prop
  | miss (hp : l.phase = .queued) (hempty : s.stores.redis l.login.roleID = ∅) :
      LoadStep s l .missed
  | hit (hp : l.phase = .queued) (hsome : s.stores.redis l.login.roleID ≠ ∅) :
      LoadStep s l (.loaded ⟨l.login.roleID, some (s.stores.redis l.login.roleID)⟩)
  | mongo {last : Option RoleID} (hp : l.phase = .missed)
      (hlast : s.stores.mongo (last.getD l.login.roleID) = ∅ ↔ last = none) :
      LoadStep s l (.loaded (fromDB s.stores.mongo last l.login.roleID))
  | post {data : DataToSave} (hp : l.phase = .loaded data) : LoadStep s l .posted
  | gone : LoadStep s l .gone

/-- What a server step can do to the loads. -/
inductive LoadMove (s : State) (a : Act) (s' : State) : Prop
  | same (h : s'.loads = s.loads)
  | queue {login : S2SReqLogin} (h : s'.loads = s.loads ++ [{ login, phase := .queued }])
  | set {i : Nat} {l : Load} {phase : LoadPhase} (hl : s.loads[i]? = some l)
      (hstep : LoadStep s l phase) (h : s'.loads = s.loads.set i { l with phase })
      (hmiss : phase = .missed → a = .load i .readRedis)

theorem setLoad_loadMove {i : Nat} {l : Load} {phase : LoadPhase} (hl : s.loads[i]? = some l)
    (hstep : LoadStep s l phase) (h : s'.loads = (s.setLoad i phase).loads)
    (hmiss : phase = .missed → a = .load i .readRedis) : LoadMove s a s' :=
  .set hl hstep (h.trans (by simp [State.setLoad, hl])) hmiss

theorem Effect.loadMove (he : Effect s a s') : LoadMove s a s' := by
  cases he with
  | logon hl =>
    cases hl with
    | onOps hpc hops hon =>
      cases hon with
      | relogin hv hstate hinit | reentry hv hinit => exact .same hinit.frame.2.1
      | reload hv hstate htime | firstLoad hv hstate => exact .queue rfl
      | @loaded msg data i _ hinit =>
        cases hl : s.loads[i]? with
        | none => exact .same (hinit.frame.2.1.trans (by simp [State.setLoad, hl]))
        | some l => exact setLoad_loadMove hl .gone hinit.frame.2.1 (by simp)
      | _ => exact .same rfl
    | _ => exact .same rfl
  | load hl hload =>
    cases hload with
    | miss hp hempty => exact setLoad_loadMove hl (.miss hp hempty) rfl fun _ => rfl
    | hit hp hsome => exact setLoad_loadMove hl (.hit hp hsome) rfl (by simp)
    | mongo hp hlast => exact setLoad_loadMove hl (.mongo hp hlast) rfl (by simp)
    | post hp => exact setLoad_loadMove hl (.post hp) rfl (by simp)
    | drop hp => exact setLoad_loadMove hl .gone rfl (by simp)
  | reentry hv he | role hr he | close he => cases he <;> exact .same rfl
  | _ => exact .same rfl

/-- What a server step can do to a re-entry. -/
inductive ReentryStep (s : State) (g : Nat) (v : Reentry) : Reentry → Prop
  | move {phase : ReentryPhase} (hp : phase ≠ .gone) : ReentryStep s g v { v with phase }
  | found {r : Nat} (hreg : s.reg.lookup v.login.roleID = some r) :
      ReentryStep s g v { v with phase := .waiting, found := some r }
  | heard {msg : S2SReqLogin} {rest : List LogonEvent} (hops : s.ops = .reentry msg g :: rest) :
      ReentryStep s g v { v with phase := .gone }

/-- What a server step can do to the re-entries. -/
inductive ReentryMove (s s' : State) : Prop
  | same (h : s'.reentries = s.reentries)
  | spawn {login : S2SReqLogin}
      (h : s'.reentries = s.reentries ++ [{ login, phase := .spawned, found := none }])
  | set {g : Nat} {v v' : Reentry} (hv : s.reentries[g]? = some v)
      (hstep : ReentryStep s g v v') (h : s'.reentries = s.reentries.set g v')

theorem setReentry_reentryMove {g : Nat} {phase : ReentryPhase}
    (hstep : ∀ v, ReentryStep s g v { v with phase })
    (h : s'.reentries = (s.setReentry g phase).reentries) : ReentryMove s s' := by
  cases hv : s.reentries[g]? with
  | none => exact .same (h.trans (by simp [State.setReentry, hv]))
  | some v => exact .set hv (hstep v) (h.trans (by simp [State.setReentry, hv]))

theorem Effect.reentryMove (he : Effect s a s') : ReentryMove s s' := by
  cases he with
  | logon hl =>
    cases hl with
    | onOps hpc hops hon =>
      cases hon with
      | kick hv hstate => exact .spawn rfl
      | relogin hv hstate hinit | loaded hinit => exact .same hinit.frame.2.2.1
      | lost hv => exact setReentry_reentryMove (fun _ => .heard hops) rfl
      | reentry hv hinit =>
        exact setReentry_reentryMove (fun _ => .heard hops) hinit.frame.2.2.1
      | _ => exact .same rfl
    | _ => exact .same rfl
  | load hl hload => cases hload <;> exact .same rfl
  | reentry hv hre =>
    cases hre with
    | kickMiss hp hreg | waitDone hp hfound hr hwait | post hp =>
      exact setReentry_reentryMove (fun _ => .move (by simp)) rfl
    | kickFound hp hreg => exact .set hv (.found hreg) rfl
  | role hr he | close he => cases he <;> exact .same rfl
  | _ => exact .same rfl

end GameCluster
