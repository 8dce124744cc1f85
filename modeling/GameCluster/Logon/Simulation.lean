import GameCluster.Logon.Session
import GameCluster.Logon.Tagged

/-!
The game server follows the login protocol. `State.control` forgets the data,
and each step of the server is one step of the protocol, provided the server
step meets the protocol's conditions, which `State.serial` states on the
server. With that the protocol's invariant holds in the server.
-/

namespace GameCluster

open Lib

def LogonEvent.signal : LogonEvent → Option Protocol.Signal
  | .dbLoaded _ _ load => some (.loaded load)
  | .reentry _ g => some (.reentry g)
  | .logout _ r => some (.logout r)
  | _ => none

def LoadPhase.stage : LoadPhase → Protocol.LoadStage
  | .posted => .posted
  | .gone => .gone
  | _ => .working

def Load.control (l : Load) : Protocol.Load := ⟨l.login.roleID, l.phase.stage⟩

def Reentry.control (v : Reentry) : Protocol.Reentry := ⟨v.login.roleID, v.phase, v.found⟩

def Role.control (r : Role) : Protocol.Role := ⟨r.id, r.sesID, r.phase⟩

def LogonPc.starting? : LogonPc → Option (Nat × StartStage)
  | .starting r stage => some (r, stage)
  | _ => none

namespace State

def control (s : State) : Protocol.Control where
  state x := (s.data.lookup x).map (·.state)
  signals := s.ops.filterMap LogonEvent.signal
  loads := s.loads.map Load.control
  reentries := s.reentries.map Reentry.control
  roles := s.roles.map Role.control
  logged := s.logged
  ses := s.ses
  reg := s.reg
  starting := s.pc.starting?

/-- An entry written for a role whose state becomes `st`. -/
theorem state_insert (s : State) (id : RoleID) (v : LoginData) :
    (fun x => ((s.data.insert id v).lookup x).map (·.state)) =
      Function.update s.control.state id (some v.state) := by
  funext x
  rw [Map.lookup_insert_ite, Function.update_apply]
  split <;> rfl

@[simp] theorem control_setState (s : State) (id : RoleID) (st : LoginState) :
    (s.setState id st).control = s.control.setState id st := by
  have hstate : (s.setState id st).control.state = (s.control.setState id st).state := by
    funext x
    simp only [control, setState, Protocol.Control.setState, Function.update_apply]
    by_cases hx : x = id
    · subst hx
      cases hv : s.data.lookup x <;> simp [hv]
    · cases hv : s.data.lookup id <;> simp [hx]
  exact congrArg (fun f => { s.control with state := f }) hstate

@[simp] theorem control_saveOne (s : State) (op : OpSaveData TypeComp Text) :
    (s.saveOne op).control = s.control := by
  have hstate : (s.saveOne op).control.state = s.control.state := by
    funext x
    simp only [control, saveOne, push, setCache]
    by_cases hx : x = op.id
    · subst hx
      cases hv : s.data.lookup op.id <;> simp [hv]
    · cases hv : s.data.lookup op.id <;> simp [hx]
  exact congrArg (fun f => { s.control with state := f }) hstate

variable {s : State} {i : Nat}

theorem control_setLoad {l : Load} (hl : s.loads[i]? = some l) (phase : LoadPhase) :
    (s.setLoad i phase).control =
      { s.control with
        loads := s.control.loads.set i { l.control with phase := phase.stage } } := by
  simp [control, setLoad, hl, List.map_set, Load.control]

theorem control_setReentry {g : Nat} {v : Reentry} (hv : s.reentries[g]? = some v)
    (phase : ReentryPhase) :
    (s.setReentry g phase).control =
      { s.control with
        reentries := s.control.reentries.set g { v.control with phase } } := by
  simp [control, setReentry, hv, List.map_set, Reentry.control]

/-- Cancelling a role's context is invisible to the protocol. -/
@[simp] theorem control_kick (s : State) (i : Nat) : (s.kick i).control = s.control := by
  have hroles : (s.kick i).control.roles = s.control.roles := by
    simp only [control, kick]
    cases hr : s.roles[i]? with
    | none => rfl
    | some r =>
      apply List.ext_getElem?
      intro j
      rw [List.map_set, getElem?_set_some (a := r.control) (by simp [hr])]
      by_cases hj : j = i
      · simp [hj, hr, Role.control]
      · simp [hj]
  exact congrArg (fun roles => { s.control with roles }) hroles

theorem control_setRole (s : State) (i : Nat) (r : Role) :
    (s.setRole i r).control = s.control.setRole i r.control := by
  simp [control, setRole, Protocol.Control.setRole, List.map_set]

theorem control_post (s : State) (e : LogonEvent) : { s with ops := s.ops ++ [e] }.control =
      { s.control with signals := s.control.signals ++ e.signal.toList } := by
  cases hsig : e.signal <;> simp [control, hsig]

theorem control_loads {l : Load} (h : s.loads[i]? = some l) :
    s.control.loads[i]? = some l.control := by
  simp [control, h]

theorem control_reentries {g : Nat} {v : Reentry} (h : s.reentries[g]? = some v) :
    s.control.reentries[g]? = some v.control := by
  simp [control, h]

theorem control_roles {r : Role} (h : s.roles[i]? = some r) :
    s.control.roles[i]? = some r.control := by
  simp [control, h]

theorem exists_of_control_roles {c : Protocol.Role} (h : s.control.roles[i]? = some c) :
    ∃ r, s.roles[i]? = some r ∧ r.control = c := by
  simpa [control] using h

/-- What acknowledging the saves of `ids` does to the login states. -/
def acknowledged (state : RoleID → Option LoginState) (ids : List RoleID) (x : RoleID) :
    Option LoginState :=
  if x ∈ ids ∧ state x = some .stateOffline then some .stateCanDel else state x

theorem control_saveSuccessOne (s : State) (id : RoleID) :
    (s.saveSuccessOne id).control =
      { s.control with state := acknowledged s.control.state [id] } := by
  have hstate : s.control.state id = (s.data.lookup id).map (·.state) := rfl
  have hsame : s.control.state id ≠ some .stateOffline →
      acknowledged s.control.state [id] = s.control.state := by
    intro hne
    funext x
    by_cases hx : x = id <;> simp [acknowledged, hx, hne]
  unfold saveSuccessOne
  cases hv : s.data.lookup id with
  | none => rw [hsame (by simp [hstate, hv])]
  | some v =>
    by_cases hoff : v.state = .stateOffline
    · simp only [if_pos hoff, control_setState]
      have hset : (s.control.setState id .stateCanDel).state =
          acknowledged s.control.state [id] := by
        funext x
        by_cases hx : x = id <;>
          simp [Protocol.Control.setState, acknowledged, hx, hstate, hv, hoff]
      exact congrArg (fun f => { s.control with state := f }) hset
    · simp only [if_neg hoff]
      rw [hsame (by simp [hstate, hv, hoff])]

/-- The effect of `saveSuccess` on the login states. -/
theorem control_saveSuccess (s : State) (ids : List RoleID) :
    (s.saveSuccess ids).control =
      { s.control with state := acknowledged s.control.state ids } := by
  induction ids generalizing s with
  | nil =>
    have hnil : acknowledged s.control.state [] = s.control.state := by
      funext x
      simp [acknowledged]
    rw [hnil]
    rfl
  | cons id rest ih =>
    have hcons : acknowledged (acknowledged s.control.state [id]) rest =
        acknowledged s.control.state (id :: rest) := by
      funext x
      simp only [acknowledged, List.mem_cons, List.not_mem_nil, or_false]
      by_cases hx : x = id <;> by_cases hr : x ∈ rest <;>
        by_cases hs : s.control.state x = some .stateOffline <;> simp_all
    rw [saveSuccess, List.foldl_cons, ← saveSuccess, ih, control_saveSuccessOne]
    exact congrArg (fun f => { s.control with state := f }) hcons

/-- No load, or no re-entry, of the role is under way. -/
def noLoad (s : State) (id : RoleID) : Prop :=
  ∀ l ∈ s.loads, l.login.roleID = id → l.phase.stage = .gone

def noReentry (s : State) (id : RoleID) : Prop :=
  ∀ v ∈ s.reentries, v.login.roleID = id → v.phase = .gone

instance (s : State) (id : RoleID) : Decidable (s.noLoad id) :=
  inferInstanceAs (Decidable (∀ _ ∈ _, _))

instance (s : State) (id : RoleID) : Decidable (s.noReentry id) :=
  inferInstanceAs (Decidable (∀ _ ∈ _, _))

/-- `onOps` may take a login of the role. -/
def serialLogin (s : State) (id : RoleID) : Bool :=
  match s.data.lookup id with
  | none => s.noReentry id
  | some v =>
    match v.state with
    | .stateOnline | .stateKicking => true
    | .statePending => s.now - v.stateTime < 10 ∨ s.noLoad id
    | .stateInit | .stateOffline | .stateCanDel => s.noReentry id

/-- The conditions of the login protocol, on the state before a server step. -/
def serial (s : State) : Act → Bool
  | .logon .onOps =>
    match s.ops with
    | .login msg :: _ => s.serialLogin msg.roleID
    | _ => true
  | .logon .register =>
    match s.pc with
    | .starting r .registerSes =>
      ∀ role ∈ s.roles[r]?, s.ses.lookup role.sesID = none ∨
        s.ses.lookup role.sesID = some role.id
    | _ => true
  | .reentry g .kickAndWait =>
    ∀ v ∈ s.reentries[g]?, ∀ r ∈ s.roles, r.id = v.login.roleID → r.phase ≠ .unregistered
  | _ => true

end State

open Protocol (Step)

theorem Protocol.Step.congr {c d d' : Protocol.Control} (h : Step c d) (heq : d' = d) : Step c d' :=
  heq ▸ h

/-- `initRole` starts a role or, failing that, turns its entry offline. -/
theorem InitRole.control {s s' : State} {data : DataToSave} {login : S2SReqLogin}
    (h : InitRole s data login s') :
    s'.control = s.control.setState data.roleID .stateOffline ∨
      s'.control = s.control.create data.roleID login.sesID := by
  cases h with
  | reject hbad => exact Or.inl (State.control_setState s _ _)
  | missing hv =>
    have hnone : s.control.state data.roleID = none := by simp [State.control, hv]
    exact Or.inl (Protocol.Control.setState_missing hnone _).symm
  | create hcomps hid hv =>
    right
    simp only [State.control, State.state_insert, Protocol.Control.create, List.map_append,
      List.map_cons, List.map_nil, List.length_map, LogonPc.starting?, Role.control]

variable {s s' : State}

variable {e : LogonEvent} {rest : List LogonEvent} {id : RoleID}

theorem control_taken (hops : s.ops = e :: rest) (hquiet : e.signal = none) :
    { s with ops := rest }.control = s.control := by
  simp [State.control, hops, hquiet]

theorem control_signals {sig : Protocol.Signal} (hops : s.ops = e :: rest)
    (hsig : e.signal = some sig) :
    s.control.signals = sig :: rest.filterMap LogonEvent.signal := by
  simp [State.control, hops, hsig]

theorem control_idle (hpc : s.pc = .idle) : s.control.starting = none := by
  simp [State.control, hpc, LogonPc.starting?]

theorem control_state {v : LoginData} (hv : s.data.lookup id = some v) :
    s.control.state id = some v.state := by
  simp [State.control, hv]

theorem control_noReentry (h : s.noReentry id) :
    ∀ v ∈ s.control.reentries, v.id = id → v.phase = .gone := by
  simpa [State.control, Reentry.control, State.noReentry] using h

theorem control_noLoad (h : s.noLoad id) : ∀ l ∈ s.control.loads, l.id = id → l.phase = .gone := by
  simpa [State.control, Load.control, State.noLoad] using h

theorem OnOps.control_login {msg : S2SReqLogin} (h : OnOps s (.login msg) s')
    (hpc : s.pc = .idle) (hok : s.serialLogin msg.roleID) : Step s.control s'.control := by
  have hidle := control_idle hpc
  cases h with
  | @kick _ v hv hstate =>
    have hs := hstate ▸ control_state hv
    convert Step.kick hidle hs using 1
    simp only [State.control, State.state_insert, List.map_append, List.map_cons, List.map_nil,
      Reentry.control]
  | @relogin _ v _ hv hstate hinit =>
    have hs : s.control.state msg.roleID = some .stateOffline ∨
        s.control.state msg.roleID = some .stateCanDel := by
      simpa [control_state hv] using hstate
    have hre : s.noReentry msg.roleID := by
      rcases hstate with hst | hst <;> simpa [State.serialLogin, hv, hst] using hok
    rcases hinit.control with heq | heq
    · rw [heq]
      exact .reloginReject hs
    · rw [heq]
      exact .relogin _ hidle hs (control_noReentry hre)
  | ignore => exact .idle
  | @reload _ v hv hstate htime =>
    have hload : s.noLoad msg.roleID := by
      have : s.now - v.stateTime < 10 ∨ s.noLoad msg.roleID := by
        simpa [State.serialLogin, hv, hstate] using hok
      exact this.resolve_left htime
    have hs := hstate ▸ control_state hv
    convert Step.reload hs (control_noLoad hload) using 1
    have hsame : Function.update s.control.state msg.roleID (some .statePending) =
        s.control.state := by rw [← hs, Function.update_eq_self]
    simp only [State.control] at hsame
    simp only [State.control, State.state_insert, List.map_append, List.map_cons, List.map_nil,
      Load.control, LoadPhase.stage, hsame]
  | @firstLoad _ v hv hstate =>
    have hre : s.noReentry msg.roleID := by
      cases hv' : s.data.lookup msg.roleID with
      | none => simpa [State.serialLogin, hv'] using hok
      | some w =>
        rw [hv', Option.getD_some] at hv
        subst hv
        simpa [State.serialLogin, hv', hstate] using hok
    have hs : s.control.state msg.roleID = none ∨
        s.control.state msg.roleID = some .stateInit := by
      cases hv' : s.data.lookup msg.roleID with
      | none => simp [State.control, hv']
      | some w =>
        rw [hv', Option.getD_some] at hv
        subst hv
        exact Or.inr (hstate ▸ control_state hv')
    convert Step.firstLoad hs (control_noReentry hre) using 1
    simp only [State.control, State.state_insert, List.map_append, List.map_cons, List.map_nil,
      Load.control, LoadPhase.stage]

theorem OnOps.control (hpc : s.pc = .idle) (hops : s.ops = e :: rest)
    (hok : s.serial (.logon .onOps)) (htag : EventOk s e) (h : OnOps { s with ops := rest } e s') :
    Step s.control s'.control := by
  have hidle := control_idle hpc
  cases e with
  | login msg =>
    rw [← control_taken hops rfl]
    have hlogin : s.serialLogin msg.roleID := by simpa [State.serial, hops] using hok
    exact h.control_login hpc hlogin
  | dbLoaded msg data i =>
    obtain ⟨⟨l, hl, rfl⟩, hid⟩ := htag
    have hsig := control_signals hops rfl
    have hl' : { s with ops := rest }.loads[i]? = some l := hl
    cases h with
    | loaded hinit =>
      have hc := hinit.control
      rw [State.control_setLoad hl', hid] at hc
      rcases hc with heq | heq
      · rw [heq]
        exact .loadedReject hsig (State.control_loads hl)
      · rw [heq]
        exact .loadedStart _ hidle hsig (State.control_loads hl)
  | reentry msg g =>
    obtain ⟨v, hv, rfl⟩ := htag
    have hsig := control_signals hops rfl
    have hv' : { s with ops := rest }.reentries[g]? = some v := hv
    cases h with
    | lost hnone =>
      have hstate : s.control.state v.login.roleID = none := by
        simpa [State.control] using hnone
      have hreject := Step.reentryReject hsig (State.control_reentries hv)
      rw [Protocol.Control.setState_missing] at hreject
      · rw [State.control_setReentry hv']
        exact hreject
      · exact hstate
    | reentry hent hinit =>
      have hc := hinit.control
      rw [State.control_setReentry hv'] at hc
      rcases hc with heq | heq
      · rw [heq]
        exact .reentryReject hsig (State.control_reentries hv)
      · rw [heq]
        exact .reentryStart _ hidle hsig (State.control_reentries hv)
  | logout data i =>
    obtain ⟨r, hr, hid, _, _⟩ := htag
    have hsig := control_signals hops rfl
    cases h with
    | logout hroom =>
      have hcontrol : ∀ (t : State) (op : OpSaveData TypeComp Text) (logged : List Nat),
          { (t.setState op.id .stateOffline).saveOne op with logged }.control =
            { t.control with logged }.setState op.id .stateOffline := by
        intro t op logged
        exact congrArg (fun c => { c with logged })
          ((State.control_saveOne _ op).trans (State.control_setState t _ _))
      rw [hcontrol { s with ops := rest } ⟨data.roleID, data.data, false⟩, ← hid]
      exact .logout hsig (State.control_roles hr)
  | saveRole data both i =>
    cases h
    rw [State.control_saveOne, control_taken hops rfl]
    exact .idle
  | saveSuccess ids =>
    cases h
    rw [← State.saveSuccess_frame, State.control_saveSuccess, control_taken hops rfl]
    exact .saved ids

theorem LogonEffect.control {a : LogonAct} (ht : Tagged s) (hok : s.serial (.logon a))
    (h : LogonEffect s a s') : Step s.control s'.control := by
  have hst : ∀ {r stage}, s.pc = .starting r stage → s.control.starting = some (r, stage) := by
    intro r stage hpc
    simp [State.control, hpc, LogonPc.starting?]
  -- The moves of the login goroutine between and inside its cleanups.
  have unseen : ∀ (t : State) (pc : LogonPc), t.control = s.control →
      pc.starting? = s.pc.starting? → Step s.control { t with pc }.control := by
    intro t pc ht hpc
    have heq : { t with pc }.control = s.control :=
      calc { t with pc }.control = { t.control with starting := pc.starting? } := rfl
        _ = { s.control with starting := s.pc.starting? } := by rw [ht, hpc]
        _ = s.control := rfl
    rw [heq]
    exact .idle
  cases h with
  | @onOps e rest _ hpc hops hon =>
    exact hon.control hpc hops hok (ht.events e (by simp [hops]))
  | @registerSes r role hpc hr =>
    have hses : s.ses.lookup role.sesID = none ∨ s.ses.lookup role.sesID = some role.id := by
      simpa [State.serial, hpc, hr] using hok
    exact .registerSes (hst hpc) (State.control_roles hr) hses
  | registerRole hpc hr => exact .registerRole (hst hpc) (State.control_roles hr)
  | @run r role hpc hr =>
    exact (Step.run (hst hpc) (State.control_roles hr)).congr
      (congrArg (fun c => { c with starting := none })
        (State.control_setRole s r { role with phase := .started }))
  | cleanup hpc | cleanupSkip hpc | cleanupEnd hpc =>
    exact unseen s _ rfl (by simp [hpc, LogonPc.starting?])
  | cleanupSave hpc hv hstate =>
    exact unseen _ _ (State.control_saveOne s _) (by simp [hpc, LogonPc.starting?])
  | @release now id todo v hpc hv hstate =>
    have hrelease := Step.release (hstate ▸ control_state hv)
    have herase : (fun x => ((s.data.erase id).lookup x).map (·.state)) =
        Function.update s.control.state id none := by
      funext x
      rw [Map.lookup_erase_ite, Function.update_apply]
      split <;> rfl
    simp only [State.control, herase, hpc, LogonPc.starting?] at hrelease ⊢
    exact hrelease
  | drain hpc hctx => exact .idle
  | exit hpc hops hdrain => exact unseen s .exited rfl (by simp [hpc, LogonPc.starting?])

theorem LoadEffect.control {i : Nat} {l : Load} {a : LoadAct} (hl : s.loads[i]? = some l)
    (h : LoadEffect s i l a s') : Step s.control s'.control := by
  have hl' := State.control_loads hl
  have working : ∀ phase : LoadPhase, phase.stage = .working → l.phase.stage = .working →
      (s.setLoad i phase).control = s.control := by
    intro phase hnew hold
    have hsame : { l.control with phase := phase.stage } = l.control := by
      rw [hnew, ← hold]
      rfl
    rw [State.control_setLoad hl, hsame, set_getElem?_self hl']
  cases h with
  | miss hp hempty | hit hp hsome | mongo hp hlast =>
    rw [working _ rfl (by rw [hp]; rfl)]
    exact .idle
  | @post data hp =>
    have hpost := State.control_post (s.setLoad i .posted) (.dbLoaded l.login data i)
    rw [State.control_setLoad hl] at hpost
    exact (Step.loadPost hl' (by rw [Load.control, hp]; rfl)).congr hpost
  | drop hp =>
    rw [State.control_setLoad hl]
    exact .loadDrop hl' (by rcases hp with hp | hp <;> rw [Load.control, hp] <;> rfl)

theorem ReentryEffect.control {g : Nat} {v : Reentry} {a : ReentryAct}
    (hv : s.reentries[g]? = some v) (hok : s.serial (.reentry g a))
    (h : ReentryEffect s g v a s') : Step s.control s'.control := by
  have hv' := State.control_reentries hv
  have gap : a = .kickAndWait →
      ∀ r ∈ s.control.roles, r.id = v.control.id → r.phase ≠ .unregistered := by
    rintro rfl
    simpa [State.serial, hv, State.control, Role.control, Reentry.control] using hok
  cases h with
  | kickMiss hp hreg =>
    rw [State.control_setReentry hv]
    exact .kickMiss hv' hp hreg (gap rfl)
  | @kickFound r hp hreg =>
    refine (Step.kickFound hv' hp hreg (gap rfl)).congr ?_
    rw [← State.control_kick s r]
    simp [State.control, State.kick, List.map_set, Reentry.control]
  | waitDone hp hfound hr hwait =>
    rw [State.control_setReentry hv]
    exact .waitDone hv' hp hfound (State.control_roles hr) hwait
  | post hp =>
    have hpost := State.control_post (s.setReentry g .posted) (.reentry v.login g)
    rw [State.control_setReentry hv] at hpost
    exact (Step.reentryPost hv' hp).congr hpost

theorem RoleEffect.control {i : Nat} {r : Role} {a : RoleAct} (hr : s.roles[i]? = some r)
    (h : RoleEffect s i r a s') : Step s.control s'.control := by
  have hr' := State.control_roles hr
  have inside : ∀ q : Role, q.control = r.control → (s.setRole i q).control = s.control := by
    intro q hq
    rw [State.control_setRole, hq, Protocol.Control.setRole, set_getElem?_self hr']
  have advance : ∀ {q : Role}, q.id = r.id → q.sesID = r.sesID →
      Protocol.Advance r.phase q.phase → Step s.control (s.setRole i q).control := by
    intro q hid hses hp
    refine (Step.advance hr' hp).congr ?_
    rw [State.control_setRole, Role.control, hid, hses]
    rfl
  cases h with
  | cancel =>
    rw [State.control_kick]
    exact .idle
  | online hp => exact advance rfl rfl (hp ▸ .online)
  | touch hp => exact Step.idle.congr (inside _ rfl)
  | @save both hp hne =>
    have hpost := State.control_post (s.setRole i { r with comps := r.comps.clearDirty })
      (.saveRole ⟨r.id, some (r.comps.marshal false)⟩ both i)
    rw [inside { r with comps := r.comps.clearDirty } rfl] at hpost
    exact Step.idle.congr (hpost.trans (by simp [LogonEvent.signal]))
  | exit hp hbal => exact advance rfl rfl (hp ▸ .exit)
  | panic hp hbal => exact advance rfl rfl (hp ▸ .panic)
  | leaveSes hp hses =>
    exact (Step.leaveSes hr' hp hses).congr
      (congrArg (fun c => { c with ses := s.ses.erase r.sesID })
        (State.control_setRole s i { r with phase := .leftSes }))
  | loseSes hp hses => exact (Step.loseSes hr' hp hses).congr (State.control_setRole s i _)
  | leaveReg hp =>
    exact (Step.leaveReg hr' hp).congr
      (congrArg (fun c => { c with reg := s.reg.erase r.id })
        (State.control_setRole s i { r with phase := .unregistered }))
  | postLogout hp =>
    have hpost := State.control_post
      (s.setRole i { r with phase := .posted, logout := some (r.comps.marshal true) })
      (.logout ⟨r.id, some (r.comps.marshal true)⟩ i)
    rw [State.control_setRole] at hpost
    exact (Step.postLogout hr' hp).congr hpost
  | done hp => exact advance rfl rfl (hp ▸ .done)

/-- Each step of the server that meets the conditions is a step of the protocol. -/
theorem Effect.control {a : Act} (ht : Tagged s) (hok : s.serial a) (h : Effect s a s') :
    Step s.control s'.control := by
  cases h with
  | login => exact Step.idle.congr ((State.control_post s _).trans (by simp [LogonEvent.signal]))
  | tick => exact .idle
  | logon hl => exact hl.control ht hok
  | load hl hload => exact hload.control hl
  | loaderExit | expire => exact .idle
  | reentry hv hre => exact hre.control hv hok
  | role hr hrole => exact hrole.control hr
  | @saver k a saver stores out hs =>
    refine Step.idle.congr ?_
    cases out <;> simp [State.control, LogonEvent.signal]
  | close hc =>
    cases hc with
    | @kick r todo metas hc =>
      exact Step.idle.congr (State.control_kick s r)
    | _ => exact .idle

/-- The protocol's invariant holds throughout the runs that meet its
conditions. -/
theorem control_inv {ok : State → Act → Prop} (hserial : ∀ s a, ok s a → s.serial a)
    (h : gameServer.Reachable ok s) : Protocol.Inv s.control := by
  refine h.invariant (P := fun s => Protocol.Inv s.control) ?_ fun s a t hr hi hok hs => ?_
  · rintro _ ⟨now, stores, rfl⟩
    exact Protocol.Inv.initial
  · exact hi.step
      (Effect.control (Tagged.reachable hr) (hserial s a hok) (State.step_effect hs))

end GameCluster
