import GameCluster.Lib.Table
import GameCluster.Logon.Protocol
import GameCluster.Logon.Step

/-!
Everything a step of the game server can do, guards included, as inductive
relations: one for `initRole`, one for `onOps` and one for the whole server.
Each step function is inverted here once, and every invariant is proved by
cases on these relations.
-/

namespace GameCluster

open Lib

/-- What `initRole` can do. -/
inductive InitRole (s : State) (data : DataToSave) (login : S2SReqLogin) : State → Prop
  | reject (hbad : unmarshalRole data s.now = none ∨ data.roleID ≠ login.roleID) :
      InitRole s data login (s.setState data.roleID .stateOffline)
  | missing (hv : s.data.lookup data.roleID = none) : InitRole s data login s
  | create {comps : Comps} {v : LoginData} (hcomps : unmarshalRole data s.now = some comps)
      (hid : data.roleID = login.roleID) (hv : s.data.lookup data.roleID = some v) :
      InitRole s data login
        { s with
          data := s.data.insert data.roleID
            { v with
              cache := data.data, loginSeq := login.seq, state := .stateOnline,
              stateTime := s.now }
          roles := s.roles ++
            [{ id := data.roleID, sesID := login.sesID, comps, phase := .created,
               cancelled := false, start := data.data, logout := none }]
          pc := .starting s.roles.length .registerSes }

/-- What `onOps` can do with an event, in the state after the event was taken
from the channel. -/
inductive OnOps (s : State) : LogonEvent → State → Prop
  | kick {msg : S2SReqLogin} {v : LoginData} (hv : s.data.lookup msg.roleID = some v)
      (hstate : v.state = .stateOnline) :
      OnOps s (.login msg)
        { s with
          data := s.data.insert msg.roleID
            { v with state := .stateKicking, stateTime := s.now }
          reentries := s.reentries ++ [{ login := msg, phase := .spawned, found := none }] }
  | relogin {msg : S2SReqLogin} {v : LoginData} {s' : State}
      (hv : s.data.lookup msg.roleID = some v)
      (hstate : v.state = .stateOffline ∨ v.state = .stateCanDel)
      (hinit : InitRole s ⟨msg.roleID, v.cache⟩ msg s') : OnOps s (.login msg) s'
  | ignore {msg : S2SReqLogin} : OnOps s (.login msg) s
  | reload {msg : S2SReqLogin} {v : LoginData} (hv : s.data.lookup msg.roleID = some v)
      (hstate : v.state = .statePending) (htime : ¬s.now - v.stateTime < 10) :
      OnOps s (.login msg)
        { s with
          data := s.data.insert msg.roleID
            { v with state := .statePending, stateTime := s.now }
          loads := s.loads ++ [{ login := msg, phase := .queued }] }
  | firstLoad {msg : S2SReqLogin} {v : LoginData}
      (hv : (s.data.lookup msg.roleID).getD { state := .stateInit } = v)
      (hstate : v.state = .stateInit) :
      OnOps s (.login msg)
        { s with
          data := s.data.insert msg.roleID
            { v with state := .statePending, stateTime := s.now }
          loads := s.loads ++ [{ login := msg, phase := .queued }] }
  | loaded {msg : S2SReqLogin} {data : DataToSave} {i : Nat} {s' : State}
      (hinit : InitRole (s.setLoad i .gone) data msg s') : OnOps s (.dbLoaded msg data i) s'
  | lost {msg : S2SReqLogin} {g : Nat} (hv : s.data.lookup msg.roleID = none) :
      OnOps s (.reentry msg g) (s.setReentry g .gone)
  | reentry {msg : S2SReqLogin} {g : Nat} {v : LoginData} {s' : State}
      (hv : s.data.lookup msg.roleID = some v)
      (hinit : InitRole (s.setReentry g .gone) ⟨msg.roleID, v.cache⟩ msg s') :
      OnOps s (.reentry msg g) s'
  | logout {data : DataToSave} {r : Nat}
      (hroom : ((s.savers (State.saverOf data.roleID)).q.push
        ⟨data.roleID, data.data, false⟩).2 ≠ some .queueFull) :
      OnOps s (.logout data r)
        { (s.setState data.roleID .stateOffline).saveOne ⟨data.roleID, data.data, false⟩ with
          logged := s.logged ++ [r] }
  | saveRole {data : DataToSave} {both : Bool} {r : Nat} :
      OnOps s (.saveRole data both r) (s.saveOne ⟨data.roleID, data.data, both⟩)
  | saveSuccess {ids : List RoleID} :
      OnOps s (.saveSuccess ids) { s with data := (s.saveSuccess ids).data }

namespace State

/-- `saveSuccess` changes nothing but `m.data`. -/
theorem saveSuccess_frame (s : State) (ids : List RoleID) :
    s.saveSuccess ids = { s with data := (s.saveSuccess ids).data } := by
  induction ids generalizing s with
  | nil => rfl
  | cons id rest ih =>
    have hone : s.saveSuccessOne id = { s with data := (s.saveSuccessOne id).data } := by
      unfold saveSuccessOne
      split
      · split <;> rfl
      · rfl
    rw [saveSuccess, List.foldl_cons, ← saveSuccess, hone]
    exact ih _

theorem initRole_effect (s : State) (data : DataToSave) (login : S2SReqLogin) :
    InitRole s data login (s.initRole data login) := by
  unfold initRole
  cases hcomps : unmarshalRole data s.now with
  | none => exact .reject (Or.inl hcomps)
  | some comps =>
    by_cases hid : data.roleID ≠ login.roleID
    · simp only [if_pos hid]
      exact .reject (Or.inr hid)
    · simp only [if_neg hid]
      cases hv : s.data.lookup data.roleID with
      | none => exact .missing hv
      | some v => exact .create hcomps (not_not.mp hid) hv

theorem insert_lookup_self {κ α : Type} [DecidableEq κ] {m : Map κ α} {k : κ} {v : α}
    (h : m.lookup k = some v) : m.insert k v = m := by
  apply Finmap.ext_lookup
  intro k'
  rw [Map.lookup_insert_ite]
  split
  · rename_i heq
    rw [heq, h]
  · rfl

theorem opSignIn_effect (s : State) (msg : S2SReqLogin) :
    OnOps s (.login msg) (s.opSignIn msg) := by
  unfold opSignIn
  cases hv : s.data.lookup msg.roleID with
  | none =>
    simp only [Option.getD_none, setState, postToLoad, Map.lookup_insert_ite, if_true,
      Finmap.insert_insert]
    exact .firstLoad (v := { state := .stateInit }) (by rw [hv]; rfl) rfl
  | some v =>
    simp only [Option.getD_some, insert_lookup_self hv]
    cases hstate : v.state with
    | stateOnline =>
      simp only [handleReentry, setState, hv]
      exact .kick hv hstate
    | stateOffline =>
      exact .relogin hv (Or.inl hstate) (initRole_effect s _ msg)
    | stateCanDel =>
      exact .relogin hv (Or.inr hstate) (initRole_effect s _ msg)
    | statePending =>
      by_cases htime : s.now - v.stateTime < 10
      · simp only [if_pos htime]
        exact .ignore
      · simp only [if_neg htime, setState, postToLoad, hv]
        exact .reload hv hstate htime
    | stateKicking => exact .ignore
    | stateInit =>
      simp only [setState, postToLoad, hv]
      exact .firstLoad (by rw [hv]; rfl) hstate

theorem onOps_effect {s s' : State} {e : LogonEvent} (h : s.onOps e = some s') : OnOps s e s' := by
  cases e with
  | login msg =>
    cases h
    exact opSignIn_effect s msg
  | dbLoaded msg data i =>
    cases h
    exact .loaded (initRole_effect _ data msg)
  | reentry msg g =>
    cases h
    unfold opReentry
    split
    · rename_i hv
      exact .lost hv
    · rename_i v hv
      exact .reentry hv (initRole_effect _ _ msg)
  | logout data r =>
    simp only [onOps, roleOffline, saveMust, Option.map_eq_some_iff,
      Option.ite_none_left_eq_some] at h
    obtain ⟨s₁, ⟨hroom, heq⟩, rfl⟩ := h
    cases heq
    exact .logout hroom
  | saveRole data both r =>
    cases h
    exact .saveRole
  | saveSuccess ids =>
    cases h
    rw [saveSuccess_frame]
    exact .saveSuccess

end State

/-- What the login goroutine can do. -/
inductive LogonEffect (s : State) : LogonAct → State → Prop
  | onOps {e : LogonEvent} {rest : List LogonEvent} {s' : State} (hpc : s.pc = .idle)
      (hops : s.ops = e :: rest) (h : OnOps { s with ops := rest } e s') :
      LogonEffect s .onOps s'
  | registerSes {r : Nat} {role : Role} (hpc : s.pc = .starting r .registerSes)
      (hr : s.roles[r]? = some role) :
      LogonEffect s .register
        { s with ses := s.ses.insert role.sesID role.id, pc := .starting r .registerRole }
  | registerRole {r : Nat} {role : Role} (hpc : s.pc = .starting r .registerRole)
      (hr : s.roles[r]? = some role) :
      LogonEffect s .register { s with reg := s.reg.insert role.id r, pc := .starting r .run }
  | run {r : Nat} {role : Role} (hpc : s.pc = .starting r .run)
      (hr : s.roles[r]? = some role) :
      LogonEffect s .register { s.setRole r { role with phase := .started } with pc := .idle }
  | cleanup {order : List RoleID} (hpc : s.pc = .idle) :
      LogonEffect s (.cleanup order) { s with pc := .cleaning s.now order }
  | cleanupSave {now : Int} {id : RoleID} {todo : List RoleID} {v : LoginData}
      (hpc : s.pc = .cleaning now (id :: todo)) (hv : s.data.lookup id = some v)
      (hstate : v.state = .stateOffline) :
      LogonEffect s .cleanupNext
        { s.saveOne ⟨id, v.cache, true⟩ with pc := .cleaning now todo }
  | release {now : Int} {id : RoleID} {todo : List RoleID} {v : LoginData}
      (hpc : s.pc = .cleaning now (id :: todo)) (hv : s.data.lookup id = some v)
      (hstate : v.state = .stateCanDel) :
      LogonEffect s .cleanupNext
        { s with
          data := s.data.erase id
          cleared := s.cleared ++ [(id, v.loginSeq)]
          pc := .cleaning now todo }
  | cleanupSkip {now : Int} {id : RoleID} {todo : List RoleID}
      (hpc : s.pc = .cleaning now (id :: todo)) :
      LogonEffect s .cleanupNext { s with pc := .cleaning now todo }
  | cleanupEnd {now : Int} (hpc : s.pc = .cleaning now []) :
      LogonEffect s .cleanupNext { s with pc := .idle }
  | drain (hpc : s.pc = .idle) (hctx : s.ctxDone = true) :
      LogonEffect s .drain { s with draining := true }
  | exit (hpc : s.pc = .idle) (hops : s.ops = []) (hdrain : s.draining = true) :
      LogonEffect s .exit
        { s with
          pc := .exited
          savers := fun k => { s.savers k with q := (s.savers k).q.close } }

/-- What a login on its way through a loader can do. -/
inductive LoadEffect (s : State) (i : Nat) (l : Load) : LoadAct → State → Prop
  | miss (hp : l.phase = .queued) (hempty : s.stores.redis l.login.roleID = ∅) :
      LoadEffect s i l .readRedis (s.setLoad i .missed)
  | hit (hp : l.phase = .queued) (hsome : s.stores.redis l.login.roleID ≠ ∅) :
      LoadEffect s i l .readRedis
        (s.setLoad i (.loaded ⟨l.login.roleID, some (s.stores.redis l.login.roleID)⟩))
  | mongo {last : Option RoleID} (hp : l.phase = .missed)
      (hlast : s.stores.mongo (last.getD l.login.roleID) = ∅ ↔ last = none) :
      LoadEffect s i l (.readMongo last)
        (s.setLoad i (.loaded (fromDB s.stores.mongo last l.login.roleID)))
  | post {data : DataToSave} (hp : l.phase = .loaded data) :
      LoadEffect s i l .post
        { s.setLoad i .posted with ops := s.ops ++ [.dbLoaded l.login data i] }
  | drop (hp : l.phase = .queued ∨ l.phase = .missed) :
      LoadEffect s i l .drop (s.setLoad i .gone)

/-- What a goroutine of `handleReentry` can do. -/
inductive ReentryEffect (s : State) (g : Nat) (v : Reentry) : ReentryAct → State → Prop
  | kickMiss (hp : v.phase = .spawned) (hreg : s.reg.lookup v.login.roleID = none) :
      ReentryEffect s g v .kickAndWait (s.setReentry g .posting)
  | kickFound {r : Nat} (hp : v.phase = .spawned)
      (hreg : s.reg.lookup v.login.roleID = some r) :
      ReentryEffect s g v .kickAndWait
        { s.kick r with
          reentries := s.reentries.set g { v with phase := .waiting, found := some r } }
  | waitDone {r : Nat} {role : Role} (hp : v.phase = .waiting) (hfound : v.found = some r)
      (hr : s.roles[r]? = some role) (hwait : role.phase = .created ∨ role.phase = .done) :
      ReentryEffect s g v .waitDone (s.setReentry g .posting)
  | post (hp : v.phase = .posting) :
      ReentryEffect s g v .post
        { s.setReentry g .posted with ops := s.ops ++ [.reentry v.login g] }

/-- What a role's goroutine can do. -/
inductive RoleEffect (s : State) (i : Nat) (r : Role) : RoleAct → State → Prop
  | cancel : RoleEffect s i r .cancel (s.kick i)
  | online (hp : r.phase = .started) :
      RoleEffect s i r .online
        (s.setRole i { r with phase := .running, comps := r.comps.online })
  | touch {c : TypeComp} {body : String} {dirty : Bool}
      (hp : r.phase = .started ∨ r.phase = .running) :
      RoleEffect s i r (.touch c body dirty)
        (s.setRole i { r with comps := r.comps.touch c body dirty })
  | save {both : Bool} (hp : r.phase = .started ∨ r.phase = .running)
      (hne : r.comps.marshal false ≠ ∅) :
      RoleEffect s i r (.save both)
        { s.setRole i { r with comps := r.comps.clearDirty } with
          ops := s.ops ++ [.saveRole ⟨r.id, some (r.comps.marshal false)⟩ both i] }
  | exit (hp : r.phase = .running) (hbal : r.comps.offline.Balanced) :
      RoleEffect s i r .exit
        (s.setRole i { r with phase := .leaving, comps := r.comps.offline })
  | panic (hp : r.phase = .running) (hbal : ¬r.comps.offline.Balanced) :
      RoleEffect s i r .exit
        (s.setRole i { r with phase := .panicked, comps := r.comps.offline })
  | leaveSes (hp : r.phase = .leaving) (hses : s.ses.lookup r.sesID = some r.id) :
      RoleEffect s i r .leaveSes
        { s.setRole i { r with phase := .leftSes } with ses := s.ses.erase r.sesID }
  | loseSes (hp : r.phase = .leaving) (hses : s.ses.lookup r.sesID ≠ some r.id) :
      RoleEffect s i r .leaveSes (s.setRole i { r with phase := .unregistered })
  | leaveReg (hp : r.phase = .leftSes) :
      RoleEffect s i r .leaveReg
        { s.setRole i { r with phase := .unregistered } with reg := s.reg.erase r.id }
  | postLogout (hp : r.phase = .unregistered) :
      RoleEffect s i r .postLogout
        { s.setRole i { r with phase := .posted, logout := some (r.comps.marshal true) } with
          ops := s.ops ++ [.logout ⟨r.id, some (r.comps.marshal true)⟩ i] }
  | done (hp : r.phase = .posted) :
      RoleEffect s i r .done (s.setRole i { r with phase := .done })

/-- What a `Close` call can do. -/
inductive CloseEffect (s : State) : CloseAct → State → Prop
  | begin (hc : s.close = .off) : CloseEffect s .begin { s with close := .scanning 0 [] }
  | scan {shard : Nat} {metas : List Nat} {order : List RoleID}
      (hc : s.close = .scanning shard metas) (hshard : shard < shardCount)
      (horder : ∀ id, id ∈ order ↔ (s.reg.lookup id).isSome ∧ shardOf id = shard) :
      CloseEffect s (.scan order)
        { s with close := .scanning (shard + 1) (metas ++ order.filterMap s.reg.lookup) }
  | scanned {metas : List Nat} (hc : s.close = .scanning shardCount metas) :
      CloseEffect s .next { s with close := .kicking metas metas }
  | kick {r : Nat} {todo metas : List Nat} (hc : s.close = .kicking (r :: todo) metas) :
      CloseEffect s .next { s.kick r with close := .kicking todo metas }
  | kicked {metas : List Nat} (hc : s.close = .kicking [] metas) :
      CloseEffect s .next { s with close := .waiting metas }
  | wait {r : Nat} {role : Role} {todo : List Nat} (hc : s.close = .waiting (r :: todo))
      (hr : s.roles[r]? = some role) (hwait : role.phase = .created ∨ role.phase = .done) :
      CloseEffect s .next { s with close := .waiting todo }
  | cancel (hc : s.close = .waiting []) :
      CloseEffect s .next { s with close := .producers, ctxDone := true }
  | producers (hc : s.close = .producers) (hpc : s.pc = .exited)
      (hload : ∀ k, s.loaderExited k = true) :
      CloseEffect s .next { s with close := .consumers }
  | consumers (hc : s.close = .consumers) (hsave : ∀ k, (s.savers k).status ≠ .running) :
      CloseEffect s .next { s with close := .returned }

/-- Everything a step of the server can do. -/
inductive Effect (s : State) : Act → State → Prop
  | login {msg : S2SReqLogin} :
      Effect s (.login msg) { s with ops := s.ops ++ [.login msg] }
  | tick {seconds : Nat} : Effect s (.tick seconds) { s with now := s.now + seconds }
  | logon {a : LogonAct} {s' : State} (h : LogonEffect s a s') : Effect s (.logon a) s'
  | load {i : Nat} {l : Load} {a : LoadAct} {s' : State} (hl : s.loads[i]? = some l)
      (h : LoadEffect s i l a s') : Effect s (.load i a) s'
  | loaderExit {k : Fin loadingGoCnt} :
      Effect s (.loaderExit k)
        { s with loaderExited := Function.update s.loaderExited k true }
  | reentry {g : Nat} {v : Reentry} {a : ReentryAct} {s' : State}
      (hv : s.reentries[g]? = some v) (h : ReentryEffect s g v a s') :
      Effect s (.reentry g a) s'
  | role {i : Nat} {r : Role} {a : RoleAct} {s' : State} (hr : s.roles[i]? = some r)
      (h : RoleEffect s i r a s') : Effect s (.role i a) s'
  | saver {k : Fin saveGoCnt} {a : SaverAct} {saver : Saver TypeComp Text}
      {stores : Stores TypeComp Text} {out : Option (List RoleID)}
      (h : Saver.Effect (s.savers k) s.stores a saver stores out) :
      Effect s (.saver k a)
        { s with
          savers := Function.update s.savers k saver
          stores
          ops := s.ops ++ (out.map LogonEvent.saveSuccess).toList }
  | close {a : CloseAct} {s' : State} (h : CloseEffect s a s') : Effect s (.close a) s'
  | expire {id : RoleID} : Effect s (.expire id) { s with stores := s.stores.drop id }

namespace State

variable {s s' : State} {i : Nat}

theorem post_eq_some {e : LogonEvent} (h : s.post e = some s') :
    s' = { s with ops := s.ops ++ [e] } := by
  simp only [post, Option.ite_none_right_eq_some, Option.some.injEq] at h
  exact h.2.symm

theorem logonStep_effect {a : LogonAct} (h : s.logonStep a = some s') : LogonEffect s a s' := by
  cases a with
  | onOps =>
    simp only [logonStep] at h
    split at h
    · rename_i e rest hpc hops
      exact .onOps hpc hops (onOps_effect h)
    · cases h
  | register =>
    simp only [logonStep] at h
    split at h
    · rename_i r stage hpc
      obtain ⟨role, hr, heq⟩ := Option.map_eq_some_iff.mp h
      cases stage with
      | registerSes =>
        cases heq
        exact .registerSes hpc hr
      | registerRole =>
        cases heq
        exact .registerRole hpc hr
      | run =>
        cases heq
        exact .run hpc hr
    · cases h
  | cleanup order =>
    simp only [logonStep] at h
    split at h
    · rename_i hpc
      simp only [Option.ite_none_right_eq_some] at h
      cases h.2
      exact .cleanup hpc
    · cases h
  | cleanupNext =>
    simp only [logonStep] at h
    split at h
    · rename_i now id todo hpc
      cases h
      unfold cleanupOne
      split
      · exact .cleanupSkip hpc
      · rename_i v hv
        split
        · rename_i hold
          exact .cleanupSave hpc hv hold.1
        · split
          · rename_i hdel
            exact .release hpc hv hdel.1
          · exact .cleanupSkip hpc
    · rename_i now hpc
      cases h
      exact .cleanupEnd hpc
    · cases h
  | drain =>
    simp only [logonStep] at h
    split at h
    · rename_i hpc
      simp only [Option.ite_none_right_eq_some] at h
      cases h.2
      exact .drain hpc h.1
    · cases h
  | exit =>
    simp only [logonStep] at h
    split at h
    · rename_i hpc hops
      simp only [Option.ite_none_right_eq_some] at h
      cases h.2
      exact .exit hpc hops h.1
    · cases h

theorem loadStep_effect {a : LoadAct} (h : s.loadStep i a = some s') :
    ∃ l, s.loads[i]? = some l ∧ LoadEffect s i l a s' := by
  unfold loadStep at h
  split at h
  · cases h
  · rename_i l hl
    refine ⟨l, hl, ?_⟩
    split at h
    · rename_i hp
      simp only [Map.len_eq_zero] at h
      split at h
      · cases h
      · split at h
        · rename_i hempty
          cases h
          exact .miss hp hempty
        · rename_i hsome
          cases h
          exact .hit hp hsome
    · rename_i last hp
      simp only [Map.len_eq_zero, Option.ite_none_right_eq_some] at h
      cases h.2
      exact .mongo hp h.1
    · rename_i data hp
      rw [post_eq_some h]
      exact .post hp
    · rename_i hp
      cases h
      exact .drop (Or.inl hp)
    · rename_i hp
      cases h
      exact .drop (Or.inr hp)
    · cases h

theorem waitRaised_eq_false {role : Role} (h : ¬role.waitRaised = true) :
    role.phase = .created ∨ role.phase = .done := by
  unfold Role.waitRaised at h
  cases hp : role.phase <;> simp_all

theorem reentryStep_effect {g : Nat} {a : ReentryAct} (h : s.reentryStep g a = some s') :
    ∃ v, s.reentries[g]? = some v ∧ ReentryEffect s g v a s' := by
  unfold reentryStep at h
  split at h
  · cases h
  · rename_i v hv
    refine ⟨v, hv, ?_⟩
    split at h
    · rename_i hp
      split at h
      · rename_i hreg
        cases h
        exact .kickMiss hp hreg
      · rename_i r hreg
        cases h
        exact .kickFound hp hreg
    · rename_i hp
      split at h
      · rename_i role hrole
        obtain ⟨r, hfound, hr⟩ := Option.bind_eq_some_iff.mp hrole
        simp only [Option.ite_none_left_eq_some] at h
        cases h.2
        exact .waitDone hp hfound hr (waitRaised_eq_false h.1)
      · cases h
    · rename_i hp
      rw [post_eq_some h]
      exact .post hp
    · cases h

theorem save_effect {s s₁ : State} {r : Role} {both : Bool}
    (hp : r.phase = .started ∨ r.phase = .running) (hne : r.comps.marshal false ≠ ∅)
    (hpost : s.post (.saveRole ⟨r.id, some (r.comps.marshal false)⟩ both i) = some s₁) :
    RoleEffect s i r (.save both) (s₁.setRole i { r with comps := r.comps.clearDirty }) := by
  rw [post_eq_some hpost]
  exact .save hp hne

theorem roleStep_effect {a : RoleAct} (h : s.roleStep i a = some s') :
    ∃ r, s.roles[i]? = some r ∧ RoleEffect s i r a s' := by
  unfold roleStep at h
  split at h
  · cases h
  · rename_i r hr
    refine ⟨r, hr, ?_⟩
    split at h
    · cases h
      exact .cancel
    · rename_i hp
      cases h
      exact .online hp
    · rename_i hp
      cases h
      exact .touch (Or.inl hp)
    · rename_i hp
      cases h
      exact .touch (Or.inr hp)
    · rename_i hp
      simp only [Map.len_eq_zero, Option.ite_none_left_eq_some] at h
      obtain ⟨hne, h⟩ := h
      split at h
      · rename_i hpost
        cases h
        exact save_effect (Or.inl hp) hne hpost
      · cases h
    · rename_i hp
      simp only [Map.len_eq_zero, Option.ite_none_left_eq_some] at h
      obtain ⟨hne, h⟩ := h
      split at h
      · rename_i hpost
        cases h
        exact save_effect (Or.inr hp) hne hpost
      · cases h
    · rename_i hp
      split at h
      · rename_i hbal
        cases h
        exact .exit hp hbal
      · rename_i hbal
        cases h
        exact .panic hp hbal
    · rename_i hp
      split at h
      · rename_i hses
        cases h
        exact .leaveSes hp hses
      · rename_i hses
        cases h
        exact .loseSes hp hses
    · rename_i hp
      cases h
      exact .leaveReg hp
    · rename_i hp
      obtain ⟨s₁, hpost, heq⟩ := Option.map_eq_some_iff.mp h
      rw [← heq, post_eq_some hpost]
      exact .postLogout hp
    · rename_i hp
      cases h
      exact .done hp
    · cases h

theorem saverStep_effect {k : Fin saveGoCnt} {a : SaverAct} (h : s.saverStep k a = some s') :
    Effect s (.saver k a) s' := by
  unfold saverStep at h
  split at h
  · cases h
  · rename_i saver stores out hstep
    have heffect := Saver.step_effect hstep
    cases out with
    | none =>
      cases h
      have hquiet := Effect.saver (s := s) heffect
      rwa [Option.map_none, Option.toList_none, List.append_nil] at hquiet
    | some ids =>
      rw [post_eq_some h]
      exact .saver heffect

theorem closeStep_effect {a : CloseAct} (h : s.closeStep a = some s') : CloseEffect s a s' := by
  unfold closeStep at h
  split at h
  · rename_i hc
    cases h
    exact .begin hc
  · rename_i shard metas order hc
    simp only [Option.ite_none_right_eq_some] at h
    obtain ⟨⟨hshard, _, horder⟩, heq⟩ := h
    cases heq
    refine .scan hc hshard fun id => ?_
    rw [← List.mem_toFinset, horder, Finset.mem_filter, Finmap.mem_keys, Finmap.lookup_isSome]
  · rename_i shard metas hc
    simp only [Option.ite_none_right_eq_some] at h
    obtain ⟨rfl, heq⟩ := h
    cases heq
    exact .scanned hc
  · rename_i r todo metas hc
    cases h
    exact .kick hc
  · rename_i metas hc
    cases h
    exact .kicked hc
  · rename_i r todo hc
    split at h
    · rename_i role hr
      simp only [Option.ite_none_left_eq_some] at h
      cases h.2
      exact .wait hc hr (waitRaised_eq_false h.1)
    · cases h
  · rename_i hc
    cases h
    exact .cancel hc
  · rename_i hc
    split at h
    · rename_i hpc
      simp only [Option.ite_none_right_eq_some] at h
      cases h.2
      exact .producers hc hpc h.1
    · cases h
  · rename_i hc
    simp only [Option.ite_none_right_eq_some] at h
    cases h.2
    exact .consumers hc h.1
  · cases h

theorem step_effect {a : Act} (h : s.step a = some s') : Effect s a s' := by
  cases a with
  | login msg =>
    rw [post_eq_some h]
    exact .login
  | tick seconds =>
    cases h
    exact .tick
  | logon a => exact .logon (logonStep_effect h)
  | load i a =>
    obtain ⟨l, hl, he⟩ := loadStep_effect h
    exact .load hl he
  | loaderExit k =>
    simp only [step, loaderExit, Option.ite_none_right_eq_some] at h
    cases h.2
    exact .loaderExit
  | reentry g a =>
    obtain ⟨v, hv, he⟩ := reentryStep_effect h
    exact .reentry hv he
  | role i a =>
    obtain ⟨r, hr, he⟩ := roleStep_effect h
    exact .role hr he
  | saver k a => exact saverStep_effect h
  | close a => exact .close (closeStep_effect h)
  | expire id =>
    obtain ⟨stores, hexp, rfl⟩ := Option.map_eq_some_iff.mp h
    rw [Stores.expire_some hexp]
    exact .expire

end State

/-- What never changes about a role once it exists, and about the record it
logged out with once it has. -/
def Role.Same (r r' : Role) : Prop :=
  r'.id = r.id ∧ r'.sesID = r.sesID ∧ r'.start = r.start ∧
    (Protocol.Posted r.phase → Protocol.Posted r'.phase ∧ r'.logout = r.logout)

theorem Role.Same.refl (r : Role) : r.Same r := ⟨rfl, rfl, rfl, fun hp => ⟨hp, rfl⟩⟩

def Load.Same (l l' : Load) : Prop := l'.login = l.login

theorem Load.Same.refl (l : Load) : l.Same l := rfl

def Reentry.Same (v v' : Reentry) : Prop := v'.login = v.login

theorem Reentry.Same.refl (v : Reentry) : v.Same v := rfl

/-- Goroutines are never removed and keep their identity. -/
structure Extends (s s' : State) : Prop where
  loads : Grows Load.Same s.loads s'.loads
  reentries : Grows Reentry.Same s.reentries s'.reentries
  roles : Grows Role.Same s.roles s'.roles

namespace Extends

theorem of_eq {s s' : State} (hl : s'.loads = s.loads) (hv : s'.reentries = s.reentries)
    (hr : s'.roles = s.roles) : Extends s s' where
  loads := hl ▸ .refl Load.Same.refl _
  reentries := hv ▸ .refl Reentry.Same.refl _
  roles := hr ▸ .refl Role.Same.refl _

theorem of_roles {s s' : State} (hl : s'.loads = s.loads) (hv : s'.reentries = s.reentries)
    (hr : Grows Role.Same s.roles s'.roles) : Extends s s' where
  loads := hl ▸ .refl Load.Same.refl _
  reentries := hv ▸ .refl Reentry.Same.refl _
  roles := hr

theorem setLoad (s : State) (i : Nat) (phase : LoadPhase) : Extends s (s.setLoad i phase) where
  loads := by
    simp only [State.setLoad]
    cases hl : s.loads[i]? with
    | none => exact .refl Load.Same.refl _
    | some l => exact .set Load.Same.refl hl rfl
  reentries := .refl Reentry.Same.refl _
  roles := .refl Role.Same.refl _

theorem setReentry (s : State) (g : Nat) (phase : ReentryPhase) :
    Extends s (s.setReentry g phase) where
  loads := .refl Load.Same.refl _
  reentries := by
    simp only [State.setReentry]
    cases hv : s.reentries[g]? with
    | none => exact .refl Reentry.Same.refl _
    | some v => exact .set Reentry.Same.refl hv rfl
  roles := .refl Role.Same.refl _

theorem kick_roles (s : State) (i : Nat) : Grows Role.Same s.roles (s.kick i).roles := by
  simp only [State.kick]
  cases hr : s.roles[i]? with
  | none => exact .refl Role.Same.refl _
  | some r => exact .set Role.Same.refl hr ⟨rfl, rfl, rfl, fun hp => ⟨hp, rfl⟩⟩

theorem initRole {s s₀ s' : State} {data : DataToSave} {login : S2SReqLogin}
    (h : Extends s s₀) (hi : InitRole s₀ data login s') : Extends s s' := by
  cases hi with
  | reject hbad => exact ⟨h.loads, h.reentries, h.roles⟩
  | missing hv => exact h
  | create hcomps hid hv =>
    refine ⟨h.loads, h.reentries, fun i r hr => ?_⟩
    obtain ⟨r₀, hr₀, hsame⟩ := h.roles i r hr
    refine ⟨r₀, ?_, hsame⟩
    rw [getElem?_concat, if_neg (Nat.ne_of_lt (lt_length_of_some hr₀)), hr₀]

theorem onOps {s s' : State} {e : LogonEvent} (h : OnOps s e s') : Extends s s' := by
  cases h with
  | kick hv hstate =>
    exact ⟨.refl Load.Same.refl _, .concat Reentry.Same.refl _ _, .refl Role.Same.refl _⟩
  | relogin hv hstate hinit => exact (of_eq rfl rfl rfl).initRole hinit
  | ignore | logout hroom | saveRole | saveSuccess => exact of_eq rfl rfl rfl
  | reload hv hstate htime | firstLoad hv hstate =>
    exact ⟨.concat Load.Same.refl _ _, .refl Reentry.Same.refl _, .refl Role.Same.refl _⟩
  | loaded hinit => exact (setLoad s _ _).initRole hinit
  | lost hv => exact setReentry s _ _
  | reentry hv hinit => exact (setReentry s _ _).initRole hinit

end Extends

/-- `initRole` is at work on a role that has not begun to run. -/
def State.Starting (s : State) : Prop :=
  ∀ r stage, s.pc = .starting r stage →
    ∃ role, s.roles[r]? = some role ∧ role.phase = .created

theorem Effect.extends {s s' : State} {a : Act} (he : Effect s a s') (hs : s.Starting) :
    Extends s s' := by
  have move : ∀ {i : Nat} {r r' : Role}, s.roles[i]? = some r → r.Same r' →
      Grows Role.Same s.roles (s.roles.set i r') :=
    fun hr hsame => .set Role.Same.refl hr hsame
  cases he with
  | login | tick | loaderExit | saver | expire => exact .of_eq rfl rfl rfl
  | logon h =>
    cases h with
    | onOps hpc hops h =>
      have hext := Extends.onOps h
      exact ⟨hext.loads, hext.reentries, hext.roles⟩
    | run hpc hr =>
      refine .of_roles rfl rfl (move hr ⟨rfl, rfl, rfl, fun hp => ?_⟩)
      obtain ⟨role, hrole, hphase⟩ := hs _ _ hpc
      rw [hr] at hrole
      cases hrole
      simp [hphase, Protocol.Posted] at hp
    | _ => exact .of_eq rfl rfl rfl
  | @load i l _ _ hl h =>
    cases h with
    | post hp =>
      have hext := Extends.setLoad s i .posted
      exact ⟨hext.loads, hext.reentries, hext.roles⟩
    | _ => exact .setLoad s _ _
  | @reentry g v _ _ hv h =>
    cases h with
    | kickMiss hp hreg | waitDone hp hfound hr hwait => exact .setReentry s _ _
    | kickFound hp hreg =>
      exact ⟨.refl Load.Same.refl _, .set Reentry.Same.refl hv rfl, Extends.kick_roles s _⟩
    | post hp =>
      have hext := Extends.setReentry s g .posted
      exact ⟨hext.loads, hext.reentries, hext.roles⟩
  | role hr h =>
    cases h with
    | cancel => exact .of_roles rfl rfl (Extends.kick_roles s _)
    | touch hp | save hp hne =>
      exact .of_roles rfl rfl (move hr ⟨rfl, rfl, rfl, fun hp => ⟨hp, rfl⟩⟩)
    | done hp =>
      exact .of_roles rfl rfl (move hr ⟨rfl, rfl, rfl, fun _ => ⟨trivial, rfl⟩⟩)
    | online hp | exit hp | panic hp | leaveSes hp | loseSes hp | leaveReg hp | postLogout hp =>
      refine .of_roles rfl rfl (move hr ⟨rfl, rfl, rfl, fun hposted => ?_⟩)
      simp [hp, Protocol.Posted] at hposted
  | close h =>
    cases h with
    | kick hc => exact .of_roles rfl rfl (Extends.kick_roles s _)
    | _ => exact .of_eq rfl rfl rfl

end GameCluster
