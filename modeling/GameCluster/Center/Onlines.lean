import GameCluster.Lib.Bytes
import GameCluster.Logon.Tagged

/-!
The center's table of the roles online (`center/onlines/mgr.go`) and the game
servers that report to it. A role's goroutine sends `Login: true` from `Online`
and `Login: false` at the end of `Offline`, when its `EvtLogout` has been posted
and the login service may have started the next `Role`. The notices of one
server reach the center in the order they were sent; those of two servers in any
order.
-/

namespace GameCluster.Center

open Lib

/-- `onlines.Data`. -/
structure Data where
  sesID : UInt64
  gameID : UInt8

structure S2SReqLoginOrLogout where
  roleID : RoleID
  gameID : UInt32
  sesID : UInt64
  login : Bool
  deriving DecidableEq, Repr

/-- The shards of `roleShards` together. -/
abbrev Onlines := Map RoleID Data

def Onlines.add (t : Onlines) (roleID : RoleID) (data : Data) : Onlines := t.insert roleID data

def Onlines.remove (t : Onlines) (roleID : RoleID) : Onlines := t.erase roleID

def Onlines.getGameID (t : Onlines) (roleID : RoleID) : Option UInt8 :=
  (t.lookup roleID).map (·.gameID)

def onLoginOrLogout (t : Onlines) (req : S2SReqLoginOrLogout) : Onlines :=
  if req.login then t.add req.roleID ⟨req.sesID, req.gameID.toUInt8⟩ else t.remove req.roleID

/-- The notices a step of game server `g` sends. -/
def notices (g : UInt8) (s : State) : Act → List S2SReqLoginOrLogout
  | .role i .online =>
    (s.roles[i]?).toList.map fun r => ⟨r.id, g.toUInt32, r.sesID, true⟩
  | .role i .done => (s.roles[i]?).toList.map fun r => ⟨r.id, g.toUInt32, 0, false⟩
  | _ => []

structure Cluster where
  servers : UInt8 → State
  /-- The notices of a server that are under way. -/
  sent : UInt8 → List S2SReqLoginOrLogout
  onlines : Onlines

inductive ClusterAct where
  | server (g : UInt8) (a : Act)
  /-- The center handles the next notice of a server. -/
  | handle (g : UInt8)

def Cluster.step (c : Cluster) : ClusterAct → Option Cluster
  | .server g a =>
    ((c.servers g).step a).map fun s =>
      { c with
        servers := Function.update c.servers g s
        sent := Function.update c.sent g (c.sent g ++ notices g (c.servers g) a) }
  | .handle g =>
    match c.sent g with
    | req :: rest =>
      some
        { c with
          sent := Function.update c.sent g rest, onlines := onLoginOrLogout c.onlines req }
    | [] => none

/-- One center and its game servers, over any contents of the stores. -/
def cluster : Machine Cluster ClusterAct where
  init c := (∀ g, gameServer.init (c.servers g)) ∧ (∀ g, c.sent g = []) ∧ c.onlines = ∅
  step := Cluster.step

/-- Every `Online` and every `Offline` that is past its `EvtLogout` has been
finished, and every notice has been handled. -/
structure Cluster.Settled (c : Cluster) : Prop where
  roles : ∀ g, ∀ r ∈ (c.servers g).roles, r.phase ≠ .started ∧ r.phase ≠ .posted
  handled : ∀ g, c.sent g = []

/-- The table names the server on which a role is live. -/
def Agrees (c : Cluster) : Prop :=
  c.Settled → ∀ roleID g, c.onlines.getGameID roleID = some g ↔
    ∃ r ∈ (c.servers g).roles, r.id = roleID ∧ Protocol.Live r.phase

/-- The role has sent `Login: true` and not yet `Login: false`. -/
def Announced : RolePhase → Prop
  | .created | .started | .done => False
  | _ => True

instance (p : RolePhase) : Decidable (Announced p) := by
  unfold Announced
  split <;> infer_instance

/-- `Online` is called when no other role with the ID has a `Login: false` still
to send, on any server, and no notice about the ID from another server is under
way. -/
def alone (c : Cluster) : ClusterAct → Prop
  | .server g (.role i .online) =>
    ∀ r ∈ (c.servers g).roles[i]?,
      (∀ g', ∀ q ∈ (c.servers g').roles, q.id = r.id → ¬Announced q.phase) ∧
        ∀ g', g' ≠ g → ∀ n ∈ c.sent g', n.roleID ≠ r.id
  | _ => True

instance (c : Cluster) (a : ClusterAct) : Decidable (alone c a) := by
  unfold alone
  split <;> infer_instance

/-- The role at `i` is one with the given ID that has to be in the table. -/
def AnnouncedAt (roles : List Role) (id : RoleID) (i : Nat) : Prop :=
  ∃ r, roles[i]? = some r ∧ r.id = id ∧ Announced r.phase

variable {i : Nat} {r : Role} {s : State} {t : Onlines} {id : RoleID} {c c' : Cluster} {g : UInt8}

theorem announcedAt_set {roles : List Role} {r r' : Role} (hr : roles[i]? = some r)
    (hid : r'.id = r.id) (h : Announced r'.phase ↔ Announced r.phase) (id : RoleID) (j : Nat) :
    AnnouncedAt (roles.set i r') id j ↔ AnnouncedAt roles id j := by
  unfold AnnouncedAt
  rw [getElem?_set_some hr]
  by_cases hj : j = i
  · subst hj
    simp [hr, hid, h]
  · simp [hj]

theorem announcedAt_concat {roles : List Role} (h : ¬Announced r.phase) (id : RoleID) (j : Nat) :
    AnnouncedAt (roles ++ [r]) id j ↔ AnnouncedAt roles id j := by
  unfold AnnouncedAt
  rw [getElem?_concat]
  by_cases hj : j = roles.length
  · subst hj
    simp [h]
  · simp [hj]

/-- A server step seen from the center. -/
inductive Report (g : UInt8) (s : State) (a : Act) (s' : State) : Prop
  | online {i : Nat} {r : Role} (hact : a = .role i .online) (hr : s.roles[i]? = some r)
      (hp : r.phase = .started)
      (h : s'.roles = s.roles.set i { r with phase := .running, comps := r.comps.online })
  | offline {i : Nat} {r : Role} (hact : a = .role i .done) (hr : s.roles[i]? = some r)
      (hp : r.phase = .posted) (h : s'.roles = s.roles.set i { r with phase := .done })
  | silent (hnone : notices g s a = [])
      (h : ∀ id i, AnnouncedAt s'.roles id i ↔ AnnouncedAt s.roles id i)

/-- A step of another goroutine than the role's own leaves the phase alone. -/
theorem RoleMove.announcedAt {s s' : State} {a : Act} (h : RoleMove s a s')
    (ha : ∀ i b, a ≠ .role i b) (id : RoleID) (j : Nat) :
    AnnouncedAt s'.roles id j ↔ AnnouncedAt s.roles id j := by
  cases h with
  | same h => rw [h]
  | create hstart hcomps h hact =>
    rw [h]
    exact announcedAt_concat (by simp [Announced]) id j
  | run hr hp hpc h hact =>
    rw [h]
    refine announcedAt_set hr ?_ ?_ id j
    · rfl
    · simp [Announced, hp]
  | @set i r r' hr hstep h hact =>
    obtain hphase | ⟨b, hb⟩ := hact
    · rw [h]
      exact announcedAt_set hr hstep.id (by rw [hphase]) id j
    · exact absurd hb (ha i b)

theorem Effect.report {s s' : State} {a : Act} (g : UInt8) (he : Effect s a s')
    (hs : s.Starting) : Report g s a s' := by
  have hmove := he.roleMove hs
  cases he with
  | @role i r b _ hr hrole =>
    have hset : ∀ {r' : Role}, s'.roles = s.roles.set i r' → r'.id = r.id →
        (Announced r'.phase ↔ Announced r.phase) → notices g s (.role i b) = [] →
        Report g s (.role i b) s' := by
      intro r' h hid hann hnone
      exact .silent hnone fun id j => h ▸ announcedAt_set hr hid hann id j
    cases hrole with
    | cancel =>
      have hroles : (s.kick i).roles = s.roles.set i { r with cancelled := true } := by
        simp [State.kick, hr]
      exact hset hroles rfl Iff.rfl rfl
    | online hp => exact .online rfl hr hp rfl
    | touch hp | save hp hne => exact hset rfl rfl Iff.rfl rfl
    | exit hp hbal | panic hp hbal | leaveSes hp hses | loseSes hp hses | leaveReg hp
    | postLogout hp => exact hset rfl rfl (by simp [Announced, hp]) rfl
    | done hp => exact .offline rfl hr hp rfl
  | _ => exact .silent rfl fun id j => RoleMove.announcedAt hmove (by simp) id j

theorem getGameID_onLoginOrLogout (t : Onlines) (req : S2SReqLoginOrLogout) (id : RoleID) :
    (onLoginOrLogout t req).getGameID id =
      if id = req.roleID then if req.login then some req.gameID.toUInt8 else none
      else t.getGameID id := by
  unfold onLoginOrLogout
  split
  · rw [Onlines.add, Onlines.getGameID, Map.lookup_insert_ite]
    split <;> rfl
  · rw [Onlines.remove, Onlines.getGameID, Map.lookup_erase_ite]
    split <;> rfl

/-- What the table says of a role depends on what it said before and on the
notices about that role. -/
theorem getGameID_foldl_congr {t t' : Onlines} (q : List S2SReqLoginOrLogout)
    (h : t.getGameID id = t'.getGameID id) :
    (q.foldl onLoginOrLogout t).getGameID id = (q.foldl onLoginOrLogout t').getGameID id := by
  induction q generalizing t t' with
  | nil => exact h
  | cons req rest ih =>
    apply ih
    rw [getGameID_onLoginOrLogout, getGameID_onLoginOrLogout, h]

theorem getGameID_foldl_of_none {q : List S2SReqLoginOrLogout} (h : ∀ n ∈ q, n.roleID ≠ id) :
    (q.foldl onLoginOrLogout t).getGameID id = t.getGameID id := by
  induction q generalizing t with
  | nil => rfl
  | cons req rest ih =>
    rw [List.foldl_cons, ih fun n hn => h n (List.mem_cons_of_mem _ hn),
      getGameID_onLoginOrLogout, if_neg (Ne.symm (h req List.mem_cons_self))]

/-- At most one role with an ID is announced at a time, the notices under way
about an ID come from one server, and handling them all leaves the table with
the server of the announced role. -/
structure Inv (c : Cluster) : Prop where
  starting : ∀ g, (c.servers g).Starting
  single : ∀ id g i g' i', AnnouncedAt (c.servers g).roles id i →
    AnnouncedAt (c.servers g').roles id i' → g = g' ∧ i = i'
  sender : ∀ g g', ∀ n ∈ c.sent g, ∀ n' ∈ c.sent g', n.roleID = n'.roleID → g = g'
  own : ∀ id g i, AnnouncedAt (c.servers g).roles id i → ∀ g', ∀ n ∈ c.sent g',
    n.roleID = id → g' = g
  settled : ∀ id g, (∀ g', g' ≠ g → ∀ n ∈ c.sent g', n.roleID ≠ id) → ∀ g₀,
    ((c.sent g).foldl onLoginOrLogout c.onlines).getGameID id = some g₀ ↔
      ∃ i, AnnouncedAt (c.servers g₀).roles id i

theorem Inv.handle (h : Inv c) {req : S2SReqLoginOrLogout} {rest : List S2SReqLoginOrLogout}
    (hsent : c.sent g = req :: rest) (hservers : c'.servers = c.servers) (hg : c'.sent g = rest)
    (hother : ∀ g', g' ≠ g → c'.sent g' = c.sent g')
    (honlines : c'.onlines = onLoginOrLogout c.onlines req) : Inv c' := by
  have hsub : ∀ g', ∀ n ∈ c'.sent g', n ∈ c.sent g' := by
    intro g' n hn
    by_cases hgg : g' = g
    · subst hgg
      rw [hsent]
      exact List.mem_cons_of_mem _ (hg ▸ hn)
    · rwa [hother g' hgg] at hn
  refine ⟨hservers ▸ h.starting, hservers ▸ h.single, ?_, ?_, ?_⟩
  · intro g₁ g₂ n hn n' hn'
    exact h.sender g₁ g₂ n (hsub g₁ n hn) n' (hsub g₂ n' hn')
  · intro id g₁ i hi g₂ n hn
    exact h.own id g₁ i (hservers ▸ hi) g₂ n (hsub g₂ n hn)
  · intro id g₁ hnone g₀
    rw [hservers, honlines]
    by_cases hgg : g₁ = g
    · subst hgg
      have hold := h.settled id g₁ (fun g' hg' => hother g' hg' ▸ hnone g' hg') g₀
      rw [hsent, List.foldl_cons] at hold
      rwa [hg]
    · have hrest : ∀ n ∈ rest, n.roleID ≠ id := hg ▸ hnone g (Ne.symm hgg)
      rw [hother g₁ hgg]
      by_cases hid : req.roleID = id
      · -- `req` was the last notice under way about its role.
        have hothers : ∀ g', g' ≠ g → ∀ n ∈ c.sent g', n.roleID ≠ id := by
          intro g' hg' n hn heq
          exact hg' (h.sender g' g n hn req (by simp [hsent]) (heq.trans hid.symm))
        have hold := h.settled id g hothers g₀
        rw [hsent, List.foldl_cons, getGameID_foldl_of_none hrest] at hold
        rw [getGameID_foldl_of_none (hothers g₁ hgg)]
        exact hold
      · have hothers : ∀ g', g' ≠ g₁ → ∀ n ∈ c.sent g', n.roleID ≠ id := by
          intro g' hg' n hn
          by_cases hgg' : g' = g
          · rw [hgg', hsent] at hn
            obtain rfl | hn := List.mem_cons.mp hn
            · exact hid
            · exact hrest n hn
          · exact hnone g' hg' n (hother g' hgg' ▸ hn)
        have hsame : (onLoginOrLogout c.onlines req).getGameID id = c.onlines.getGameID id := by
          rw [getGameID_onLoginOrLogout, if_neg (Ne.symm hid)]
        rw [getGameID_foldl_congr _ hsame]
        exact h.settled id g₁ hothers g₀

/-- A notice about one role changes nothing about another. -/
theorem getGameID_foldl_concat_of_ne {q : List S2SReqLoginOrLogout} {n : S2SReqLoginOrLogout}
    (h : n.roleID ≠ id) :
    ((q ++ [n]).foldl onLoginOrLogout t).getGameID id =
      (q.foldl onLoginOrLogout t).getGameID id := by
  rw [List.foldl_concat, getGameID_onLoginOrLogout, if_neg (Ne.symm h)]

/-- A server sends a notice about a role of its own: nobody else has one under
way about that role, and from then on the role is announced on this server or
nowhere, as the notice says. -/
theorem Inv.send (h : Inv c) {n : S2SReqLoginOrLogout}
    (hstarting : ∀ g', (c'.servers g').Starting) (hg : c'.sent g = c.sent g ++ [n])
    (hother : ∀ g', g' ≠ g → c'.sent g' = c.sent g') (honlines : c'.onlines = c.onlines)
    (hgame : n.gameID.toUInt8 = g) (hquiet : ∀ g', g' ≠ g → ∀ m ∈ c.sent g', m.roleID ≠ n.roleID)
    (hsame : ∀ id, id ≠ n.roleID → ∀ g' j, AnnouncedAt (c'.servers g').roles id j ↔
      AnnouncedAt (c.servers g').roles id j)
    (honly : ∀ g' j g'' j', AnnouncedAt (c'.servers g').roles n.roleID j →
      AnnouncedAt (c'.servers g'').roles n.roleID j' → g' = g'' ∧ j = j')
    (hwhere : ∀ g', (∃ j, AnnouncedAt (c'.servers g').roles n.roleID j) ↔ n.login = true ∧ g' = g) :
    Inv c' := by
  have hmem : ∀ g', ∀ m ∈ c'.sent g', m ∈ c.sent g' ∨ g' = g ∧ m = n := by
    intro g' m hm
    by_cases hgg : g' = g
    · subst hgg
      rw [hg, List.mem_append, List.mem_singleton] at hm
      exact hm.imp_right fun hmn => ⟨rfl, hmn⟩
    · exact Or.inl (hother g' hgg ▸ hm)
  have hfrom : ∀ g', ∀ m ∈ c'.sent g', m.roleID = n.roleID → g' = g := by
    intro g' m hm heq
    by_contra hgg
    exact hquiet g' hgg m (hother g' hgg ▸ hm) heq
  constructor
  case starting => exact hstarting
  case single =>
    intro id g₁ i g₂ j hi hj
    by_cases hid : id = n.roleID
    · subst hid
      exact honly g₁ i g₂ j hi hj
    · exact h.single id g₁ i g₂ j ((hsame id hid g₁ i).mp hi) ((hsame id hid g₂ j).mp hj)
  case sender =>
    intro g₁ g₂ m hm m' hm' heq
    by_cases hid : m.roleID = n.roleID
    · exact (hfrom g₁ m hm hid).trans (hfrom g₂ m' hm' (heq ▸ hid)).symm
    · have hold : ∀ g', ∀ k ∈ c'.sent g', k.roleID = m.roleID → k ∈ c.sent g' := by
        intro g' k hk hkm
        obtain hk | ⟨-, rfl⟩ := hmem g' k hk
        · exact hk
        · exact absurd hkm.symm hid
      exact h.sender g₁ g₂ m (hold g₁ m hm rfl) m' (hold g₂ m' hm' heq.symm) heq
  case own =>
    intro id g₁ i hi g₂ m hm heq
    by_cases hid : id = n.roleID
    · subst hid
      exact (hfrom g₂ m hm heq).trans ((hwhere g₁).mp ⟨i, hi⟩).2.symm
    · obtain hm | ⟨-, rfl⟩ := hmem g₂ m hm
      · exact h.own id g₁ i ((hsame id hid g₁ i).mp hi) g₂ m hm heq
      · exact absurd heq.symm hid
  case settled =>
    intro id g₁ hnone g₀
    rw [honlines]
    by_cases hid : id = n.roleID
    · subst hid
      obtain rfl : g₁ = g := by
        by_contra hgg
        exact hnone g (Ne.symm hgg) n (by simp [hg]) rfl
      rw [hwhere g₀, hg, List.foldl_concat, getGameID_onLoginOrLogout, if_pos rfl, hgame]
      cases n.login <;> simp [eq_comm]
    · have hold := h.settled id g₁ (fun g' hg' m hm => by
        by_cases hgg : g' = g
        · subst hgg
          exact hnone g' hg' m (by simp [hg, hm])
        · exact hnone g' hg' m (hother g' hgg ▸ hm)) g₀
      rw [exists_congr (hsame id hid g₀), ← hold]
      by_cases hgg : g₁ = g
      · subst hgg
        rw [hg, getGameID_foldl_concat_of_ne (Ne.symm hid)]
      · rw [hother g₁ hgg]

theorem Inv.silent (h : Inv c) (hstarting : ∀ g, (c'.servers g).Starting)
    (hsent : c'.sent = c.sent) (honlines : c'.onlines = c.onlines)
    (hsame : ∀ id g i, AnnouncedAt (c'.servers g).roles id i ↔
      AnnouncedAt (c.servers g).roles id i) :
    Inv c' := by
  constructor
  case starting => exact hstarting
  case single =>
    intro id g i g' i' hi hi'
    exact h.single id g i g' i' ((hsame id g i).mp hi) ((hsame id g' i').mp hi')
  case sender => exact hsent ▸ h.sender
  case own =>
    intro id g i hi
    exact hsent ▸ h.own id g i ((hsame id g i).mp hi)
  case settled =>
    intro id g hnone g₀
    rw [hsent, honlines, exists_congr (hsame id g₀)]
    exact h.settled id g (hsent ▸ hnone) g₀

/-- The cluster after a step of server `g`. -/
structure Stepped (c : Cluster) (g : UInt8) (s : State) (sent : List S2SReqLoginOrLogout)
    (c' : Cluster) : Prop where
  server : c'.servers g = s
  servers : ∀ g', g' ≠ g → c'.servers g' = c.servers g'
  sent : c'.sent g = c.sent g ++ sent
  others : ∀ g', g' ≠ g → c'.sent g' = c.sent g'
  onlines : c'.onlines = c.onlines

theorem Inv.online (h : Inv c) (hok : alone c (.server g (.role i .online)))
    (hr : (c.servers g).roles[i]? = some r)
    (hs : s.roles = (c.servers g).roles.set i { r with phase := .running, comps := r.comps.online })
    (hstep : Stepped c g s [⟨r.id, g.toUInt32, r.sesID, true⟩] c')
    (hstarting : ∀ g', (c'.servers g').Starting) : Inv c' := by
  obtain ⟨hnone, hquiet⟩ := hok r hr
  have hbefore : ∀ g' j, ¬AnnouncedAt (c.servers g').roles r.id j := by
    rintro g' j ⟨q, hq, hid, hann⟩
    exact hnone g' q (List.mem_of_getElem? hq) hid hann
  have hafter : ∀ id g' j, AnnouncedAt (c'.servers g').roles id j ↔
      AnnouncedAt (c.servers g').roles id j ∨ g' = g ∧ j = i ∧ id = r.id := by
    intro id g' j
    by_cases hg : g' = g
    · subst hg
      rw [hstep.server, hs]
      unfold AnnouncedAt
      rw [getElem?_set_some hr]
      by_cases hj : j = i
      · subst hj
        have hthis := hnone g' r (List.mem_of_getElem? hr) rfl
        have hrunning : Announced .running := trivial
        simp [hr, hthis, hrunning, eq_comm]
      · simp [hj]
    · simp [hstep.servers g' hg, hg]
  refine h.send hstarting hstep.sent hstep.others hstep.onlines (by simp) hquiet ?_ ?_ ?_
  · intro id hid g' j
    simp only [hafter, hid, and_false, or_false]
  · intro g₁ j₁ g₂ j₂ h₁ h₂
    obtain h₁ | ⟨rfl, rfl, -⟩ := (hafter _ _ _).mp h₁
    · exact absurd h₁ (hbefore _ _)
    · obtain h₂ | ⟨rfl, rfl, -⟩ := (hafter _ _ _).mp h₂
      · exact absurd h₂ (hbefore _ _)
      · exact ⟨rfl, rfl⟩
  · intro g'
    simp [hafter, hbefore]

theorem Inv.offline (h : Inv c) (hr : (c.servers g).roles[i]? = some r) (hp : r.phase = .posted)
    (hs : s.roles = (c.servers g).roles.set i { r with phase := .done })
    (hstep : Stepped c g s [⟨r.id, g.toUInt32, 0, false⟩] c')
    (hstarting : ∀ g', (c'.servers g').Starting) : Inv c' := by
  have hann : AnnouncedAt (c.servers g).roles r.id i := ⟨r, hr, rfl, by simp [Announced, hp]⟩
  have hafter : ∀ id g' j, AnnouncedAt (c'.servers g').roles id j ↔
      AnnouncedAt (c.servers g').roles id j ∧ ¬(g' = g ∧ j = i) := by
    intro id g' j
    by_cases hg : g' = g
    · subst hg
      rw [hstep.server, hs]
      unfold AnnouncedAt
      rw [getElem?_set_some hr]
      by_cases hj : j = i
      · simp [hj, Announced]
      · simp [hj]
    · simp [hstep.servers g' hg, hg]
  have hgone : ∀ g' j, ¬AnnouncedAt (c'.servers g').roles r.id j := by
    intro g' j hj
    obtain ⟨hj, hne⟩ := (hafter _ _ _).mp hj
    exact hne (h.single r.id g' j g i hj hann)
  refine h.send hstarting hstep.sent hstep.others hstep.onlines (by simp) ?_ ?_ ?_ ?_
  · intro g' hg m hm heq
    exact hg (h.own r.id g i hann g' m hm heq)
  · intro id hid g' j
    rw [hafter]
    refine and_iff_left_of_imp ?_
    rintro ⟨q, hq, hqid, -⟩ ⟨rfl, rfl⟩
    rw [hr] at hq
    exact hid (by rw [← hqid, Option.some.inj hq])
  · intro g₁ j₁ g₂ j₂ h₁
    exact absurd h₁ (hgone g₁ j₁)
  · intro g'
    simp [hgone]

theorem Inv.step {a : ClusterAct} (h : Inv c) (hok : alone c a) (hs : c.step a = some c') :
    Inv c' := by
  cases a with
  | server g a =>
    obtain ⟨s, hstep, rfl⟩ := Option.map_eq_some_iff.mp hs
    have heff := State.step_effect hstep
    have hstarting : ∀ g', (Function.update c.servers g s g').Starting := by
      intro g'
      by_cases hg : g' = g
      · subst hg
        rw [Function.update_self]
        exact heff.starting (h.starting g')
      · rw [Function.update_of_ne hg]
        exact h.starting g'
    have hstepped : Stepped c g s (notices g (c.servers g) a)
        { c with
          servers := Function.update c.servers g s
          sent := Function.update c.sent g (c.sent g ++ notices g (c.servers g) a) } :=
      { server := Function.update_self g s c.servers
        servers := fun g' hg => Function.update_of_ne hg s c.servers
        sent := Function.update_self g _ c.sent
        others := fun g' hg => Function.update_of_ne hg _ c.sent
        onlines := rfl }
    cases Effect.report g heff (h.starting g) with
    | online hact hr hp hroles =>
      subst hact
      exact h.online hok hr hroles (by simpa [notices, hr] using hstepped) hstarting
    | offline hact hr hp hroles =>
      subst hact
      exact h.offline hr hp hroles (by simpa [notices, hr] using hstepped) hstarting
    | silent hnone hsame =>
      refine h.silent hstarting ?_ rfl ?_
      · simp [hnone]
      · intro id g' i
        by_cases hg : g' = g
        · subst hg
          rw [hstepped.server]
          exact hsame id i
        · rw [hstepped.servers g' hg]
  | handle g =>
    simp only [Cluster.step] at hs
    split at hs
    · rename_i req rest hsent
      cases hs
      exact h.handle hsent rfl (Function.update_self g rest c.sent)
        (fun g' hg => Function.update_of_ne hg rest c.sent) rfl
    · cases hs

theorem Inv.initial (h : cluster.init c) : Inv c := by
  obtain ⟨hservers, hsent, honlines⟩ := h
  have hnone : ∀ id g i, ¬AnnouncedAt (c.servers g).roles id i := by
    rintro id g i ⟨r, hr, -⟩
    obtain ⟨now, stores, hg⟩ := hservers g
    simp [hg, State.initial] at hr
  constructor
  case starting =>
    intro g r stage hpc
    obtain ⟨now, stores, hg⟩ := hservers g
    simp [hg, State.initial] at hpc
  case single =>
    intro id g i g' i' hi
    exact absurd hi (hnone id g i)
  case sender => simp [hsent]
  case own => simp [hsent]
  case settled => simp [hsent, honlines, hnone, Onlines.getGameID]

/-- Once `Online` and `Offline` have been finished the live roles are those that
are announced. -/
theorem Cluster.Settled.live_iff (h : c.Settled) (hr : r ∈ (c.servers g).roles) :
    Protocol.Live r.phase ↔ Announced r.phase := by
  obtain ⟨hstarted, hposted⟩ := h.roles g r hr
  cases hp : r.phase with
  | started => exact absurd hp hstarted
  | posted => exact absurd hp hposted
  | _ => rfl

/-- If no role goes online while another one with its ID has notices to come, the center
names the server on which a role is live whenever nothing is under way. -/
theorem onlines_agree {c : Cluster} (h : cluster.Reachable alone c) : Agrees c := by
  have hinv : Inv c := by
    refine Machine.Reachable.invariant (P := Inv) (fun _ hc => Inv.initial hc) ?_ h
    intro _ _ _ _ ih hok hs
    exact ih.step hok hs
  intro hsettled roleID g
  have hfinal := hinv.settled roleID g (fun g' _ => by simp [hsettled.handled g']) g
  rw [hsettled.handled g, List.foldl_nil] at hfinal
  rw [hfinal]
  constructor
  · rintro ⟨i, r, hr, hid, hann⟩
    have hmem := List.mem_of_getElem? hr
    exact ⟨r, hmem, hid, (hsettled.live_iff hmem).mpr hann⟩
  · rintro ⟨r, hmem, hid, hlive⟩
    obtain ⟨i, hr⟩ := List.getElem?_of_mem hmem
    exact ⟨i, r, hr, hid, (hsettled.live_iff hmem).mp hlive⟩

/-- Servers over empty stores. -/
def Cluster.empty : Cluster := ⟨fun _ => State.empty, fun _ => [], ∅⟩

theorem cluster_empty : cluster.init Cluster.empty :=
  ⟨fun _ => gameServer_empty, fun _ => rfl, rfl⟩

/-- A role leaves one server and logs in on another. -/
def moves : List ClusterAct :=
  (firstLogin 7 100 ++ leave 0).map (.server 1) ++ [.handle 1, .handle 1] ++
    (firstLogin 7 200).map (.server 2) ++ [.handle 2]

theorem moves_agree :
    ∃ c, cluster.Reachable alone c ∧ c.onlines.getGameID 7 = some 2 ∧ Agrees c := by
  obtain ⟨c, hr, hc⟩ := Machine.exec_reaches (m := cluster) alone
    (fun c => c.onlines.getGameID 7 = some 2) moves cluster_empty (by decide +kernel)
  exact ⟨c, hr, hc, onlines_agree hr⟩

/-- The login service starts the next role once the `EvtLogout` has been posted,
and the old role's `Login: false` follows the new one's `Login: true`. -/
def nextRoleFirst : List Act :=
  firstLogin 7 100 ++
    [.role 0 .exit, .role 0 .leaveSes, .role 0 .leaveReg, .role 0 .postLogout, .logon .onOps,
      .login ⟨7, 200, 2⟩, .logon .onOps, .logon .register, .logon .register, .logon .register,
      .role 1 .online, .role 0 .done]

theorem nextRoleFirst_not_agree : ∃ c, cluster.Reachable Machine.anyStep c ∧ ¬Agrees c := by
  obtain ⟨c, hr, hroles, hsent, hphases, hnone⟩ :=
    Machine.exec_reaches (m := cluster) Machine.anyStep
      (fun c => (∀ g, ∀ r ∈ (c.servers g).roles, r.phase ≠ .started ∧ r.phase ≠ .posted) ∧
        (∀ g, c.sent g = []) ∧
        (c.servers 1).roles.map (fun r => (r.id, r.phase)) = [(7, .done), (7, .running)] ∧
        c.onlines.getGameID 7 = none)
      (nextRoleFirst.map (.server 1) ++ List.replicate 3 (.handle 1)) cluster_empty
      (by decide +kernel)
  refine ⟨c, hr, fun hagree => ?_⟩
  have hmem : (7, RolePhase.running) ∈ (c.servers 1).roles.map fun r => (r.id, r.phase) := by
    simp [hphases]
  obtain ⟨r, hr, heq⟩ := List.mem_map.mp hmem
  obtain ⟨hid, hphase⟩ := Prod.mk.inj heq
  have hlisted := (hagree ⟨hroles, hsent⟩ 7 1).mpr ⟨r, hr, hid, by rw [hphase]; trivial⟩
  rw [hnone] at hlisted
  cases hlisted

end GameCluster.Center
