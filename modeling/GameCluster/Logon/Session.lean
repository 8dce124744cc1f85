import GameCluster.Logon.Protocol
import Mathlib.Tactic.Common

/-!
The login protocol keeps its invariant. Each of its four parts is carried
through one step in turn; a step that starts a role is a signal being heard
followed by `create`, and the conditions under which `create` is harmless are
the same for all three ways into `initRole`.
-/

namespace GameCluster.Protocol

open Lib

variable {c c' : Control}

variable {p p' : RolePhase} {x : RoleID}

theorem Advance.posted (h : Advance p p') : Posted p' ↔ Posted p := by
  cases h <;> simp [Posted]

theorem Advance.created (h : Advance p p') : p ≠ .created ∧ p' ≠ .created := by
  cases h <;> simp

theorem Advance.inReg (h : Advance p p') : InReg p' ↔ InReg p := by
  cases h <;> simp [InReg]

theorem Advance.inSes (h : Advance p p') : InSes p' ↔ InSes p := by
  cases h <;> simp [InSes]

section Frame

theorem Channel.frame (h : Channel c) (hsignals : c'.signals = c.signals)
    (hloads : c'.loads = c.loads) (hreentries : c'.reentries = c.reentries)
    (hroles : c'.roles = c.roles) (hlogged : c'.logged = c.logged) : Channel c' := by
  obtain ⟨hnodup, hloaded, hreentry, hlogout, hheard⟩ := h
  constructor <;> simp only [hsignals, hloads, hreentries, hroles, hlogged] <;> assumption

theorem Exclusive.frame (h : Exclusive c) (hstate : c'.state = c.state)
    (hloads : c'.loads = c.loads) (hroles : c'.roles = c.roles) (hlogged : c'.logged = c.logged)
    (hstarting : c'.starting = c.starting) : Exclusive c' := by
  obtain ⟨hls, hlu, hrs, hsr, hru, hcr, hst⟩ := h
  constructor <;> simp only [Open, hstate, hloads, hroles, hlogged, hstarting] <;> assumption

theorem Ordered.frame (h : Ordered c) (hstate : c'.state = c.state)
    (hreentries : c'.reentries = c.reentries) (hroles : c'.roles = c.roles)
    (hlogged : c'.logged = c.logged) (hsignals : c'.signals = c.signals) : Ordered c' := by
  obtain ⟨hst, huniq, hstarted, hwait, hpost, hahead⟩ := h
  constructor <;> simp only [Open, hstate, hreentries, hroles, hlogged, hsignals] <;> assumption

theorem Registered.frame (h : Registered c) (hroles : c'.roles = c.roles) (hreg : c'.reg = c.reg)
    (hses : c'.ses = c.ses) (hstarting : c'.starting = c.starting) : Registered c' := by
  obtain ⟨hr, hs, hentry⟩ := h
  constructor <;> simp only [hroles, hreg, hses, hstarting] <;> assumption

end Frame

/-- No role of the ID waits for its `EvtLogout` to be processed. -/
def NoneOpen (c : Control) (x : RoleID) : Prop :=
  ∀ (i : Nat) (r : Role), Open c i r → r.id ≠ x

def NoLoad (c : Control) (x : RoleID) : Prop :=
  ∀ (i : Nat) (l : Load), c.loads[i]? = some l → l.phase ≠ .gone → l.id ≠ x

def NoReentry (c : Control) (x : RoleID) : Prop :=
  ∀ (g : Nat) (v : Reentry), c.reentries[g]? = some v → v.phase ≠ .gone → v.id ≠ x

theorem Exclusive.noneOpen (h : Exclusive c)
    (hstate : c.state x ≠ some .stateOnline ∧ c.state x ≠ some .stateKicking) :
    NoneOpen c x := by
  rintro i r hopen rfl
  exact (h.role_state i r hopen).elim hstate.1 hstate.2

theorem Exclusive.noLoad (h : Exclusive c) (hstate : c.state x ≠ some .statePending) :
    NoLoad c x := by
  rintro i l hl hp rfl
  exact hstate (h.load_state i l hl hp)

theorem Ordered.noReentry (h : Ordered c)
    (hstate : c.state x = some .stateOnline ∨ c.state x = some .statePending) :
    NoReentry c x := by
  rintro g v hv hp rfl
  exact hstate.elim (h.state g v hv hp).1 (h.state g v hv hp).2

theorem noReentry_of_gone (h : ∀ v ∈ c.reentries, v.id = x → v.phase = .gone) : NoReentry c x :=
  fun _ v hv hp hid => hp (h v (List.mem_of_getElem? hv) hid)

theorem noLoad_of_gone (h : ∀ l ∈ c.loads, l.id = x → l.phase = .gone) : NoLoad c x :=
  fun _ l hl hp hid => hp (h l (List.mem_of_getElem? hl) hid)

section Tables

variable {x : RoleID} {i g : Nat} {l : Load} {v : Reentry} {r r' : Role}

/-- The phase of a load changes; one that is over stays so. -/
theorem Exclusive.moveLoad (h : Exclusive c) (hl : c.loads[i]? = some l) {phase : LoadStage}
    (hphase : phase ≠ .gone → l.phase ≠ .gone) :
    Exclusive { c with loads := c.loads.set i { l with phase } } :=
  { h with
    load_state := forall_getElem?_set h.load_state fun hp => h.load_state i l hl (hphase hp)
    load_unique := UniqueBy.set h.load_unique hl fun hp => ⟨hphase hp, rfl⟩ }

theorem Exclusive.addLoad (h : Exclusive c) (hstate : c.state x = some .statePending)
    (hload : NoLoad c x) : Exclusive { c with loads := c.loads ++ [⟨x, .working⟩] } :=
  { h with
    load_state := forall_getElem?_concat h.load_state fun _ => hstate
    load_unique := UniqueBy.concat h.load_unique hload }

/-- One re-entry changes, and with it perhaps the channel: what is to be shown of the
new entry and of the order in the channel. -/
theorem Ordered.setReentry (h : Ordered c) (hv : c.reentries[g]? = some v) (w : Reentry)
    (hid : w.id = v.id) (hgone : w.phase ≠ .gone → v.phase ≠ .gone)
    (hwait : w.phase = .waiting → ∀ (i : Nat) (r : Role), Open c i r → r.id = w.id →
      w.found = some i ∨ Posted r.phase)
    (hpost : w.phase = .posting ∨ w.phase = .posted → ∀ (i : Nat) (r : Role), Open c i r →
      r.id = w.id → Posted r.phase)
    {signals : List Signal}
    (hahead : ∀ (k : Nat) (u : Reentry), (c.reentries.set g w)[k]? = some u →
      u.phase = .posted → ∀ (i : Nat) (r : Role), Open c i r → r.id = u.id →
      Before (.logout i) (.reentry k) signals) :
    Ordered { c with reentries := c.reentries.set g w, signals } where
  state := forall_getElem?_set h.state fun hp => hid ▸ h.state g v hv (hgone hp)
  unique := UniqueBy.set h.unique hv fun hp => ⟨hgone hp, hid⟩
  started := forall_getElem?_set h.started fun hp => hid ▸ h.started g v hv (hgone hp)
  waiting := forall_getElem?_set h.waiting hwait
  posting := forall_getElem?_set h.posting hpost
  ahead := hahead

theorem forall_open_setRole {P : Nat → Role → Prop} (h : ∀ j q, Open c j q → P j q)
    (hr' : i ∉ c.logged → P i r') (j : Nat) (q : Role) (hq : Open (c.setRole i r') j q) : P j q :=
  forall_getElem?_set (P := fun j q => j ∉ c.logged → P j q)
    (fun j q hq hlog => h j q ⟨hq, hlog⟩) hr' j q hq.1 hq.2

theorem forall_open_create {P : Nat → Role → Prop} (h : ∀ j q, Open c j q → P j q)
    {ses : UInt64} (hnew : P c.roles.length ⟨x, ses, .created⟩) (j : Nat) (q : Role)
    (hq : Open (c.create x ses) j q) : P j q :=
  forall_getElem?_concat (P := fun j q => j ∉ c.logged → P j q)
    (fun j q hq hlog => h j q ⟨hq, hlog⟩) (fun _ => hnew) j q hq.1 hq.2

/-- A role that is open stays so, under its id, whatever its phase; and one that is open
afterwards was so before. -/
theorem open_setRole (hr : c.roles[i]? = some r) (p : RolePhase) {j : Nat} {q : Role}
    (hq : Open c j q) : ∃ q', Open (c.setRole i { r with phase := p }) j q' ∧ q'.id = q.id := by
  obtain ⟨hq, hlog⟩ := hq
  simp only [Control.setRole, Open, getElem?_set_some hr]
  by_cases hj : j = i
  · subst hj
    obtain rfl : r = q := Option.some.inj (hr.symm.trans hq)
    exact ⟨{ r with phase := p }, ⟨by simp, hlog⟩, rfl⟩
  · exact ⟨q, ⟨by simp [hj, hq], hlog⟩, rfl⟩

theorem open_of_setRole (hr : c.roles[i]? = some r) {p : RolePhase} :
    ∀ (j : Nat) (q : Role), Open (c.setRole i { r with phase := p }) j q →
      ∃ q', Open c j q' ∧ q'.id = q.id :=
  forall_open_setRole (fun _ q hq => ⟨q, hq, rfl⟩) fun hlog => ⟨r, ⟨hr, hlog⟩, rfl⟩

end Tables

section Create

variable {x : RoleID} (ses : UInt64)

theorem Channel.create (h : Channel c) : Channel (c.create x ses) := by
  obtain ⟨hnodup, hloaded, hreentry, hlogout, hlogged⟩ := h
  refine ⟨hnodup, hloaded, hreentry, fun i => ?_, fun i => ?_⟩ <;>
    simp only [Control.create, getElem?_concat] <;> grind [Posted]

theorem Exclusive.create (h : Exclusive c) (hch : Channel c) (hidle : c.starting = none)
    (hopen : NoneOpen c x) (hload : NoLoad c x) : Exclusive (c.create x ses) := by
  have hlast : c.roles.length ∉ c.logged := by
    intro hmem
    obtain ⟨r, hr, _⟩ := hch.logged _ hmem
    exact absurd (lt_length_of_some hr) (Nat.lt_irrefl _)
  obtain ⟨hls, hlu, hrs, hsr, hru, hcr, hst⟩ := h
  unfold NoneOpen at hopen
  unfold NoLoad at hload
  refine ⟨?_, hlu, ?_, ?_, ?_, ?_, ?_⟩ <;>
    simp only [Control.create, Open, getElem?_concat, Function.update_apply]
  · grind
  · grind
  · intro y hy
    by_cases hyx : y = x
    · exact ⟨c.roles.length, ⟨x, ses, .created⟩, ⟨by simp, hlast⟩, hyx.symm⟩
    · rw [if_neg hyx] at hy
      obtain ⟨i, r, ⟨hr, hlog⟩, hid⟩ := hsr y hy
      exact ⟨i, r, ⟨by rw [if_neg (Nat.ne_of_lt (lt_length_of_some hr)), hr], hlog⟩, hid⟩
  · grind
  · intro i r hr hp
    by_cases hi : i = c.roles.length
    · exact ⟨.registerSes, by rw [hi]⟩
    · rw [if_neg hi] at hr
      obtain ⟨stage, hstage⟩ := hcr i r hr hp
      simp [hidle] at hstage
  · rintro i stage ⟨⟩
    exact ⟨⟨x, ses, .created⟩, by simp, rfl⟩

theorem Ordered.create (h : Ordered c) (hre : NoReentry c x) : Ordered (c.create x ses) := by
  refine ⟨?_, h.unique, ?_, ?_, ?_, ?_⟩
  · intro g v hv hp
    simp only [Control.create, Function.update_of_ne (hre g v hv hp)]
    exact h.state g v hv hp
  · intro g v hv hp
    exact forall_open_create (h.started g v hv hp) fun hid => absurd hid.symm (hre g v hv hp)
  · intro g v hv hp
    have hne := hre g v hv (by simp [hp])
    exact forall_open_create (h.waiting g v hv hp) fun hid => absurd hid.symm hne
  · intro g v hv hp
    have hne := hre g v hv (by rcases hp with hp | hp <;> simp [hp])
    exact forall_open_create (h.posting g v hv hp) fun hid => absurd hid.symm hne
  · intro g v hv hp
    have hne := hre g v hv (by simp [hp])
    exact forall_open_create (h.ahead g v hv hp) fun hid => absurd hid.symm hne

theorem Registered.create (h : Registered c) (hidle : c.starting = none) :
    Registered (c.create x ses) := by
  obtain ⟨hreg, hses, hentry⟩ := h
  refine ⟨?_, ?_, ?_⟩ <;>
    simp only [Control.create, getElem?_concat]
  · grind [InReg]
  · grind [InSes]
  · intro y i hy
    obtain ⟨r, hr, hid, hin⟩ := hentry y i hy
    refine ⟨r, ?_, hid, ?_⟩
    · rw [if_neg (Nat.ne_of_lt (lt_length_of_some hr)), hr]
    · exact Or.inl (hin.resolve_right (by simp [hidle]))

/-- A role may start when nothing of its ID is under way. -/
theorem Inv.create (h : Inv c) (hidle : c.starting = none) (hopen : NoneOpen c x)
    (hload : NoLoad c x) (hre : NoReentry c x) : Inv (c.create x ses) where
  channel := h.channel.create ses
  exclusive := h.exclusive.create ses h.channel hidle hopen hload
  ordered := h.ordered.create ses hre
  registered := h.registered.create ses hidle

end Create

section Heard

variable {i g : Nat} {rest : List Signal}

/-- A load whose event is taken from the channel is over. -/
def hearLoaded (c : Control) (i : Nat) (l : Load) (rest : List Signal) : Control :=
  { c with signals := rest, loads := c.loads.set i { l with phase := .gone } }

def hearReentry (c : Control) (g : Nat) (v : Reentry) (rest : List Signal) : Control :=
  { c with signals := rest, reentries := c.reentries.set g { v with phase := .gone } }

theorem Inv.hearLoaded {l : Load} (h : Inv c) (hsig : c.signals = .loaded i :: rest)
    (hl : c.loads[i]? = some l) : Inv (hearLoaded c i l rest) where
  channel := by
    obtain ⟨hnodup, hloaded, hreentry, hlogout, hlogged⟩ := h.channel
    refine ⟨?_, fun j => ?_, fun g => ?_, fun j => ?_, hlogged⟩ <;>
      simp only [Protocol.hearLoaded, getElem?_set_some hl] <;> grind
  exclusive := (h.exclusive.moveLoad hl (absurd rfl)).frame rfl rfl rfl rfl rfl
  ordered := by
    obtain ⟨hst, huniq, hstarted, hwait, hpost, hahead⟩ := h.ordered
    refine ⟨hst, huniq, hstarted, hwait, hpost, fun g v hv hp j r hr hid => ?_⟩
    have hbefore := hahead g v hv hp j r hr hid
    rw [hsig] at hbefore
    exact hbefore.tail (by simp)
  registered := h.registered.frame rfl rfl rfl rfl

theorem Inv.hearReentry {v : Reentry} (h : Inv c) (hsig : c.signals = .reentry g :: rest)
    (hv : c.reentries[g]? = some v) : Inv (hearReentry c g v rest) where
  channel := by
    obtain ⟨hnodup, hloaded, hreentry, hlogout, hlogged⟩ := h.channel
    refine ⟨?_, fun j => ?_, fun g => ?_, fun j => ?_, hlogged⟩ <;>
      simp only [Protocol.hearReentry, getElem?_set_some hv] <;> grind
  exclusive := h.exclusive.frame rfl rfl rfl rfl rfl
  ordered := by
    refine h.ordered.setReentry hv { v with phase := .gone } rfl (absurd rfl)
      (by simp) (by simp) ?_
    refine forall_getElem?_set ?_ (by simp)
    intro g' v' hv' hp j r hr hid
    have hbefore := h.ordered.ahead g' v' hv' hp j r hr hid
    rw [hsig] at hbefore
    exact hbefore.tail (by simp)
  registered := h.registered.frame rfl rfl rfl rfl

/-- When a load is heard nothing else of its role is under way. -/
theorem Inv.heardLoaded_quiet {l : Load} (h : Inv c) (hsig : c.signals = .loaded i :: rest)
    (hl : c.loads[i]? = some l) :
    NoneOpen (Protocol.hearLoaded c i l rest) l.id ∧
      NoLoad (Protocol.hearLoaded c i l rest) l.id ∧
      NoReentry (Protocol.hearLoaded c i l rest) l.id := by
  have hphase : l.phase = .posted := by
    obtain ⟨l', hl', hp⟩ := (h.channel.loaded i).mp (by simp [hsig])
    rw [hl] at hl'
    cases hl'
    exact hp
  have hout : l.phase ≠ .gone := by simp [hphase]
  have hstate : c.state l.id = some .statePending := h.exclusive.load_state i l hl hout
  refine ⟨h.exclusive.noneOpen (by simp [hstate]), ?_, h.ordered.noReentry (Or.inr hstate)⟩
  intro j l' hl' hp hid
  simp only [Protocol.hearLoaded, getElem?_set_some hl] at hl'
  by_cases hj : j = i
  · simp only [hj, if_true, Option.some.injEq] at hl'
    simp [← hl'] at hp
  · rw [if_neg hj] at hl'
    exact hj (h.exclusive.load_unique j i l' l hl' hp hl hout hid)

/-- The same of a re-entry: its role's `EvtLogout` was ahead of it. -/
theorem Inv.heardReentry_quiet {v : Reentry} (h : Inv c)
    (hsig : c.signals = .reentry g :: rest) (hv : c.reentries[g]? = some v) :
    NoneOpen (Protocol.hearReentry c g v rest) v.id ∧
      NoLoad (Protocol.hearReentry c g v rest) v.id ∧
      NoReentry (Protocol.hearReentry c g v rest) v.id := by
  have hphase : v.phase = .posted := by
    obtain ⟨v', hv', hp⟩ := (h.channel.reentry g).mp (by simp [hsig])
    rw [hv] at hv'
    cases hv'
    exact hp
  have hout : v.phase ≠ .gone := by simp [hphase]
  refine ⟨?_, h.exclusive.noLoad (h.ordered.state g v hv hout).2, ?_⟩
  · intro j r hr hid
    have hbefore := h.ordered.ahead g v hv hphase j r hr hid
    rw [hsig] at hbefore
    exact not_before_head _ _ _ hbefore
  · intro g' v' hv' hp hid
    simp only [Protocol.hearReentry, getElem?_set_some hv] at hv'
    by_cases hg : g' = g
    · simp only [hg, if_true, Option.some.injEq] at hv'
      simp [← hv'] at hp
    · rw [if_neg hg] at hv'
      exact hg (h.ordered.unique g' g v' v hv' hp hv hout hid)

end Heard

/-- Only the login states change, and no ID with a load or a role under way, or
on its way to one, changes its state. -/
theorem Inv.withState (h : Inv c) (state : RoleID → Option LoginState)
    (hload : ∀ x, c.state x = some .statePending → NoLoad c x ∨ state x = c.state x)
    (hopen : ∀ x, c.state x = some .stateOnline ∨ c.state x = some .stateKicking →
      state x = c.state x ∨ NoneOpen c x)
    (hnew : ∀ x, state x ≠ c.state x →
      state x = none ∨ state x = some .stateOffline ∨ state x = some .stateCanDel) :
    Inv { c with state } where
  channel := h.channel.frame rfl rfl rfl rfl rfl
  exclusive := by
    obtain ⟨hls, hlu, hrs, hsr, hru, hcr, hst⟩ := h.exclusive
    unfold NoLoad at hload
    unfold NoneOpen at hopen
    refine ⟨?_, hlu, ?_, ?_, hru, hcr, hst⟩
    · intro i l hl hp
      grind
    · intro i r hr
      grind
    · intro x hx
      have hsame : state x = c.state x := by
        by_contra hne
        rcases hnew x hne with hs | hs | hs <;> simp [hs] at hx
      exact hsr x (hsame ▸ hx)
  ordered := by
    obtain ⟨hst, huniq, hstarted, hwait, hpost, hahead⟩ := h.ordered
    refine ⟨fun g v hv hp => ?_, huniq, hstarted, hwait, hpost, hahead⟩
    by_cases hsame : state v.id = c.state v.id
    · simp only [hsame]
      exact hst g v hv hp
    · rcases hnew v.id hsame with hs | hs | hs <;> simp [hs]
  registered := h.registered.frame rfl rfl rfl rfl

theorem Inv.offline (h : Inv c) (hopen : NoneOpen c x) (hload : NoLoad c x) :
    Inv (c.setState x .stateOffline) := by
  have hother : ∀ y, y ≠ x →
      Function.update c.state x ((c.state x).map fun _ => .stateOffline) y = c.state y :=
    fun y hy => Function.update_of_ne hy _ _
  refine h.withState _ (fun y _ => ?_) (fun y _ => ?_) (fun y hy => ?_)
  · by_cases hyx : y = x
    · exact Or.inl (hyx ▸ hload)
    · exact Or.inr (hother y hyx)
  · by_cases hyx : y = x
    · exact Or.inr (hyx ▸ hopen)
    · exact Or.inl (hother y hyx)
  · by_cases hyx : y = x
    · subst hyx
      rw [Function.update_self]
      cases c.state y <;> simp
    · exact absurd (hother y hyx) hy

section Login

variable {x : RoleID}

theorem Exclusive.pend (h : Exclusive c) (hload : NoLoad c x) (hopen : NoneOpen c x) :
    Exclusive { c with state := Function.update c.state x (some .statePending) } where
  load_state := by
    intro i l hl hp
    simp only [Function.update_of_ne (hload i l hl hp)]
    exact h.load_state i l hl hp
  load_unique := h.load_unique
  role_state := by
    intro i r hr
    simp only [Function.update_of_ne (hopen i r hr)]
    exact h.role_state i r hr
  state_role := by
    intro y hy
    have hyx : y ≠ x := by
      rintro rfl
      simp at hy
    simp only [Function.update_of_ne hyx] at hy
    exact h.state_role y hy
  role_unique := h.role_unique
  created := h.created
  starting := h.starting

theorem Channel.addLoad (h : Channel c) :
    Channel { c with loads := c.loads ++ [⟨x, .working⟩] } := by
  obtain ⟨hnodup, hloaded, hreentry, hlogout, hlogged⟩ := h
  refine ⟨hnodup, fun i => ?_, hreentry, hlogout, hlogged⟩
  simp only [getElem?_concat]
  grind

theorem Inv.firstLoad (h : Inv c) (hstate : c.state x = none ∨ c.state x = some .stateInit)
    (hre : NoReentry c x) :
    Inv { c with
      state := Function.update c.state x (some .statePending)
      loads := c.loads ++ [⟨x, .working⟩] } where
  channel := h.channel.addLoad.frame rfl rfl rfl rfl rfl
  exclusive := by
    have hload : NoLoad c x := h.exclusive.noLoad (by rcases hstate with hs | hs <;> simp [hs])
    have hopen : NoneOpen c x := h.exclusive.noneOpen (by rcases hstate with hs | hs <;> simp [hs])
    exact (h.exclusive.pend hload hopen).addLoad (Function.update_self ..) hload
  ordered := by
    obtain ⟨hst, huniq, hstarted, hwait, hpost, hahead⟩ := h.ordered
    refine ⟨fun g v hv hp => ?_, huniq, hstarted, hwait, hpost, hahead⟩
    simp only [Function.update_of_ne (hre g v hv hp)]
    exact hst g v hv hp
  registered := h.registered.frame rfl rfl rfl rfl

theorem Inv.reload (h : Inv c) (hstate : c.state x = some .statePending)
    (hload : NoLoad c x) : Inv { c with loads := c.loads ++ [⟨x, .working⟩] } where
  channel := h.channel.addLoad
  exclusive := h.exclusive.addLoad hstate hload
  ordered := h.ordered.frame rfl rfl rfl rfl rfl
  registered := h.registered.frame rfl rfl rfl rfl

theorem Inv.kick (h : Inv c) (hidle : c.starting = none) (hstate : c.state x = some .stateOnline) :
    Inv { c with
      state := Function.update c.state x (some .stateKicking)
      reentries := c.reentries ++ [⟨x, .spawned, none⟩] } where
  channel := by
    obtain ⟨hnodup, hloaded, hreentry, hlogout, hlogged⟩ := h.channel
    refine ⟨hnodup, hloaded, fun g => ?_, hlogout, hlogged⟩
    simp only [getElem?_concat]
    grind
  exclusive := by
    obtain ⟨hls, hlu, hrs, hsr, hru, hcr, hst⟩ := h.exclusive
    refine ⟨?_, hlu, ?_, ?_, hru, hcr, hst⟩ <;> simp only [Function.update_apply] <;> grind
  ordered := by
    have hre := h.ordered.noReentry (Or.inl hstate)
    obtain ⟨hst, huniq, hstarted, hwait, hpost, hahead⟩ := h.ordered
    refine ⟨forall_getElem?_concat ?_ ?_, UniqueBy.concat huniq hre,
      forall_getElem?_concat hstarted ?_, forall_getElem?_concat hwait (by simp),
      forall_getElem?_concat hpost (by simp), forall_getElem?_concat hahead (by simp)⟩
    · intro g v hv hp
      simp only [Function.update_of_ne (hre g v hv hp)]
      exact hst g v hv hp
    · simp
    · intro _ i r hr _ hphase
      obtain ⟨stage, hstage⟩ := h.exclusive.created i r hr.1 hphase
      simp [hidle] at hstage
  registered := h.registered.frame rfl rfl rfl rfl

/-- Hearing a role's `EvtLogout` takes its entry offline. -/
theorem Inv.logout (h : Inv c) {i : Nat} {rest : List Signal} {r : Role}
    (hsig : c.signals = .logout i :: rest) (hr : c.roles[i]? = some r) :
    Inv ({ c with signals := rest, logged := c.logged ++ [i] }.setState r.id .stateOffline) := by
  have hheard : Posted r.phase ∧ i ∉ c.logged := by
    obtain ⟨r', hr', hp, hlog⟩ := (h.channel.logout i).mp (by simp [hsig])
    rw [hr] at hr'
    cases hr'
    exact ⟨hp, hlog⟩
  have hstate := h.exclusive.role_state i r ⟨hr, hheard.2⟩
  refine ⟨?_, ?_, ?_, h.registered.frame rfl rfl rfl rfl⟩
  · obtain ⟨hnodup, hloaded, hreentry, hlogout, hlogged⟩ := h.channel
    refine ⟨?_, fun i => ?_, fun g => ?_, fun i => ?_, fun i => ?_⟩ <;>
      simp only [Control.setState] <;> grind
  · obtain ⟨hls, hlu, hrs, hsr, hru, hcr, hst⟩ := h.exclusive
    refine ⟨?_, hlu, ?_, ?_, ?_, hcr, hst⟩ <;>
      simp only [Control.setState, Open, Function.update_apply, List.mem_append,
        List.mem_singleton] <;> grind
  · obtain ⟨hst, huniq, hstarted, hwait, hpost, hahead⟩ := h.ordered
    refine ⟨?_, huniq, ?_, ?_, ?_, ?_⟩ <;>
      simp only [Control.setState, Open, Function.update_apply, List.mem_append,
        List.mem_singleton, not_or]
    · grind
    · grind
    · grind
    · grind
    · rintro g v hv hp j r' ⟨hr', hlog, hne⟩ hid
      have hbefore := hahead g v hv hp j r' ⟨hr', hlog⟩ hid
      rw [hsig] at hbefore
      exact hbefore.tail (by simpa using Ne.symm hne)

end Login

section Threads

variable {i g : Nat} {l : Load} {v : Reentry} {r : Role}

theorem Inv.loadDrop (h : Inv c) (hl : c.loads[i]? = some l) (hp : l.phase = .working) :
    Inv { c with loads := c.loads.set i { l with phase := .gone } } where
  channel := by
    obtain ⟨hnodup, hloaded, hreentry, hlogout, hlogged⟩ := h.channel
    refine ⟨hnodup, fun j => ?_, hreentry, hlogout, hlogged⟩
    simp only [getElem?_set_some hl]
    grind
  exclusive := h.exclusive.moveLoad hl (absurd rfl)
  ordered := h.ordered.frame rfl rfl rfl rfl rfl
  registered := h.registered.frame rfl rfl rfl rfl

theorem Inv.loadPost (h : Inv c) (hl : c.loads[i]? = some l) (hp : l.phase = .working) :
    Inv { c with
      loads := c.loads.set i { l with phase := .posted }
      signals := c.signals ++ [.loaded i] } where
  channel := by
    obtain ⟨hnodup, hloaded, hreentry, hlogout, hlogged⟩ := h.channel
    refine ⟨?_, fun i => ?_, fun g => ?_, fun i => ?_, hlogged⟩ <;>
      simp only [getElem?_set_some hl] <;> grind
  exclusive := (h.exclusive.moveLoad hl (by simp [hp])).frame rfl rfl rfl rfl rfl
  ordered := ⟨h.ordered.state, h.ordered.unique, h.ordered.started, h.ordered.waiting,
    h.ordered.posting, fun g v hv hp j r hr hid =>
      (h.ordered.ahead g v hv hp j r hr hid).concat (by simp)⟩
  registered := h.registered.frame rfl rfl rfl rfl

/-- A re-entry that has not posted yet moves on, keeping what `Ordered` says of
its new phase. -/
theorem Inv.reentryMove (h : Inv c) (hv : c.reentries[g]? = some v) (hgone : v.phase ≠ .gone)
    (hunposted : v.phase ≠ .posted) {phase : ReentryPhase} (found : Option Nat)
    (hphase : phase = .waiting ∨ phase = .posting)
    (hwait : phase = .waiting → ∀ (i : Nat) (r : Role), Open c i r → r.id = v.id →
      found = some i ∨ Posted r.phase)
    (hpost : phase = .posting → ∀ (i : Nat) (r : Role), Open c i r → r.id = v.id →
      Posted r.phase) :
    Inv { c with reentries := c.reentries.set g { v with phase, found } } where
  channel := by
    obtain ⟨hnodup, hloaded, hreentry, hlogout, hlogged⟩ := h.channel
    refine ⟨hnodup, hloaded, fun j => ?_, hlogout, hlogged⟩
    simp only [getElem?_set_some hv]
    grind
  exclusive := h.exclusive.frame rfl rfl rfl rfl rfl
  ordered := by
    have hnew : phase ≠ .posted := by rcases hphase with rfl | rfl <;> simp
    refine h.ordered.setReentry hv { v with phase, found } rfl (fun _ => hgone) hwait ?_ ?_
    · exact fun hp => hpost (hp.resolve_right hnew)
    · exact forall_getElem?_set h.ordered.ahead fun hp => absurd hp hnew
  registered := h.registered.frame rfl rfl rfl rfl

theorem Inv.reentryPost (h : Inv c) (hv : c.reentries[g]? = some v) (hp : v.phase = .posting) :
    Inv { c with
      reentries := c.reentries.set g { v with phase := .posted }
      signals := c.signals ++ [.reentry g] } where
  channel := by
    obtain ⟨hnodup, hloaded, hreentry, hlogout, hlogged⟩ := h.channel
    refine ⟨?_, fun i => ?_, fun g => ?_, fun i => ?_, hlogged⟩ <;>
      simp only [getElem?_set_some hv] <;> grind
  exclusive := h.exclusive.frame rfl rfl rfl rfl rfl
  ordered := by
    have hposted := h.ordered.posting g v hv (Or.inl hp)
    refine h.ordered.setReentry hv { v with phase := .posted } rfl (fun _ => by simp [hp])
      (by simp) (fun _ => hposted) ?_
    intro g' v' hv' hp' j r hr hid
    rw [getElem?_set_some hv] at hv'
    split at hv'
    · rename_i hg
      obtain rfl := Option.some.inj hv'
      subst hg
      have hnone : (.reentry g' : Signal) ∉ c.signals := by
        intro hmem
        obtain ⟨w, hw, hwp⟩ := (h.channel.reentry g').mp hmem
        obtain rfl : v = w := Option.some.inj (hv.symm.trans hw)
        simp [hp] at hwp
      refine (before_of_notMem hnone).concat fun _ => ?_
      exact (h.channel.logout j).mpr ⟨r, hr.1, hposted j r hr hid, hr.2⟩
    · rename_i hg
      exact (h.ordered.ahead g' v' hv' hp' j r hr hid).concat (by simp [Ne.symm hg])
  registered := h.registered.frame rfl rfl rfl rfl

/-- What `KickAndWait` finds: outside the gap between `Unregister` and
`EvtLogout`, the role of the ID that is still open, if it is live. -/
theorem Inv.kick_sees (h : Inv c) (hv : c.reentries[g]? = some v) (hp : v.phase = .spawned)
    (hgap : ∀ r ∈ c.roles, r.id = v.id → r.phase ≠ .unregistered) (j : Nat) (r : Role)
    (hr : Open c j r) (hid : r.id = v.id) :
    c.reg.lookup v.id = some j ∨ Posted r.phase := by
  have hcreated := h.ordered.started g v hv (by simp [hp]) j r hr hid
  have hunreg := hgap r (List.mem_of_getElem? hr.1) hid
  cases hphase : r.phase with
  | created => exact absurd hphase hcreated
  | unregistered => exact absurd hphase hunreg
  | posted | done => exact Or.inr (by simp [Posted])
  | _ => exact Or.inl (hid ▸ h.registered.reg j r hr.1 (Or.inl (by simp [InReg, hphase])))

end Threads

section Roles

variable {i : Nat} {r : Role} {p : RolePhase}

theorem Channel.moveRole (h : Channel c) (hr : c.roles[i]? = some r)
    (hposted : Posted p ↔ Posted r.phase) : Channel (c.setRole i { r with phase := p }) := by
  obtain ⟨hnodup, hloaded, hreentry, hlogout, hlogged⟩ := h
  refine ⟨hnodup, hloaded, hreentry, fun i => ?_, fun i => ?_⟩ <;>
    simp only [Control.setRole, getElem?_set_some hr] <;> grind

/-- The phase of a role changes, and perhaps which role is starting. -/
theorem Exclusive.setRole (h : Exclusive c) (hr : c.roles[i]? = some r)
    {starting : Option (Nat × StartStage)}
    (hcreated : ∀ (j : Nat) (q : Role), (c.setRole i { r with phase := p }).roles[j]? = some q →
      q.phase = .created → ∃ stage, starting = some (j, stage))
    (hstarting : ∀ j stage, starting = some (j, stage) →
      ∃ q, (c.setRole i { r with phase := p }).roles[j]? = some q ∧ q.phase = .created) :
    Exclusive { c.setRole i { r with phase := p } with starting } where
  load_state := h.load_state
  load_unique := h.load_unique
  role_state := forall_open_setRole h.role_state fun hlog => h.role_state i r ⟨hr, hlog⟩
  state_role := by
    intro x hx
    obtain ⟨j, q, hq, hid⟩ := h.state_role x hx
    obtain ⟨q', hq', hid'⟩ := open_setRole hr p hq
    exact ⟨j, q', hq', hid'.trans hid⟩
  role_unique := by
    intro j k q w hq hw hid
    obtain ⟨q', hq', hqid⟩ := open_of_setRole hr j q hq
    obtain ⟨w', hw', hwid⟩ := open_of_setRole hr k w hw
    exact h.role_unique j k q' w' hq' hw' ((hqid.trans hid).trans hwid.symm)
  created := hcreated
  starting := hstarting

theorem Exclusive.moveRole (h : Exclusive c) (hr : c.roles[i]? = some r)
    (hold : r.phase ≠ .created) (hnew : p ≠ .created) :
    Exclusive (c.setRole i { r with phase := p }) := by
  refine h.setRole hr (forall_getElem?_set h.created fun hp => absurd hp hnew) ?_
  intro j stage hs
  obtain ⟨q, hq, hp⟩ := h.starting j stage hs
  have hj : j ≠ i := by
    rintro rfl
    obtain rfl : r = q := Option.some.inj (hr.symm.trans hq)
    exact hold hp
  exact ⟨q, by rw [Control.setRole, getElem?_set_some hr, if_neg hj, hq], hp⟩

theorem Ordered.moveRole (h : Ordered c) (hr : c.roles[i]? = some r)
    (hposted : Posted r.phase → Posted p) (hnew : p ≠ .created) :
    Ordered (c.setRole i { r with phase := p }) := by
  refine ⟨h.state, h.unique, ?_, ?_, ?_, ?_⟩
  · intro g v hv hp
    exact forall_open_setRole (h.started g v hv hp) fun _ _ => hnew
  · intro g v hv hp
    exact forall_open_setRole (h.waiting g v hv hp) fun hlog hid =>
      (h.waiting g v hv hp i r ⟨hr, hlog⟩ hid).imp_right hposted
  · intro g v hv hp
    exact forall_open_setRole (h.posting g v hv hp) fun hlog hid =>
      hposted (h.posting g v hv hp i r ⟨hr, hlog⟩ hid)
  · intro g v hv hp
    exact forall_open_setRole (h.ahead g v hv hp) fun hlog hid =>
      h.ahead g v hv hp i r ⟨hr, hlog⟩ hid

/-- Roles in the registry with the same ID are one role. -/
theorem Inv.same_role (h : Inv c) {j : Nat} {q : Role} (hr : c.roles[i]? = some r)
    (hq : c.roles[j]? = some q) (hrp : ¬Posted r.phase) (hqp : ¬Posted q.phase)
    (hid : r.id = q.id) : i = j := by
  have hopen : ∀ (k : Nat) (w : Role), c.roles[k]? = some w → ¬Posted w.phase →
      Open c k w := by
    refine fun k w hw hp => ⟨hw, fun hlog => ?_⟩
    obtain ⟨w', hw', hp'⟩ := h.channel.logged k hlog
    rw [hw] at hw'
    cases hw'
    exact hp hp'
  exact h.exclusive.role_unique i j r q (hopen i r hr hrp) (hopen j q hq hqp) hid

theorem Exclusive.phase_of_starting (h : Exclusive c) {stage : StartStage}
    (hst : c.starting = some (i, stage)) (hr : c.roles[i]? = some r) : r.phase = .created := by
  obtain ⟨r', hr', hp⟩ := h.starting i _ hst
  rw [hr] at hr'
  cases hr'
  exact hp

theorem not_posted_of_inReg {p : RolePhase} (h : InReg p) : ¬Posted p := by
  cases p <;> simp_all [InReg, Posted]

theorem inReg_of_inSes {p : RolePhase} (h : InSes p) : InReg p := by
  cases p <;> simp_all [InReg, InSes]

/-- A role moves on, and the registries with it. -/
theorem Inv.moveRole (h : Inv c) (hr : c.roles[i]? = some r) (hposted : Posted p ↔ Posted r.phase)
    (hold : r.phase ≠ .created) (hnew : p ≠ .created) {ses : Map UInt64 RoleID}
    {reg : Map RoleID Nat}
    (hreg : Registered { c.setRole i { r with phase := p } with ses, reg }) :
    Inv { c.setRole i { r with phase := p } with ses, reg } where
  channel := (h.channel.moveRole hr hposted).frame rfl rfl rfl rfl rfl
  exclusive := (h.exclusive.moveRole hr hold hnew).frame rfl rfl rfl rfl rfl
  ordered := (h.ordered.moveRole hr hposted.mpr hnew).frame rfl rfl rfl rfl rfl
  registered := hreg

theorem Inv.advance (h : Inv c) (hr : c.roles[i]? = some r) (hp : Advance r.phase p) :
    Inv (c.setRole i { r with phase := p }) := by
  refine h.moveRole hr hp.posted hp.created.1 hp.created.2 ?_
  have hinReg := hp.inReg
  have hinSes := hp.inSes
  obtain ⟨hreg, hses, hentry⟩ := h.registered
  refine ⟨?_, ?_, ?_⟩ <;> simp only [Control.setRole, getElem?_set_some hr] <;> grind

theorem Inv.registerSes (h : Inv c) (hst : c.starting = some (i, .registerSes))
    (hr : c.roles[i]? = some r)
    (hses : c.ses.lookup r.sesID = none ∨ c.ses.lookup r.sesID = some r.id) :
    Inv { c with ses := c.ses.insert r.sesID r.id, starting := some (i, .registerRole) } where
  channel := h.channel.frame rfl rfl rfl rfl rfl
  exclusive := by
    obtain ⟨hls, hlu, hrs, hsr, hru, hcr, hstart⟩ := h.exclusive
    refine ⟨hls, hlu, hrs, hsr, hru, ?_, ?_⟩ <;> grind
  ordered := h.ordered.frame rfl rfl rfl rfl rfl
  registered := by
    obtain ⟨hreg, hses', hentry⟩ := h.registered
    refine ⟨?_, ?_, ?_⟩ <;> simp only [Map.lookup_insert_ite] <;> grind

theorem Inv.registerRole (h : Inv c) (hst : c.starting = some (i, .registerRole))
    (hr : c.roles[i]? = some r) :
    Inv { c with reg := c.reg.insert r.id i, starting := some (i, .run) } where
  channel := h.channel.frame rfl rfl rfl rfl rfl
  exclusive := by
    obtain ⟨hls, hlu, hrs, hsr, hru, hcr, hstart⟩ := h.exclusive
    refine ⟨hls, hlu, hrs, hsr, hru, ?_, ?_⟩ <;> grind
  ordered := h.ordered.frame rfl rfl rfl rfl rfl
  registered := by
    have hphase : ¬Posted r.phase := by simp [h.exclusive.phase_of_starting hst hr, Posted]
    have hsame : ∀ (j : Nat) (q : Role), c.roles[j]? = some q → InReg q.phase →
        q.id = r.id → j = i :=
      fun j q hq hin hid => h.same_role hq hr (not_posted_of_inReg hin) hphase hid
    obtain ⟨hreg, hses, hentry⟩ := h.registered
    refine ⟨?_, ?_, ?_⟩ <;> simp only [Map.lookup_insert_ite]
    · grind
    · grind
    · intro x j hx
      by_cases hxr : x = r.id
      · rw [if_pos hxr, Option.some.injEq] at hx
        exact ⟨r, hx ▸ hr, hxr.symm, Or.inr (by rw [hx])⟩
      · rw [if_neg hxr] at hx
        obtain ⟨q, hq, hid, hin⟩ := hentry x j hx
        exact ⟨q, hq, hid, Or.inl (hin.resolve_right (by simp [hst]))⟩

theorem Inv.run (h : Inv c) (hst : c.starting = some (i, .run)) (hr : c.roles[i]? = some r) :
    Inv { c.setRole i { r with phase := .started } with starting := none } := by
  have hphase := h.exclusive.phase_of_starting hst hr
  refine ⟨?_, ?_, ?_, ?_⟩
  · have hch := h.channel.moveRole (p := .started) hr (by simp [hphase, Posted])
    exact hch.frame rfl rfl rfl rfl rfl
  · refine h.exclusive.setRole hr ?_ (by simp)
    intro j q hq hp
    rw [Control.setRole, getElem?_set_some hr] at hq
    split at hq
    · obtain rfl := Option.some.inj hq
      cases hp
    · rename_i hj
      obtain ⟨stage, hstage⟩ := h.exclusive.created j q hq hp
      rw [hst, Option.some.injEq, Prod.mk.injEq] at hstage
      exact absurd hstage.1.symm hj
  · have hord := h.ordered.moveRole (p := .started) hr (by simp [hphase, Posted]) (by simp)
    exact hord.frame rfl rfl rfl rfl rfl
  · obtain ⟨hreg, hses, hentry⟩ := h.registered
    refine ⟨?_, ?_, ?_⟩ <;> simp only [Control.setRole, getElem?_set_some hr] <;>
      grind [InReg, InSes]

/-- A role's session is still its own when it leaves. -/
theorem Inv.owns_session (h : Inv c) (hr : c.roles[i]? = some r) (hp : r.phase = .leaving) :
    c.ses.lookup r.sesID = some r.id :=
  h.registered.ses i r hr (Or.inl (by simp [hp, InSes]))

theorem Inv.leaveSes (h : Inv c) (hr : c.roles[i]? = some r) (hp : r.phase = .leaving) :
    Inv { c.setRole i { r with phase := .leftSes } with ses := c.ses.erase r.sesID } := by
  have hphase : ¬Posted r.phase := by simp [hp, Posted]
  have hown := h.owns_session hr hp
  have hcreated := h.exclusive.starting
  refine h.moveRole hr (by simp [hp, Posted]) (by simp [hp]) (by simp) ?_
  obtain ⟨hreg, hses, hentry⟩ := h.registered
  refine ⟨?_, ?_, ?_⟩ <;>
    simp only [Control.setRole, getElem?_set_some hr, Map.lookup_erase_ite]
  · grind [InReg]
  · intro j q hq hin
    by_cases hj : j = i
    · subst hj
      simp only [if_true, Option.some.injEq] at hq
      have := hcreated j
      grind [InSes]
    · rw [if_neg hj] at hq
      have hq' := hses j q hq hin
      have hne : q.sesID ≠ r.sesID := by
        intro heq
        rw [heq, hown, Option.some.injEq] at hq'
        refine hj (h.same_role hq hr ?_ hphase hq'.symm)
        rcases hin with hin | hin | hin
        · exact not_posted_of_inReg (inReg_of_inSes hin)
        · grind [Posted]
        · grind [Posted]
      rw [if_neg hne]
      exact hq'
  · grind [InReg]

theorem Inv.leaveReg (h : Inv c) (hr : c.roles[i]? = some r) (hp : r.phase = .leftSes) :
    Inv { c.setRole i { r with phase := .unregistered } with reg := c.reg.erase r.id } := by
  have hphase : ¬Posted r.phase := by simp [hp, Posted]
  have hcreated := h.exclusive.starting
  refine h.moveRole hr (by simp [hp, Posted]) (by simp [hp]) (by simp) ?_
  obtain ⟨hreg, hses, hentry⟩ := h.registered
  refine ⟨?_, ?_, ?_⟩ <;>
    simp only [Control.setRole, getElem?_set_some hr, Map.lookup_erase_ite]
  · intro j q hq hin
    by_cases hj : j = i
    · subst hj
      simp only [if_true, Option.some.injEq] at hq
      have := hcreated j
      grind [InReg]
    · rw [if_neg hj] at hq
      have hne : q.id ≠ r.id := by
        intro heq
        refine hj (h.same_role hq hr ?_ hphase heq)
        rcases hin with hin | hin
        · exact not_posted_of_inReg hin
        · grind [Posted]
      rw [if_neg hne]
      exact hreg j q hq hin
  · grind [InSes]
  · grind

theorem Inv.postLogout (h : Inv c) (hr : c.roles[i]? = some r) (hp : r.phase = .unregistered) :
    Inv { c.setRole i { r with phase := .posted } with signals := c.signals ++ [.logout i] } := by
  have hexc := h.exclusive.moveRole (p := .posted) hr (by simp [hp]) (by simp)
  have hord := h.ordered.moveRole (p := .posted) hr (by simp [Posted]) (by simp)
  refine ⟨?_,
    hexc.frame rfl rfl rfl rfl rfl,
    ⟨hord.state, hord.unique, hord.started, hord.waiting, hord.posting,
      fun g v hv hpg j q hq hid => (hord.ahead g v hv hpg j q hq hid).concat (by simp)⟩, ?_⟩
  · obtain ⟨hnodup, hloaded, hreentry, hlogout, hlogged⟩ := h.channel
    refine ⟨?_, fun i => ?_, fun g => ?_, fun i => ?_, fun i => ?_⟩ <;>
      simp only [Control.setRole, getElem?_set_some hr] <;> grind [Posted]
  · have hcreated := h.exclusive.starting
    obtain ⟨hreg, hses, hentry⟩ := h.registered
    refine ⟨?_, ?_, ?_⟩ <;> simp only [Control.setRole, getElem?_set_some hr] <;>
      grind [InReg, InSes]

end Roles

theorem Inv.initial : Inv ⟨fun _ => none, [], [], [], [], [], ∅, ∅, none⟩ where
  channel := ⟨.nil, by simp, by simp, by simp, by simp⟩
  exclusive := ⟨by simp, by simp, by simp, by simp, by simp, by simp, by simp⟩
  ordered := ⟨by simp, by simp, by simp, by simp, by simp, by simp⟩
  registered := ⟨by simp, by simp, by simp⟩

theorem Inv.step (h : Inv c) (hs : Step c c') : Inv c' := by
  cases hs with
  | idle => exact h
  | firstLoad hstate hre => exact h.firstLoad hstate (noReentry_of_gone hre)
  | reload hstate hload => exact h.reload hstate (noLoad_of_gone hload)
  | kick hidle hstate => exact h.kick hidle hstate
  | relogin ses hidle hstate hre =>
    refine h.create ses hidle (h.exclusive.noneOpen ?_) (h.exclusive.noLoad ?_)
      (noReentry_of_gone hre) <;> rcases hstate with hs | hs <;> simp [hs]
  | reloginReject hstate =>
    refine h.offline (h.exclusive.noneOpen ?_) (h.exclusive.noLoad ?_) <;>
      rcases hstate with hs | hs <;> simp [hs]
  | loadedStart ses hidle hsig hl =>
    obtain ⟨hopen, hload, hre⟩ := h.heardLoaded_quiet hsig hl
    exact (h.hearLoaded hsig hl).create ses hidle hopen hload hre
  | loadedReject hsig hl =>
    obtain ⟨hopen, hload, _⟩ := h.heardLoaded_quiet hsig hl
    exact (h.hearLoaded hsig hl).offline hopen hload
  | reentryStart ses hidle hsig hv =>
    obtain ⟨hopen, hload, hre⟩ := h.heardReentry_quiet hsig hv
    exact (h.hearReentry hsig hv).create ses hidle hopen hload hre
  | reentryReject hsig hv =>
    obtain ⟨hopen, hload, _⟩ := h.heardReentry_quiet hsig hv
    exact (h.hearReentry hsig hv).offline hopen hload
  | logout hsig hr => exact h.logout hsig hr
  | saved ids => refine h.withState _ ?_ ?_ ?_ <;> grind
  | release hstate =>
    refine h.withState _ ?_ ?_ ?_ <;> simp only [Function.update_apply] <;> grind
  | loadDrop hl hp => exact h.loadDrop hl hp
  | loadPost hl hp => exact h.loadPost hl hp
  | kickMiss hv hp hreg hgap =>
    refine h.reentryMove hv (by simp [hp]) (by simp [hp]) _ (Or.inr rfl) (by simp) ?_
    intro _ j r hr hid
    exact (h.kick_sees hv hp hgap j r hr hid).resolve_left (by simp [hreg])
  | kickFound hv hp hreg hgap =>
    refine h.reentryMove hv (by simp [hp]) (by simp [hp]) _ (Or.inl rfl) ?_ (by simp)
    intro _ j r hr hid
    exact (h.kick_sees hv hp hgap j r hr hid).imp_left fun hj => by rw [← hreg, hj]
  | waitDone hv hp hfound hr hwait =>
    refine h.reentryMove hv (by simp [hp]) (by simp [hp]) _ (Or.inr rfl) (by simp) ?_
    intro _ j q hq hid
    rcases h.ordered.waiting _ _ hv hp j q hq hid with hj | hposted
    · rw [hfound, Option.some.injEq] at hj
      subst hj
      have hcreated := h.ordered.started _ _ hv (by simp [hp]) _ q hq hid
      obtain rfl : _ = q := Option.some.inj (hr.symm.trans hq.1)
      simp [hwait.resolve_left hcreated, Posted]
    · exact hposted
  | reentryPost hv hp => exact h.reentryPost hv hp
  | registerSes hst hr hses => exact h.registerSes hst hr hses
  | registerRole hst hr => exact h.registerRole hst hr
  | run hst hr => exact h.run hst hr
  | advance hr hp => exact h.advance hr hp
  | leaveSes hr hp hses => exact h.leaveSes hr hp
  | loseSes hr hp hses => exact absurd (h.owns_session hr hp) hses
  | leaveReg hr hp => exact h.leaveReg hr hp
  | postLogout hr hp => exact h.postLogout hr hp

theorem Inv.live_unique (h : Inv c) {i j : Nat} {r q : Role} (hr : c.roles[i]? = some r)
    (hq : c.roles[j]? = some q) (hrl : Live r.phase) (hql : Live q.phase)
    (hid : r.id = q.id) : i = j := by
  have hunposted : ∀ p : RolePhase, Live p → ¬Posted p := by
    intro p
    cases p <;> simp [Live, Posted]
  exact h.same_role hr hq (hunposted _ hrl) (hunposted _ hql) hid

/-- Outside `initRole` every registry entry belongs to a live role of its ID. -/
theorem Inv.entry_live (h : Inv c) (hidle : c.starting = none) {i : Nat}
    (hx : c.reg.lookup x = some i) :
    ∃ r, c.roles[i]? = some r ∧ r.id = x ∧ Live r.phase := by
  obtain ⟨r, hr, hid, hin⟩ := h.registered.entry x i hx
  have hreg : InReg r.phase := hin.resolve_right (by simp [hidle])
  refine ⟨r, hr, hid, ?_⟩
  cases hp : r.phase <;> simp_all [InReg, Live]

end GameCluster.Protocol
