import GameCluster.Logon.Closed

/-!
A role is released only when it is durable: when `cleanup` deletes an entry,
both stores hold the record of the role's last `EvtLogout`.

An `EvtSaveSuccess` carries nothing but role IDs, so it can be taken for the
acknowledgement of a later save. The runs for which the result holds are those
in which an `EvtLogout` is processed only while no save of its role with
`Both` set is outstanding. In them the record is followed through the role's
saver (`Saver.Carries`), and an acknowledgement that reaches the closed ID can
only be one of the record itself.

Redis may have removed the role's key by then, seven days after the record was
written. That is excluded as long as the entry is there; once it is released,
the key may go, and the next load finds a new role.
-/

namespace GameCluster

open Lib Protocol

variable {s s' : State} {id : RoleID} {l : Record}

/-- The roles whose saves the event acknowledges. -/
def LogonEvent.acks : LogonEvent → List RoleID
  | .saveSuccess ids => ids
  | _ => []

/-- No save of the role with `Both` set waits to be merged, flushed or
acknowledged. -/
def State.noBothSave (s : State) (id : RoleID) : Bool :=
  (∀ op ∈ (s.saver id).q.waiting, op.id = id → op.both = false) ∧
    (∀ op ∈ (s.saver id).batch.lookup id, op.both = false) ∧ ∀ e ∈ s.ops, id ∉ e.acks

/-- An `EvtLogout` is processed only while no such save is outstanding. -/
def State.quietLogout (s : State) : Act → Bool
  | .logon .onOps =>
    match s.ops with
    | .logout data _ :: _ => s.noBothSave data.roleID
    | _ => true
  | _ => true

/-- The record that a load delivers for a role which last logged out with `l`:
`l` itself or, if `fresh`, that of a new role. -/
def ReadsBack (fresh : Prop) (id : RoleID) (l : Record) (data : DataToSave) : Prop :=
  data.data = some l ∨ fresh ∧ data = newRoleDBData id

/-- Where the record of a closed ID is. If `gone`, its hash may have expired; if
`fresh`, a load may have missed it. -/
structure Kept (gone fresh : Prop) (s : State) (id : RoleID) (l : Record) : Prop where
  remembers : Remembers s id l
  carries : (s.saver id).status ≠ .panicked → (s.saver id).Carries True gone s.stores id l
  released : s.control.state id ≠ some .stateOffline → (s.saver id).Stored gone s.stores id l
  acked : ∀ e ∈ s.ops, id ∈ e.acks → (s.saver id).Stored gone s.stores id l
  events : ∀ msg data i, .dbLoaded msg data i ∈ s.ops → data.roleID = id →
    ReadsBack fresh id l data
  loads : ∀ ld ∈ s.loads, ld.login.roleID = id →
    (ld.phase = .missed → fresh) ∧ ∀ data, ld.phase = .loaded data → ReadsBack fresh id l data

section

variable {gone gone' fresh : Prop}

theorem Kept.mono (h : Kept gone fresh s id l) (hgone : gone → gone') :
    Kept gone' fresh s id l where
  remembers := h.remembers
  carries hlive := (h.carries hlive).mono hgone
  released hne := (h.released hne).mono hgone
  acked e he hack := (h.acked e he hack).mono hgone
  events := h.events
  loads := h.loads

theorem Kept.logout {a : Act} {data : DataToSave} {r : Nat} {rest : List LogonEvent}
    (ho : Orderly s) (h : LogoutStep s a data r rest s') (hquiet : s.noBothSave data.roleID)
    (hl : data.data = some l) : Kept gone fresh s' data.roleID l := by
  simp only [State.noBothSave, Bool.decide_and, Bool.and_eq_true, decide_eq_true_eq] at hquiet
  obtain ⟨hwait, hbatch, hacks⟩ := hquiet
  have hstate := h.state_before ho
  have hpending : s.control.state data.roleID ≠ some .statePending := by
    rcases hstate with hst | hst <;> simp [hst]
  have hsaver := h.accepted ho
  have hops : s'.ops = rest := by rw [h.state]; rfl
  have hmem : ∀ e, e ∈ s'.ops → e ∈ s.ops := by
    intro e he
    rw [hops] at he
    simp [h.ops, he]
  have hloads : s'.loads = s.loads := by rw [h.state]; rfl
  refine ⟨h.remembers hl, fun _ => Or.inl ?_, ?_, ?_, ?_, ?_⟩
  · have hq := Saver.queued_push True hsaver.1 (fun _ o ho => hbatch o ho)
      (fun _ o ho => hwait o (List.mem_of_mem_filter ho)
        (by simpa using (List.mem_filter.mp ho).2)) rfl
    rw [hsaver.2]
    simpa [OpSaveData.values, hl] using hq
  · exact fun hne => absurd (h.state_after ho) hne
  · exact fun e he hack => absurd hack (hacks e (hmem e he))
  · intro msg data' i he hid
    exact absurd (hid ▸ loaded_pending ho (hmem _ he)) hpending
  · intro ld hld hid
    rw [hloads] at hld
    obtain ⟨i, hi⟩ := List.getElem?_of_mem hld
    have hgone : ld.control.phase = .gone := by
      by_contra hne
      have hst := ho.inv.exclusive.load_state i ld.control (State.control_loads hi) hne
      exact hpending (hid ▸ hst)
    refine ⟨fun hp => ?_, fun data' hp => ?_⟩ <;>
      simp [Load.control, hp, LoadPhase.stage] at hgone

end

/-- An offline entry leaves that state, other than for a new role, only on an
acknowledgement. -/
theorem Effect.offline_left {a : Act} (he : Effect s a s') (ho : Orderly s)
    (hclosed : s.Closed id) (hclosed' : s'.Closed id)
    (hbefore : s.control.state id = some .stateOffline)
    (hafter : s'.control.state id ≠ some .stateOffline) : ∃ e ∈ s.ops, id ∈ e.acks := by
  have hv : ∀ {v : LoginData}, s.data.lookup id = some v → v.state = .stateOffline := by
    intro v hv
    simpa [control_state hv] using hbefore
  cases he.entryMove id with
  | same heq => exact absurd (by simpa [State.control, heq] using hbefore) hafter
  | kick hold hstate heq | release hold hstate heq => simp [hv hold] at hstate
  | load hold hstate heq =>
    cases hlookup : s.data.lookup id with
    | none => simp [State.control, hlookup] at hbefore
    | some w =>
      rw [hlookup, Option.getD_some] at hold
      subst hold
      simp [hv hlookup] at hstate
  | create hstart hid haccept hold heq => exact absurd rfl (hclosed' _ heq).1
  | reject hstart hid hbad hold heq => exact absurd (control_state heq) hafter
  | logout hops hid hold heq => exact absurd hid (hclosed.no_logout ho (mem_of_head hops))
  | saveRole hops hid hold heq => exact absurd hid (hclosed.no_saveRole ho (mem_of_head hops))
  | acked hops hmem hold hstate heq => exact ⟨_, mem_of_head hops, hmem⟩

/-- `NewRole` takes the record of a new role. -/
theorem newRoleDBData_accepted (id : RoleID) (now : Int) :
    unmarshalRole (newRoleDBData id) now ≠ none := by
  have hget : ∀ c, c ≠ .TCBase → (newRoleDBData id).get c = .malformed "" := by
    intro c hc
    have hnone : (Finmap.singleton (β := fun _ => Text) TypeComp.TCBase
        (.json { body := "ID:" ++ toString id ++ ",Level:1,Name:" ++ toString id })).lookup c =
        none := Finmap.lookup_eq_none.mpr (by simpa using hc)
    simp [newRoleDBData, DataToSave.get, hnone]
  have hbase : (newRoleDBData id).get .TCBase =
      .json { body := "ID:" ++ toString id ++ ",Level:1,Name:" ++ toString id } := by
    simp [newRoleDBData, DataToSave.get]
  simp [unmarshalRole, hbase, hget, unmarshalComp]

section

variable {gone fresh : Prop}

theorem ReadsBack.accepted {data : DataToSave} (h : ReadsBack fresh id l data) (hrec : LogoutRecord l)
    (now : Int) : unmarshalRole data now ≠ none := by
  rcases h with hdata | ⟨_, rfl⟩
  · have hdata' : data = ⟨data.roleID, some l⟩ := by rw [← hdata]
    rw [hdata']
    exact hrec.accepted data.roleID now
  · exact newRoleDBData_accepted id now

/-- An acknowledgement of a closed ID is posted once its record is stored. -/
theorem Kept.acked_of_posts (h : Kept gone fresh s id l) (ho : Orderly s)
    (hrec : LogoutRecord l) {e : LogonEvent} (hpost : Posts s e) (hack : id ∈ e.acks) :
    (s.saver id).Stored gone s.stores id l := by
  cases hpost with
  | @saveSuccess k a saver stores ids hs =>
    obtain ⟨op, hlookup, _⟩ := hs.posted_entry (ho.savers.wf k) (ho.savers.written k) hack
    have hk : State.saverOf id = k := (ho.savers.sharded k).batch id (by simp [hlookup])
    subst hk
    exact (h.carries hs.status_ne).stored_of_post hrec.total (ho.savers.wf _)
      (ho.savers.written _) hs hack
  | _ => simp [LogonEvent.acks] at hack

/-- What a load of a closed ID can find: its record in Redis or, once its key has
expired and for any role but role zero, that of a new role in Mongo. -/
theorem Kept.load_step (h : Kept gone fresh s id l) (ho : Orderly s) (hrec : LogoutRecord l)
    (hzero : fresh → id ≠ 0) {i : Nat} {ld : Load} (hld : s.loads[i]? = some ld)
    (hid : ld.login.roleID = id) {phase : LoadPhase} (hstep : LoadStep s ld phase)
    (hmiss : phase = .missed → gone → fresh) :
    (phase = .missed → fresh) ∧ ∀ data, phase = .loaded data → ReadsBack fresh id l data := by
  have hredis : ld.phase = .queued → s.stores.redis ld.login.roleID = l ∨
      gone ∧ s.stores.redis ld.login.roleID = ∅ := by
    intro hp
    have hpending := ho.inv.exclusive.load_state i ld.control (State.control_loads hld)
      (by simp [Load.control, hp, LoadPhase.stage])
    rw [hid]
    refine (h.released ?_).redis
    rw [← hid]
    exact ne_of_eq_of_ne hpending (by simp)
  cases hstep with
  | miss hp hempty =>
    refine ⟨fun hm => hmiss hm ?_, by simp⟩
    rcases hredis hp with heq | ⟨hgone, _⟩
    · have htotal := hrec.total .TCBase
      simp [← heq, hempty] at htotal
    · exact hgone
  | hit hp hsome =>
    refine ⟨by simp, ?_⟩
    rintro data ⟨⟩
    exact Or.inl (congrArg some ((hredis hp).resolve_right fun hgone => hsome hgone.2))
  | @mongo last hp hlast =>
    have hfresh := (h.loads ld (List.mem_of_getElem? hld) hid).1 hp
    refine ⟨by simp, ?_⟩
    rintro data ⟨⟩
    refine Or.inr ⟨hfresh, ?_⟩
    rw [hid]
    cases last with
    | none => rfl
    | some other => exact if_neg (hzero hfresh)
  | post hp | gone => exact ⟨by simp, by simp⟩

/-- A closed ID keeps its record where it is while others step. -/
theorem Kept.step {a : Act} (h : Kept gone fresh s id l) (ho : Orderly s) (he : Effect s a s')
    (hrec : LogoutRecord l) (hclosed : s.Closed id) (hclosed' : s'.Closed id)
    (hzero : fresh → id ≠ 0) (hexpire : a = .expire id → gone)
    (hmiss : ∀ i ld, s.loads[i]? = some ld → ld.login.roleID = id →
      a = .load i .readRedis → s.stores.redis id = ∅ → gone → fresh) :
    Kept gone fresh s' id l := by
  have hpush := h.remembers.pushes ho hclosed
  have hstored : (s.saver id).Stored gone s.stores id l →
      (s'.saver id).Stored gone s'.stores id l := fun hst =>
    (Saver.stored_upheld hrec.total).move ho.savers he.saverMove hpush
      (fun hact => hst.drop (hexpire hact)) hst
  refine ⟨?_, ?_, ?_, ?_, ?_, ?_⟩
  · refine h.remembers.step he ho hrec hclosed ?_
    intro _ msg data i rest hops hid
    exact (h.events msg data i (mem_of_head hops) hid).accepted hrec s.now
  · exact (Saver.carries_upheld hrec.total).move ho.savers he.saverMove hpush
      (fun hact hlive => (h.carries hlive).drop (hexpire hact)) h.carries
  · intro hafter
    by_cases hbefore : s.control.state id = some .stateOffline
    · obtain ⟨e, hmem, hack⟩ := he.offline_left ho hclosed hclosed' hbefore hafter
      exact hstored (h.acked e hmem hack)
    · exact hstored (h.released hbefore)
  · intro e hmem hack
    cases he.opsMove with
    | same hops => exact hstored (h.acked e (hops ▸ hmem) hack)
    | take hops hrest => exact hstored (h.acked e (by simp [hops, ← hrest, hmem]) hack)
    | post hpost hops =>
      rw [hops] at hmem
      rcases List.mem_append.mp hmem with hold | hnew
      · exact hstored (h.acked e hold hack)
      · rw [List.mem_singleton.mp hnew] at hack
        exact hstored (h.acked_of_posts ho hrec hpost hack)
  · intro msg data i hmem hid
    cases he.opsMove with
    | same hops => exact h.events msg data i (hops ▸ hmem) hid
    | take hops hrest => exact h.events msg data i (by simp [hops, ← hrest, hmem]) hid
    | post hpost hops =>
      rw [hops] at hmem
      rcases List.mem_append.mp hmem with hold | hnew
      · exact h.events msg data i hold hid
      · rw [← List.mem_singleton.mp hnew] at hpost
        cases hpost with
        | dbLoaded hl hp =>
          have hlogin := ho.tagged.loaded _ _ data hl hp
          exact (h.loads _ (List.mem_of_getElem? hl) (hlogin ▸ hid)).2 data hp
  · intro ld hld hid
    cases he.loadMove with
    | same hloads => exact h.loads ld (hloads ▸ hld) hid
    | queue hloads =>
      rw [hloads] at hld
      rcases List.mem_append.mp hld with hold | hnew
      · exact h.loads ld hold hid
      · rw [List.mem_singleton.mp hnew]
        exact ⟨by simp, by simp⟩
    | @set i ld₀ phase hl hstep hloads hact =>
      rw [hloads] at hld
      rcases List.mem_or_eq_of_mem_set hld with hold | rfl
      · exact h.loads ld hold hid
      · refine h.load_step ho hrec hzero hl hid hstep fun hm hgone => ?_
        have hempty : s.stores.redis id = ∅ := by
          subst hm
          cases hstep with
          | miss hp hempty => exact hid ▸ hempty
        exact hmiss i ld₀ hl hid (hact hm) hempty hgone

end

/-- The step is a `cleanup` that deletes the entry and sends `S2SRoleClear`. -/
def Releases (s : State) (a : Act) (id : RoleID) : Prop :=
  ∃ s' seq, s.step a = some s' ∧ s'.cleared = s.cleared ++ [(id, seq)]

theorem Releases.canDel {a : Act} (h : Releases s a id) :
    s.control.state id = some .stateCanDel := by
  obtain ⟨s', seq, hs, hcleared⟩ := h
  have hsame : s'.cleared ≠ s.cleared := by
    rw [hcleared]
    simp
  cases State.step_effect hs with
  | logon hl =>
    cases hl with
    | onOps hpc hops hon =>
      exfalso
      cases hon with
      | relogin hv hstate hinit | loaded hinit | reentry hv hinit => exact hsame hinit.cleared
      | _ => exact hsame rfl
    | release hpc hv hstate =>
      obtain ⟨rfl, _⟩ : _ = id ∧ _ = seq := by simpa using hcleared
      exact hstate ▸ control_state hv
    | _ => exact absurd rfl hsame
  | load hl he | reentry hv he | role hr he | close he => cases he <;> exact absurd rfl hsame
  | _ => exact absurd rfl hsame

/-- The entry of the ID has logged out and has not been released. -/
def State.Leaving (s : State) (id : RoleID) : Bool :=
  ∃ v ∈ s.data.lookup id, v.state = .stateOffline ∨ v.state = .stateCanDel

/-- No key expires while the role's entry is `Offline` or `CanDel`; that of role
zero, whose load may be given another role's document, not after a logout. -/
def State.keyKept (s : State) : Act → Bool
  | .expire id => !s.Leaving id ∧ (id = 0 → (s.lastLogout id).isNone)
  | _ => true

/-- The steps of the runs for which releasing is safe. -/
def durableOk (s : State) (a : Act) : Prop := s.serial a ∧ s.quietLogout a ∧ s.keyKept a

instance (s : State) (a : Act) : Decidable (durableOk s a) :=
  inferInstanceAs (Decidable (_ ∧ _ ∧ _))

theorem leaving_iff : s.Leaving id ↔
    ∃ v, s.data.lookup id = some v ∧ (v.state = .stateOffline ∨ v.state = .stateCanDel) := by
  simp [State.Leaving]

/-- A closed ID that is not `Leaving` does not become so. -/
theorem Effect.not_leaving {a : Act} (he : Effect s a s') (ho : Orderly s)
    (hclosed : s.Closed id) (h : ¬s.Leaving id)
    (haccept : a = .logon .onOps → ∀ msg data i rest, s.ops = .dbLoaded msg data i :: rest →
      data.roleID = id → unmarshalRole data s.now ≠ none) : ¬s'.Leaving id := by
  rw [leaving_iff] at h ⊢
  rintro ⟨w, hw, hstate⟩
  cases he.entryMove id with
  | same heq => exact h ⟨w, heq ▸ hw, hstate⟩
  | @reject data login v hstart hid hbad hv heq hact =>
    have hnone := hbad.resolve_right fun hne => hne (hstart.closed ho).1
    cases hstart with
    | relogin hops hold hoff => exact h ⟨_, hid ▸ hold, hoff⟩
    | loaded hops => exact haccept hact _ _ _ _ hops hid hnone
    | reentry hops hold =>
      obtain rfl : login.roleID = id := hid
      exact h ⟨_, hold, ho.reentry_offline hops hclosed hold⟩
  | logout hops hid => exact hclosed.no_logout ho (mem_of_head hops) hid
  | saveRole hops hid => exact hclosed.no_saveRole ho (mem_of_head hops) hid
  | acked hops hmem hv hold => exact h ⟨_, hv, Or.inl hold⟩
  | release hv hold heq => simp [hw] at heq
  | kick _ _ heq | load _ _ heq | create _ _ _ _ heq =>
    rw [hw, Option.some.injEq] at heq
    simp [heq] at hstate

theorem kept_reachable (h : gameServer.Reachable durableOk s) (hl : s.lastLogout id = some l)
    (hclosed : s.Closed id) : Kept (id ≠ 0 ∧ ¬s.Leaving id) (id ≠ 0) s id l := by
  refine closed_invariant (K := fun s id l => Kept (id ≠ 0 ∧ ¬s.Leaving id) (id ≠ 0) s id l)
    (fun _ _ hok => hok.1) ?_ ?_ h hl hclosed
  · intro s a s' data r rest l _ ho hok hstep hdata _
    have hquiet : s.noBothSave data.roleID := by
      simpa [State.quietLogout, hstep.act, hstep.ops] using hok.2.1
    exact Kept.logout ho hstep hquiet hdata
  · intro s a s' id l _ ho hok he hlast hrec hclosed hclosed' hkept
    have haway : ¬s.Leaving id → ¬s'.Leaving id := fun hnot =>
      he.not_leaving ho hclosed hnot fun _ msg data i rest hops hid =>
        (hkept.events msg data i (mem_of_head hops) hid).accepted hrec s.now
    refine (hkept.mono fun hgone => ⟨hgone.1, haway hgone.2⟩).step ho he hrec hclosed hclosed'
      (fun hne => hne) ?_ fun _ _ _ _ _ _ hgone => hgone.1
    rintro rfl
    have hkey : ¬s.Leaving id ∧ (id ≠ 0 ∨ s.lastLogout id = none) := by
      simpa [State.keyKept] using hok.2.2
    exact ⟨hkey.2.resolve_right (by simp [hlast]), haway hkey.1⟩

/-- When `cleanup` releases a role, both stores hold every component of the
record that the role last logged out with. -/
theorem released_durable {a : Act} (h : gameServer.Reachable durableOk s)
    (hrelease : Releases s a id) (hl : s.lastLogout id = some l) :
    Map.Holds (s.stores.redis id) l ∧ Map.Holds (s.stores.mongo id) l := by
  have hstate := hrelease.canDel
  have hclosed : s.Closed id := closed_iff.mpr (by simp [hstate])
  have hleaving : s.Leaving id := by
    obtain ⟨v, hv, hst⟩ := Option.map_eq_some_iff.mp hstate
    exact leaving_iff.mpr ⟨v, hv, Or.inr hst⟩
  have hstored := (kept_reachable h hl hclosed).released (by simp [hstate])
  have hredis := hstored.redis.resolve_right fun hgone => hgone.1.2 hleaving
  rw [hredis, hstored.mongo]
  exact ⟨fun _ _ hv => hv, fun _ _ hv => hv⟩

/-- Role 7 logs out, is saved to both stores by a `cleanup`, and is about to be
released by the next one. -/
def savedTwice : List Act :=
  firstLogin 7 1 ++ leave 0 ++
    [.logon .onOps, .tick 61, .logon (.cleanup [7]), .logon .cleanupNext,
      .logon .cleanupNext] ++
    onSaver 7 [.drain, .mergeNext, .mergeNext, .beginFlush [7], .execPipe true [] [],
      .saveToDB true [], .postSuccess] ++
    [.logon .onOps, .tick 61, .logon (.cleanup [7])]

/-- The step releases role 7. -/
def releasesSeven (s : State) : Bool :=
  (s.step (.logon .cleanupNext)).any fun s' => s'.cleared = s.cleared ++ [(7, 1)]

theorem releasesSeven_releases {s : State} (h : releasesSeven s) :
    Releases s (.logon .cleanupNext) 7 := by
  unfold releasesSeven at h
  cases hs : s.step (.logon .cleanupNext) with
  | none => simp [hs] at h
  | some s' => exact ⟨s', 1, hs, by simpa [hs] using h⟩

theorem savedTwice_durable :
    ∃ s l, gameServer.Reachable durableOk s ∧ Releases s (.logon .cleanupNext) 7 ∧
      s.lastLogout 7 = some l ∧ Map.Holds (s.stores.redis 7) l ∧
      Map.Holds (s.stores.mongo 7) l := by
  obtain ⟨s, hs, hrelease, hsome⟩ := Machine.exec_reaches (m := gameServer) durableOk
    (fun s => releasesSeven s ∧ (s.lastLogout 7).isSome)
    savedTwice gameServer_empty (by decide +kernel)
  obtain ⟨l, hl⟩ := Option.isSome_iff_exists.mp hsome
  have hrel := releasesSeven_releases hrelease
  exact ⟨s, l, hs, hrel, hl, released_durable hs hrel hl⟩

/-- Role 7 is saved with `Both` set while it is online. Its `EvtLogout` is
processed before the acknowledgement, which is then taken for one of the logout
record. -/
def staleAck : List Act :=
  firstLogin 7 1 ++
    [.role 0 (.save true), .logon .onOps] ++
    onSaver 7 [.drain, .mergeNext, .beginFlush [7], .execPipe true [] [], .saveToDB true []] ++
    leave 0 ++ [.logon .onOps] ++ onSaver 7 [.postSuccess] ++
    [.logon .onOps, .tick 61, .logon (.cleanup [7])]

theorem staleAck_not_durable :
    ∃ s l, gameServer.Reachable Machine.anyStep s ∧ Releases s (.logon .cleanupNext) 7 ∧
      s.lastLogout 7 = some l ∧ ¬Map.Holds (s.stores.redis 7) l ∧
      ¬Map.Holds (s.stores.mongo 7) l := by
  obtain ⟨s, hs, hrelease, hlost, hredis, hmongo⟩ := Machine.exec_reaches (m := gameServer)
    Machine.anyStep
    (fun s => releasesSeven s ∧ ((s.lastLogout 7).bind (·.lookup .TCExample)).isSome ∧
      (s.stores.redis 7).lookup .TCExample = none ∧
      (s.stores.mongo 7).lookup .TCExample = none)
    staleAck gameServer_empty (by decide +kernel)
  obtain ⟨text, htext⟩ := Option.isSome_iff_exists.mp hlost
  obtain ⟨l, hl, hlookup⟩ := Option.bind_eq_some_iff.mp htext
  refine ⟨s, l, hs, releasesSeven_releases hrelease, hl, fun hholds => ?_, fun hholds => ?_⟩
  · simp [hholds _ _ hlookup] at hredis
  · simp [hholds _ _ hlookup] at hmongo

end GameCluster
