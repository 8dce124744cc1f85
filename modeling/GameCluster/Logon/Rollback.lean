import GameCluster.Logon.Durable
import GameCluster.Logon.OneLive

/-!
No rollback across the incarnations of a role. A role that is not the first of
its ID starts from exactly the record that the role before it logged out with,
wherever that record comes from: the entry's cache or, after a release, the
hash. Its `Offline` hooks then find the counts equal. The conditions are those
that make releasing safe in `Durable`, and that the hash is still there when a
loader reads it: once its key has expired, the role is taken for a new one.
-/

namespace GameCluster

open Lib Protocol

variable {s s' : State}

/-- Roles of one ID follow each other: all but the last have logged out. -/
def Succession (s : State) : Prop :=
  ∀ (i j : Nat) (r q : Role), s.roles[i]? = some r → s.roles[j]? = some q → j < i →
    q.id = r.id → j ∈ s.logged

/-- The last role of an ID, once logged out, accounts for the ID's last record. -/
def LastAccounts (s : State) : Prop :=
  ∀ (j : Nat) (q : Role), s.roles[j]? = some q → j ∈ s.logged →
    (∀ (k : Nat) (p : Role), s.roles[k]? = some p → p.id = q.id → k ≤ j) →
    s.lastLogout q.id = q.logout

/-- A role after a step is one from before it, or the role just created. -/
theorem Effect.old_or_new {a : Act} (he : Effect s a s') (ht : Tagged s) {i : Nat} {r : Role}
    (hr : s'.roles[i]? = some r) :
    (∃ r₀, s.roles[i]? = some r₀ ∧ r₀.Same r) ∨
      i = s.roles.length ∧ r.phase = .created ∧
        ∃ data login, Starts s data login ∧ r.id = data.roleID ∧ r.start = data.data := by
  cases hr₀ : s.roles[i]? with
  | some r₀ =>
    obtain ⟨r', hr', hsame⟩ := (he.extends ht.starting).roles i r₀ hr₀
    rw [hr, Option.some.injEq] at hr'
    exact Or.inl ⟨r₀, rfl, hr' ▸ hsame⟩
  | none =>
    right
    cases he.roleMove ht.starting with
    | same heq => simp [heq, hr₀] at hr
    | create hstart hcomps heq =>
      rw [heq, getElem?_concat] at hr
      split at hr
      · cases hr
        exact ⟨‹_›, rfl, _, _, hstart, rfl, rfl⟩
      · simp [hr₀] at hr
    | run hq _ _ heq | set hq _ heq =>
      rw [heq, getElem?_set_some hq] at hr
      split at hr
      · rename_i hk
        simp [hk ▸ hq] at hr₀
      · simp [hr₀] at hr

theorem Succession.step {a : Act} (h : Succession s) (ho : Orderly s) (he : Effect s a s') :
    Succession s' := by
  intro i j r q hr hq hji hid
  apply he.logged_mono
  rcases he.old_or_new ho.tagged hq with ⟨q₀, hq₀, hqid, _⟩ | ⟨rfl, _⟩
  · rcases he.old_or_new ho.tagged hr with
      ⟨r₀, hr₀, hrid, _⟩ | ⟨_, _, data, login, hstart, hrid, _⟩
    · exact h i j r₀ q₀ hr₀ hq₀ hji (by rw [← hqid, hid, hrid])
    · exact (hstart.closed ho).2.logged ho hq₀ (by rw [← hqid, hid, hrid])
  · rcases he.old_or_new ho.tagged hr with ⟨r₀, hr₀, _⟩ | ⟨rfl, _⟩
    · exact absurd (lt_length_of_some hr₀) (Nat.not_lt.mpr hji.le)
    · exact absurd hji (Nat.lt_irrefl _)

/-- The last role of an ID keeps that position, and its record, until a role is
created after it. -/
theorem LastAccounts.step {a : Act} (h : LastAccounts s) (hsucc : Succession s)
    (ho : Orderly s) (he : Effect s a s') : LastAccounts s' := by
  intro j q hq hlog hlast
  have hext := (he.extends ho.tagged.starting).roles
  have old : j ∈ s.logged → s.lastLogout q.id = q.logout := by
    intro hj
    obtain ⟨q₀, hq₀, hposted⟩ := ho.tagged.logged j hj
    obtain ⟨q', hq', hid, _, _, hkeep⟩ := hext j q₀ hq₀
    rw [hq, Option.some.injEq] at hq'
    subst hq'
    rw [hid, (hkeep hposted).2]
    refine h j q₀ hq₀ hj fun k p hp hpid => ?_
    obtain ⟨p', hp', hpid', _⟩ := hext k p hp
    exact hlast k p' hp' (by rw [hpid', hpid, hid])
  rcases he.lastLogout ho.tagged ho.sound with
    ⟨hlogged, heq⟩ | ⟨data, r, rest, l, hout, hl, hrec, heq⟩
  · rw [heq]
    exact old (hlogged ▸ hlog)
  · obtain ⟨role, hr, hid, hposted, hlogout⟩ := ho.tagged.events _ (mem_of_head hout.ops)
    obtain ⟨role', hr', hid', _, _, hkeep⟩ := hext r role hr
    rw [heq]
    rw [hout.logged, List.mem_append, List.mem_singleton] at hlog
    rcases hlog with hj | rfl
    · by_cases hqid : q.id = data.roleID
      · -- The role that logs out now is not the last one, so it had logged out before.
        exfalso
        have hrj := hlast r role' hr' (by rw [hid', hid, hqid])
        obtain ⟨q₀, hq₀, _⟩ := ho.tagged.logged j hj
        obtain ⟨q', hq', hqid', _⟩ := hext j q₀ hq₀
        rw [hq, Option.some.injEq] at hq'
        obtain ⟨_, _, _, hunlogged⟩ := (ho.inv.channel.logout r).mp
          (signal_mem (mem_of_head hout.ops) rfl)
        have hne : r ≠ j := fun hrj => hunlogged (hrj ▸ hj)
        exact hunlogged (hsucc j r q₀ role hq₀ hr (lt_of_le_of_ne hrj hne)
          (by rw [hid, ← hqid, hq', hqid']))
      · rw [Function.update_of_ne hqid]
        exact old hj
    · rw [hq, Option.some.injEq] at hr'
      subst hr'
      rw [hid', hid, Function.update_self, (hkeep hposted).2, hlogout, hl]

/-- No role has been rolled back: each goes on where the one before it stopped. -/
structure NoRollback (s : State) : Prop where
  /-- A role starts from the logout record of the role of its ID before it. -/
  start : ∀ (i j : Nat) (r q : Role), s.roles[i]? = some r → s.roles[j]? = some q → j < i →
    q.id = r.id →
    (∀ (k : Nat) (p : Role), j < k → k < i → s.roles[k]? = some p → p.id ≠ r.id) →
    j ∈ s.logged ∧ ∃ l, q.logout = some l ∧ r.start = some l
  /-- The `Offline` hooks of a role with a predecessor find the counts equal. -/
  offline : ∀ (i j : Nat) (r q : Role), s.roles[i]? = some r → s.roles[j]? = some q → j < i →
    q.id = r.id → r.phase ≠ .panicked
  /-- An `EvtReentry` is processed after the `EvtLogout` of the role it waited
  for. -/
  reentry : ∀ (g : Nat) (v : Reentry) (i : Nat), s.reentries[g]? = some v → v.phase = .gone →
    v.found = some i → i ∈ s.logged

/-- The part of `NoRollback` that is carried along a run. -/
structure Continues (s : State) : Prop where
  succession : Succession s
  accounts : LastAccounts s
  start : ∀ (i j : Nat) (r q : Role), s.roles[i]? = some r → s.roles[j]? = some q → j < i →
    q.id = r.id →
    (∀ (k : Nat) (p : Role), j < k → k < i → s.roles[k]? = some p → p.id ≠ r.id) →
    r.start = q.logout
  found : ∀ (g : Nat) (v : Reentry) (i : Nat), s.reentries[g]? = some v → v.found = some i →
    ∃ r, s.roles[i]? = some r ∧ r.id = v.login.roleID
  heard : ∀ (g : Nat) (v : Reentry) (i : Nat), s.reentries[g]? = some v → v.phase = .gone →
    v.found = some i → i ∈ s.logged

/-- A new role starts from the record of the last one. -/
theorem Continues.start_new (h : Continues s) (ho : Orderly s)
    (hkept : ∀ {id l}, s.lastLogout id = some l → s.Closed id → Kept True False s id l)
    {data : DataToSave} {login : S2SReqLogin} (hstart : Starts s data login) {j : Nat}
    {q : Role} (hq : s.roles[j]? = some q) (hid : q.id = data.roleID)
    (hlast : ∀ (k : Nat) (p : Role), j < k → s.roles[k]? = some p → p.id ≠ data.roleID) :
    data.data = q.logout := by
  have hclosed := (hstart.closed ho).2
  have hlog := hclosed.logged ho hq hid
  have haccount : s.lastLogout data.roleID = q.logout := by
    rw [← hid]
    refine h.accounts j q hq hlog fun k p hp hpid => ?_
    by_contra hk
    exact hlast k p (Nat.lt_of_not_le hk) hp (hpid.trans hid)
  obtain ⟨q', hq', hposted⟩ := ho.tagged.logged j hlog
  rw [hq, Option.some.injEq] at hq'
  obtain ⟨l, hl, _⟩ := (ho.sound q (List.mem_of_getElem? hq)).logoutRecord (hq' ▸ hposted)
  rw [hl] at haccount ⊢
  have hk := hkept haccount hclosed
  rcases hstart.remembered ho hk.remembers with hdata | ⟨msg, i, rest, hops⟩
  · exact hdata
  · exact (hk.events msg data i (mem_of_head hops) rfl).resolve_right And.left

theorem Continues.start_step {a : Act} (h : Continues s) (ho : Orderly s)
    (hkept : ∀ {id l}, s.lastLogout id = some l → s.Closed id → Kept True False s id l)
    (he : Effect s a s') (i j : Nat) (r q : Role) (hr : s'.roles[i]? = some r)
    (hq : s'.roles[j]? = some q) (hji : j < i) (hid : q.id = r.id)
    (hbetween : ∀ (k : Nat) (p : Role), j < k → k < i → s'.roles[k]? = some p → p.id ≠ r.id) :
    r.start = q.logout := by
  have hext := he.extends ho.tagged.starting
  -- The predecessor was there before the step and had logged out.
  have hpred : ∃ q₀, s.roles[j]? = some q₀ ∧ q.id = q₀.id ∧
      (j ∈ s.logged → q.logout = q₀.logout) := by
    have hlt : j < s.roles.length := by
      rcases he.old_or_new ho.tagged hr with ⟨r₀, hr₀, _⟩ | ⟨rfl, _⟩
      · exact hji.trans (lt_length_of_some hr₀)
      · exact hji
    rcases he.old_or_new ho.tagged hq with ⟨q₀, hq₀, hqid, _, _, hkeep⟩ | ⟨rfl, _⟩
    · refine ⟨q₀, hq₀, hqid, fun hlog => ?_⟩
      obtain ⟨q', hq', hposted⟩ := ho.tagged.logged j hlog
      rw [hq₀, Option.some.injEq] at hq'
      exact (hkeep (hq' ▸ hposted)).2
    · exact absurd hlt (Nat.lt_irrefl _)
  obtain ⟨q₀, hq₀, hqid, hqlogout⟩ := hpred
  have between : ∀ (k : Nat) (p : Role), j < k → k < i → s.roles[k]? = some p →
      p.id ≠ r.id := by
    intro k p hjk hki hp
    obtain ⟨p', hp', hpid, _⟩ := hext.roles k p hp
    exact hpid ▸ hbetween k p' hjk hki hp'
  rcases he.old_or_new ho.tagged hr with
    ⟨r₀, hr₀, hrid, _, hrstart, _⟩ | ⟨hi, _, data, login, hstart, hrid, hrstart⟩
  · have hlog := h.succession i j r₀ q₀ hr₀ hq₀ hji (by rw [← hqid, hid, hrid])
    rw [hrstart, hqlogout hlog]
    exact h.start i j r₀ q₀ hr₀ hq₀ hji (by rw [← hqid, hid, hrid])
      fun k p hjk hki hp => hrid ▸ between k p hjk hki hp
  · have hlog := (hstart.closed ho).2.logged ho hq₀ (by rw [← hqid, hid, hrid])
    rw [hrstart, hqlogout hlog]
    refine h.start_new ho hkept hstart hq₀ (by rw [← hqid, hid, hrid]) fun k p hjk hp => ?_
    exact hrid ▸ between k p hjk (hi ▸ lt_length_of_some hp) hp

theorem Continues.step {a : Act} (h : Continues s) (ho : Orderly s)
    (hkept : ∀ {id l}, s.lastLogout id = some l → s.Closed id → Kept True False s id l)
    (he : Effect s a s') : Continues s' := by
  have hext := he.extends ho.tagged.starting
  have later : ∀ {i : Nat} {x : RoleID}, (∃ r, s.roles[i]? = some r ∧ r.id = x) →
      ∃ r, s'.roles[i]? = some r ∧ r.id = x := by
    rintro i x ⟨r, hr, hid⟩
    obtain ⟨r', hr', hid', _⟩ := hext.roles i r hr
    exact ⟨r', hr', hid'.trans hid⟩
  refine ⟨h.succession.step ho he, h.accounts.step h.succession ho he,
    h.start_step ho hkept he, ?_, ?_⟩
  · intro g v i hv hfound
    cases he.reentryMove with
    | same heq => exact later (h.found g v i (heq ▸ hv) hfound)
    | spawn heq =>
      rw [heq, getElem?_concat] at hv
      split at hv
      · cases hv
        cases hfound
      · exact later (h.found g v i hv hfound)
    | @set k w w' hw hstep heq =>
      rw [heq, getElem?_set_some hw] at hv
      split at hv
      · cases hv
        cases hstep with
        | move hp | heard hops => exact later (h.found k w i hw hfound)
        | found hreg =>
          cases hfound
          obtain ⟨c, hc, hid, _⟩ := ho.inv.registered.entry _ _ hreg
          obtain ⟨r, hr, rfl⟩ := State.exists_of_control_roles hc
          exact later ⟨r, hr, hid⟩
      · exact later (h.found g v i hv hfound)
  · intro g v i hv hp hfound
    apply he.logged_mono
    cases he.reentryMove with
    | same heq => exact h.heard g v i (heq ▸ hv) hp hfound
    | spawn heq =>
      rw [heq, getElem?_concat] at hv
      split at hv
      · cases hv
        cases hp
      · exact h.heard g v i hv hp hfound
    | @set k w w' hw hstep heq =>
      rw [heq, getElem?_set_some hw] at hv
      split at hv
      · cases hv
        cases hstep with
        | move hne => exact absurd hp hne
        | found hreg => cases hp
        | heard hops =>
          -- Nothing of its role is open any more when the event is heard.
          obtain ⟨r, hr, hid⟩ := h.found k w i hw hfound
          by_contra hlog
          exact (ho.inv.heardReentry_quiet (control_signals hops rfl)
            (State.control_reentries hw)).1 i r.control ⟨State.control_roles hr, hlog⟩ hid
      · exact h.heard g v i hv hp hfound

/-- A loader that reads Redis for a role which has logged out in this process
finds its hash. -/
def State.hashFound (s : State) : Act → Bool
  | .load i .readRedis => ∀ ld ∈ s.loads[i]?,
      (s.lastLogout ld.login.roleID).isSome → 0 < (s.stores.redis ld.login.roleID).len
  | _ => true

/-- The steps of the runs in which no role is rolled back. -/
def rollbackOk (s : State) (a : Act) : Prop := s.serial a ∧ s.quietLogout a ∧ s.hashFound a

instance (s : State) (a : Act) : Decidable (rollbackOk s a) :=
  inferInstanceAs (Decidable (_ ∧ _ ∧ _))

theorem kept_of_rollbackOk {id : RoleID} {l : Record} (h : gameServer.Reachable rollbackOk s)
    (hl : s.lastLogout id = some l) (hclosed : s.Closed id) : Kept True False s id l := by
  refine closed_invariant (K := Kept True False) (fun _ _ hok => hok.1) ?_ ?_ h hl hclosed
  · intro s a s' data r rest l _ ho hok hstep hdata _
    have hquiet : s.noBothSave data.roleID := by
      simpa [State.quietLogout, hstep.act, hstep.ops] using hok.2.1
    exact Kept.logout ho hstep hquiet hdata
  · intro s a s' id l _ ho hok he hlast hrec hclosed hclosed' hkept
    refine hkept.step ho he hrec hclosed hclosed' False.elim (fun _ => trivial) ?_
    rintro i ld hld rfl rfl hempty _
    have hfound := hok.2.2
    simp [State.hashFound, hld, hlast, hempty, Map.len] at hfound

theorem continues_reachable (h : gameServer.Reachable rollbackOk s) : Continues s := by
  refine h.invariant ?_ fun s a s' hr hi hok hs =>
    hi.step (.reachable (fun _ _ hok => hok.1) hr) (kept_of_rollbackOk hr) (State.step_effect hs)
  rintro _ ⟨now, stores, rfl⟩
  refine ⟨?_, ?_, ?_, ?_, ?_⟩ <;> simp [State.initial, Succession, LastAccounts]

/-- No role with a predecessor starts from anything but the predecessor's logout
record. -/
theorem no_rollback (h : gameServer.Reachable rollbackOk s) : NoRollback s := by
  have hc₀ := continues_reachable h
  have ho : Orderly s := .reachable (fun _ _ hok => hok.1) h
  have hrecord : ∀ (i j : Nat) (r q : Role), s.roles[i]? = some r → s.roles[j]? = some q →
      j < i → q.id = r.id → j ∈ s.logged ∧ ∃ l, q.logout = some l ∧ LogoutRecord l := by
    intro i j r q hr hq hji hid
    have hlog := hc₀.succession i j r q hr hq hji hid
    obtain ⟨q', hq', hposted⟩ := ho.tagged.logged j hlog
    rw [hq, Option.some.injEq] at hq'
    exact ⟨hlog, (ho.sound q (List.mem_of_getElem? hq)).logoutRecord (hq' ▸ hposted)⟩
  refine ⟨?_, ?_, hc₀.heard⟩
  · intro i j r q hr hq hji hid hbetween
    obtain ⟨hlog, l, hl, _⟩ := hrecord i j r q hr hq hji hid
    exact ⟨hlog, l, hl, (hc₀.start i j r q hr hq hji hid hbetween).trans hl⟩
  · intro i j r q hr hq hji hid hpanic
    obtain ⟨k, p, hki, hp, hpid, hlast⟩ :=
      exists_last_below (P := fun p => p.id = r.id) hq hid hji
    obtain ⟨_, l, hl, c, hc, rfl⟩ := hrecord i k r p hr hp hki hpid
    have hstart := (hc₀.start i k r p hr hp hki hpid hlast).trans hl
    have hfair := (ho.sound r (List.mem_of_getElem? hr)).lineage ⟨c, hc, hstart⟩
    rw [Role.Fair, hpanic] at hfair
    exact hfair

/-- The second role of the ID starts from the first one's logout record. -/
theorem otherDevice_no_rollback :
    ∃ s, gameServer.Reachable rollbackOk s ∧
      s.roles.map (fun r => (r.id, r.phase)) = [(7, .done), (7, .started)] ∧ NoRollback s := by
  obtain ⟨s, hs, hroles⟩ := Machine.exec_reaches (m := gameServer) rollbackOk
    (fun s => s.roles.map (fun r => (r.id, r.phase)) = [(7, .done), (7, .started)])
    otherDevice gameServer_empty (by decide +kernel)
  exact ⟨s, hs, hroles, no_rollback hs⟩

/-- The second role starts while the first has not logged out. -/
theorem lateKick_rollback : ∃ s, gameServer.Reachable Machine.anyStep s ∧ ¬NoRollback s := by
  obtain ⟨s, hs, hroles, hlogged⟩ := Machine.exec_reaches (m := gameServer)
    Machine.anyStep (fun s => s.roles.map (·.id) = [7, 7] ∧ s.logged = [])
    lateKick gameServer_empty (by decide +kernel)
  obtain ⟨r, rest, hcons, hr, hrest⟩ := List.map_eq_cons_iff.mp hroles
  obtain ⟨q, hq, hqr⟩ := List.map_eq_singleton_iff.mp hrest
  refine ⟨s, hs, fun hback => ?_⟩
  have hlog := (hback.start 1 0 q r (by simp [hcons, hq]) (by simp [hcons]) Nat.zero_lt_one
    (hr.trans hqr.symm) fun k _ h0 h1 => absurd h0 (by omega)).1
  rw [hlogged] at hlog
  cases hlog

end GameCluster
