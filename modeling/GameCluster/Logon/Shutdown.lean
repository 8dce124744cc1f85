import GameCluster.Logon.Settled

/-!
Shutting a game server down. When `Close` has returned, every role that was
started has logged out and the record of its ID's last logout is in Redis, in
the runs in which `CloseAndWait` misses no role: it reads no shard while a role
of it is between `Unregister` and the post of its `EvtLogout`, and no role is
started once its shard has been read.

The source does not keep to that. The login goroutine goes on starting roles
until the context is cancelled, and those are waited for by nobody. Nor does it
keep the hash of a role that stays away: its key expires seven days after the
last save.
-/

namespace GameCluster

open Lib Protocol

variable {s s' : State} {id : RoleID} {l : Record}

namespace ClosePc

/-- How many shards `CloseAndWait` has read. -/
def scanned : ClosePc → Nat
  | .off => 0
  | .scanning shard _ => shard
  | _ => shardCount

/-- The roles it found and has not waited for yet. -/
def awaited : ClosePc → List Nat
  | .scanning _ metas | .kicking _ metas => metas
  | .waiting todo => todo
  | _ => []

/-- The context has been cancelled. -/
def cancelled : ClosePc → Prop
  | .producers | .consumers | .returned => True
  | _ => False

theorem cancelled.scanned {c : ClosePc} (h : c.cancelled) :
    c.scanned = shardCount ∧ c.awaited = [] := by
  cases c <;> simp_all [ClosePc.cancelled, ClosePc.scanned, ClosePc.awaited]

end ClosePc

/-- `CloseAndWait` misses no role. -/
def State.orderlyClose (s : State) : Act → Bool
  | .logon .register =>
    match s.pc with
    | .starting r .run => ∀ role ∈ s.roles[r]?, s.close.scanned ≤ shardOf role.id
    | _ => true
  | .close (.scan _) =>
    match s.close with
    | .scanning shard _ => ∀ r ∈ s.roles, shardOf r.id = shard → r.phase ≠ .unregistered
    | _ => true
  | _ => true

/-- A saver that has returned has written everything it was given. -/
def Saver.Drained (s : Saver TypeComp Text) : Prop :=
  s.status = .exited → s.q.closed = true ∧ s.q.waiting = [] ∧ s.batch = ∅

theorem Saver.Effect.exited {s s' : Saver TypeComp Text} {st st' : Stores TypeComp Text}
    {a : SaverAct} {out : Option (List RoleID)} (he : Saver.Effect s st a s' st' out)
    (hexit : s'.status = .exited) :
    s'.q.closed = true ∧ s'.q.waiting = [] ∧ s'.batch = ∅ := by
  have hnext : ∀ f : Flush TypeComp Text, (s.nextChunk f).status = s.status := by
    intro f
    unfold Saver.nextChunk
    split <;> rfl
  have hrun := he.running
  cases he with
  | exit hidle hclosed hwrite hbatch =>
    have hread : s.q.read = [] := by simpa using hidle.2.2
    exact ⟨hclosed, by simp [SwapQueue.waiting, hread, hwrite], hbatch⟩
  | panic => cases hexit
  | bulkNone | post => simp [hnext, hrun] at hexit
  | _ => simp [hrun] at hexit

/-- What is known while a server shuts down. -/
structure Closing (s : State) : Prop where
  found : ∀ (i : Nat) (r : Role), s.roles[i]? = some r → r.phase ≠ .created →
    shardOf r.id < s.close.scanned → Posted r.phase ∨ i ∈ s.close.awaited
  cancelled : s.ctxDone = true → s.close.cancelled
  draining : s.draining = true → s.ctxDone = true
  exited : s.pc = .exited → s.draining = true
  /-- The login goroutine has returned after every `EvtLogout`. -/
  logged : s.pc = .exited → ∀ (i : Nat) (r : Role), s.roles[i]? = some r →
    r.phase ≠ .created → i ∈ s.logged
  joined : s.close = .consumers ∨ s.close = .returned → s.pc = .exited
  stopped : s.close = .returned → ∀ k, (s.savers k).status ≠ .running
  drained : ∀ k, (s.savers k).Drained

variable {a : Act} {i : Nat} {r : Role}

/-- A role that has been started after a step was so before, unless the step
started it. -/
theorem RoleMove.started (hm : RoleMove s a s') (hr : s'.roles[i]? = some r)
    (hp : r.phase ≠ .created) :
    (∃ r₀, s.roles[i]? = some r₀ ∧ r₀.phase ≠ .created ∧ r.id = r₀.id ∧
      (Posted r₀.phase → Posted r.phase)) ∨
      a = .logon .register ∧ s.pc = .starting i .run ∧
        ∃ r₀, s.roles[i]? = some r₀ ∧ r.id = r₀.id := by
  cases hm with
  | same heq => exact Or.inl ⟨r, heq ▸ hr, hp, rfl, id⟩
  | create hstart hcomps heq hact =>
    rw [heq, getElem?_concat] at hr
    split at hr
    · cases hr
      exact absurd rfl hp
    · exact Or.inl ⟨r, hr, hp, rfl, id⟩
  | run hq hcreated hpc heq hact =>
    rw [heq, getElem?_set_some hq] at hr
    split at hr
    · rename_i hi
      subst hi
      cases hr
      exact Or.inr ⟨hact, hpc, _, hq, rfl⟩
    · exact Or.inl ⟨r, hr, hp, rfl, id⟩
  | @set j q q' hq hstep heq =>
    rw [heq, getElem?_set_some hq] at hr
    split at hr
    · rename_i hi
      subst hi
      cases hr
      refine Or.inl ⟨q, hq, ?_⟩
      cases hstep with
      | cancel => exact ⟨hp, rfl, id⟩
      | touch hphase | save hphase | unregister hphase =>
        rcases hphase with hphase | hphase <;> simp [hphase, Posted]
      | online hphase | exit hphase | panic hphase | leaveSes hphase | postLogout hphase
      | done hphase => simp [hphase, Posted]
    · exact Or.inl ⟨r, hr, hp, rfl, id⟩

/-- A started role that is still in its shard has an entry there, so a scan
finds it. -/
theorem Orderly.posted_or_registered (ho : Orderly s) (hr : s.roles[i]? = some r)
    (hp : r.phase ≠ .created) (hleft : r.phase ≠ .unregistered) :
    Posted r.phase ∨ s.reg.lookup r.id = some i := by
  by_cases hposted : Posted r.phase
  · exact Or.inl hposted
  · refine Or.inr (ho.inv.registered.reg i r.control (State.control_roles hr) (Or.inl ?_))
    have hphase : r.control.phase = r.phase := rfl
    rw [hphase]
    cases hp' : r.phase <;> simp_all [Posted, InReg]

/-- A step of `Close` leaves no role of the shards read so far unaccounted for. -/
theorem CloseEffect.found {c : CloseAct} (hc : CloseEffect s c s') (h : Closing s)
    (ho : Orderly s) (hok : s.orderlyClose (.close c)) (hr : s.roles[i]? = some r)
    (hp : r.phase ≠ .created) (hshard : shardOf r.id < s'.close.scanned) :
    Posted r.phase ∨ i ∈ s'.close.awaited := by
  have old := h.found i r hr hp
  cases hc with
  | begin hclose => simp [ClosePc.scanned] at hshard
  | @scan shard metas order hclose hlt horder =>
    simp only [hclose, ClosePc.scanned, ClosePc.awaited, List.mem_append] at old hshard ⊢
    rcases Nat.lt_succ_iff_lt_or_eq.mp hshard with hbefore | hnow
    · exact (old hbefore).imp_right Or.inl
    · simp only [State.orderlyClose, hclose, decide_eq_true_eq] at hok
      have hleft := hok r (List.mem_of_getElem? hr) hnow
      refine (ho.posted_or_registered hr hp hleft).imp_right fun hreg => Or.inr ?_
      exact List.mem_filterMap.mpr ⟨r.id, (horder r.id).mpr ⟨by simp [hreg], hnow⟩, hreg⟩
  | @wait j role todo hclose hj hwait =>
    simp only [hclose, ClosePc.scanned, ClosePc.awaited, List.mem_cons] at old hshard ⊢
    rcases old hshard with hposted | rfl | hmem
    · exact Or.inl hposted
    · rw [hr, Option.some.injEq] at hj
      rw [hj, hwait.resolve_left (hj ▸ hp)]
      exact Or.inl trivial
    · exact Or.inr hmem
  | scanned hclose | kick hclose | kicked hclose | cancel hclose | producers hclose
  | consumers hclose =>
    simp only [hclose, ClosePc.scanned, ClosePc.awaited] at old hshard ⊢
    exact old hshard

theorem Closing.found_step (h : Closing s) (ho : Orderly s) (hok : s.orderlyClose a)
    (he : Effect s a s') (i : Nat) (r : Role) (hr : s'.roles[i]? = some r)
    (hp : r.phase ≠ .created) (hshard : shardOf r.id < s'.close.scanned) :
    Posted r.phase ∨ i ∈ s'.close.awaited := by
  have keep : s'.close = s.close → Posted r.phase ∨ i ∈ s'.close.awaited := by
    intro hclose
    rw [hclose] at hshard ⊢
    rcases (he.roleMove ho.tagged.starting).started hr hp with
      ⟨r₀, hr₀, hp₀, hid, hposted⟩ | ⟨rfl, hpc, r₀, hr₀, hid⟩
    · exact (h.found i r₀ hr₀ hp₀ (hid ▸ hshard)).imp_left hposted
    · simp only [State.orderlyClose, hpc, decide_eq_true_eq] at hok
      exact absurd (hid ▸ hshard) (Nat.not_lt.mpr (hok r₀ hr₀))
  cases he.shutMove with
  | same hclose => exact keep hclose
  | drain hctx hpc heq | exit hops hdrain heq => exact keep (by rw [heq])
  | close hact hc =>
    subst hact
    rcases (he.roleMove ho.tagged.starting).started hr hp with
      ⟨r₀, hr₀, hp₀, hid, hposted⟩ | ⟨hact, _⟩
    · exact (hc.found h ho hok hr₀ hp₀ (hid ▸ hshard)).imp_left hposted
    · cases hact

/-- When the login goroutine returns, every `EvtLogout` has been processed. -/
theorem Closing.logged_at_exit (h : Closing s) (ho : Orderly s) (hops : s.ops = [])
    (hdrain : s.draining = true) (hr : s.roles[i]? = some r) (hp : r.phase ≠ .created) :
    i ∈ s.logged := by
  obtain ⟨hscanned, hawaited⟩ := (h.cancelled (h.draining hdrain)).scanned
  have hshard : shardOf r.id < s.close.scanned := by
    rw [hscanned]
    exact Nat.mod_lt _ (by decide)
  have hposted : Posted r.phase := by
    rcases h.found i r hr hp hshard with hposted | hmem
    · exact hposted
    · simp [hawaited] at hmem
  by_contra hlog
  have hsignal := (ho.inv.channel.logout i).mpr ⟨r.control, State.control_roles hr, hposted, hlog⟩
  simp [State.control, hops] at hsignal

theorem Closing.logged_step (h : Closing s) (ho : Orderly s) (he : Effect s a s')
    (hexit : s'.pc = .exited) (i : Nat) (r : Role) (hr : s'.roles[i]? = some r)
    (hp : r.phase ≠ .created) : i ∈ s'.logged := by
  have keep : s.pc = .exited → i ∈ s'.logged := by
    intro hpc
    rcases (he.roleMove ho.tagged.starting).started hr hp with
      ⟨r₀, hr₀, hp₀, _⟩ | ⟨_, hstarting, _⟩
    · exact he.logged_mono (h.logged hpc i r₀ hr₀ hp₀)
    · simp [hpc] at hstarting
  cases he.shutMove with
  | same _ _ _ hpc => exact keep (hpc hexit)
  | drain hctx hpc heq => simp [heq, hpc] at hexit
  | exit hops hdrain heq =>
    rw [heq] at hr ⊢
    exact h.logged_at_exit ho hops hdrain hr hp
  | close hact hc =>
    have hpc : s'.pc = s.pc := by cases hc <;> rfl
    exact keep (hpc ▸ hexit)

theorem Saver.Drained.saverStep {k : Fin saveGoCnt} (h : (s.savers k).Drained)
    (hm : SaverStep s s' k) : (s'.savers k).Drained := by
  intro hexit
  cases hm with
  | same heq =>
    rw [heq] at hexit ⊢
    exact h hexit
  | @push op hpush heq =>
    rw [heq] at hexit ⊢
    obtain ⟨hclosed, hwaiting, hbatch⟩ := h hexit
    -- A closed queue refuses the op.
    have hrefused : ((s.savers k).q.push op).2 ≠ none := by
      simp [SwapQueue.push_refused hclosed]
    refine ⟨?_, ?_, hbatch⟩
    · simp [SwapQueue.push_contents, hclosed]
    · simp [SwapQueue.push_waiting, hrefused, hwaiting]
  | close heq hpc =>
    rw [heq] at hexit ⊢
    obtain ⟨hclosed, hwaiting, hbatch⟩ := h hexit
    exact ⟨SwapQueue.close_closed _, by simpa using hwaiting, hbatch⟩
  | own he => exact he.exited hexit

namespace CloseEffect

variable {c : CloseAct}

theorem frame (hc : CloseEffect s c s') :
    s'.pc = s.pc ∧ s'.draining = s.draining ∧ (s.ctxDone = true → s'.ctxDone = true) := by
  cases hc with
  | cancel => exact ⟨rfl, rfl, fun _ => rfl⟩
  | _ => exact ⟨rfl, rfl, id⟩

/-- The context is cancelled by `Close`, after the last `Wait`. -/
theorem cancelled (hc : CloseEffect s c s') (h : s.ctxDone = true → s.close.cancelled) :
    s'.ctxDone = true → s'.close.cancelled := by
  intro hctx
  cases hc with
  | cancel | producers | consumers => trivial
  | begin hclose | scan hclose | scanned hclose | kick hclose | kicked hclose | wait hclose =>
    have hcancelled := h hctx
    rw [hclose] at hcancelled
    exact hcancelled

theorem joined (hc : CloseEffect s c s')
    (h : s.close = .consumers ∨ s.close = .returned → s.pc = .exited) :
    s'.close = .consumers ∨ s'.close = .returned → s'.pc = .exited := by
  cases hc with
  | producers hclose hpc => exact fun _ => hpc
  | consumers hclose => exact fun _ => h (Or.inl hclose)
  | _ => simp

theorem stopped (hc : CloseEffect s c s') :
    s'.close = .returned → ∀ k, (s'.savers k).status ≠ .running := by
  cases hc with
  | consumers hclose hsave => exact fun _ => hsave
  | _ => simp

end CloseEffect

theorem Closing.step (h : Closing s) (ho : Orderly s) (hok : s.orderlyClose a)
    (he : Effect s a s') : Closing s' := by
  have hfound := h.found_step ho hok he
  have hlogged := h.logged_step ho he
  have hdrained : ∀ k, (s'.savers k).Drained := fun k =>
    (h.drained k).saverStep (he.saverMove.saverStep k)
  have hstopped : s'.close = s.close → s'.close = .returned →
      ∀ k, (s'.savers k).status ≠ .running := by
    intro hclose hret k
    have hold := h.stopped (hclose ▸ hret) k
    cases he.saverMove.saverStep k with
    | same heq | push _ heq | close heq => simpa [heq] using hold
    | own hown => exact absurd hown.running hold
  cases he.shutMove with
  | same hclose hctx hdrain hpc =>
    refine ⟨hfound, ?_, ?_, ?_, hlogged, ?_, hstopped hclose, hdrained⟩
    · rw [hclose, hctx]
      exact h.cancelled
    · rw [hdrain, hctx]
      exact h.draining
    · rw [hdrain]
      exact fun hexit => h.exited (hpc hexit)
    · rw [hclose]
      exact fun hjoin => he.exited (h.joined hjoin)
  | drain hctx hpc heq =>
    subst heq
    exact ⟨hfound, h.cancelled, fun _ => hctx, fun _ => rfl, hlogged, h.joined,
      hstopped rfl, hdrained⟩
  | exit hops hdrain heq =>
    subst heq
    exact ⟨hfound, h.cancelled, h.draining, fun _ => hdrain, hlogged, fun _ => rfl,
      hstopped rfl, hdrained⟩
  | close hact hc =>
    obtain ⟨hpc, hdrain, hctx⟩ := hc.frame
    refine ⟨hfound, hc.cancelled h.cancelled, fun hd => hctx (h.draining (hdrain ▸ hd)), ?_,
      hlogged, hc.joined h.joined, hc.stopped, hdrained⟩
    rw [hpc, hdrain]
    exact h.exited

theorem Closing.reachable {ok : State → Act → Prop} (hserial : ∀ s a, ok s a → s.serial a)
    (hclose : ∀ s a, ok s a → s.orderlyClose a) (h : gameServer.Reachable ok s) :
    Closing s := by
  refine h.invariant ?_ fun s a t hr hi hok hs =>
    hi.step (.reachable hserial hr) (hclose s a hok) (State.step_effect hs)
  rintro _ ⟨now, stores, rfl⟩
  refine ⟨?_, ?_, ?_, ?_, ?_, ?_, ?_, ?_⟩ <;>
    simp [State.initial, Saver.Drained, newSaver]

/-- The steps of the runs in which a shutdown loses nothing. -/
def shutdownOk (s : State) (a : Act) : Prop :=
  s.serial a ∧ s.cachedReject a ∧ s.orderlyClose a ∧ s.awayKept a

instance (s : State) (a : Act) : Decidable (shutdownOk s a) :=
  inferInstanceAs (Decidable (_ ∧ _ ∧ _ ∧ _))

/-- Every role that was started has logged out, and the hash of its ID holds the
record of the last logout. -/
structure NothingLost (s : State) : Prop where
  logged : ∀ (i : Nat) (r : Role), s.roles[i]? = some r → r.phase ≠ .created →
    i ∈ s.logged ∧ Posted r.phase
  stored : ∀ (i : Nat) (r : Role), s.roles[i]? = some r → r.phase ≠ .created →
    ∃ l, s.lastLogout r.id = some l ∧ Map.Holds (s.stores.redis r.id) l

theorem lastLogout_of_logged (ht : Tagged s) (hs : ∀ r ∈ s.roles, r.Sound)
    (hr : s.roles[i]? = some r) (hlog : i ∈ s.logged) : ∃ l, s.lastLogout r.id = some l := by
  obtain ⟨q, hq, hposted⟩ := ht.logged i hlog
  rw [hr, Option.some.injEq] at hq
  obtain ⟨l, hl, _⟩ := (hs r (List.mem_of_getElem? hr)).logoutRecord (hq ▸ hposted)
  have hmem : (r.id, l) ∈ s.logouts.filter (·.1 = r.id) := by
    refine List.mem_filter.mpr ⟨List.mem_filterMap.mpr ⟨i, hlog, ?_⟩, by simp⟩
    simp [hr, hl]
  have hne : (s.logouts.filter (·.1 = r.id)).getLast? ≠ none := by
    rw [Ne, List.getLast?_eq_none_iff]
    exact List.ne_nil_of_mem hmem
  obtain ⟨last, hlast⟩ := Option.ne_none_iff_exists'.mp hne
  exact ⟨last.2, by rw [State.lastLogout, hlast, Option.map_some]⟩

/-- When `Close` has returned, nothing is lost. -/
theorem shutdown_loses_nothing (h : gameServer.Reachable shutdownOk s)
    (hret : s.close = .returned) : NothingLost s := by
  have hserial : ∀ s a, shutdownOk s a → s.serial a := fun _ _ hok => hok.1
  have ho : Orderly s := .reachable hserial h
  have hc : Closing s := .reachable hserial (fun _ _ hok => hok.2.2.1) h
  have hfilled := (filled_reachable (fun _ _ hok => hok.2.1) h).2
  have hexit := hc.joined (Or.inr hret)
  have hidle : s.control.starting = none := by
    simp [State.control, hexit, LogonPc.starting?]
  have hlogged := hc.logged hexit
  -- No role is between `NewRole` and `Run` any more, so every ID is closed.
  have hstarted : ∀ (i : Nat) (r : Role), s.roles[i]? = some r → r.phase ≠ .created := by
    intro i r hr hp
    obtain ⟨stage, hstage⟩ := ho.inv.exclusive.created i r.control (State.control_roles hr) hp
    simp [hidle] at hstage
  have hclosed : ∀ x, s.Closed x := by
    intro x
    refine closed_of_noneOpen ho ?_
    rintro i c ⟨hc', hlog⟩ _
    obtain ⟨r, hr, rfl⟩ := State.exists_of_control_roles hc'
    exact hlog (hlogged i r hr (hstarted i r hr))
  constructor
  · intro i r hr hp
    have hlog := hlogged i r hr hp
    obtain ⟨q, hq, hposted⟩ := ho.tagged.logged i hlog
    rw [hr, Option.some.injEq] at hq
    exact ⟨hlog, hq ▸ hposted⟩
  · intro i r hr hp
    obtain ⟨l, hl⟩ := lastLogout_of_logged ho.tagged ho.sound hr (hlogged i r hr hp)
    have hset := settled_reachable hserial (fun _ _ hok => hok.2.1) (fun _ _ hok => hok.2.2.2) h
      hl (hclosed r.id)
    have hlive := (hfilled (State.saverOf r.id)).2
    have hstatus : (s.saver r.id).status = .exited := by
      have hstop := hc.stopped hret (State.saverOf r.id)
      rw [State.saver]
      cases hst : (s.savers (State.saverOf r.id)).status <;> simp_all
    obtain ⟨_, hwaiting, hbatch⟩ := hc.drained (State.saverOf r.id) hstatus
    refine ⟨l, hl, ?_⟩
    rw [(hset hlive).redis_of_empty hwaiting hbatch]
    exact fun _ _ hv => hv

/-- `CloseAndWait` reads all shards and finds the given roles. -/
def scanAll (ids : List RoleID) : List Act :=
  .close .begin ::
    (List.range shardCount).map fun shard =>
      .close (.scan (ids.filter fun id => shardOf id = shard))

/-- From the cancelled context on: the login goroutine, the loaders and the
savers return, after `work` of the savers. -/
def stopAll (work : List Act) : List Act :=
  .logon .exit :: (List.finRange loadingGoCnt).map .loaderExit ++ .close .next :: work ++
    (List.finRange saveGoCnt).map (.saver · .exit) ++ [.close .next]

/-- A server with one role online is closed. -/
def oneOnline : List Act :=
  firstLogin 7 1 ++ scanAll [7] ++ [.close .next, .close .next, .close .next] ++ leave 0 ++
    [.close .next, .close .next, .logon .onOps, .logon .drain] ++
    stopAll (onSaver 7 [.drain, .mergeNext, .beginFlush [7], .execPipe true [] [],
      .saveToDB true []])

theorem oneOnline_loses_nothing :
    ∃ s, gameServer.Reachable shutdownOk s ∧ s.close = .returned ∧ s.roles.length = 1 ∧
      NothingLost s := by
  obtain ⟨s, hs, hret, hroles⟩ := Machine.exec_reaches (m := gameServer) shutdownOk
    (fun s => s.close = .returned ∧ s.roles.length = 1) oneOnline gameServer_empty
    (by decide +kernel)
  exact ⟨s, hs, hret, hroles, shutdown_loses_nothing hs hret⟩

/-- A login waits in `m.ops` while `CloseAndWait` finds nobody. The role is
started from `drainOps`. -/
def lateLogin : List Act :=
  .login ⟨7, 1, 1⟩ :: scanAll [] ++ [.close .next, .close .next, .close .next, .logon .drain,
    .logon .onOps, .load 0 .readRedis, .load 0 (.readMongo none), .load 0 .post,
    .logon .onOps, .logon .register, .logon .register, .logon .register] ++ stopAll []

theorem lateLogin_lost :
    ∃ s, gameServer.Reachable Machine.anyStep s ∧ s.close = .returned ∧ ¬NothingLost s := by
  obtain ⟨s, hs, hret, hroles, hlogged⟩ := Machine.exec_reaches (m := gameServer)
    Machine.anyStep
    (fun s => s.close = .returned ∧ s.roles.map (·.phase) = [.started] ∧ s.logged = [])
    lateLogin gameServer_empty (by decide +kernel)
  refine ⟨s, hs, hret, fun hlost => ?_⟩
  obtain ⟨r, hr, hp⟩ := List.map_eq_singleton_iff.mp hroles
  have hlog := (hlost.logged 0 r (by simp [hr]) (by simp [hp])).1
  simp [hlogged] at hlog

end GameCluster
