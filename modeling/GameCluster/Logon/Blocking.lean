import GameCluster.Logon.History
import GameCluster.Logon.Savers
import GameCluster.Save.Accepting

/-!
No role blocks the saving of others. The ops of a saver come from logouts,
incremental saves and the cache of an offline entry, which `cleanup` saves
again. The first two always have fields. The cache has some, too, as long as
`initRole` does not turn an entry offline that never had a record.

The source does not rule that out. A first load whose record `NewRole` rejects
leaves an offline entry with a nil cache, and after the next `cleanup` every
`saveBatch` of that saver fails.

Nor does it keep a place in `m.ops` for the event a chunk posts. If `m.ops` is
full while the login goroutine waits in `postMustSave` for a place in the queue
of that same saver, neither of the two goes on.
-/

namespace GameCluster

open Lib

variable {s s' : State}

/-- The entry's cache holds a record. -/
def LoginData.cached (v : LoginData) : Bool := 0 < (v.cache.getD ∅).len

theorem LoginData.cached_iff (v : LoginData) : v.cached ↔ v.cache.getD ∅ ≠ ∅ := by
  simp [LoginData.cached, Nat.pos_iff_ne_zero, Map.len_eq_zero]

namespace State

/-- `initRole` rejects the record. -/
def rejects (s : State) (data : DataToSave) (login : S2SReqLogin) : Bool :=
  (unmarshalRole data s.now).isNone ∨ data.roleID ≠ login.roleID

/-- A record read by a loader or taken up by a re-entry is rejected only if its
role has no entry, or one whose cache holds a record. -/
def cachedReject (s : State) : Act → Bool
  | .logon .onOps =>
    match s.ops with
    | .dbLoaded msg data _ :: _ =>
      ∀ v ∈ s.data.lookup data.roleID, s.rejects data msg → v.cached
    | .reentry msg _ :: _ =>
      ∀ v ∈ s.data.lookup msg.roleID, s.rejects ⟨msg.roleID, v.cache⟩ msg → v.cached
    | _ => true
  | _ => true

/-- Past its first load, an entry has a record in its cache. -/
def Cached (s : State) : Prop :=
  ∀ id v, s.data.lookup id = some v → v.state ≠ .stateInit → v.state ≠ .statePending → v.cached

end State

/-- A record that `NewRole` accepts is not empty: it has a `TCBase`. -/
theorem unmarshalRole_ne_empty {data : DataToSave} {now : Int}
    (h : unmarshalRole data now ≠ none) : data.data.getD ∅ ≠ ∅ := by
  intro hempty
  simp [unmarshalRole, DataToSave.get, hempty] at h

theorem LogoutRecord.ne_empty {l : Record} (h : LogoutRecord l) : l ≠ ∅ := by
  rintro rfl
  simpa using h.total .TCBase

theorem event_filled (ht : Tagged s) (hs : ∀ r ∈ s.roles, r.Sound) {e : LogonEvent}
    (hmem : e ∈ s.ops) :
    (∀ data r, e = .logout data r → data.data.getD ∅ ≠ ∅) ∧
      ∀ data both r, e = .saveRole data both r → data.data.getD ∅ ≠ ∅ := by
  constructor
  · rintro data r rfl
    obtain ⟨role, hr, _, hposted, hlogout⟩ := ht.events _ hmem
    obtain ⟨l, hl, hrecord⟩ := (hs role (List.mem_of_getElem? hr)).logoutRecord hposted
    rw [← hlogout, hl]
    exact hrecord.ne_empty
  · rintro data both r rfl
    obtain ⟨_, m, hm, hne⟩ := ht.events _ hmem
    rw [hm]
    exact hne

theorem cached_step {a : Act} (h : s.Cached) (ht : Tagged s) (hs : ∀ r ∈ s.roles, r.Sound)
    (hok : s.cachedReject a) (he : Effect s a s') : s'.Cached := by
  intro id v hv hinit hpending
  cases he.entryMove id with
  | same heq => exact h id v (heq ▸ hv) hinit hpending
  | @kick w hw hstate heq | @acked ids rest w hops hmem hw hstate heq =>
    rw [heq, Option.some.injEq] at hv
    rw [← hv]
    exact h id w hw (by simp [hstate]) (by simp [hstate])
  | load hw hstate heq =>
    rw [heq, Option.some.injEq] at hv
    exact absurd (by rw [← hv]) hpending
  | create hstart hid haccept hw heq =>
    rw [heq, Option.some.injEq] at hv
    rw [← hv, LoginData.cached_iff]
    exact unmarshalRole_ne_empty haccept
  | @reject data login w hstart hid hbad hw heq hact =>
    rw [heq, Option.some.injEq] at hv
    have hrejects : s.rejects data login := by simpa [State.rejects] using hbad
    rw [← hv]
    change w.cached
    subst hact hid
    cases hstart with
    | relogin hops hw' hstate =>
      obtain rfl : _ = w := Option.some.inj (hw'.symm.trans hw)
      rcases hstate with hst | hst <;> exact h _ _ hw' (by simp [hst]) (by simp [hst])
    | loaded hops =>
      simp only [State.cachedReject, hops, decide_eq_true_eq] at hok
      exact hok w hw hrejects
    | reentry hops hw' =>
      obtain rfl : _ = w := Option.some.inj (hw'.symm.trans hw)
      simp only [State.cachedReject, hops, decide_eq_true_eq] at hok
      exact hok _ hw hrejects
  | logout hops hid hw heq hlogged =>
    rw [heq, Option.some.injEq] at hv
    rw [← hv, LoginData.cached_iff]
    exact (event_filled ht hs (mem_of_head hops)).1 _ _ rfl
  | saveRole hops hid hw heq =>
    rw [heq, Option.some.injEq] at hv
    rw [← hv, LoginData.cached_iff]
    exact (event_filled ht hs (mem_of_head hops)).2 _ _ _ rfl
  | release hw hstate heq => simp [heq] at hv

/-- Every op that the login goroutine pushes has fields. -/
theorem Pushes.filled {op : OpSaveData TypeComp Text} (hpush : Pushes s op) (h : s.Cached)
    (ht : Tagged s) (hs : ∀ r ∈ s.roles, r.Sound) : op.values ≠ ∅ := by
  cases hpush with
  | logout hops => exact (event_filled ht hs (mem_of_head hops)).1 _ _ rfl
  | saveRole hops => exact (event_filled ht hs (mem_of_head hops)).2 _ _ _ rfl
  | cleanup hv hstate =>
    exact (LoginData.cached_iff _).mp (h _ _ hv (by simp [hstate]) (by simp [hstate]))

/-- All savers hold only ops with fields, and none has panicked. -/
def SaversFilled (s : State) : Prop :=
  ∀ k, (s.savers k).Filled ∧ (s.savers k).status ≠ .panicked

theorem SaversFilled.move {act : Act} (h : SaversFilled s) (hok : SaversOk s)
    (hm : SaverMove s act s')
    (hpush : ∀ op, Pushes s op → op.values ≠ ∅) : SaversFilled s' := by
  intro k
  cases hm.saverStep k with
  | same heq => exact heq ▸ h k
  | push hop heq =>
    rw [heq]
    exact ⟨(h k).1.push (hpush _ hop), (h k).2⟩
  | close heq hpc =>
    rw [heq]
    exact ⟨⟨by simpa using (h k).1.queued, (h k).1.batched⟩, (h k).2⟩
  | own he => exact ⟨(h k).1.effect (hok.wf k) he, (h k).1.not_panicked (h k).2 he⟩

theorem filled_reachable {ok : State → Act → Prop} (hok : ∀ s a, ok s a → s.cachedReject a)
    (h : gameServer.Reachable ok s) : s.Cached ∧ SaversFilled s := by
  refine h.invariant (P := fun s => s.Cached ∧ SaversFilled s) ?_ ?_
  · rintro _ ⟨now, stores, rfl⟩
    refine ⟨fun id v hv => by simp [State.initial] at hv, fun k => ⟨⟨?_, ?_⟩, ?_⟩⟩ <;>
      simp [State.initial, newSaver, SwapQueue.waiting]
  · intro s a t hr hi hstep hs
    have he := State.step_effect hs
    have ht := Tagged.reachable hr
    have hsound := sound_reachable hr
    refine ⟨cached_step hi.1 ht hsound (hok s a hstep) he, ?_⟩
    exact hi.2.move (.reachable hr) he.saverMove fun op hop => hop.filled hi.1 ht hsound

namespace State

/-- No role blocks the others of a saver: merging does not panic, and
`saveBatch` returns nil over accepting stores, with every role of the batch
persisted and the batch cleared. -/
structure Unblocked (s : State) (k : Fin saveGoCnt) : Prop where
  alive : (s.savers k).status ≠ .panicked
  merges : ∀ op ∈ (s.savers k).q.waiting, merge (s.savers k).batch op ≠ none
  saves : ∀ order, Map.Enumerates order (s.savers k).batch →
    ∃ st' room', saveBatch s.now (order.filterMap (s.savers k).batch.lookup) s.stores
        (opChanSize - s.ops.length) = .ok (st', room') ∧
      (∀ id op, (s.savers k).batch.lookup id = some op →
        Map.Holds (st'.redis id) op.values ∧
          (op.both = true → Map.Holds (st'.mongo id) op.values)) ∧
      ((s.savers k).Idle → 0 < (s.savers k).batch.len → ∃ acts s',
        gameServer.exec Machine.anyStep s
            ((SaverAct.beginFlush order :: acts).map (.saver k)) = some s' ∧
          s'.savers k = { s.savers k with flush := none, batch := ∅ } ∧ s'.stores = st')

/-- `m.ops` has a place for every event that a flush of the saver posts. -/
def RoomToPost (s : State) (k : Fin saveGoCnt) : Prop :=
  ∀ order, Map.Enumerates order (s.savers k).batch →
    posts (chunks (order.filterMap (s.savers k).batch.lookup)) ≤ opChanSize - s.ops.length

/-- A place for each role of the batch is enough. -/
theorem roomToPost_of_len {k : Fin saveGoCnt} {s : State}
    (h : (s.savers k).batch.len ≤ opChanSize - s.ops.length) : s.RoomToPost k := by
  intro order horder
  refine (posts_chunks_le _).trans ((List.length_filterMap_le _ _).trans ?_)
  rwa [← List.toFinset_card_of_nodup horder.1, horder.2]

/-- The steps of a saver on its own are steps of the server. -/
theorem exec_saver {k : Fin saveGoCnt} {acts : List SaverAct} {s : State}
    {saver : Saver TypeComp Text} {stores : Stores TypeComp Text} {room : Nat}
    (h : (s.savers k).steps s.now s.stores (opChanSize - s.ops.length) acts =
      some (saver, stores, room)) :
    ∃ s', gameServer.exec Machine.anyStep s (acts.map (.saver k)) = some s' ∧
      s'.savers k = saver ∧ s'.stores = stores := by
  induction acts generalizing s with
  | nil =>
    cases h
    exact ⟨s, rfl, rfl, rfl⟩
  | cons a rest ih =>
    -- It is enough to find the state after the first step.
    have hnext : ∀ t : State, s.step (.saver k a) = some t →
        (t.savers k).steps t.now t.stores (opChanSize - t.ops.length) rest =
          some (saver, stores, room) →
        ∃ s', gameServer.exec Machine.anyStep s ((a :: rest).map (.saver k)) = some s' ∧
          s'.savers k = saver ∧ s'.stores = stores := by
      intro t ht hrest
      obtain ⟨s', hs', hkeep⟩ := ih hrest
      refine ⟨s', ?_, hkeep⟩
      rw [List.map_cons, Machine.exec, if_pos (show Machine.anyStep s _ from trivial)]
      change (s.step (.saver k a)).bind _ = some s'
      rw [ht]
      exact hs'
    cases hstep : (s.savers k).step s.now s.stores a with
    | none => simp [Saver.steps, hstep] at h
    | some next =>
      obtain ⟨sv, st, out⟩ := next
      cases out with
      | none =>
        simp only [Saver.steps, hstep] at h
        refine hnext { s with savers := Function.update s.savers k sv, stores := st } ?_ ?_
        · simp [State.step, State.saverStep, hstep]
        · simpa using h
      | some ids =>
        cases hroom : opChanSize - s.ops.length with
        | zero => simp [Saver.steps, hstep, hroom] at h
        | succ r =>
          simp only [Saver.steps, hstep, hroom] at h
          refine hnext
            { s with
              savers := Function.update s.savers k sv
              stores := st
              ops := s.ops ++ [.saveSuccess ids] } ?_ ?_
          · have hlt : s.ops.length < opChanSize := by omega
            simp [State.step, State.saverStep, State.post, hstep, hlt]
          · have hr : opChanSize - (s.ops.length + 1) = r := by omega
            simpa [hr] using h

end State

/-- Role 10 logs out and its record is merged into the batch. -/
def oneLogout : List Act :=
  firstLogin 10 1 ++ leave 0 ++ [.logon .onOps] ++ onSaver 10 [.drain, .mergeNext]

/-- The hash of role 7 has no `TCBase`, as an incremental save leaves it when
the key had expired. -/
def noBase : Stores TypeComp Text where
  redis := Function.update (fun _ => ∅) 7 (Finmap.singleton .TCDebug (.json {}))
  mongo _ := ∅
  expireAt _ := none

/-- Role 10 logs out. Role 7 cannot be started from its record, and `cleanup`
saves both of their caches. -/
def rejectedLoad : List Act :=
  firstLogin 10 1 ++ leave 0 ++
    [.logon .onOps, .login ⟨7, 2, 1⟩, .logon .onOps, .load 1 .readRedis, .load 1 .post,
      .logon .onOps, .tick 61, .logon (.cleanup [7, 10]), .logon .cleanupNext,
      .logon .cleanupNext, .logon .cleanupNext] ++
    onSaver 7 [.drain, .mergeNext, .mergeNext, .mergeNext]

end GameCluster
