import GameCluster.Logon.Blocking
import GameCluster.Save.Whole

/-!
A role's data over many runs of the server. The process may crash at any point,
which loses everything but the stores. `loadBatch` takes any hash that is not
empty for the whole record, so what it delivers is what was last persisted only
if no hash is ever a part of the record.
-/

namespace GameCluster

open Lib

/-- A server with the components that a store has ever held for each role. -/
structure Life where
  server : State
  persisted : RoleID → Finset TypeComp

inductive LifeAct where
  | server (a : Act)
  /-- The process ends where it is and is started again. -/
  | crash

namespace Life

def note (l : Life) (s : State) : Life where
  server := s
  persisted id := l.persisted id ∪ (s.stores.redis id).keys ∪ (s.stores.mongo id).keys

def step (l : Life) : LifeAct → Option Life
  | .server a => (l.server.step a).map l.note
  | .crash => some { l with server := State.initial l.server.now l.server.stores }

/-- Nothing has been stored yet. -/
def initial (now : Int) : Life where
  server := State.initial now ⟨fun _ => ∅, fun _ => ∅, fun _ => none⟩
  persisted _ := ∅

end Life

def lifetime : Machine Life LifeAct where
  init l := ∃ now, l = Life.initial now
  step := Life.step

/-- The value last persisted for a component: the one in Redis, or the one in
Mongo if the hash has none. -/
def Stores.lastPersisted (st : Stores TypeComp Text) (id : RoleID) (c : TypeComp) : Option Text :=
  ((st.redis id).lookup c).or ((st.mongo id).lookup c)

/-- The record that a step of a loader reads for a login. -/
def State.reads (s : State) (i : Nat) (a : LoadAct) : Option DataToSave :=
  (s.step (.load i a)).bind fun t =>
    (t.loads[i]?).bind fun l =>
      match l.phase with
      | .loaded data => some data
      | _ => none

/-- What the record read for a role has to be. -/
structure Delivers (l : Life) (data : DataToSave) : Prop where
  values : ∀ c ∈ l.persisted data.roleID, ∃ t,
    l.server.stores.lastPersisted data.roleID c = some t ∧
      (data.data.getD ∅).lookup c = some t
  base : (l.persisted data.roleID).Nonempty →
    ((data.data.getD ∅).lookup .TCBase).isSome ∧ ∀ now, unmarshalRole data now ≠ none

/-- No hash is written, dropped or read in part: what goes into an empty hash
has `TCBase` and all that the role's document has, a hash expires once the
document has all its components, and a role without a hash has no document
when it is loaded. -/
def lifeOk (l : Life) : LifeAct → Prop
  | .server (.saver k a) =>
    ∀ op ∈ (l.server.savers k).piping a, l.server.stores.redis op.id = ∅ →
      {.TCBase} ∪ (l.server.stores.mongo op.id).keys ⊆ op.values.keys
  | .server (.load i (.readMongo _)) =>
    ∀ ld ∈ l.server.loads[i]?, l.server.stores.redis ld.login.roleID = ∅ ∧
      l.server.stores.mongo ld.login.roleID = ∅
  | .server (.expire id) => (l.server.stores.redis id).keys ⊆ (l.server.stores.mongo id).keys
  | _ => True

instance (l : Life) (a : LifeAct) : Decidable (lifeOk l a) := by
  unfold lifeOk
  split <;> infer_instance

/-- Every text is the encoding of some component. -/
def Record.Encoded (m : Record) : Prop := ∀ c t, m.lookup c = some t → ∃ d, t = .json d

namespace Record

theorem Encoded.empty : Record.Encoded ∅ := by
  intro c t ht
  simp at ht

theorem Encoded.union (new old : Record) (hnew : Record.Encoded new)
    (hold : Record.Encoded old) : Record.Encoded (new ∪ old) := by
  intro c t ht
  rw [Map.lookup_union_or] at ht
  cases hc : new.lookup c with
  | none =>
    rw [hc, Option.none_or] at ht
    exact hold c t ht
  | some t' =>
    rw [hc, Option.some_or] at ht
    exact hnew c t (hc.trans ht)

theorem encoded_marshal (r : Comps) (force : Bool) : Record.Encoded (r.marshal force) := by
  intro c t ht
  rw [Comps.marshal_lookup] at ht
  split at ht
  · cases ht
    exact ⟨_, rfl⟩
  · cases ht

theorem encoded_newRoleDBData (id : RoleID) : Record.Encoded ((newRoleDBData id).data.getD ∅) := by
  intro c t ht
  simp only [newRoleDBData, Option.getD_some] at ht
  by_cases hc : c = .TCBase
  · subst hc
    rw [Finmap.lookup_singleton_eq, Option.some.injEq] at ht
    exact ⟨_, ht.symm⟩
  · rw [Finmap.lookup_eq_none.mpr (by simpa using hc)] at ht
    cases ht

end Record

/-- `NewRole` takes every encoded record that has `TCBase`. -/
theorem unmarshalRole_of_encoded {data : DataToSave}
    (h : Record.Encoded (data.data.getD ∅))
    (hbase : ((data.data.getD ∅).lookup .TCBase).isSome) (now : Int) :
    unmarshalRole data now ≠ none := by
  have hcomp : ∀ c, unmarshalComp (data.get c) ≠ none := by
    intro c
    unfold DataToSave.get
    cases hc : (data.data.getD ∅).lookup c with
    | none => simp [unmarshalComp]
    | some t =>
      obtain ⟨d, rfl⟩ := h c t hc
      simp [unmarshalComp]
  obtain ⟨t, ht⟩ := Option.isSome_iff_exists.mp hbase
  obtain ⟨d, rfl⟩ := h _ _ ht
  have hget : data.get .TCBase = .json d := by simp [DataToSave.get, ht]
  obtain ⟨e, he⟩ := Option.ne_none_iff_exists'.mp (hcomp .TCExample)
  obtain ⟨x, hx⟩ := Option.ne_none_iff_exists'.mp (hcomp .TCEmptyExample)
  obtain ⟨g, hg⟩ := Option.ne_none_iff_exists'.mp (hcomp .TCDebug)
  simp [unmarshalRole, hget, he, hx, hg]

/-- The record an event carries. -/
def LogonEvent.record : LogonEvent → Record
  | .dbLoaded _ data _ | .logout data _ | .saveRole data _ _ => data.data.getD ∅
  | _ => ∅

/-- Every text anywhere in the server is the encoding of some component. -/
structure State.Encoded (s : State) : Prop where
  redis : ∀ id, Record.Encoded (s.stores.redis id)
  mongo : ∀ id, Record.Encoded (s.stores.mongo id)
  savers : ∀ k, (s.savers k).Every Record.Encoded
  caches : ∀ id v, s.data.lookup id = some v → Record.Encoded (v.cache.getD ∅)
  ops : ∀ e ∈ s.ops, Record.Encoded e.record
  loads : ∀ l ∈ s.loads, ∀ data, l.phase = .loaded data → Record.Encoded (data.data.getD ∅)

section

variable {s s' : State} {a : Act}

/-- What `initRole` is called with is encoded. -/
theorem Starts.encoded {data : DataToSave} {login : S2SReqLogin} (hstart : Starts s data login)
    (h : s.Encoded) : Record.Encoded (data.data.getD ∅) := by
  cases hstart with
  | relogin hops hv hstate | reentry hops hv => exact h.caches _ _ hv
  | loaded hops => exact h.ops _ (mem_of_head hops)

theorem EntryMove.encoded {id : RoleID} (hm : EntryMove s a s' id) (h : s.Encoded)
    {v : LoginData} (hv : s'.data.lookup id = some v) : Record.Encoded (v.cache.getD ∅) := by
  cases hm with
  | same heq => exact h.caches id v (heq ▸ hv)
  | kick hw hstate heq | reject hstart hid hbad hw heq | acked hops hmem hw hstate heq =>
    have hold := h.caches _ _ hw
    cases heq.symm.trans hv
    exact hold
  | load hw hstate heq =>
    cases heq.symm.trans hv
    subst hw
    cases hold : s.data.lookup id with
    | none => exact Record.Encoded.empty
    | some w =>
      have hcache := h.caches _ _ hold
      exact hcache
  | create hstart hid haccept hw heq =>
    cases heq.symm.trans hv
    exact hstart.encoded h
  | logout hops hid hw heq | saveRole hops hid hw heq =>
    cases heq.symm.trans hv
    exact h.ops _ (mem_of_head hops)
  | release hw hstate heq => simp [heq] at hv

theorem Posts.encoded {e : LogonEvent} (hpost : Posts s e) (h : s.Encoded) :
    Record.Encoded e.record := by
  cases hpost with
  | dbLoaded hl hp => exact h.loads _ (List.mem_of_getElem? hl) _ hp
  | @saveRole i r both hr hp => exact Record.encoded_marshal r.comps false
  | @logout i r hr hp => exact Record.encoded_marshal r.comps true
  | login | reentry | saveSuccess => exact Record.Encoded.empty

theorem LoadStep.encoded {l : Load} {phase : LoadPhase} (hstep : LoadStep s l phase)
    (h : s.Encoded) {data : DataToSave} (hdata : phase = .loaded data) :
    Record.Encoded (data.data.getD ∅) := by
  cases hstep with
  | hit hp hsome =>
    cases hdata
    exact h.redis _
  | @mongo last hp hlast =>
    cases hdata
    unfold fromDB
    split
    · split
      · exact h.mongo _
      · exact Record.encoded_newRoleDBData _
    · exact Record.encoded_newRoleDBData _
  | miss | post | gone => cases hdata

theorem Pushes.encoded {op : OpSaveData TypeComp Text} (hpush : Pushes s op) (h : s.Encoded) :
    Record.Encoded op.values := by
  cases hpush with
  | logout hops | saveRole hops => exact h.ops _ (mem_of_head hops)
  | cleanup hv hstate => exact h.caches _ _ hv

theorem SaverMove.encoded_stores (hm : SaverMove s a s') (h : s.Encoded)
    (hwf : ∀ k, (s.savers k).WF) (id : RoleID) :
    Record.Encoded (s'.stores.redis id) ∧ Record.Encoded (s'.stores.mongo id) := by
  cases hm with
  | quiet hsavers hstores | push hpush hsavers hstores | close hsavers hstores hpc =>
    rw [hstores]
    exact ⟨h.redis id, h.mongo id⟩
  | @expire x hsavers hstores hact =>
    rw [hstores]
    refine ⟨?_, h.mongo id⟩
    rcases s.stores.drop_redis x id with heq | heq
    · exact heq ▸ h.redis id
    · exact heq ▸ Record.Encoded.empty
  | @saver k b saver out he hsavers hact =>
    constructor
    · rcases (hwf k).redis_step he id with heq | ⟨_, heq⟩
      · rw [heq]
        exact h.redis id
      · rw [heq]
        exact Record.Encoded.union _ _ ((h.savers k).batched id) (h.redis id)
    · rcases (hwf k).mongo_step he id with heq | ⟨_, heq⟩
      · rw [heq]
        exact h.mongo id
      · rw [heq]
        exact Record.Encoded.union _ _ ((h.savers k).batched id) (h.mongo id)

theorem State.Encoded.effect (h : s.Encoded) (hwf : ∀ k, (s.savers k).WF)
    (he : Effect s a s') : s'.Encoded where
  redis id := (he.saverMove.encoded_stores h hwf id).1
  mongo id := (he.saverMove.encoded_stores h hwf id).2
  savers k := by
    cases he.saverMove.saverStep k with
    | same heq => exact heq ▸ h.savers k
    | push hpush heq =>
      rw [heq]
      exact (h.savers k).push (hpush.encoded h)
    | close heq hpc =>
      rw [heq]
      exact ⟨by simpa using (h.savers k).queued, (h.savers k).batched⟩
    | own hown =>
      exact (h.savers k).effect (hwf k) Record.Encoded.empty Record.Encoded.union hown
  caches id v hv := (he.entryMove id).encoded h hv
  ops e hmem := by
    cases he.opsMove with
    | same heq => exact h.ops e (heq ▸ hmem)
    | take hops heq => exact h.ops e (by rw [hops]; exact List.mem_cons_of_mem _ (heq ▸ hmem))
    | post hpost heq =>
      rw [heq] at hmem
      rcases List.mem_append.mp hmem with hold | hnew
      · exact h.ops e hold
      · rw [List.mem_singleton.mp hnew]
        exact hpost.encoded h
  loads l hmem data hdata := by
    cases he.loadMove with
    | same heq => exact h.loads l (heq ▸ hmem) data hdata
    | queue heq =>
      rw [heq] at hmem
      rcases List.mem_append.mp hmem with hold | hnew
      · exact h.loads l hold data hdata
      · rw [List.mem_singleton.mp hnew] at hdata
        cases hdata
    | set hl hstep heq =>
      rw [heq] at hmem
      rcases List.mem_or_eq_of_mem_set hmem with hold | rfl
      · exact h.loads l hold data hdata
      · exact hstep.encoded h hdata

/-- A saver takes a step of its own, or the server leaves its flush and the
stores of its roles alone, except that a hash may go. -/
theorem SaverMove.flush_frame (hm : SaverMove s a s') (hwf : ∀ k, (s.savers k).WF)
    (hsharded : ∀ k, Sharded k (s.savers k)) (k : Fin saveGoCnt) :
    (∃ b out, Saver.Effect (s.savers k) s.stores b (s'.savers k) s'.stores out) ∨
      (s'.savers k).flush = (s.savers k).flush ∧ ∀ id, State.saverOf id = k →
        (s'.stores.redis id = s.stores.redis id ∨ s'.stores.redis id = ∅) ∧
          s'.stores.mongo id = s.stores.mongo id := by
  cases hm with
  | quiet hsavers hstores | close hsavers hstores hpc =>
    exact Or.inr ⟨by rw [hsavers], fun _ _ => by rw [hstores]; exact ⟨Or.inl rfl, rfl⟩⟩
  | expire hsavers hstores hact =>
    refine Or.inr ⟨by rw [hsavers], fun id _ => ?_⟩
    rw [hstores]
    exact ⟨s.stores.drop_redis _ id, rfl⟩
  | @push op hpush hsavers hstores =>
    refine Or.inr ⟨?_, fun _ _ => by rw [hstores]; exact ⟨Or.inl rfl, rfl⟩⟩
    rw [hsavers]
    by_cases hk : k = State.saverOf op.id
    · subst hk
      simp [State.push]
    · simp [State.push, Function.update_of_ne hk]
  | @saver j b saver out he hsavers hact =>
    by_cases hk : k = j
    · subst hk
      have hself : s'.savers k = saver := by rw [hsavers, Function.update_self]
      exact Or.inl ⟨b, out, hself ▸ he⟩
    · refine Or.inr ⟨by rw [hsavers, Function.update_of_ne hk], ?_⟩
      intro id hid
      have hother : ¬((s.savers j).batch.lookup id).isSome := fun hsome =>
        hk (hid.symm.trans ((hsharded j).batch id hsome))
      refine ⟨Or.inl ?_, ?_⟩
      · exact ((hwf j).redis_step he id).resolve_right fun hset => hother hset.1
      · refine ((hwf j).mongo_step he id).resolve_right ?_
        rintro ⟨⟨op, hlookup, _⟩, _⟩
        exact hother (by simp [hlookup])

end

/-- What holds in every state of such a history. -/
structure LifeInv (l : Life) : Prop where
  wf : ∀ k, (l.server.savers k).WF
  sharded : ∀ k, Sharded k (l.server.savers k)
  written : ∀ k, (l.server.savers k).Written l.server.stores
  whole : Whole {.TCBase} l.server.stores
  encoded : l.server.Encoded
  persisted : ∀ id, l.persisted id ⊆
    (l.server.stores.redis id).keys ∪ (l.server.stores.mongo id).keys

namespace LifeInv

variable {l : Life}

/-- A server that has just been started holds nothing. -/
theorem restart {now : Int} {stores : Stores TypeComp Text}
    {persisted : RoleID → Finset TypeComp} (hwhole : Whole {.TCBase} stores) (hredis : ∀ id,
      Record.Encoded (stores.redis id))
    (hmongo : ∀ id, Record.Encoded (stores.mongo id))
    (hpersisted : ∀ id, persisted id ⊆ (stores.redis id).keys ∪ (stores.mongo id).keys) :
    LifeInv ⟨State.initial now stores, persisted⟩ where
  wf _ := Saver.newSaver_wf
  sharded _ := ⟨by simp [State.initial, newSaver, SwapQueue.waiting],
    by simp [State.initial, newSaver]⟩
  written _ := .of_flush_none rfl
  whole := hwhole
  encoded :=
    { redis := hredis
      mongo := hmongo
      savers := fun _ =>
        ⟨by simp [State.initial, newSaver, SwapQueue.waiting], fun id => by
          have hfields : Batch.fields (∅ : Batch TypeComp Text) id = ∅ := Batch.fields_empty id
          exact hfields ▸ Record.Encoded.empty⟩
      caches := by simp [State.initial]
      ops := by simp [State.initial]
      loads := by simp [State.initial] }
  persisted := hpersisted

theorem initial (now : Int) : LifeInv (Life.initial now) :=
  restart (fun _ hne => absurd rfl hne) (fun _ => Record.Encoded.empty)
    (fun _ => Record.Encoded.empty) (fun _ => Finset.empty_subset _)

theorem crash (h : LifeInv l) :
    LifeInv { l with server := State.initial l.server.now l.server.stores } :=
  restart h.whole h.encoded.redis h.encoded.mongo h.persisted

/-- The stores together lose nothing in a step of the server. -/
theorem fields_mono {s' : State} {a : Act} (h : LifeInv l) (hok : lifeOk l (.server a))
    (hm : SaverMove l.server a s') (id : RoleID) :
    (l.server.stores.redis id).keys ∪ (l.server.stores.mongo id).keys ⊆
      (s'.stores.redis id).keys ∪ (s'.stores.mongo id).keys := by
  cases hm with
  | quiet hsavers hstores | push hpush hsavers hstores | close hsavers hstores hpc =>
    rw [hstores]
  | saver he hsavers hact =>
    obtain ⟨hredis, hmongo⟩ := (h.wf _).fields_mono he id
    exact Finset.union_subset_union hredis hmongo
  | @expire x hsavers hstores hact =>
    subst hact
    rw [hstores]
    by_cases hx : id = x
    · subst hx
      exact (Finset.union_subset hok (Finset.Subset.refl _)).trans Finset.subset_union_right
    · simp [Stores.drop, Function.update_of_ne hx]

theorem server {s' : State} {a : Act} (h : LifeInv l) (hok : lifeOk l (.server a))
    (hs : l.server.step a = some s') : LifeInv (l.note s') where
  wf k := by
    cases (State.step_effect hs).saverMove.saverStep k with
    | same heq => exact heq ▸ h.wf k
    | push hpush heq => exact heq ▸ (h.wf k).push _
    | close heq hpc => exact heq ▸ (h.wf k).close
    | own hown => exact (h.wf k).effect hown
  sharded k := by
    cases (State.step_effect hs).saverMove.saverStep k with
    | same heq => exact heq ▸ h.sharded k
    | push hpush heq hk => exact heq ▸ (h.sharded k).push hk
    | close heq hpc =>
      exact heq ▸ ⟨by simpa using (h.sharded k).waiting, (h.sharded k).batch⟩
    | own hown => exact (h.sharded k).effect (h.wf k) hown
  written k := by
    rcases (State.step_effect hs).saverMove.flush_frame h.wf h.sharded k with
      ⟨b, out, hown⟩ | ⟨hflush, hstores⟩
    · exact (h.written k).effect (h.wf k) hown
    · exact (h.written k).frame (h.wf k) hflush
        (fun id hid => (hstores id ((h.sharded k).batch id hid)).1)
        fun id hid => (hstores id ((h.sharded k).batch id hid)).2
  whole := by
    cases (State.step_effect hs).saverMove with
    | quiet hsavers hstores | push hpush hsavers hstores | close hsavers hstores hpc =>
      rw [Life.note, hstores]
      exact h.whole
    | saver he hsavers hact =>
      subst hact
      exact h.whole.effect (h.wf _) (h.written _) he hok
    | expire hsavers hstores hact =>
      rw [Life.note, hstores]
      exact h.whole.drop _
  encoded := h.encoded.effect h.wf (State.step_effect hs)
  persisted id := by
    have hold := (h.persisted id).trans (h.fields_mono hok (State.step_effect hs).saverMove id)
    change _ ∪ _ ∪ _ ⊆ (s'.stores.redis id).keys ∪ (s'.stores.mongo id).keys
    rw [Finset.union_assoc]
    exact Finset.union_subset hold (Finset.Subset.refl _)

theorem reachable (h : lifetime.Reachable lifeOk l) : LifeInv l := by
  refine h.invariant (P := LifeInv) ?_ ?_
  · rintro _ ⟨now, rfl⟩
    exact initial now
  · intro l a l' _ hinv hok hs
    cases a with
    | server a =>
      obtain ⟨s', hs', rfl⟩ := Option.map_eq_some_iff.mp hs
      exact hinv.server hok hs'
    | crash =>
      cases hs
      exact hinv.crash

end LifeInv

/-- The two reads of a loader that deliver a record. -/
theorem reads_eq_some {s : State} {i : Nat} {a : LoadAct} {data : DataToSave}
    (h : s.reads i a = some data) :
    ∃ l, s.loads[i]? = some l ∧
      (a = .readRedis ∧ s.stores.redis l.login.roleID ≠ ∅ ∧
          data = ⟨l.login.roleID, some (s.stores.redis l.login.roleID)⟩ ∨
        ∃ last, a = .readMongo last ∧ data = fromDB s.stores.mongo last l.login.roleID) := by
  obtain ⟨t, ht, h⟩ := Option.bind_eq_some_iff.mp h
  obtain ⟨l', hl', h⟩ := Option.bind_eq_some_iff.mp h
  cases State.step_effect ht with
  | @load _ l _ _ hl hload =>
    have hphase : ∀ phase, (s.setLoad i phase).loads[i]? = some { l with phase } := by
      intro phase
      have hlt : i < s.loads.length := (List.getElem?_eq_some_iff.mp hl).1
      simp only [State.setLoad, hl]
      exact List.getElem?_set_self hlt
    refine ⟨l, hl, ?_⟩
    cases hload with
    | hit hp hsome =>
      rw [hphase] at hl'
      cases hl'
      cases h
      exact Or.inl ⟨rfl, hsome, rfl⟩
    | mongo hp hlast =>
      rw [hphase] at hl'
      cases hl'
      cases h
      exact Or.inr ⟨_, rfl, rfl⟩
    | miss hp hempty | post hp | drop hp =>
      rw [hphase] at hl'
      cases hl'
      cases h

/-- The hash of a role holds all that was ever persisted for it. -/
theorem LifeInv.delivers_hash {l : Life} (h : LifeInv l) {id : RoleID}
    (hsome : l.server.stores.redis id ≠ ∅) :
    Delivers l ⟨id, some (l.server.stores.redis id)⟩ := by
  have hwhole := h.whole id hsome
  have hbase : ((l.server.stores.redis id).lookup .TCBase).isSome := by
    rw [Finmap.lookup_isSome, ← Finmap.mem_keys]
    exact hwhole (by simp)
  refine ⟨?_, fun _ => ⟨hbase, unmarshalRole_of_encoded (h.encoded.redis id) hbase⟩⟩
  intro c hc
  have hmem : c ∈ (l.server.stores.redis id).keys := by
    rcases Finset.mem_union.mp (h.persisted id hc) with hredis | hmongo
    · exact hredis
    · exact hwhole (Finset.mem_union_right _ hmongo)
  obtain ⟨t, ht⟩ := Finmap.mem_iff.mp (Finmap.mem_keys.mp hmem)
  exact ⟨t, by simp [Stores.lastPersisted, ht], ht⟩

/-- The record that a loader reads for a login has, for every component ever
persisted for the role, the value last persisted for it, and `NewRole` takes
it if anything was persisted. -/
theorem load_delivers_persisted {l : Life} (h : lifetime.Reachable lifeOk l) {i : Nat}
    {a : LoadAct} {data : DataToSave} (hok : lifeOk l (.server (.load i a)))
    (hread : l.server.reads i a = some data) : Delivers l data := by
  have hinv := LifeInv.reachable h
  obtain ⟨ld, hl, ⟨_, hsome, rfl⟩ | ⟨last, rfl, rfl⟩⟩ := reads_eq_some hread
  · exact hinv.delivers_hash hsome
  · -- Neither store holds anything, so nothing was ever persisted.
    obtain ⟨hredis, hmongo⟩ := hok ld hl
    have hnone : l.persisted ld.login.roleID = ∅ := by
      have hsub := hinv.persisted ld.login.roleID
      rw [hredis, hmongo, Finmap.keys_empty, Finset.union_empty] at hsub
      exact Finset.subset_empty.mp hsub
    constructor
    · intro c hc
      rw [fromDB_roleID, hnone] at hc
      exact absurd hc (Finset.notMem_empty c)
    · rintro ⟨c, hc⟩
      rw [fromDB_roleID, hnone] at hc
      exact absurd hc (Finset.notMem_empty c)

/-- A role saves its dirty components, and the saver writes them. -/
def saveDirty (id : RoleID) (both : Bool) (flush : List SaverAct) : List Act :=
  [.role 0 (.save both), .logon .onOps] ++
    onSaver id ([.drain, .mergeNext, .beginFlush [id], .execPipe true [] []] ++ flush)

/-- A role is created and saved in both stores. -/
def createSaved (id : RoleID) : List LifeAct :=
  (firstLogin id 1 ++ saveDirty id true [.saveToDB true [], .postSuccess]).map .server

/-- The process crashes and the role logs in again, up to the read of Redis. -/
def crashedLogin (id : RoleID) : List LifeAct :=
  [.crash, .server (.login ⟨id, 2, 2⟩), .server (.logon .onOps)]

/-- The login goes on with what Redis holds, up to the `Online` of the role. -/
def loadHash : List LifeAct :=
  ([.load 0 .readRedis, .load 0 .post, .logon .onOps, .logon .register, .logon .register,
    .logon .register, .role 0 .online] : List Act).map .server

theorem crashedLogin_delivers :
    ∃ l data, lifetime.Reachable lifeOk l ∧ l.server.reads 0 .readRedis = some data ∧
      (l.persisted data.roleID).Nonempty ∧ Delivers l data := by
  obtain ⟨l, hl, hok, hread⟩ := Machine.exec_reaches (m := lifetime) lifeOk
    (fun l => lifeOk l (.server (.load 0 .readRedis)) ∧
      ∃ data ∈ l.server.reads 0 .readRedis, (l.persisted data.roleID).Nonempty)
    (createSaved 7 ++ crashedLogin 7) ⟨1, rfl⟩ (by decide +kernel)
  obtain ⟨data, hdata, hsome⟩ := hread
  exact ⟨l, data, hl, hdata, hsome, load_delivers_persisted hl hok hdata⟩

/-- A role is loaded from Redis a second before its key expires. Its first save,
which goes to both stores, makes a hash with the dirty components alone, and
after a crash the load takes that hash for the whole record. -/
theorem expiredSave_not_delivers :
    ∃ l data, lifetime.Reachable Machine.anyStep l ∧
      l.server.reads 0 .readRedis = some data ∧ ¬Delivers l data := by
  obtain ⟨l, hl, hread⟩ := Machine.exec_reaches (m := lifetime) Machine.anyStep
    (fun l => ∃ data ∈ l.server.reads 0 .readRedis,
      TypeComp.TCBase ∈ l.persisted data.roleID ∧ (data.data.getD ∅).lookup .TCBase = none)
    (createSaved 7 ++ [.server (.tick 604799)] ++ crashedLogin 7 ++ loadHash ++
      [.server (.tick 1), .server (.expire 7)] ++
      (saveDirty 7 true [.saveToDB true [], .postSuccess]).map .server ++ crashedLogin 7)
    ⟨1, rfl⟩ (by decide +kernel)
  obtain ⟨data, hdata, hbase, hnone⟩ := hread
  refine ⟨l, data, hl, hdata, fun hdelivers => ?_⟩
  obtain ⟨t, _, ht⟩ := hdelivers.values _ hbase
  rw [hnone] at ht
  cases ht

end GameCluster
