import GameCluster.Logon.Tagged
import GameCluster.Save.Fate

/-!
The savers of a game server. A server step pushes one op to the saver of its
role, is a step of one saver, closes all queues, drops the hash of one role, or
leaves savers and stores alone. Each saver works for the roles of its shard only,
so what a saver keeps about its roles (`Saver.Upheld`) holds in the server.
-/

namespace GameCluster

open Lib

/-- Everything a saver holds is for roles of its shard. -/
structure Sharded (k : Fin saveGoCnt) (s : Saver TypeComp Text) : Prop where
  waiting : ∀ op ∈ s.q.waiting, State.saverOf op.id = k
  batch : ∀ id, (s.batch.lookup id).isSome → State.saverOf id = k

structure SaversOk (s : State) : Prop where
  wf : ∀ k, (s.savers k).WF
  written : ∀ k, (s.savers k).Written s.stores
  sharded : ∀ k, Sharded k (s.savers k)

variable {k : Fin saveGoCnt} {s : State} {a : SaverAct} {out : Option (List RoleID)}

theorem Sharded.effect {s s' : Saver TypeComp Text} {st st' : Stores TypeComp Text}
    (h : Sharded k s) (hwf : s.WF) (he : Saver.Effect s st a s' st' out) : Sharded k s' where
  waiting op hop := h.waiting op (by rw [he.waiting]; exact List.mem_append_right _ hop)
  batch id hid := by
    obtain ⟨new, hnew⟩ := Option.isSome_iff_exists.mp hid
    rcases he.batch_origin hwf hnew with hold | ⟨op, hop, rfl, _⟩
    · exact h.batch id (by simp [hold])
    · exact h.waiting op hop

theorem Sharded.push {s : Saver TypeComp Text} {op : OpSaveData TypeComp Text} (h : Sharded k s)
    (hop : State.saverOf op.id = k) :
    Sharded k { s with q := (s.q.push op).1 } where
  waiting o ho := by
    rw [SwapQueue.push_waiting] at ho
    split at ho
    · rcases List.mem_append.mp ho with hold | hnew
      · exact h.waiting o hold
      · rw [List.mem_singleton.mp hnew]
        exact hop
    · exact h.waiting o ho
  batch := h.batch

/-- A saver's step leaves the stores alone outside its shard. -/
theorem SaversOk.stores_of_ne (h : SaversOk s) {saver : Saver TypeComp Text}
    {stores : Stores TypeComp Text} (he : Saver.Effect (s.savers k) s.stores a saver stores out)
    {id : RoleID} (hid : State.saverOf id ≠ k) :
    stores.redis id = s.stores.redis id ∧ stores.mongo id = s.stores.mongo id := by
  constructor
  · rcases (h.wf k).redis_step he id with heq | ⟨hsome, _⟩
    · exact heq
    · exact absurd ((h.sharded k).batch id hsome) hid
  · rcases (h.wf k).mongo_step he id with heq | ⟨⟨op, hop, _⟩, _⟩
    · exact heq
    · exact absurd ((h.sharded k).batch id (by simp [hop])) hid

theorem SaversOk.move {s s' : State} {act : Act} (h : SaversOk s) (hm : SaverMove s act s') :
    SaversOk s' := by
  cases hm with
  | quiet hsavers hstores =>
    refine ⟨?_, ?_, ?_⟩
    · rw [hsavers]
      exact h.wf
    · rw [hsavers, hstores]
      exact h.written
    · rw [hsavers]
      exact h.sharded
  | @push op hpush hsavers hstores =>
    have hk : ∀ k, s'.savers k = s.savers k ∨ State.saverOf op.id = k ∧
        s'.savers k = { s.savers k with q := ((s.savers k).q.push op).1 } := by
      intro k
      rw [hsavers]
      by_cases hk : k = State.saverOf op.id
      · subst hk
        exact Or.inr ⟨rfl, by simp [State.push]⟩
      · exact Or.inl (by simp [State.push, Function.update_of_ne hk])
    refine ⟨fun k => ?_, fun k => ?_, fun k => ?_⟩
    · rcases hk k with heq | ⟨_, heq⟩
      · rw [heq]
        exact h.wf k
      · rw [heq]
        exact (h.wf k).push op
    · rw [hstores]
      rcases hk k with heq | ⟨_, heq⟩
      · rw [heq]
        exact h.written k
      · rw [heq]
        exact (h.written k).frame (h.wf k) rfl (fun _ _ => Or.inl rfl) (fun _ _ => rfl)
    · rcases hk k with heq | ⟨hop, heq⟩
      · rw [heq]
        exact h.sharded k
      · rw [heq]
        exact (h.sharded k).push hop
  | close hsavers hstores hpc =>
    refine ⟨fun k => ?_, fun k => ?_, fun k => ?_⟩
    · rw [hsavers]
      exact (h.wf k).close
    · rw [hsavers, hstores]
      exact (h.written k).frame (h.wf k) rfl (fun _ _ => Or.inl rfl) (fun _ _ => rfl)
    · rw [hsavers]
      exact ⟨by simpa using (h.sharded k).waiting, (h.sharded k).batch⟩
  | @saver j a sv out he hsavers =>
    have hj : s'.savers j = sv := by simp [hsavers]
    have hother : ∀ k, k ≠ j → s'.savers k = s.savers k := fun k hk => by
      simp [hsavers, Function.update_of_ne hk]
    refine ⟨fun k => ?_, fun k => ?_, fun k => ?_⟩
    · by_cases hk : k = j
      · rw [hk, hj]
        exact (h.wf j).effect he
      · rw [hother k hk]
        exact h.wf k
    · by_cases hk : k = j
      · rw [hk, hj]
        exact (h.written j).effect (h.wf j) he
      · refine (h.written k).frame (h.wf k) (by rw [hother k hk]) ?_ ?_ <;> intro id hid
        · exact Or.inl
            (h.stores_of_ne he fun heq => hk (((h.sharded k).batch id hid).symm.trans heq)).1
        · exact (h.stores_of_ne he fun heq => hk (((h.sharded k).batch id hid).symm.trans heq)).2
    · by_cases hk : k = j
      · rw [hk, hj]
        exact (h.sharded j).effect (h.wf j) he
      · rw [hother k hk]
        exact h.sharded k
  | expire hsavers hstores hact =>
    refine ⟨?_, ?_, ?_⟩
    · rw [hsavers]
      exact h.wf
    · rw [hsavers, hstores]
      exact fun k => (h.written k).drop (h.wf k) _
    · rw [hsavers]
      exact h.sharded

theorem SaversOk.reachable {ok : State → Act → Prop} (h : gameServer.Reachable ok s) :
    SaversOk s := by
  refine h.invariant ?_ fun _ _ _ _ hi _ hs => hi.move (State.step_effect hs).saverMove
  rintro _ ⟨now, stores, rfl⟩
  exact ⟨fun _ => Saver.newSaver_wf, fun _ => .of_flush_none rfl,
    fun _ => ⟨by simp [State.initial, newSaver, SwapQueue.waiting],
      by simp [State.initial, newSaver]⟩⟩

/-- What a saver upholds about a role holds after a server step that pushes
only fitting ops for it, provided it survives the expiry of the role's key if
that is the step. -/
theorem Saver.Upheld.move {P : Saver TypeComp Text → Stores TypeComp Text → Prop} {id : RoleID}
    {fits : OpSaveData TypeComp Text → Prop} (hup : Saver.Upheld P id fits) {s s' : State}
    {act : Act} (hok : SaversOk s) (hm : SaverMove s act s')
    (hfits : ∀ op, Pushes s op → op.id = id → fits op)
    (hexpire : act = .expire id → P (s.saver id) (s.stores.drop id))
    (h : P (s.saver id) s.stores) : P (s'.saver id) s'.stores := by
  cases hm with
  | quiet hsavers hstores =>
    rw [State.saver, hsavers, hstores]
    exact h
  | @push op hpush hsavers hstores =>
    rw [State.saver, hsavers, hstores]
    by_cases hk : State.saverOf id = State.saverOf op.id
    · simp only [State.push, hk, Function.update_self]
      rw [State.saver, hk] at h
      exact hup.push h (hfits op hpush)
    · simp only [State.push, Function.update_of_ne hk]
      exact h
  | close hsavers hstores hpc =>
    rw [State.saver, hsavers, hstores]
    exact hup.close h
  | @saver k a sv out he hsavers =>
    rw [State.saver, hsavers]
    by_cases hk : State.saverOf id = k
    · subst hk
      rw [Function.update_self]
      exact hup.effect (hok.wf _) (hok.written _) h he
    · rw [Function.update_of_ne hk]
      obtain ⟨hredis, hmongo⟩ := hok.stores_of_ne he hk
      exact hup.stores h hredis hmongo
  | @expire x hsavers hstores hact =>
    rw [State.saver, hsavers, hstores]
    by_cases hx : id = x
    · subst hx
      exact hexpire hact
    · exact hup.stores h (by simp [Stores.drop, Function.update_of_ne hx]) rfl

theorem Saver.Effect.closed {s s' : Saver TypeComp Text} {st st' : Stores TypeComp Text}
    (he : Saver.Effect s st a s' st' out) :
    s'.q.closed = s.q.closed := by
  have hnext : ∀ f : Flush TypeComp Text, (s.nextChunk f).q = s.q := by
    intro f
    unfold Saver.nextChunk
    split <;> rfl
  cases he with
  | drain hidle =>
    simp only [SwapQueue.swap]
    split <;> rfl
  | bulkNone | post => rw [hnext]
  | _ => rfl

/-- The queues are closed by the login goroutine when it returns. -/
theorem queues_open {ok : State → Act → Prop} (h : gameServer.Reachable ok s)
    (hpc : s.pc ≠ .exited) (k : Fin saveGoCnt) : (s.savers k).q.closed = false := by
  revert hpc k
  refine h.invariant
    (P := fun s => s.pc ≠ .exited → ∀ k, (s.savers k).q.closed = false) ?_ ?_
  · rintro _ ⟨now, stores, rfl⟩ _ k
    rfl
  · intro s a t _ hi _ hs hpc k
    have he := State.step_effect hs
    have hlive : s.pc ≠ .exited := fun hexit => hpc (he.exited hexit)
    cases he.saverMove.saverStep k with
    | same heq => exact heq ▸ hi hlive k
    | push hpush heq => simp [heq, SwapQueue.push_contents, hi hlive]
    | close heq hexit => exact absurd hexit hpc
    | own hown =>
      rw [hown.closed]
      exact hi hlive k

end GameCluster
