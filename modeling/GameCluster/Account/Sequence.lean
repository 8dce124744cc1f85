import GameCluster.Account.Moves

/-!
The login sequence of an account whose hash does not expire. The scripts compare
decimal texts, and the stored text stands for a number that only a successful
`saveLoginLua` moves, by one. A login that succeeds has therefore seen the state
that all logins before it have left, and a `RoleClear` that clears has the number
of the last one.
-/

namespace GameCluster.Account

open Lib

/-- The login succeeded, or Redis did not report its fate. -/
def Outcome.advances : Outcome → Bool
  | .saved _ => true
  | .failed => true
  | _ => false

def State.loginCount (s : State) (a : UInt64) : ℕ := (s.events a).countP (·.outcome.advances)

/-- The runs on one account, in the order in which they happened. -/
structure SeqCAS (events : List Event) : Prop where
  saved : ∀ e ∈ events, ∀ acc, e.outcome = .saved acc →
    ∃ n : ℕ, e.before.Reads .seq n ∧ e.after.Reads .seq (n + 1) ∧ acc.seq.toNat = n + 1
  distinct : ∀ e e' acc acc', [e, e'].Sublist events → e.outcome = .saved acc →
    e'.outcome = .saved acc' → acc.seq ≠ acc'.seq
  rejected : ∀ e ∈ events, ∀ code, e.outcome = .rejected code → e.after = e.before
  cleared : ∀ e ∈ events, ∀ seq ok, e.outcome = .cleared seq ok →
    e.after = if ok then e.before.insert .gameID "0" else e.before
  /-- No login has succeeded between the one that returned `acc.seq` and a clear with it. -/
  undisturbed : ∀ e x c acc acc', [e, x, c].Sublist events → e.outcome = .saved acc →
    x.outcome = .saved acc' → c.outcome ≠ .cleared acc.seq true
  /-- What is cleared is no newer login's. -/
  latest : ∀ e c acc seq, [e, c].Sublist events → e.outcome = .saved acc →
    c.outcome = .cleared seq true → acc.seq ≤ seq

/-- A run has changed the hash as its outcome says. -/
def Event.Right (e : Event) : Prop :=
  match e.outcome with
  | .saved acc =>
    ∃ n : ℕ, e.before.Reads .seq n ∧ e.after.Reads .seq (n + 1) ∧ acc.seq.toNat = n + 1
  | .rejected _ => e.after = e.before
  | .failed => True
  | .cleared _ ok => e.after = if ok then e.before.insert .gameID "0" else e.before

/-- What may come after a successful login. -/
def Event.Before (e e' : Event) : Prop :=
  ∀ acc, e.outcome = .saved acc →
    (∀ acc', e'.outcome = .saved acc' → acc.seq < acc'.seq) ∧
      ∀ seq, e'.outcome = .cleared seq true → acc.seq ≤ seq

/-- The stored sequence number is `n`, and no login has returned a greater one. -/
structure Sequenced (a : UInt64) (s : State) (n : ℕ) : Prop where
  stored : (s.hash a).Reads .seq n
  count : n ≤ s.loginCount a
  right : ∀ e ∈ s.events a, e.Right
  bounded : ∀ e ∈ s.events a, ∀ acc, e.outcome = .saved acc → acc.seq.toNat ≤ n
  order : (s.events a).Pairwise Event.Before

variable {a passwd : UInt64} {s s' : State} {n : ℕ}

theorem Sequenced.seqCAS (h : Sequenced a s n) : SeqCAS (s.events a) := by
  have hpair : ∀ e e', [e, e'].Sublist (s.events a) → e.Before e' := by
    intro e e' hsub
    simpa using h.order.sublist hsub
  constructor
  case saved =>
    intro e he acc hout
    simpa [Event.Right, hout] using h.right e he
  case distinct =>
    intro e e' acc acc' hsub hout hout'
    exact UInt32.ne_of_lt ((hpair e e' hsub acc hout).1 acc' hout')
  case rejected =>
    intro e he code hout
    simpa [Event.Right, hout] using h.right e he
  case cleared =>
    intro e he seq ok hout
    simpa [Event.Right, hout] using h.right e he
  case undisturbed =>
    intro e x c acc acc' hsub hout hout' hclear
    have hex : [e, x].Sublist [e, x, c] := by simp
    have hxc : [x, c].Sublist [e, x, c] := by simp
    have hlt := (hpair e x (hex.trans hsub) acc hout).1 acc' hout'
    have hle := (hpair x c (hxc.trans hsub) acc' hout').2 acc.seq hclear
    exact absurd hlt (UInt32.not_lt.mpr hle)
  case latest =>
    intro e c acc seq hsub hout hclear
    exact (hpair e c hsub acc hout).2 seq hclear

theorem SameState.reads (h : SameState a s s') {f : Field} (hf : f ∈ stateFields)
    (hr : (s.hash a).Reads f n) : (s'.hash a).Reads f n := by
  rw [Hash.Reads, h f hf]
  exact hr

theorem SameState.holds (h : SameState a s s') {gameID : UInt8} {seq : UInt32}
    (hh : (s.hash a).Holds gameID seq passwd) :
    (s'.hash a).Holds gameID seq passwd :=
  ⟨h.reads (by decide) hh.gameID, h.reads (by decide) hh.seq, h.reads (by decide) hh.passwd⟩

theorem Hash.login_holds (h : Hash) (acc : Data) :
    (h.login acc).Holds acc.gameID acc.seq acc.passwd := by
  constructor <;> exact Or.inr (by simp [Hash.login])

theorem Sequenced.of_eq (h : Sequenced a s n) (hhash : SameState a s s')
    (hevents : s'.events a = s.events a) : Sequenced a s' n where
  stored := hhash.reads (by decide) h.stored
  count := by
    rw [State.loginCount, hevents]
    exact h.count
  right := hevents ▸ h.right
  bounded := hevents ▸ h.bounded
  order := hevents ▸ h.order

/-- One more run on the account. -/
theorem Sequenced.concat {n n' : ℕ} (h : Sequenced a s n) {e : Event}
    (hevents : s'.events a = s.events a ++ [e]) (hstored : (s'.hash a).Reads .seq n')
    (hn : n ≤ n') (hcount : n' ≤ s'.loginCount a) (hright : e.Right)
    (hsaved : ∀ acc, e.outcome = .saved acc → n < acc.seq.toNat ∧ acc.seq.toNat ≤ n')
    (hclear : ∀ seq, e.outcome = .cleared seq true → n ≤ seq.toNat) : Sequenced a s' n' where
  stored := hstored
  count := hcount
  right := by
    rw [hevents]
    intro x hx
    obtain hx | rfl := List.mem_append.mp hx |>.imp_right List.mem_singleton.mp
    · exact h.right x hx
    · exact hright
  bounded := by
    rw [hevents]
    intro x hx acc hout
    obtain hx | rfl := List.mem_append.mp hx |>.imp_right List.mem_singleton.mp
    · exact (h.bounded x hx acc hout).trans hn
    · exact (hsaved acc hout).2
  order := by
    rw [hevents, List.pairwise_append]
    refine ⟨h.order, List.pairwise_singleton _ _, ?_⟩
    intro x hx y hy acc hout
    obtain rfl := List.mem_singleton.mp hy
    have hle := h.bounded x hx acc hout
    constructor
    · intro acc' hout'
      exact UInt32.lt_iff_toNat_lt.mpr (hle.trans_lt (hsaved acc' hout').1)
    · intro seq hout'
      exact UInt32.le_iff_toNat_le.mpr (hle.trans (hclear seq hout'))

theorem Hash.login_seq (h : Hash) (acc : Data) : (h.login acc).Reads .seq acc.seq.toNat := by
  refine Or.inr ?_
  simp [Hash.login]

/-- A login that finds the stored number as it has read it stores the next. -/
theorem next_seq {h : Hash} {acc acc' : Data} {req : Request} {d : Discovery}
    (hr : h.Reads .seq n) (hn : n + 1 < 2 ^ 32)
    (hfin : finalizeLoginSession acc req d passwd = .ok acc')
    (hseq : h.currentSeq = acc.seq.toNat.repr) : acc'.seq.toNat = n + 1 := by
  have heq : n = acc.seq.toNat := (hr.currentSeq_eq_iff _).mp hseq
  obtain ⟨_, -, rfl⟩ := finalizeLoginSession_eq hfin
  rw [UInt32.toNat_add]
  simp only [UInt32.toNat_one]
  omega

theorem record_loginCount {bind : String} {outcome : Outcome} :
    (s.record s' a bind outcome).loginCount a =
      s'.loginCount a + if outcome.advances then 1 else 0 := by
  rw [State.loginCount, record_events, if_pos rfl, List.countP_append, List.countP_singleton,
    State.loginCount]

theorem Sequenced.finalize (h : Sequenced a s n) {l : Login} {acc : Data} {d : Discovery}
    {outcome : Outcome} (ha : acc.accID = a) (hf : Finalize s l acc d passwd s' outcome)
    (hcount : (s.record s' acc.accID l.req.bindAcc outcome).loginCount a < 2 ^ 32 - 1) :
    ∃ n', Sequenced a (s.record s' acc.accID l.req.bindAcc outcome) n' := by
  subst ha
  have hlog : s'.loginCount acc.accID = s.loginCount acc.accID := by
    rw [State.loginCount, State.events, hf.frame.2.2.2.2]
    rfl
  have hevents : (s.record s' acc.accID l.req.bindAcc outcome).events acc.accID =
      s.events acc.accID ++ [⟨acc.accID, l.req.bindAcc, outcome, s.hash acc.accID,
        s'.hash acc.accID⟩] := by
    rw [record_events, if_pos rfl, State.events, hf.frame.2.2.2.2]
    rfl
  have hold := h.count
  rw [record_loginCount, hlog] at hcount
  cases hf with
  | rejected =>
    refine ⟨n, h.concat hevents h.stored le_rfl ?_ rfl (by simp) (by simp)⟩
    rw [record_loginCount]
    omega
  | failed =>
    refine ⟨n, h.concat hevents h.stored le_rfl ?_ trivial (by simp) (by simp)⟩
    rw [record_loginCount]
    omega
  | @lost acc' hfin hseq =>
    simp only [Outcome.advances, if_true] at hcount
    have hnext := next_seq h.stored (by omega) hfin hseq
    refine ⟨n + 1, h.concat hevents ?_ (by omega) ?_ trivial (by simp) (by simp)⟩
    · show ((s.setHash acc.accID _).hash acc.accID).Reads .seq (n + 1)
      rw [setHash_hash, if_pos rfl, ← hnext]
      exact Hash.login_seq _ _
    · rw [record_loginCount, hlog]
      simp only [Outcome.advances, if_true]
      omega
  | @saved acc' hfin hseq =>
    simp only [Outcome.advances, if_true] at hcount
    have hnext := next_seq h.stored (by omega) hfin hseq
    have hstored : ((s.setHash acc.accID ((s.hash acc.accID).login acc')).hash
        acc.accID).Reads .seq (n + 1) := by
      rw [setHash_hash, if_pos rfl, ← hnext]
      exact Hash.login_seq _ _
    refine ⟨n + 1, h.concat hevents hstored (by omega) ?_ ?_ ?_ (by simp)⟩
    · rw [record_loginCount, hlog]
      simp only [Outcome.advances, if_true]
      omega
    · exact ⟨n, h.stored, hstored, hnext⟩
    · intro acc'' hout
      obtain rfl := Outcome.saved.inj hout
      omega

theorem Sequenced.clear (h : Sequenced a s n) {m : RoleClear} {ok : Bool} (ha : m.accID = a)
    (hc : Clear s m s' ok) :
    Sequenced a (s.record s' m.accID "" (.cleared m.seq ok)) n := by
  subst ha
  have hevents : (s.record s' m.accID "" (.cleared m.seq ok)).events m.accID =
      s.events m.accID ++ [⟨m.accID, "", .cleared m.seq ok, s.hash m.accID, s'.hash m.accID⟩] := by
    rw [record_events, if_pos rfl, State.events, hc.frame.2.2.2.2.2]
    rfl
  have hcount : n ≤ (s.record s' m.accID "" (.cleared m.seq ok)).loginCount m.accID := by
    have hlog : s'.loginCount m.accID = s.loginCount m.accID := by
      rw [State.loginCount, State.events, hc.frame.2.2.2.2.2]
      rfl
    rw [record_loginCount, hlog]
    exact h.count.trans (Nat.le_add_right _ _)
  cases hc with
  | ignored => exact h.concat hevents h.stored le_rfl hcount rfl (by simp) (by simp)
  | cleared hseq =>
    have hhash : (s.setHash m.accID ((s.hash m.accID).insert .gameID "0")).hash m.accID =
        (s.hash m.accID).insert .gameID "0" := by
      rw [setHash_hash, if_pos rfl]
    refine h.concat hevents ?_ le_rfl hcount hhash (by simp) ?_
    · show ((s.setHash m.accID _).hash m.accID).Reads .seq n
      rw [hhash, Hash.Reads, Map.lookup_insert_ite, if_neg (by decide)]
      exact h.stored
    · intro seq hout
      obtain ⟨rfl, -⟩ := Outcome.cleared.inj hout
      exact ((h.stored.currentSeq_eq_iff _).mp hseq).le

theorem Sequenced.initial (h : accounts.init s) (a : UInt64) : Sequenced a s 0 := by
  obtain ⟨hhashes, -, -, -, -, -, -, -, hlog⟩ := h
  have hevents : s.events a = [] := by rw [State.events, hlog, List.filter_nil]
  constructor
  case stored => exact Or.inl ⟨by simp [State.hash, hhashes], rfl⟩
  case count => exact Nat.zero_le _
  case right => simp [hevents]
  case bounded => simp [hevents]
  case order => simp [hevents]

theorem loginCount_mono {act : Act} (h : AccountMove a s act s') :
    s.loginCount a ≤ s'.loginCount a := by
  have heq : ∀ {t t' : State}, t'.events a = t.events a → t.loginCount a ≤ t'.loginCount a :=
    fun h => by rw [State.loginCount, State.loginCount, h]
  cases h with
  | quiet _ hframe | expired _ _ _ hframe => exact heq hframe.events
  | finalize hl hp ha hf =>
    rw [ha, record_loginCount]
    refine (heq ?_).trans (Nat.le_add_right _ _)
    rw [State.events, hf.frame.2.2.2.2]
    rfl
  | receive hm ha accepted | cleanup hseq => exact le_rfl
  | roleClear hm ha hc =>
    rw [ha, record_loginCount]
    refine (heq ?_).trans (Nat.le_add_right _ _)
    rw [State.events, hc.frame.2.2.2.2.2]
    rfl

theorem Sequenced.move {act : Act} (h : Sequenced a s n) (hkeeps : keeps a s act)
    (hm : AccountMove a s act s') (hcount : s'.loginCount a < 2 ^ 32 - 1) :
    ∃ n', Sequenced a s' n' := by
  cases hm with
  | quiet hhash hframe => exact ⟨n, h.of_eq hhash hframe.events⟩
  | expired hact => exact absurd hkeeps hact
  | @finalize i l acc _ _ _ _ _ hl hp ha hf =>
    have hdone : Sequenced a (s.setPhase i l .done) n := h.of_eq (.of_hash rfl) rfl
    exact hdone.finalize ha hf hcount
  | receive hm ha accepted | cleanup hseq => exact ⟨n, h.of_eq (.of_hash rfl) rfl⟩
  | @roleClear k m _ _ _ hm ha hc =>
    have hsame : Sequenced a { s with clears := s.clears.eraseIdx k } n :=
      h.of_eq (.of_hash rfl) rfl
    exact ⟨n, hsame.clear ha hc⟩

/-- As long as the account's hash stays and its sequence number does not wrap around,
every login that succeeds takes the number one higher, and a clear takes effect only
for the latest of them. -/
theorem login_sequence_cas {a : UInt64} {s : State} (h : accounts.Reachable (keeps a) s)
    (hcount : s.loginCount a < 2 ^ 32 - 1) : SeqCAS (s.events a) := by
  have hinv : s.loginCount a < 2 ^ 32 - 1 → ∃ n, Sequenced a s n := by
    refine accounts_invariant (P := fun s => s.loginCount a < 2 ^ 32 - 1 → ∃ n, Sequenced a s n)
      a (fun _ hs _ => ⟨0, Sequenced.initial hs a⟩) ?_ h
    intro s act s' ih hkeeps hm hbound
    obtain ⟨n, hn⟩ := ih ((loginCount_mono hm).trans_lt hbound)
    exact hn.move hkeeps hm hbound
  obtain ⟨n, hn⟩ := hinv hcount
  exact hn.seqCAS

/-- A player logs in again while the game server gives the role of the first login
back: the late clear is ignored, and that of the second login is not. -/
theorem lateClear_sequence : ∃ s, accounts.Reachable (keeps 1) s ∧ s.loginCount 1 < 2 ^ 32 - 1 ∧
    (s.events 1).map (fun e => (e.after.currentSeq, e.after.lookup .gameID)) =
      [("1", some "3"), ("2", some "3"), ("2", some "3"), ("2", some "0")] ∧
      SeqCAS (s.events 1) := by
  obtain ⟨s, hr, hcount, hs⟩ := Machine.exec_reaches (m := accounts) (keeps 1)
    (fun s => s.loginCount 1 < 2 ^ 32 - 1 ∧
      (s.events 1).map (fun e => (e.after.currentSeq, e.after.lookup .gameID)) =
        [("1", some "3"), ("2", some "3"), ("2", some "3"), ("2", some "0")])
    (register 0 "1@a" 3 ++ [Act.receive 0 true] ++ relogin 1 "1@a" 3 ++
      [Act.cleanup 3 1, .roleClear 0 none, .receive 0 true, .cleanup 3 1, .roleClear 0 none])
    accounts_empty (by decide +kernel)
  exact ⟨s, hr, hcount, hs, login_sequence_cas hr hcount⟩

end GameCluster.Account
