import GameCluster.Account.Binds

/-!
A step seen from one account. Only the two scripts write the login state of an
account's hash (`game_id`, `seq`, `passwd`): the pipelines write the other
fields. A login that goes on with an account has taken over the login state as
it stood when it read the hash, or none if it has registered the account.
-/

namespace GameCluster.Account

open Lib

/-- The command leaves the login state alone. -/
def Cmd.Plain : Cmd → Prop
  | .hset _ fields => ∀ f ∈ fields, f.1 ∉ stateFields
  | _ => True

/-- The account that a login goes on with. -/
def Phase.account : Phase → Option Data
  | .pipeline _ acc => some acc
  | .loaded acc => some acc
  | _ => none

def Phase.Plain : Phase → Prop
  | .pipeline cmds _ => ∀ c ∈ cmds, c.Plain
  | _ => True

structure Plain (s : State) : Prop where
  logins : ∀ l ∈ s.logins, l.phase.Plain
  writers : ∀ cmds ∈ s.writers, ∀ c ∈ cmds, c.Plain

theorem syncCmds_plain (bind : String) (acc : Data) : ∀ c ∈ State.syncCmds bind acc, c.Plain := by
  refine forall_mem_pipeline (fun f hf => ?_) trivial trivial
  simp only [List.mem_cons, List.not_mem_nil, or_false] at hf
  obtain rfl | rfl | rfl := hf <;> simp [stateFields]

theorem registerCmds_plain (bind : String) (id : UInt64) :
    ∀ c ∈ State.registerCmds bind id, c.Plain := by
  refine forall_mem_pipeline (fun f hf => ?_) trivial trivial
  simp only [List.mem_cons, List.not_mem_nil, or_false] at hf
  obtain rfl | rfl := hf <;> simp [stateFields]

variable {s s' : State} {phase : Phase} {l : Login} {outcome : Outcome} {a : UInt64}

theorem Plain.setPhase (h : Plain s) (i : Nat) (l : Login) (hp : phase.Plain) :
    Plain (s.setPhase i l phase) := by
  refine ⟨?_, h.writers⟩
  intro l' hl'
  obtain hl' | rfl := List.mem_or_eq_of_mem_set hl'
  · exact h.logins l' hl'
  · exact hp

theorem Plain.of_eq (h : Plain s) (hlogins : s'.logins = s.logins)
    (hwriters : s'.writers = s.writers) : Plain s' :=
  ⟨hlogins ▸ h.logins, hwriters ▸ h.writers⟩

theorem Moves.plain (h : Moves s l phase) : phase.Plain := by
  cases h with
  | enriched hp => exact syncCmds_plain _ _
  | _ => trivial

theorem Finalize.frame {acc : Data} {d : Discovery} {passwd : UInt64}
    (h : Finalize s l acc d passwd s' outcome) :
    s'.logins = s.logins ∧ s'.writers = s.writers ∧ s'.clears = s.clears ∧ s'.holds = s.holds ∧
      s'.log = s.log := by
  cases h <;> exact ⟨rfl, rfl, rfl, rfl, rfl⟩

theorem Clear.frame {m : RoleClear} {ok : Bool} (h : Clear s m s' ok) :
    s'.logins = s.logins ∧ s'.writers = s.writers ∧ s'.clears = s.clears ∧ s'.holds = s.holds ∧
      s'.reqs = s.reqs ∧ s'.log = s.log := by
  cases h <;> exact ⟨rfl, rfl, rfl, rfl, rfl, rfl⟩

theorem Plain.step {a : Act} (h : Plain s) (he : Effect s a s') : Plain s' := by
  cases he with
  | @login req =>
    refine ⟨?_, h.writers⟩
    intro l hl
    obtain hl | rfl : l ∈ s.logins ∨ l = ⟨req, .getBind⟩ := by simpa using hl
    · exact h.logins l hl
    · trivial
  | moves hl hm => exact h.setPhase _ _ hm.plain
  | @exec i l c rest acc hl hp applied =>
    have hright := h.logins l (List.mem_of_getElem? hl)
    rw [hp] at hright
    have hrest : Phase.Plain (.pipeline rest acc) :=
      fun c hc => hright c (List.mem_cons_of_mem _ hc)
    obtain ⟨-, hlogins, hwriters, -⟩ := applied_frame s c applied
    exact (h.of_eq hlogins hwriters).setPhase i l hrest
  | @generated i l _ hl hp =>
    have hsame : Plain { s with ids := s.ids + 1 } := h.of_eq rfl rfl
    exact hsame.setPhase i l trivial
  | @insert i l id _ phase hl hp hnew hphase =>
    have hsame : Plain { s with mongo := s.mongo ++ [⟨id, false, [l.req.bindAcc]⟩] } :=
      h.of_eq rfl rfl
    refine hsame.setPhase i l ?_
    obtain rfl | rfl := hphase
    · trivial
    · exact registerCmds_plain _ _
  | @finalize i l _ _ _ _ _ _ hl hp hf =>
    have hdone : Phase.Plain .done := trivial
    exact (h.setPhase i l hdone).of_eq hf.frame.1 hf.frame.2.1
  | same => exact h
  | @bound _ _ doc bind hdoc hnew =>
    refine ⟨h.logins, ?_⟩
    intro cmds hcmds c hc
    obtain hcmds | rfl : cmds ∈ s.writers ∨ cmds = [.set bind doc.accID.toNat.repr] := by
      simpa using hcmds
    · exact h.writers cmds hcmds c hc
    · obtain rfl := List.mem_singleton.mp hc
      trivial
  | @write j c rest hw applied =>
    refine ⟨(applied_frame s c applied).2.1 ▸ h.logins, ?_⟩
    intro cmds hcmds c' hc'
    obtain hcmds | rfl := List.mem_or_eq_of_mem_set hcmds
    · exact h.writers cmds hcmds c' hc'
    · exact h.writers _ (List.mem_of_getElem? hw) c' (List.mem_cons_of_mem _ hc')
  | roleClear hm hc => exact h.of_eq hc.frame.1 hc.frame.2.1
  | _ => exact h.of_eq rfl rfl

/-- The login state of account `a` is the same in both states. -/
def SameState (a : UInt64) (s s' : State) : Prop :=
  ∀ f ∈ stateFields, (s'.hash a).lookup f = (s.hash a).lookup f

theorem foldl_insert_state {fields : List (Field × String)} (h : Hash) {f : Field}
    (hf : ∀ g ∈ fields, g.1 ≠ f) :
    (fields.foldl (fun h g => h.insert g.1 g.2) h).lookup f = h.lookup f := by
  induction fields generalizing h with
  | nil => rfl
  | cons g rest ih =>
    rw [List.foldl_cons, ih _ fun g' hg' => hf g' (List.mem_cons_of_mem _ hg'),
      Map.lookup_insert_ite, if_neg (Ne.symm (hf g List.mem_cons_self))]

theorem expire_hash (s : State) (accID a : UInt64) :
    (s.command (.expire accID)).hash a = s.hash a := by
  unfold State.command State.hash
  by_cases ha : a = accID
  · subst ha
    cases hk : s.hashes a <;> simp [hk]
  · simp [Function.update_of_ne ha]

theorem Cmd.Plain.same_state {c : Cmd} (h : c.Plain) (a : UInt64) (s : State) :
    SameState a s (s.command c) := by
  intro f hf
  cases c with
  | hset accID fields =>
    rw [State.command, setHash_hash]
    split
    · rename_i ha
      subst ha
      exact foldl_insert_state _ fun g hg heq => h g hg (heq ▸ hf)
    · rfl
  | expire accID => rw [expire_hash]
  | set bind value => rfl

section Reading

/-- `acc` has no login state of its own. -/
def Data.Fresh (acc : Data) : Prop := acc.gameID = 0 ∧ acc.seq = 0 ∧ acc.passwd = 0

theorem Data.Fresh.setField {acc acc' : Data} (h : acc.Fresh) {f : Field} {v : String}
    (hf : f ∉ stateFields) (hset : acc.setField f v = some acc') : acc'.Fresh := by
  cases f with
  | accID | freeze =>
    obtain ⟨_, -, rfl⟩ := Option.map_eq_some_iff.mp hset
    exact h
  | binds =>
    cases hset
    exact h
  | _ => simp [stateFields] at hf

theorem Data.Fresh.scan_cons {acc acc' : Data} (h : acc.Fresh) {f : Field} {rest : List Field}
    {hash : Hash} (hf : f ∉ stateFields) (hscan : acc.scan hash (f :: rest) = (acc', true)) :
    ∃ acc₀ : Data, acc₀.Fresh ∧ acc₀.scan hash rest = (acc', true) := by
  rw [Data.scan] at hscan
  split at hscan
  · exact ⟨acc, h, hscan⟩
  · split at hscan
    · rename_i acc₀ hset
      exact ⟨acc₀, h.setField hf hset, hscan⟩
    · cases hscan

/-- A whole account that is read has the login state that its hash holds. -/
theorem Hash.Holds.scan_accFields {h : Hash} {gameID : UInt8} {seq : UInt32} {passwd : UInt64}
    (hh : h.Holds gameID seq passwd) {acc : Data}
    (hscan : Data.scan {} h accFields = (acc, true)) :
    acc.gameID = gameID ∧ acc.seq = seq ∧ acc.passwd = passwd := by
  obtain ⟨acc₁, h₁, hscan⟩ := Data.Fresh.scan_cons ⟨rfl, rfl, rfl⟩ (by decide) hscan
  obtain ⟨acc₂, h₂, hscan⟩ := h₁.scan_cons (by decide) hscan
  obtain ⟨acc₃, ⟨hg, hs, hp⟩, hscan⟩ := h₂.scan_cons (by decide) hscan
  have hstate := (hh.scan_state acc₃ hg hs hp).symm.trans hscan
  obtain rfl := (Prod.mk.inj hstate).1
  exact ⟨rfl, rfl, rfl⟩

end Reading

/-- How a login comes by the login state of the account it goes on with. -/
inductive Snapshot (a : UInt64) (s : State) (acc : Data) : Prop
  | kept {l : Login} (hl : l ∈ s.logins) (hp : l.phase.account = some acc)
  | fresh (hseq : acc.seq = 0)
  | read (h : ∀ gameID seq passwd, (s.hash a).Holds gameID seq passwd →
      acc.gameID = gameID ∧ acc.seq = seq)

/-- The runs on account `a`. -/
def State.events (s : State) (a : UInt64) : List Event := s.log.filter (·.accID = a)

/-- Nothing happens to the account but that logins come to know it. -/
structure Frame (a : UInt64) (s s' : State) : Prop where
  reqs : ∀ m ∈ s'.reqs, m.accID = a → m ∈ s.reqs
  clears : ∀ m ∈ s'.clears, m.accID = a → m ∈ s.clears
  holds : ∀ g, s'.holds g a = s.holds g a
  events : s'.events a = s.events a
  logins : ∀ l ∈ s'.logins, ∀ acc, l.phase.account = some acc → acc.accID = a → Snapshot a s acc

/-- The step does not take the hash of account `a` away. -/
def keeps (a : UInt64) (s : State) : Act → Prop
  | .tick seconds =>
    (s.hashes a).all (fun key => key.expireAt.all fun t => s.now + seconds < t) = true
  | .evictHash b => b ≠ a
  | _ => True

instance (a : UInt64) (s : State) (act : Act) : Decidable (keeps a s act) := by
  unfold keeps
  split <;> infer_instance

/-- A step as account `a` sees it. -/
inductive AccountMove (a : UInt64) (s : State) : Act → State → Prop
  | quiet {act : Act} {s' : State} (hhash : SameState a s s') (hframe : Frame a s s') :
      AccountMove a s act s'
  | expired {act : Act} {s' : State} (hact : ¬keeps a s act) (hhash : s'.hash a = ∅)
      (hlogins : s'.logins = s.logins) (hframe : Frame a s s') : AccountMove a s act s'
  | finalize {i : Nat} {l : Login} {acc : Data} {d : Discovery} {passwd : UInt64}
      {fault : Option Fault} {s' : State} {outcome : Outcome} (hl : s.logins[i]? = some l)
      (hp : l.phase = .loaded acc) (ha : acc.accID = a)
      (h : Finalize (s.setPhase i l .done) l acc d passwd s' outcome) :
      AccountMove a s (.finalize i d passwd fault)
        ((s.setPhase i l .done).record s' acc.accID l.req.bindAcc outcome)
  | receive {k : Nat} {m : GameLogin} (hm : s.reqs[k]? = some m) (ha : m.accID = a)
      (accepted : Bool) : AccountMove a s (.receive k accepted) (s.receive k m accepted)
  | cleanup {g : UInt8} {seq : UInt32} (hseq : s.holds g a = some seq) :
      AccountMove a s (.cleanup g a) (s.cleanup g a seq)
  | roleClear {k : Nat} {m : RoleClear} {fault : Option Fault} {s' : State} {ok : Bool}
      (hm : s.clears[k]? = some m) (ha : m.accID = a)
      (h : Clear { s with clears := s.clears.eraseIdx k } m s' ok) :
      AccountMove a s (.roleClear k fault)
        (State.record { s with clears := s.clears.eraseIdx k } s' m.accID ""
          (.cleared m.seq ok))

/-- A frame when nothing but the logins can have changed for any account. -/
theorem Frame.of_logins (hreqs : s'.reqs = s.reqs) (hclears : s'.clears = s.clears)
    (hholds : s'.holds = s.holds) (hlog : s'.log = s.log)
    (hlogins : ∀ l ∈ s'.logins, ∀ acc, l.phase.account = some acc → acc.accID = a →
      Snapshot a s acc) :
    Frame a s s' where
  reqs := fun m hm _ => hreqs ▸ hm
  clears := fun m hm _ => hclears ▸ hm
  holds := fun g => by rw [hholds]
  events := by rw [State.events, hlog, State.events]
  logins := hlogins

theorem Frame.of_eq (hreqs : s'.reqs = s.reqs) (hclears : s'.clears = s.clears)
    (hholds : s'.holds = s.holds) (hlog : s'.log = s.log) (hlogins : s'.logins = s.logins) :
    Frame a s s' :=
  .of_logins hreqs hclears hholds hlog fun _ hl _ hp _ => .kept (hlogins ▸ hl) hp

theorem Snapshot.set {i : Nat}
    (h : ∀ acc, phase.account = some acc → acc.accID = a → Snapshot a s acc) :
    ∀ l' ∈ s.logins.set i { l with phase }, ∀ acc, l'.phase.account = some acc →
      acc.accID = a → Snapshot a s acc := by
  intro l' hl' acc hp ha
  obtain hl' | rfl := List.mem_or_eq_of_mem_set hl'
  · exact .kept hl' hp
  · exact h acc hp ha

theorem Frame.setPhase {i : Nat} (hframe : Frame a s s') (hlogins : s'.logins = s.logins)
    (h : ∀ acc, phase.account = some acc → acc.accID = a → Snapshot a s acc) :
    Frame a s (s'.setPhase i l phase) where
  reqs := hframe.reqs
  clears := hframe.clears
  holds := hframe.holds
  events := hframe.events
  logins := by
    show ∀ l' ∈ s'.logins.set i _, _
    rw [hlogins]
    exact Snapshot.set h

theorem Frame.rfl : Frame a s s :=
  .of_eq (Eq.refl _) (Eq.refl _) (Eq.refl _) (Eq.refl _) (Eq.refl _)

theorem Frame.command (c : Cmd) : Frame a s (s.command c) := by
  cases c <;> exact .of_eq (Eq.refl _) (Eq.refl _) (Eq.refl _) (Eq.refl _) (Eq.refl _)

theorem unmarshalBinds_state (acc : Data) :
    acc.unmarshalBinds.accID = acc.accID ∧ acc.unmarshalBinds.gameID = acc.gameID ∧
      acc.unmarshalBinds.seq = acc.seq ∧ acc.unmarshalBinds.passwd = acc.passwd := by
  unfold Data.unmarshalBinds
  split <;> exact ⟨rfl, rfl, rfl, rfl⟩

theorem Moves.snapshot (hn : Naming s) (hl : l ∈ s.logins) (h : Moves s l phase) (acc : Data)
    (hacc : phase.account = some acc) (ha : acc.accID = a) : Snapshot a s acc := by
  cases h with
  | @hashHit accID acc' hp hscan hpos =>
    obtain rfl := Option.some.inj hacc
    obtain ⟨hid, hgame, hseq, -⟩ := unmarshalBinds_state acc'
    have haccID := scan_accFields (hn.hash accID) hscan hpos
    obtain rfl : a = accID := ha.symm.trans (hid.trans haccID)
    refine .read fun gameID seq passwd hh => ?_
    obtain ⟨hread, hread', -⟩ := hh.scan_accFields hscan
    exact ⟨hgame.trans hread, hseq.trans hread'⟩
  | @enriched doc hp =>
    obtain rfl := Option.some.inj hacc
    have hid : (doc.account.scan (s.hash doc.accID) stateFields).1.accID = doc.accID :=
      scan_accID doc.account _ _ (by decide)
    obtain rfl : a = doc.accID := ha.symm.trans hid
    refine .read fun gameID seq passwd hh => ?_
    rw [hh.scan_state doc.account rfl rfl rfl]
    exact ⟨rfl, rfl⟩
  | executed hp =>
    obtain rfl := Option.some.inj hacc
    exact .kept hl (by rw [hp]; rfl)
  | _ => cases hacc

theorem Finalize.other {acc : Data} {d : Discovery} {passwd : UInt64}
    (h : Finalize s l acc d passwd s' outcome) (ha : acc.accID ≠ a) :
    s'.hash a = s.hash a ∧ ∀ m ∈ s'.reqs, m.accID = a → m ∈ s.reqs := by
  cases h with
  | rejected | failed => exact ⟨rfl, fun _ hm _ => hm⟩
  | lost hfin hseq =>
    refine ⟨?_, fun _ hm _ => hm⟩
    rw [setHash_hash, if_neg (Ne.symm ha)]
  | @saved acc' hfin hseq =>
    constructor
    · show (s.setHash acc.accID _).hash a = s.hash a
      rw [setHash_hash, if_neg (Ne.symm ha)]
    · intro m hm hma
      obtain hm | rfl : m ∈ s.reqs ∨ m = ⟨acc'.gameID, acc.accID, acc'.seq⟩ := by
        simpa using hm
      · exact hm
      · exact absurd hma ha

theorem Clear.other {m : RoleClear} {ok : Bool} (h : Clear s m s' ok) (ha : m.accID ≠ a) :
    s'.hash a = s.hash a := by
  cases h with
  | ignored => rfl
  | cleared hseq => rw [setHash_hash, if_neg (Ne.symm ha)]

theorem record_events {accID a : UInt64} {bind : String} :
    (s.record s' accID bind outcome).events a = s'.events a ++
      if accID = a then [⟨accID, bind, outcome, s.hash accID, s'.hash accID⟩] else [] := by
  rw [State.events, State.record, List.filter_append, State.events]
  by_cases ha : accID = a <;> simp [ha]

theorem SameState.of_hash (h : s'.hash a = s.hash a) : SameState a s s' := by
  intro f _
  rw [h]

/-- The hash of an account after some time is what it was or gone. -/
theorem tick_hash (s : State) (seconds : Nat) (a : UInt64) :
    (s.tick seconds).hash a = s.hash a ∨
      ¬keeps a s (.tick seconds) ∧ (s.tick seconds).hash a = ∅ := by
  rw [tick_hash_eq]
  split
  · exact Or.inl rfl
  · rename_i hdue
    exact Or.inr ⟨hdue, rfl⟩

theorem Effect.accountMove {act : Act} (hn : Naming s) (hplain : Plain s) (he : Effect s act s')
    (a : UInt64) : AccountMove a s act s' := by
  cases he with
  | @login req =>
    refine .quiet (.of_hash rfl) (.of_logins rfl rfl rfl rfl ?_)
    intro l hl acc hp _
    obtain hl | rfl : l ∈ s.logins ∨ l = ⟨req, .getBind⟩ := by simpa using hl
    · exact .kept hl hp
    · cases hp
  | moves hl hm =>
    have hsnap := hm.snapshot hn (List.mem_of_getElem? hl) (a := a)
    exact .quiet (.of_hash rfl) (Frame.rfl.setPhase rfl hsnap)
  | @exec i l c rest acc hl hp applied =>
    have hmem := List.mem_of_getElem? hl
    have hc := hplain.logins l hmem
    rw [hp] at hc
    have hsnap : ∀ acc', (Phase.pipeline rest acc).account = some acc' → acc'.accID = a →
        Snapshot a s acc' := by
      intro acc' hacc _
      exact .kept hmem (by rw [hp]; exact hacc)
    cases applied with
    | false => exact .quiet (.of_hash rfl) (Frame.rfl.setPhase rfl hsnap)
    | true =>
      exact .quiet ((hc c List.mem_cons_self).same_state a s)
        ((Frame.command c).setPhase (command_frame s c).2.1 hsnap)
  | generated hl hp =>
    have hframe : Frame a s { s with ids := s.ids + 1 } := .of_eq rfl rfl rfl rfl rfl
    exact .quiet (.of_hash rfl) (hframe.setPhase rfl (by simp [Phase.account]))
  | @insert i l id _ phase hl hp hnew hphase =>
    have hframe : Frame a s { s with mongo := s.mongo ++ [⟨id, false, [l.req.bindAcc]⟩] } :=
      .of_eq rfl rfl rfl rfl rfl
    refine .quiet (.of_hash rfl) (hframe.setPhase rfl ?_)
    intro acc hacc _
    obtain rfl | rfl := hphase
    · cases hacc
    · obtain rfl := Option.some.inj hacc
      exact .fresh rfl
  | @finalize i l acc _ _ _ s' _ hl hp hf =>
    by_cases ha : acc.accID = a
    · exact .finalize hl hp ha hf
    · obtain ⟨hhash, hreqs⟩ := hf.other ha
      obtain ⟨hlogins, -, hclears, hholds, hlog⟩ := hf.frame
      refine .quiet (.of_hash hhash) ⟨hreqs, fun _ hm _ => hclears ▸ hm, ?_, ?_, ?_⟩
      · exact fun g => congrFun (congrFun hholds g) a
      · rw [record_events, if_neg ha, List.append_nil, State.events, hlog]
        rfl
      · show ∀ l' ∈ s'.logins, _
        rw [hlogins]
        exact Snapshot.set (by simp [Phase.account])
  | same => exact .quiet (.of_hash rfl) .rfl
  | bound hdoc hnew | evictBind | evictIDs =>
    exact .quiet (.of_hash rfl) (.of_eq rfl rfl rfl rfl rfl)
  | @write j c rest hw applied =>
    have hc := hplain.writers _ (List.mem_of_getElem? hw) c List.mem_cons_self
    cases applied with
    | false => exact .quiet (.of_hash rfl) (.of_eq rfl rfl rfl rfl rfl)
    | true =>
      have hframe : Frame a s (s.command c) := .command c
      exact .quiet (hc.same_state a s) ⟨hframe.reqs, hframe.clears, hframe.holds,
        hframe.events, hframe.logins⟩
  | @receive k m hm accepted =>
    by_cases ha : m.accID = a
    · exact .receive hm ha accepted
    · refine .quiet (.of_hash rfl) ⟨?_, fun _ hm _ => hm, ?_, rfl, fun _ hl _ hp _ => .kept hl hp⟩
      · exact fun _ hm' _ => List.mem_of_mem_eraseIdx hm'
      · intro g
        by_cases hg : g = m.gameID
        · subst hg
          simp [State.receive, Function.update_of_ne (Ne.symm ha)]
        · simp [State.receive, Function.update_of_ne hg]
  | @cleanup g accID seq hseq =>
    by_cases ha : accID = a
    · subst ha
      exact .cleanup hseq
    · refine .quiet (.of_hash rfl) ⟨fun _ hm _ => hm, ?_, ?_, rfl, fun _ hl _ hp _ => .kept hl hp⟩
      · intro m hm hma
        obtain hm | rfl : m ∈ s.clears ∨ m = ⟨accID, seq⟩ := by
          simpa [State.cleanup] using hm
        · exact hm
        · exact absurd hma ha
      · intro g'
        by_cases hg : g' = g
        · subst hg
          simp [State.cleanup, Function.update_of_ne (Ne.symm ha)]
        · simp [State.cleanup, Function.update_of_ne hg]
  | @roleClear k m _ s' ok hm hc =>
    by_cases ha : m.accID = a
    · exact .roleClear hm ha hc
    · obtain ⟨hlogins, -, hclears, hholds, hreqs, hlog⟩ := hc.frame
      refine .quiet (.of_hash (hc.other ha)) ⟨fun _ hm _ => hreqs ▸ hm, ?_, ?_, ?_, ?_⟩
      · intro m' hm' _
        rw [State.record, hclears] at hm'
        exact List.mem_of_mem_eraseIdx hm'
      · exact fun g => congrFun (congrFun hholds g) a
      · rw [record_events, if_neg ha, List.append_nil, State.events, hlog]
        rfl
      · show ∀ l ∈ s'.logins, _
        rw [hlogins]
        exact fun _ hl _ hp _ => .kept hl hp
  | @tick seconds =>
    obtain hsame | ⟨hact, hgone⟩ := tick_hash s seconds a
    · exact .quiet (.of_hash hsame) (.of_eq rfl rfl rfl rfl rfl)
    · exact .expired hact hgone rfl (.of_eq rfl rfl rfl rfl rfl)
  | @evictHash accID =>
    by_cases ha : accID = a
    · subst ha
      refine .expired (by simp [keeps]) ?_ rfl (.of_eq rfl rfl rfl rfl rfl)
      simp [State.hash]
    · refine .quiet (.of_hash ?_) (.of_eq rfl rfl rfl rfl rfl)
      simp [State.hash, Function.update_of_ne (Ne.symm ha)]

theorem Plain.initial (h : accounts.init s) : Plain s := by
  obtain ⟨-, -, -, hlogins, hwriters, -⟩ := h
  exact ⟨by simp [hlogins], by simp [hwriters]⟩

/-- Runs seen from one account: an invariant that every such step keeps. -/
theorem accounts_invariant {ok : State → Act → Prop} {P : State → Prop} (a : UInt64)
    (hinit : ∀ s, accounts.init s → P s)
    (hstep : ∀ s act s', P s → ok s act → AccountMove a s act s' → P s')
    (h : accounts.Reachable ok s) : P s := by
  have hall : Naming s ∧ Plain s ∧ P s := by
    refine Machine.Reachable.invariant (P := fun s => Naming s ∧ Plain s ∧ P s) ?_ ?_ h
    · exact fun _ hs => ⟨Naming.initial hs, Plain.initial hs, hinit _ hs⟩
    · intro s act s' _ ⟨hn, hplain, hp⟩ hok hs
      have he := State.step_effect hs
      exact ⟨hn.step he, hplain.step he, hstep s act s' hp hok (he.accountMove hn hplain a)⟩
  exact hall.2.2

end GameCluster.Account
