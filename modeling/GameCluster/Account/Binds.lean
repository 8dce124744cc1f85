import GameCluster.Account.Effect

/-!
A bind string names one account. Mongo is the authority: accounts are never
deleted and a bind is never taken from one, so the account that has a bind has
it for good, and every text that names an account in Redis or in a login under
way was written when the account already had the bind.
-/

namespace GameCluster.Account

open Lib

/-- The account with the given ID has the bind. -/
def Owns (s : State) (bind : String) (accID : UInt64) : Prop :=
  ∃ d ∈ s.mongo, bind ∈ d.binds ∧ d.accID = accID

structure BindsName (s : State) : Prop where
  unique : ∀ (i j : Nat) (d e : Doc) (b : String), s.mongo[i]? = some d →
    s.mongo[j]? = some e → b ∈ d.binds → b ∈ e.binds → i = j
  key : ∀ b v t, s.binds b = some (v, t) →
    ∃ d ∈ s.mongo, b ∈ d.binds ∧ v = d.accID.toNat.repr
  login : ∀ e ∈ s.log, ∀ e' ∈ s.log, ∀ acc acc', e.outcome = .saved acc →
    e'.outcome = .saved acc' → e.bind = e'.bind → e.accID = e'.accID

/-- A command writes the ID of the account that has the bind, and the hash of an
account its own ID. -/
def Cmd.Right (s : State) : Cmd → Prop
  | .hset accID fields => ∀ v, (Field.accID, v) ∈ fields → v = accID.toNat.repr
  | .expire _ => True
  | .set bind value => ∃ accID, Owns s bind accID ∧ value = accID.toNat.repr

def Phase.Right (s : State) (bind : String) : Phase → Prop
  | .getHash accID => Owns s bind accID
  | .enrich doc => Owns s bind doc.accID
  | .pipeline cmds acc => (∀ c ∈ cmds, c.Right s) ∧ Owns s bind acc.accID
  | .loaded acc => Owns s bind acc.accID
  | _ => True

structure Naming (s : State) : Prop where
  unique : ∀ (i j : Nat) (d e : Doc) (b : String), s.mongo[i]? = some d →
    s.mongo[j]? = some e → b ∈ d.binds → b ∈ e.binds → i = j
  key : ∀ b v t, s.binds b = some (v, t) → ∃ a, Owns s b a ∧ v = a.toNat.repr
  hash : ∀ a v, (s.hash a).lookup .accID = some v → v = a.toNat.repr
  logins : ∀ l ∈ s.logins, l.phase.Right s l.req.bindAcc
  writers : ∀ cmds ∈ s.writers, ∀ c ∈ cmds, c.Right s
  log : ∀ e ∈ s.log, ∀ acc, e.outcome = .saved acc → Owns s e.bind e.accID

section Scan

theorem setField_accID {acc acc' : Data} {f : Field} {v : String} (hf : f ≠ .accID)
    (h : acc.setField f v = some acc') : acc'.accID = acc.accID := by
  cases f with
  | accID => exact absurd rfl hf
  | binds =>
    cases h
    rfl
  | freeze | gameID | seq | passwd =>
    obtain ⟨_, -, rfl⟩ := Option.map_eq_some_iff.mp h
    rfl

/-- The ID is read from its own field and from no other. -/
theorem scan_accID (acc : Data) (h : Hash) (fields : List Field) (hf : .accID ∉ fields) :
    (acc.scan h fields).1.accID = acc.accID :=
  scan_keeps (·.accID) h fields (fun _ hmem _ _ _ => setField_accID fun heq => hf (heq ▸ hmem)) acc

/-- What is read from the hash of an account is that account. -/
theorem scan_accFields {h : Hash} {a : UInt64} {acc : Data}
    (hid : ∀ v, h.lookup .accID = some v → v = a.toNat.repr)
    (hscan : Data.scan {} h accFields = (acc, true)) (hpos : 0 < acc.accID) : acc.accID = a := by
  have hrest : ∀ acc₀ : Data, acc₀.scan h [.binds, .freeze, .gameID, .seq, .passwd] =
      (acc, true) → acc.accID = acc₀.accID := by
    intro acc₀ hacc
    have hsame := scan_accID acc₀ h [.binds, .freeze, .gameID, .seq, .passwd] (by decide)
    rwa [hacc] at hsame
  rw [accFields, Data.scan] at hscan
  split at hscan
  · rw [hrest _ hscan] at hpos
    exact absurd hpos (by decide)
  · rename_i v hv
    obtain rfl := hid v hv
    simp only [Data.setField, parseUint_repr a.toNat_lt, Option.map_some] at hscan
    rw [hrest _ hscan, UInt64.ofNat_toNat]

end Scan

variable {s s' : State} {bind : String} {l : Login}

theorem Owns.mono
    (h : ∀ d ∈ s.mongo, ∃ d' ∈ s'.mongo, d'.accID = d.accID ∧ ∀ b ∈ d.binds, b ∈ d'.binds)
    {a : UInt64} (ho : Owns s bind a) :
    Owns s' bind a := by
  obtain ⟨d, hd, hb, rfl⟩ := ho
  obtain ⟨d', hd', hid, hsub⟩ := h d hd
  exact ⟨d', hd', hsub bind hb, hid⟩

theorem Owns.unique
    (h : ∀ (i j : Nat) (d e : Doc) (b : String), s.mongo[i]? = some d → s.mongo[j]? = some e →
      b ∈ d.binds → b ∈ e.binds → i = j)
    {a a' : UInt64} (ho : Owns s bind a) (ho' : Owns s bind a') : a = a' := by
  obtain ⟨d, hd, hb, rfl⟩ := ho
  obtain ⟨d', hd', hb', rfl⟩ := ho'
  obtain ⟨i, hi⟩ := List.getElem?_of_mem hd
  obtain ⟨j, hj⟩ := List.getElem?_of_mem hd'
  obtain rfl := h i j d d' bind hi hj hb hb'
  rw [Option.some.inj (hi.symm.trans hj)]

theorem Cmd.Right.mono (hown : ∀ b a, Owns s b a → Owns s' b a) {c : Cmd} (h : c.Right s) :
    c.Right s' := by
  cases c with
  | hset accID fields => exact h
  | expire accID => trivial
  | set bind value =>
    obtain ⟨a, ho, hv⟩ := h
    exact ⟨a, hown bind a ho, hv⟩

theorem Phase.Right.mono (hown : ∀ b a, Owns s b a → Owns s' b a) {p : Phase} (h : p.Right s bind) :
    p.Right s' bind := by
  cases p with
  | getHash accID | enrich doc => exact hown _ _ h
  | pipeline cmds acc => exact ⟨fun c hc => (h.1 c hc).mono hown, hown _ _ h.2⟩
  | loaded acc => exact hown _ _ h
  | _ => trivial

/-- Mongo may gain accounts and binds, the caches may lose keys, and every login
and pipeline goes on with what is right. -/
theorem Naming.of (h : Naming s)
    (hgrow : ∀ d ∈ s.mongo, ∃ d' ∈ s'.mongo, d'.accID = d.accID ∧ ∀ b ∈ d.binds, b ∈ d'.binds)
    (hunique : ∀ (i j : Nat) (d e : Doc) (b : String), s'.mongo[i]? = some d → s'.mongo[j]? =
      some e → b ∈ d.binds → b ∈ e.binds → i = j)
    (hkey : ∀ b v t, s'.binds b = some (v, t) → s.binds b = some (v, t) ∨ ∃ a, Owns s' b a ∧ v =
      a.toNat.repr)
    (hhash : ∀ a v, (s'.hash a).lookup .accID = some v → (s.hash a).lookup .accID = some v ∨ v =
      a.toNat.repr)
    (hlogins : ∀ l ∈ s'.logins, l ∈ s.logins ∨ l.phase.Right s' l.req.bindAcc)
    (hwriters : ∀ cmds ∈ s'.writers, ∀ c ∈ cmds, (∃ cmds ∈ s.writers, c ∈ cmds) ∨ c.Right s')
    (hlog : ∀ e ∈ s'.log, e ∈ s.log ∨ ∀ acc, e.outcome = .saved acc → Owns s' e.bind e.accID) :
    Naming s' := by
  have hown : ∀ b a, Owns s b a → Owns s' b a := fun b a => Owns.mono hgrow
  constructor
  case unique => exact hunique
  case key =>
    intro b v t hb
    obtain hb | hright := hkey b v t hb
    · obtain ⟨a, ho, hv⟩ := h.key b v t hb
      exact ⟨a, hown b a ho, hv⟩
    · exact hright
  case hash =>
    intro a v hv
    obtain hv | hright := hhash a v hv
    · exact h.hash a v hv
    · exact hright
  case logins =>
    intro l hl
    obtain hl | hright := hlogins l hl
    · exact (h.logins l hl).mono hown
    · exact hright
  case writers =>
    intro cmds hcmds c hc
    obtain ⟨cmds', hcmds', hc'⟩ | hright := hwriters cmds hcmds c hc
    · exact (h.writers cmds' hcmds' c hc').mono hown
    · exact hright
  case log =>
    intro e he acc hsaved
    obtain he | hright := hlog e he
    · exact hown _ _ (h.log e he acc hsaved)
    · exact hright acc hsaved

theorem Naming.frame (h : Naming s) (hmongo : s'.mongo = s.mongo)
    (hkey : ∀ b v t, s'.binds b = some (v, t) → s.binds b = some (v, t) ∨ ∃ a, Owns s b a ∧ v =
      a.toNat.repr)
    (hhash : ∀ a v, (s'.hash a).lookup .accID = some v → (s.hash a).lookup .accID = some v ∨ v =
      a.toNat.repr)
    (hlogins : ∀ l ∈ s'.logins, l ∈ s.logins ∨ l.phase.Right s l.req.bindAcc)
    (hwriters : ∀ cmds ∈ s'.writers, ∀ c ∈ cmds, ∃ cmds ∈ s.writers, c ∈ cmds)
    (hlog : ∀ e ∈ s'.log, e ∈ s.log ∨ ∀ acc, e.outcome = .saved acc → Owns s e.bind e.accID) :
    Naming s' := by
  have hown : ∀ b a, Owns s b a → Owns s' b a := by
    intro b a ho
    unfold Owns
    rwa [hmongo]
  refine h.of ?_ (hmongo ▸ h.unique) ?_ hhash ?_ ?_ ?_
  · rw [hmongo]
    exact fun d hd => ⟨d, hd, rfl, fun _ hb => hb⟩
  · intro b v t hb
    exact (hkey b v t hb).imp_right fun ⟨a, ho, hv⟩ => ⟨a, hown b a ho, hv⟩
  · intro l hl
    exact (hlogins l hl).imp_right fun hright => hright.mono hown
  · intro cmds hcmds c hc
    exact Or.inl (hwriters cmds hcmds c hc)
  · intro e he
    exact (hlog e he).imp_right fun hright acc hsaved => hown _ _ (hright acc hsaved)

/-- A login goes on with an account that has its bind. -/
theorem Naming.moves (h : Naming s) (hl : l ∈ s.logins) {phase : Phase} (hm : Moves s l phase) :
    phase.Right s l.req.bindAcc := by
  have hright := h.logins l hl
  cases hm with
  | bindHit hp hb hn =>
    obtain ⟨a, ho, rfl⟩ := h.key _ _ _ hb
    rw [parseUint_repr a.toNat_lt] at hn
    obtain rfl := Option.some.inj hn
    rwa [UInt64.ofNat_toNat]
  | @hashHit accID acc hp hacc hpos =>
    rw [hp] at hright
    have hid := scan_accFields (h.hash accID) hacc hpos
    show Owns s l.req.bindAcc acc.unmarshalBinds.accID
    have hsame : acc.unmarshalBinds.accID = acc.accID := by
      unfold Data.unmarshalBinds
      split <;> rfl
    rw [hsame, hid]
    exact hright
  | miss => trivial
  | found hp hdoc hbind => exact ⟨_, hdoc, hbind, rfl⟩
  | notFound => trivial
  | @enriched doc hp =>
    rw [hp] at hright
    have hid : (doc.account.scan (s.hash doc.accID) stateFields).1.accID = doc.accID :=
      scan_accID doc.account _ _ (by decide)
    have hown : Owns s l.req.bindAcc
        (doc.account.scan (s.hash doc.accID) stateFields).1.accID := by
      rw [hid]
      exact hright
    exact ⟨forall_mem_pipeline (fun v hv => by simpa using hv) trivial ⟨_, hown, rfl⟩, hown⟩
  | executed hp =>
    rw [hp] at hright
    exact hright.2
  | fail => trivial

theorem setHash_hash (s : State) (a b : UInt64) (h : Hash) :
    (s.setHash a h).hash b = if b = a then h else s.hash b := by
  unfold State.setHash State.hash
  by_cases hb : b = a
  · subst hb
    simp
  · simp [hb]

theorem foldl_insert_accID {fields : List (Field × String)} {h : Hash} {v : String}
    (hv : (fields.foldl (fun h f => h.insert f.1 f.2) h).lookup .accID = some v) :
    h.lookup .accID = some v ∨ (Field.accID, v) ∈ fields := by
  induction fields generalizing h with
  | nil => exact Or.inl hv
  | cons f rest ih =>
    obtain hv | hmem := ih hv
    · rw [Map.lookup_insert_ite] at hv
      split at hv
      · rename_i hf
        obtain rfl := Option.some.inj hv
        exact Or.inr (by simp [hf])
      · exact Or.inl hv
    · exact Or.inr (List.mem_cons_of_mem f hmem)

/-- What a command leaves alone, and what it writes. -/
theorem command_frame (s : State) (c : Cmd) :
    (s.command c).mongo = s.mongo ∧ (s.command c).logins = s.logins ∧
      (s.command c).writers = s.writers ∧ (s.command c).log = s.log := by
  cases c <;> exact ⟨rfl, rfl, rfl, rfl⟩

/-- The same for a command that may have failed. -/
theorem applied_frame (s : State) (c : Cmd) (applied : Bool) :
    (if applied then s.command c else s).mongo = s.mongo ∧
      (if applied then s.command c else s).logins = s.logins ∧
      (if applied then s.command c else s).writers = s.writers ∧
      (if applied then s.command c else s).log = s.log := by
  cases applied with
  | false => exact ⟨rfl, rfl, rfl, rfl⟩
  | true => exact command_frame s c

theorem tick_hash_eq (s : State) (seconds : Nat) (a : UInt64) :
    (s.tick seconds).hash a =
      if (s.hashes a).all (fun key => key.expireAt.all fun t => s.now + seconds < t) = true
      then s.hash a else ∅ := by
  unfold State.hash State.tick
  cases hk : s.hashes a with
  | none => simp [hk]
  | some key =>
    by_cases ht : key.expireAt.all (fun t => decide (s.now + seconds < t)) = true
    · simp only [hk, Option.filter_some, Option.all_some, ht, if_true]
    · simp only [hk, Option.filter_some, Option.all_some, ht]
      rfl

theorem Naming.command (h : Naming s) {c : Cmd} (hc : c.Right s) : Naming (s.command c) := by
  obtain ⟨hmongo, hlogins, hwriters, hlog⟩ := command_frame s c
  refine h.frame hmongo ?_ ?_ (fun l hl => Or.inl (hlogins ▸ hl))
    (fun cmds hcmds c hc => ⟨cmds, hwriters ▸ hcmds, hc⟩) (fun e he => Or.inl (hlog ▸ he))
  · intro b v t hb
    cases c with
    | hset accID fields | expire accID => exact Or.inl hb
    | set bind value =>
      by_cases hbb : b = bind
      · subst hbb
        simp only [State.command, Function.update_self, Option.some.injEq, Prod.mk.injEq] at hb
        obtain ⟨a, ho, hv⟩ := hc
        exact Or.inr ⟨a, ho, hb.1 ▸ hv⟩
      · simp only [State.command, Function.update_of_ne hbb] at hb
        exact Or.inl hb
  · intro a v hv
    cases c with
    | hset accID fields =>
      rw [State.command, setHash_hash] at hv
      split at hv
      · rename_i ha
        subst ha
        exact (foldl_insert_accID hv).imp_right (hc v)
      · exact Or.inl hv
    | expire accID =>
      refine Or.inl ?_
      have hsame : (s.command (.expire accID)).hash a = s.hash a := by
        unfold State.command State.hash
        by_cases ha : a = accID
        · subst ha
          cases hk : s.hashes a <;> simp [hk]
        · simp [Function.update_of_ne ha]
      rwa [hsame] at hv
    | set bind value => exact Or.inl hv

theorem Naming.setPhase (h : Naming s) (i : Nat) (l : Login) {phase : Phase}
    (hright : phase.Right s l.req.bindAcc) : Naming (s.setPhase i l phase) := by
  refine h.frame rfl (fun _ _ _ => Or.inl) (fun _ _ => Or.inl) ?_
    (fun cmds hcmds c hc => ⟨cmds, hcmds, hc⟩) (fun _ => Or.inl)
  intro l' hl'
  obtain hl' | rfl := List.mem_or_eq_of_mem_set hl'
  · exact Or.inl hl'
  · exact Or.inr hright

theorem Naming.setHash (h : Naming s) (a : UInt64) {h' : Hash}
    (hsame : h'.lookup .accID = (s.hash a).lookup .accID) : Naming (s.setHash a h') := by
  refine h.frame rfl (fun _ _ _ => Or.inl) ?_ (fun _ => Or.inl)
    (fun cmds hcmds c hc => ⟨cmds, hcmds, hc⟩) (fun _ => Or.inl)
  intro b v hv
  rw [setHash_hash] at hv
  split at hv
  · rename_i hb
    subst hb
    rw [hsame] at hv
    exact Or.inl hv
  · exact Or.inl hv

theorem Naming.record (h : Naming s') {accID : UInt64} {outcome : Outcome}
    (hsaved : ∀ acc, outcome = .saved acc → Owns s' bind accID) :
    Naming (s.record s' accID bind outcome) := by
  refine h.frame rfl (fun _ _ _ => Or.inl) (fun _ _ => Or.inl) (fun _ => Or.inl)
    (fun cmds hcmds c hc => ⟨cmds, hcmds, hc⟩) ?_
  intro e he
  obtain he | rfl : e ∈ s'.log ∨ e = ⟨accID, bind, outcome, s.hash accID, s'.hash accID⟩ := by
    simpa [State.record] using he
  · exact Or.inl he
  · exact Or.inr hsaved

/-- The scripts leave `acc_id` alone. -/
theorem login_accID (h : Hash) (acc : Data) : (h.login acc).lookup .accID = h.lookup .accID := by
  simp [Hash.login]

theorem Naming.finalize (h : Naming s) {acc : Data} {d : Discovery} {passwd : UInt64}
    {outcome : Outcome} (hown : Owns s l.req.bindAcc acc.accID)
    (hf : Finalize s l acc d passwd s' outcome) :
    Naming (s.record s' acc.accID l.req.bindAcc outcome) := by
  cases hf with
  | rejected | failed => exact h.record fun _ _ => hown
  | lost hfin hseq => exact (h.setHash acc.accID (login_accID _ _)).record fun _ _ => hown
  | @saved acc' hfin hseq =>
    have hset := h.setHash acc.accID (login_accID (s.hash acc.accID) acc')
    refine Naming.record ?_ fun _ _ => hown
    exact ⟨hset.unique, hset.key, hset.hash, hset.logins, hset.writers, hset.log⟩

theorem Naming.clear (h : Naming s) {m : RoleClear} {ok : Bool} (hc : Clear s m s' ok) :
    Naming (s.record s' m.accID "" (.cleared m.seq ok)) := by
  cases hc with
  | ignored => exact h.record (by simp)
  | cleared hseq => exact (h.setHash m.accID (by simp)).record (by simp)

/-- A new account: the unique index has found its bind nowhere else. -/
theorem Naming.insert (h : Naming s) {id : UInt64}
    (hnew : ∀ d ∈ s.mongo, d.accID ≠ id ∧ l.req.bindAcc ∉ d.binds) :
    Naming { s with mongo := s.mongo ++ [⟨id, false, [l.req.bindAcc]⟩] } := by
  refine h.of ?_ ?_ (fun _ _ _ => Or.inl) (fun _ _ => Or.inl) (fun _ => Or.inl)
    (fun cmds hcmds c hc => Or.inl ⟨cmds, hcmds, hc⟩) (fun _ => Or.inl)
  · intro d hd
    exact ⟨d, List.mem_append_left _ hd, rfl, fun _ hb => hb⟩
  · intro i j d e b hi hj hb hb'
    simp only [getElem?_concat] at hi hj
    split at hi
    · obtain rfl := Option.some.inj hi
      obtain rfl : b = l.req.bindAcc := List.mem_singleton.mp hb
      split at hj
      · omega
      · exact absurd hb' (hnew e (List.mem_of_getElem? hj)).2
    · split at hj
      · obtain rfl := Option.some.inj hj
        obtain rfl : b = l.req.bindAcc := List.mem_singleton.mp hb'
        exact absurd hb (hnew d (List.mem_of_getElem? hi)).2
      · exact h.unique i j d e b hi hj hb hb'

theorem registerCmds_right {id : UInt64} (hown : Owns s bind id) :
    ∀ c ∈ State.registerCmds bind id, c.Right s :=
  forall_mem_pipeline (fun v hv => by simpa using hv) trivial ⟨id, hown, rfl⟩

/-- An account gets another bind, which no other account has. -/
theorem Naming.bound (h : Naming s) {k : Nat} {doc doc' : Doc} (hdoc : s.mongo[k]? = some doc)
    (hid : doc'.accID = doc.accID) (hbinds : ∀ b, b ∈ doc'.binds ↔ b ∈ doc.binds ∨ b = bind)
    (hnew : ∀ j d, j ≠ k → s.mongo[j]? = some d → bind ∉ d.binds) :
    Naming { s with
      mongo := s.mongo.set k doc'
      writers := s.writers ++ [[.set bind doc.accID.toNat.repr]] } := by
  have hin : doc' ∈ s.mongo.set k doc' := by
    refine List.mem_of_getElem? (i := k) ?_
    rw [getElem?_set_some hdoc, if_pos rfl]
  have hset : ∀ (i : Nat) (d : Doc), (s.mongo.set k doc')[i]? = some d →
      ∃ d₀, s.mongo[i]? = some d₀ ∧ ∀ b, b ∈ d.binds ↔ b ∈ d₀.binds ∨ i = k ∧ b = bind := by
    intro i d hi
    rw [getElem?_set_some hdoc] at hi
    split at hi
    · rename_i hik
      obtain rfl := Option.some.inj hi
      exact ⟨doc, hik ▸ hdoc, fun b => by rw [hbinds b]; simp [hik]⟩
    · rename_i hik
      exact ⟨d, hi, fun b => by simp [hik]⟩
  refine h.of ?_ ?_ (fun _ _ _ => Or.inl) (fun _ _ => Or.inl) (fun _ => Or.inl) ?_
    (fun _ => Or.inl)
  · intro d hd
    obtain ⟨j, hj⟩ := List.getElem?_of_mem hd
    by_cases hjk : j = k
    · subst hjk
      obtain rfl : doc = d := Option.some.inj (hdoc.symm.trans hj)
      exact ⟨doc', hin, hid, fun b hb => (hbinds b).mpr (Or.inl hb)⟩
    · refine ⟨d, List.mem_of_getElem? (i := j) ?_, rfl, fun _ hb => hb⟩
      rw [getElem?_set_some hdoc, if_neg hjk, hj]
  · intro i j d e b hi hj hb hb'
    obtain ⟨d₀, hi₀, hd₀⟩ := hset i d hi
    obtain ⟨e₀, hj₀, he₀⟩ := hset j e hj
    obtain hb | ⟨rfl, rfl⟩ := (hd₀ b).mp hb
    · obtain hb' | ⟨rfl, rfl⟩ := (he₀ b).mp hb'
      · exact h.unique i j d₀ e₀ b hi₀ hj₀ hb hb'
      · by_contra hij
        exact hnew i d₀ hij hi₀ hb
    · obtain hb' | ⟨rfl, -⟩ := (he₀ b).mp hb'
      · by_contra hij
        exact hnew j e₀ (Ne.symm hij) hj₀ hb'
      · rfl
  · intro cmds hcmds c hc
    obtain hcmds | rfl : cmds ∈ s.writers ∨ cmds = [.set bind doc.accID.toNat.repr] := by
      simpa using hcmds
    · exact Or.inl ⟨cmds, hcmds, hc⟩
    · obtain rfl := List.mem_singleton.mp hc
      exact Or.inr ⟨doc.accID, ⟨doc', hin, (hbinds bind).mpr (Or.inr rfl), hid⟩, rfl⟩

theorem Naming.step {a : Act} (h : Naming s) (he : Effect s a s') : Naming s' := by
  cases he with
  | @login req =>
    refine h.frame rfl (fun _ _ _ => Or.inl) (fun _ _ => Or.inl) ?_
      (fun cmds hcmds c hc => ⟨cmds, hcmds, hc⟩) (fun _ => Or.inl)
    intro l hl
    obtain hl | rfl : l ∈ s.logins ∨ l = ⟨req, .getBind⟩ := by simpa using hl
    · exact Or.inl hl
    · exact Or.inr trivial
  | moves hl hm => exact h.setPhase _ _ (h.moves (List.mem_of_getElem? hl) hm)
  | @exec i l c rest acc hl hp applied =>
    have hright := h.logins l (List.mem_of_getElem? hl)
    rw [hp] at hright
    have hrest : ∀ c ∈ rest, c.Right s := fun c hc => hright.1 c (List.mem_cons_of_mem _ hc)
    cases applied with
    | false => exact h.setPhase i l ⟨hrest, hright.2⟩
    | true =>
      have hown : ∀ b a, Owns s b a → Owns (s.command c) b a := by
        intro b a ho
        unfold Owns
        rwa [(command_frame s c).1]
      refine (h.command (hright.1 c List.mem_cons_self)).setPhase i l ⟨?_, hown _ _ hright.2⟩
      exact fun c' hc' => (hrest c' hc').mono hown
  | generated hl hp =>
    have hsame : Naming { s with ids := s.ids + 1 } :=
      ⟨h.unique, h.key, h.hash, h.logins, h.writers, h.log⟩
    exact hsame.setPhase _ _ trivial
  | @insert i l id _ phase hl hp hnew hphase =>
    refine (h.insert hnew).setPhase i l ?_
    have hown : Owns { s with mongo := s.mongo ++ [⟨id, false, [l.req.bindAcc]⟩] }
        l.req.bindAcc id := ⟨_, List.mem_append_right _ List.mem_cons_self, by simp, rfl⟩
    obtain rfl | rfl := hphase
    · trivial
    · exact ⟨registerCmds_right hown, hown⟩
  | @finalize i l acc _ _ _ _ _ hl hp hf =>
    have hright := h.logins l (List.mem_of_getElem? hl)
    rw [hp] at hright
    have hdone : Phase.Right s l.req.bindAcc .done := trivial
    exact (h.setPhase i l hdone).finalize hright hf
  | same => exact h
  | bound hdoc hnew =>
    refine h.bound hdoc rfl ?_ hnew
    intro b
    split
    · rename_i hmem
      constructor
      · exact Or.inl
      · rintro (hb | rfl)
        · exact hb
        · exact hmem
    · simp
  | @write j c rest hw applied =>
    have hsub : ∀ cmds ∈ s.writers.set j rest, ∀ c' ∈ cmds, ∃ cmds ∈ s.writers, c' ∈ cmds := by
      intro cmds hcmds c' hc'
      obtain hcmds | rfl := List.mem_or_eq_of_mem_set hcmds
      · exact ⟨cmds, hcmds, hc'⟩
      · exact ⟨c :: cmds, List.mem_of_getElem? hw, List.mem_cons_of_mem _ hc'⟩
    have hc := h.writers _ (List.mem_of_getElem? hw) c List.mem_cons_self
    cases applied with
    | false =>
      exact h.frame rfl (fun _ _ _ => Or.inl) (fun _ _ => Or.inl) (fun _ => Or.inl) hsub
        (fun _ => Or.inl)
    | true =>
      have hcmd := h.command hc
      refine hcmd.frame rfl (fun _ _ _ => Or.inl) (fun _ _ => Or.inl) (fun _ => Or.inl) ?_
        (fun _ => Or.inl)
      rw [(command_frame s c).2.2.1]
      exact hsub
  | receive hm accepted | cleanup hseq | evictIDs =>
    exact ⟨h.unique, h.key, h.hash, h.logins, h.writers, h.log⟩
  | @roleClear k m _ _ _ hm hc =>
    have hsame : Naming { s with clears := s.clears.eraseIdx k } :=
      ⟨h.unique, h.key, h.hash, h.logins, h.writers, h.log⟩
    exact hsame.clear hc
  | @tick seconds =>
    refine h.frame rfl ?_ ?_ (fun _ => Or.inl) (fun cmds hcmds c hc => ⟨cmds, hcmds, hc⟩)
      (fun _ => Or.inl)
    · intro b v t hb
      exact Or.inl (Option.filter_eq_some_iff.mp hb).1
    · intro a v hv
      rw [tick_hash_eq] at hv
      split at hv
      · exact Or.inl hv
      · cases hv
  | @evictHash accID =>
    refine h.frame rfl (fun _ _ _ => Or.inl) ?_ (fun _ => Or.inl)
      (fun cmds hcmds c hc => ⟨cmds, hcmds, hc⟩) (fun _ => Or.inl)
    intro a v hv
    unfold State.hash at hv
    by_cases ha : a = accID
    · simp [ha] at hv
    · simp only [Function.update_of_ne ha] at hv
      exact Or.inl hv
  | @evictBind bind =>
    refine h.frame rfl ?_ (fun _ _ => Or.inl) (fun _ => Or.inl)
      (fun cmds hcmds c hc => ⟨cmds, hcmds, hc⟩) (fun _ => Or.inl)
    intro b v t hb
    by_cases hbb : b = bind
    · simp [hbb] at hb
    · simp only [Function.update_of_ne hbb] at hb
      exact Or.inl hb

theorem Naming.initial (h : accounts.init s) : Naming s := by
  obtain ⟨hhashes, hbinds, hunique, hlogins, hwriters, -, -, -, hlog⟩ := h
  constructor
  case unique => exact hunique
  case key => simp [hbinds]
  case hash => simp [State.hash, hhashes]
  case logins => simp [hlogins]
  case writers => simp [hwriters]
  case log => simp [hlog]

/-- Whatever fails, a bind belongs to one document, its key in Redis names the account of
that document, and all logins with it were to one account. -/
theorem binds_name_one_account {s : State} (h : accounts.Reachable Machine.anyStep s) :
    BindsName s := by
  have hinv : Naming s := by
    refine Machine.Reachable.invariant (P := Naming) (fun _ hs => Naming.initial hs) ?_ h
    intro _ _ _ _ ih _ hs
    exact ih.step (State.step_effect hs)
  constructor
  case unique => exact hinv.unique
  case key =>
    intro b v t hb
    obtain ⟨a, ⟨d, hd, hmem, rfl⟩, hv⟩ := hinv.key b v t hb
    exact ⟨d, hd, hmem, hv⟩
  case login =>
    intro e he e' he' acc acc' hsaved hsaved' hbind
    have ho := hinv.log e he acc hsaved
    have ho' := hinv.log e' he' acc' hsaved'
    rw [← hbind] at ho'
    exact Owns.unique hinv.unique ho ho'

/-- A player registers, binds a second channel, loses the cached hash and logs in
by the new channel. -/
theorem secondChannel_names_account : ∃ s, accounts.Reachable Machine.anyStep s ∧
    s.log.map (fun e => (e.bind, e.accID)) = [("1@a", 1), ("2@b", 1)] ∧ BindsName s := by
  obtain ⟨s, hr, hs⟩ := Machine.exec_reaches (m := accounts) Machine.anyStep
    (fun s => s.log.map (fun e => (e.bind, e.accID)) = [("1@a", 1), ("2@b", 1)])
    (register 0 "1@a" 3 ++ [Act.bindNewSDK 1 "2@b", .write 0 true, .evictHash 1] ++
      [Act.login ⟨"2@b", false, 0⟩, .getBind 1 false, .getHash 1 false, .find 1 false,
        .enrich 1 false, .exec 1 true, .exec 1 true, .exec 1 true, .exec 1 true,
        .finalize 1 ⟨true, some 4⟩ 43 none]) accounts_empty (by decide +kernel)
  exact ⟨s, hr, hs, binds_name_one_account hr⟩

end GameCluster.Account
