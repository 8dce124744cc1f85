import GameCluster.Account.Moves
import GameCluster.Account.Requests
import GameCluster.Lib.Fields

/-!
The binds of an account in the cache. `MarshalBinds` joins them with commas into
one field of the hash and `UnmarshalBinds` splits that field again, and an account
that is read from the cache is sent to its game node with what the split gives.

The runs are those of `accounts`, with a note of where the binds came from: what
Mongo had when a login read or inserted its account, and, for a hash, what it had
for the login that wrote the hash.
-/

namespace GameCluster.Account

open Lib
open Requests (formatBindKey)

/-- A bind string that `FormatBindKey` makes for a login that gets past
`checkLoginRateLimit`. -/
def BindKey (b : String) : Prop :=
  ∃ (sdkType : ℤ) (account : String), account ≠ "" ∧ b = formatBindKey sdkType account

/-- The same for an account without a comma. -/
def PlainBindKey (b : String) : Prop :=
  ∃ (sdkType : ℤ) (account : String),
    account ≠ "" ∧ ',' ∉ account.toList ∧ b = formatBindKey sdkType account

structure Traced where
  base : State
  /-- For each login, the binds of its account in Mongo when it was read there, by
  this login or by the one that wrote the hash it was read from. -/
  found : ℕ → List String
  /-- For each hash, the same for the login that wrote it. -/
  cached : UInt64 → List String

/-- The binds of the account that has the given one. -/
def State.mongoBinds (s : State) (bind : String) : List String :=
  ((s.mongo.find? fun d => bind ∈ d.binds).map (·.binds)).getD []

/-- New binds come with logins and with `BindNewSDK`. -/
def Act.newBind : Act → Option String
  | .login req => some req.bindAcc
  | .bindNewSDK _ bind => some bind
  | _ => none

namespace Traced

/-- `find` and `insert` see the account in Mongo, and `getHash` sees it in the cache. -/
def noteFound (t : Traced) (s' : State) : Act → ℕ → List String
  | .find i _ | .insert i _ =>
    match t.base.logins[i]? with
    | some l => Function.update t.found i (s'.mongoBinds l.req.bindAcc)
    | none => t.found
  | .getHash i _ =>
    match t.base.logins[i]? with
    | some ⟨_, .getHash accID⟩ => Function.update t.found i (t.cached accID)
    | _ => t.found
  | _ => t.found

/-- The `HSET` of a pipeline caches what its login has found. -/
def noteCached (t : Traced) : Act → UInt64 → List String
  | .exec i true =>
    match t.base.logins[i]? with
    | some ⟨_, .pipeline (.hset accID _ :: _) _⟩ => Function.update t.cached accID (t.found i)
    | _ => t.cached
  | _ => t.cached

def step (t : Traced) (a : Act) : Option Traced :=
  (t.base.step a).map fun s' => ⟨s', t.noteFound s' a, t.noteCached a⟩

def Asks (bound : String → Prop) (_ : Traced) (a : Act) : Prop := ∀ b ∈ a.newBind, bound b

theorem Asks.mono {bound bound' : String → Prop} (h : ∀ b, bound b → bound' b) {t : Traced}
    {a : Act} (ha : t.Asks bound a) : t.Asks bound' a :=
  fun b hb => h b (ha b hb)

instance (bound : String → Prop) [DecidablePred bound] (t : Traced) (a : Act) :
    Decidable (t.Asks bound a) := inferInstanceAs (Decidable (∀ b ∈ a.newBind, bound b))

end Traced

/-- The account nodes over empty caches and accounts with such binds. -/
def caching (bound : String → Prop) : Machine Traced Act where
  init t := accounts.init t.base ∧ ∀ d ∈ t.base.mongo, ∀ b ∈ d.binds, bound b
  step := Traced.step

section Binds

/-- Binds that can be joined and split again. -/
structure Splits (binds : List String) : Prop where
  ne : binds ≠ []
  noComma : ∀ b ∈ binds, ',' ∉ b.toList
  noEmpty : ∀ b ∈ binds, b ≠ ""

theorem comma_notMem_formatBindKey {sdkType : ℤ} {account : String} :
    ',' ∉ (formatBindKey sdkType account).toList ↔ ',' ∉ account.toList := by
  simp only [formatBindKey, String.toList_append, List.mem_append, not_or]
  refine ⟨fun h => h.2, fun h => ⟨⟨?_, by decide⟩, h⟩⟩
  exact notMem_int_repr (by decide) (by decide) sdkType

theorem formatBindKey_ne_empty {sdkType : ℤ} {account : String} (hne : account ≠ "") :
    formatBindKey sdkType account ≠ "" := by
  simp [formatBindKey, hne]

theorem PlainBindKey.noComma {b : String} (h : PlainBindKey b) : ',' ∉ b.toList := by
  obtain ⟨sdkType, account, -, hcomma, rfl⟩ := h
  exact comma_notMem_formatBindKey.mpr hcomma

theorem PlainBindKey.ne_empty {b : String} (h : PlainBindKey b) : b ≠ "" := by
  obtain ⟨sdkType, account, hne, -, rfl⟩ := h
  exact formatBindKey_ne_empty hne

variable {binds : List String} {acc : Data}

theorem Splits.of_keys (hne : binds ≠ []) (hkeys : ∀ b ∈ binds, PlainBindKey b) : Splits binds :=
  ⟨hne, fun b hb => (hkeys b hb).noComma, fun b hb => (hkeys b hb).ne_empty⟩

/-- The text of the field `binds`. -/
def joined (binds : List String) : String := String.intercalate "," binds

theorem marshalBinds_eq (hne : acc.binds ≠ []) : acc.marshalBinds = joined acc.binds := if_pos hne

theorem joined_ne (hne : binds ≠ []) (hnoEmpty : ∀ b ∈ binds, b ≠ "") : joined binds ≠ "" := by
  obtain ⟨b, rest, rfl⟩ := List.exists_cons_of_ne_nil hne
  have hb := hnoEmpty b List.mem_cons_self
  intro hjoined
  have hlist := congrArg String.toList hjoined
  rw [joined, String.toList_intercalate] at hlist
  cases rest with
  | nil | cons b' rest => simp [hb] at hlist

/-- `UnmarshalBinds` undoes `MarshalBinds` exactly if no bind has a comma. -/
theorem unmarshalBinds_eq_iff (hne : binds ≠ []) (hnoEmpty : ∀ b ∈ binds, b ≠ "")
    (hjson : acc.bindsJSON = joined binds) :
    acc.unmarshalBinds.binds = binds ↔ ∀ b ∈ binds, ',' ∉ b.toList := by
  rw [Data.unmarshalBinds, if_pos (hjson ▸ joined_ne hne hnoEmpty), hjson]
  exact splitOn_intercalate_singleton (c := ',') hne

theorem Splits.unmarshal (h : Splits binds) (hjson : acc.bindsJSON = joined binds) :
    acc.unmarshalBinds.binds = binds :=
  (unmarshalBinds_eq_iff h.ne h.noEmpty hjson).mpr h.noComma

end Binds

section Scan

theorem setField_binds {acc acc' : Data} {f : Field} {v : String}
    (h : acc.setField f v = some acc') : acc'.binds = acc.binds := by
  cases f with
  | binds =>
    cases h
    rfl
  | _ =>
    obtain ⟨_, -, rfl⟩ := Option.map_eq_some_iff.mp h
    rfl

theorem setField_bindsJSON {acc acc' : Data} {f : Field} {v : String} (hf : f ≠ .binds)
    (h : acc.setField f v = some acc') : acc'.bindsJSON = acc.bindsJSON := by
  cases f with
  | binds => exact absurd rfl hf
  | _ =>
    obtain ⟨_, -, rfl⟩ := Option.map_eq_some_iff.mp h
    rfl

theorem scan_bindsJSON {acc₀ acc : Data} {h : Hash} {first rest : List Field} {v : String}
    (hfirst : .binds ∉ first) (hrest : .binds ∉ rest) (hv : h.lookup .binds = some v)
    (hscan : acc₀.scan h (first ++ .binds :: rest) = (acc, true)) : acc.bindsJSON = v := by
  induction first generalizing acc₀ with
  | nil =>
    simp only [List.nil_append, Data.scan, hv, Data.setField] at hscan
    have hkeep := scan_keeps (·.bindsJSON) h rest
      (fun f hf acc acc' v => setField_bindsJSON fun heq => hrest (heq ▸ hf))
      { acc₀ with bindsJSON := v }
    rwa [hscan] at hkeep
  | cons f first ih =>
    have hnext := fun acc₀ => @ih acc₀ (List.not_mem_of_not_mem_cons hfirst)
    rw [List.cons_append, Data.scan] at hscan
    split at hscan
    · exact hnext _ hscan
    · split at hscan
      · exact hnext _ hscan
      · cases hscan

/-- An account is read only from a hash that has its ID. -/
theorem lookup_accID_of_scan {h : Hash} {acc : Data}
    (hscan : Data.scan {} h accFields = (acc, true)) (hpos : 0 < acc.accID) :
    h.lookup .accID ≠ none := by
  intro hnone
  rw [accFields, Data.scan, hnone] at hscan
  dsimp only at hscan
  have hkeep := scan_accID {} h [.binds, .freeze, .gameID, .seq, .passwd] (by decide)
  rw [hscan] at hkeep
  rw [hkeep] at hpos
  exact absurd hpos (by decide)

end Scan

section Carrying

/-- The command writes these binds if it writes any. -/
def Cmd.Carries (binds : List String) : Cmd → Prop
  | .hset _ fields => ∀ h : Hash,
      (fields.foldl (fun h f => h.insert f.1 f.2) h).lookup .binds = some (joined binds)
  | _ => True

def Phase.Carries (binds : List String) : Phase → Prop
  | .enrich doc => Splits binds ∧ doc.binds = binds
  | .pipeline cmds acc => Splits binds ∧ acc.binds = binds ∧ ∀ c ∈ cmds, c.Carries binds
  | .loaded acc => acc.binds = binds
  | _ => True

/-- A hash that has the account's ID has these binds. -/
def Hash.Carries (h : Hash) (binds : List String) : Prop :=
  h.lookup .accID ≠ none → Splits binds ∧ h.lookup .binds = some (joined binds)

theorem Hash.Carries.empty (binds : List String) : Hash.Carries ∅ binds :=
  fun h => absurd rfl h

variable {binds : List String} {acc : Data} {l : Login}

theorem Hash.Carries.of_lookup {h h' : Hash} (hc : h.Carries binds)
    (hid : h'.lookup .accID = h.lookup .accID) (hbinds : h'.lookup .binds = h.lookup .binds) :
    h'.Carries binds := by
  unfold Hash.Carries
  rw [hid, hbinds]
  exact hc

/-- The account that a login reads from the cache. -/
theorem Hash.Carries.scan {h : Hash} (hc : h.Carries binds)
    (hscan : Data.scan {} h accFields = (acc, true)) (hpos : 0 < acc.accID) :
    acc.unmarshalBinds.binds = binds := by
  obtain ⟨hsplits, hbinds⟩ := hc (lookup_accID_of_scan hscan hpos)
  have hfields : accFields = [.accID] ++ .binds :: [.freeze, .gameID, .seq, .passwd] := rfl
  rw [hfields] at hscan
  exact hsplits.unmarshal (scan_bindsJSON (by decide) (by decide) hbinds hscan)

theorem syncCmds_carries (bind : String) (hne : acc.binds ≠ []) :
    ∀ c ∈ State.syncCmds bind acc, c.Carries acc.binds := by
  refine forall_mem_pipeline (fun h => ?_) trivial trivial
  simp [marshalBinds_eq hne]

theorem registerCmds_carries (bind : String) (id : UInt64) :
    ∀ c ∈ State.registerCmds bind id, c.Carries [bind] := by
  refine forall_mem_pipeline (fun h => ?_) trivial trivial
  simp [Data.marshalBinds, joined]

structure Inv (s : State) (found : ℕ → List String) (cached : UInt64 → List String) : Prop where
  logins : ∀ (i : ℕ) (l : Login), s.logins[i]? = some l →
    PlainBindKey l.req.bindAcc ∧ l.phase.Carries (found i)
  docs : ∀ d ∈ s.mongo, ∀ b ∈ d.binds, PlainBindKey b
  hashes : ∀ a, (s.hash a).Carries (cached a)
  writers : ∀ cmds ∈ s.writers, ∀ c ∈ cmds, ∃ bind value, c = .set bind value

variable {s s' : State} {found : ℕ → List String} {cached : UInt64 → List String}

theorem Inv.frame (h : Inv s found cached) (hlogins : s'.logins = s.logins)
    (hmongo : s'.mongo = s.mongo) (hwriters : s'.writers = s.writers)
    (hhash : ∀ a, (s'.hash a).Carries (cached a)) : Inv s' found cached :=
  ⟨hlogins ▸ h.logins, hmongo ▸ h.docs, hhash, hwriters ▸ h.writers⟩

theorem Inv.setPhase (h : Inv s found cached) {i : ℕ} (hl : s.logins[i]? = some l) {phase : Phase}
    (hphase : phase.Carries binds) :
    Inv (s.setPhase i l phase) (Function.update found i binds) cached := by
  refine ⟨?_, h.docs, h.hashes, h.writers⟩
  intro j l' hl'
  rw [State.setPhase, getElem?_set_some hl] at hl'
  split at hl'
  · rename_i hj
    obtain rfl := Option.some.inj hl'
    rw [hj, Function.update_self]
    exact ⟨(h.logins i l hl).1, hphase⟩
  · rename_i hj
    rw [Function.update_of_ne hj]
    exact h.logins j l' hl'

/-- A login goes on without a new note. -/
theorem Inv.setPhase_same (h : Inv s found cached) {i : ℕ} (hl : s.logins[i]? = some l)
    {phase : Phase} (hphase : phase.Carries (found i)) :
    Inv (s.setPhase i l phase) found cached := by
  have hset := h.setPhase hl hphase
  rwa [Function.update_eq_self] at hset

theorem Inv.setHash (h : Inv s found cached) (a : UInt64) {h' : Hash}
    (hid : h'.lookup .accID = (s.hash a).lookup .accID)
    (hbinds : h'.lookup .binds = (s.hash a).lookup .binds) :
    Inv (s.setHash a h') found cached := by
  refine h.frame rfl rfl rfl ?_
  intro b
  rw [setHash_hash]
  split
  · rename_i hb
    subst hb
    exact (h.hashes b).of_lookup hid hbinds
  · exact h.hashes b

theorem Inv.record (h : Inv s' found cached) {accID : UInt64} {bind : String}
    {outcome : Outcome} : Inv (s.record s' accID bind outcome) found cached :=
  h.frame rfl rfl rfl h.hashes

theorem Inv.finalize (h : Inv s found cached) {d : Discovery} {passwd : UInt64}
    {outcome : Outcome} (hf : Finalize s l acc d passwd s' outcome) :
    Inv s' found cached := by
  cases hf with
  | rejected | failed => exact h
  | lost => exact h.setHash acc.accID (by simp [Hash.login]) (by simp [Hash.login])
  | @saved acc' =>
    have hset : Inv (s.setHash acc.accID ((s.hash acc.accID).login acc')) found cached :=
      h.setHash acc.accID (by simp [Hash.login]) (by simp [Hash.login])
    exact hset.frame rfl rfl rfl hset.hashes

theorem Inv.clear (h : Inv s found cached) {m : RoleClear} {ok : Bool} (hc : Clear s m s' ok) :
    Inv s' found cached := by
  cases hc with
  | ignored => exact h
  | cleared => exact h.setHash m.accID (by simp) (by simp)

/-- `EXPIRE` and `SET` leave the fields of the hashes alone. -/
theorem Inv.command (h : Inv s found cached) {c : Cmd} (hc : ∀ a fields, c ≠ .hset a fields) :
    Inv (s.command c) found cached := by
  cases c with
  | hset a fields => exact absurd rfl (hc a fields)
  | expire accID =>
    refine h.frame rfl rfl rfl fun a => ?_
    rw [expire_hash]
    exact h.hashes a
  | set bind value => exact h.frame rfl rfl rfl h.hashes

/-- `HSET` with the binds that a login has found. -/
theorem Inv.hset (h : Inv s found cached) {a : UInt64} {fields : List (Field × String)}
    (hsplits : Splits binds) (hc : (Cmd.hset a fields).Carries binds) :
    Inv (s.command (.hset a fields)) found (Function.update cached a binds) := by
  refine ⟨h.logins, h.docs, ?_, h.writers⟩
  intro b
  rw [State.command, setHash_hash]
  split
  · rename_i hb
    rw [hb, Function.update_self]
    exact fun _ => ⟨hsplits, hc (s.hash a)⟩
  · rename_i hb
    rw [Function.update_of_ne hb]
    exact h.hashes b

end Carrying

section Steps

variable {s s' : State} {found : ℕ → List String} {cached : UInt64 → List String}

variable {bind : String} {doc : Doc} {i : ℕ} {l : Login} {t : Traced}

/-- The account that `find` has found in Mongo, or that has just been inserted there. -/
theorem mongoBinds_of_find (h : s.mongo.find? (fun d => bind ∈ d.binds) = some doc) :
    s.mongoBinds bind = doc.binds := by
  rw [State.mongoBinds, h]
  rfl

theorem mongoBinds_of_new (hnew : ∀ d ∈ s.mongo, bind ∉ d.binds) (id : UInt64) :
    State.mongoBinds { s with mongo := s.mongo ++ [⟨id, false, [bind]⟩] } bind = [bind] := by
  have hnone : s.mongo.find? (fun d => bind ∈ d.binds) = none := by
    simpa using hnew
  simp [State.mongoBinds, List.find?_append, hnone]

theorem Inv.getBind (h : Inv s found cached) (hl : s.logins[i]? = some l) (err : Bool) :
    Inv (s.getBind i l err) found cached := by
  unfold State.getBind
  split
  · split
    · exact h.setPhase_same hl trivial
    · exact h.setPhase_same hl trivial
  · exact h.setPhase_same hl trivial

theorem Inv.getHash (h : Inv s found cached) (hl : s.logins[i]? = some l) (accID : UInt64)
    (err : Bool) :
    Inv (s.getHash i l accID err) (Function.update found i (cached accID)) cached := by
  unfold State.getHash
  split
  rename_i acc ok hscan
  split
  · rename_i hhit
    obtain ⟨-, rfl, hpos⟩ := hhit
    exact h.setPhase hl ((h.hashes accID).scan hscan hpos)
  · exact h.setPhase hl trivial

theorem Inv.find (h : Inv s found cached) (hl : s.logins[i]? = some l) (err : Bool) :
    Inv (s.find i l err)
      (Function.update found i ((s.find i l err).mongoBinds l.req.bindAcc)) cached := by
  have hmongo : (s.find i l err).mongo = s.mongo := by
    unfold State.find
    split
    · rfl
    · split <;> rfl
  have hbinds : (s.find i l err).mongoBinds l.req.bindAcc = s.mongoBinds l.req.bindAcc := by
    rw [State.mongoBinds, hmongo]
    rfl
  rw [hbinds]
  unfold State.find
  split
  · exact h.setPhase hl trivial
  · split
    · rename_i doc hdoc
      rw [mongoBinds_of_find hdoc]
      have hmem : l.req.bindAcc ∈ doc.binds := by simpa using List.find?_some hdoc
      have hkeys := h.docs doc (List.mem_of_find?_eq_some hdoc)
      exact h.setPhase hl ⟨.of_keys (List.ne_nil_of_mem hmem) hkeys, rfl⟩
    · exact h.setPhase hl trivial

theorem Inv.enrich (h : Inv s found cached) (hl : s.logins[i]? = some l)
    (hp : l.phase = .enrich doc) (err : Bool) :
    Inv (s.enrich i l doc err) found cached := by
  have hcarries := (h.logins i l hl).2
  rw [hp] at hcarries
  obtain ⟨hsplits, hbinds⟩ := hcarries
  unfold State.enrich
  split
  · exact h.setPhase_same hl trivial
  · have hacc : (doc.account.scan (s.hash doc.accID) stateFields).1.binds = found i := by
      rw [← hbinds]
      exact scan_keeps (·.binds) _ _ (fun _ _ _ _ _ => setField_binds) doc.account
    refine h.setPhase_same hl ⟨hsplits, hacc, ?_⟩
    rw [← hacc]
    exact syncCmds_carries _ (hacc ▸ hsplits.ne)

theorem Inv.generate (h : Inv s found cached) (hl : s.logins[i]? = some l) (err : Bool) :
    Inv (s.generate i l err) found cached := by
  unfold State.generate
  split
  · exact h.setPhase_same hl trivial
  · have hids : Inv { s with ids := s.ids + 1 } found cached := h.frame rfl rfl rfl h.hashes
    exact hids.setPhase_same hl trivial

theorem Inv.inserted (h : Inv s found cached) (hkey : PlainBindKey bind) (id : UInt64) :
    Inv { s with mongo := s.mongo ++ [⟨id, false, [bind]⟩] } found cached := by
  refine ⟨h.logins, ?_, h.hashes, h.writers⟩
  intro d hd b hb
  obtain hd | rfl : d ∈ s.mongo ∨ d = ⟨id, false, [bind]⟩ := by simpa using hd
  · exact h.docs d hd b hb
  · obtain rfl := List.mem_singleton.mp hb
    exact hkey

theorem Inv.insert (h : Inv s found cached) (hl : s.logins[i]? = some l) (id : UInt64)
    (fault : Option Fault) :
    Inv (s.insert i l id fault)
      (Function.update found i ((s.insert i l id fault).mongoBinds l.req.bindAcc)) cached := by
  have hkey := (h.logins i l hl).1
  have hadded := h.inserted hkey id
  unfold State.insert
  cases fault with
  | some f =>
    dsimp only
    split
    · exact hadded.setPhase hl trivial
    · exact h.setPhase hl trivial
  | none =>
    dsimp only
    split
    · exact h.setPhase hl trivial
    · rename_i hnone
      have hnew : ∀ d ∈ s.mongo, l.req.bindAcc ∉ d.binds := by
        intro d hd hmem
        exact hnone (List.any_eq_true.mpr ⟨d, hd, by simp [hmem]⟩)
      refine hadded.setPhase hl ?_
      change Phase.Carries (State.mongoBinds
        { s with mongo := s.mongo ++ [⟨id, false, [l.req.bindAcc]⟩] } l.req.bindAcc) _
      rw [mongoBinds_of_new hnew id]
      have hsplits : Splits [l.req.bindAcc] := .of_keys (by simp) (by simpa using hkey)
      exact ⟨hsplits, rfl, registerCmds_carries l.req.bindAcc id⟩

theorem Inv.bindNewSDK (h : Inv s found cached) {k : ℕ} (hdoc : s.mongo[k]? = some doc)
    (hkey : PlainBindKey bind) :
    Inv (s.bindNewSDK k doc bind) found cached := by
  unfold State.bindNewSDK
  split
  · exact h
  · refine ⟨h.logins, ?_, h.hashes, ?_⟩
    · have hold := h.docs doc (List.mem_of_getElem? hdoc)
      intro d hd b hb
      obtain hd | rfl := List.mem_or_eq_of_mem_set hd
      · exact h.docs d hd b hb
      · dsimp only at hb
        split at hb
        · exact hold b hb
        · obtain hb | rfl : b ∈ doc.binds ∨ b = bind := by simpa using hb
          · exact hold b hb
          · exact hkey
    · intro cmds hcmds c hc
      obtain hcmds | rfl : cmds ∈ s.writers ∨ cmds = [.set bind doc.accID.toNat.repr] := by
        simpa using hcmds
      · exact h.writers cmds hcmds c hc
      · exact ⟨bind, _, List.mem_singleton.mp hc⟩

theorem Inv.write (h : Inv s found cached) {j : ℕ} {cmds : List Cmd}
    (hw : s.writers[j]? = some cmds) (applied : Bool) :
    Inv (s.write j cmds applied) found cached := by
  cases cmds with
  | nil => exact h
  | cons c rest =>
    have hcmds := h.writers _ (List.mem_of_getElem? hw)
    have hrest : ∀ cmds ∈ s.writers.set j rest, ∀ c ∈ cmds, ∃ bind value,
        c = .set bind value := by
      intro cmds hmem c' hc'
      obtain hmem | rfl := List.mem_or_eq_of_mem_set hmem
      · exact h.writers cmds hmem c' hc'
      · exact hcmds c' (List.mem_cons_of_mem _ hc')
    obtain ⟨bind, value, rfl⟩ := hcmds c List.mem_cons_self
    cases applied with
    | false | true => exact ⟨h.logins, h.docs, h.hashes, hrest⟩

theorem Inv.tick (h : Inv s found cached) (seconds : ℕ) : Inv (s.tick seconds) found cached := by
  refine h.frame rfl rfl rfl fun a => ?_
  rw [tick_hash_eq]
  split
  · exact h.hashes a
  · exact Hash.Carries.empty _

theorem Inv.evictHash (h : Inv s found cached) (accID : UInt64) :
    Inv { s with hashes := Function.update s.hashes accID none } found cached := by
  refine h.frame rfl rfl rfl fun a => ?_
  unfold State.hash
  by_cases ha : a = accID
  · simp only [ha, Function.update_self]
    exact Hash.Carries.empty _
  · simp only [Function.update_of_ne ha]
    exact h.hashes a

theorem Inv.exec (h : Inv t.base t.found t.cached) {req : Request} {cmds : List Cmd} {acc : Data}
    (hl : t.base.logins[i]? = some ⟨req, .pipeline cmds acc⟩) (applied : Bool) :
    Inv (t.base.exec i ⟨req, .pipeline cmds acc⟩ cmds acc applied) t.found
      (t.noteCached (.exec i applied)) := by
  obtain ⟨hsplits, hbinds, hcmds⟩ := (h.logins i _ hl).2
  cases cmds with
  | nil =>
    have hloaded : Inv (t.base.setPhase i _ (.loaded acc)) t.found t.cached :=
      h.setPhase_same hl hbinds
    cases applied with
    | false => exact hloaded
    | true =>
      simp only [Traced.noteCached, hl]
      exact hloaded
  | cons c rest =>
    have hrest : Phase.Carries (t.found i) (.pipeline rest acc) :=
      ⟨hsplits, hbinds, fun c' hc' => hcmds c' (List.mem_cons_of_mem c hc')⟩
    cases applied with
    | false => exact h.setPhase_same hl hrest
    | true =>
      have hset : ∀ cached', Inv (t.base.command c) t.found cached' →
          Inv ((t.base.command c).setPhase i _ (.pipeline rest acc)) t.found cached' :=
        fun cached' hcommand =>
          hcommand.setPhase_same ((command_frame t.base c).2.1 ▸ hl) hrest
      simp only [Traced.noteCached, hl]
      apply hset
      cases c with
      | hset a fields => exact h.hset hsplits (hcmds _ List.mem_cons_self)
      | expire a | set bind value => exact h.command nofun

theorem Inv.step {t t' : Traced} {a : Act} (h : Inv t.base t.found t.cached)
    (hasks : t.Asks PlainBindKey a) (hs : t.step a = some t') :
    Inv t'.base t'.found t'.cached := by
  obtain ⟨s', hs', rfl⟩ := Option.map_eq_some_iff.mp hs
  dsimp only
  cases State.step_does hs' with
  | login =>
    refine ⟨?_, h.docs, h.hashes, h.writers⟩
    intro i l hl
    rw [getElem?_concat] at hl
    split at hl
    · cases hl
      exact ⟨hasks _ rfl, trivial⟩
    · exact h.logins i l hl
  | getBind hl => exact h.getBind hl _
  | getHash hl =>
    simp only [Traced.noteFound, hl]
    exact h.getHash hl _ _
  | find hl =>
    simp only [Traced.noteFound, hl]
    exact h.find hl _
  | enrich hl => exact h.enrich hl rfl _
  | exec hl => exact h.exec hl _
  | generate hl => exact h.generate hl _
  | insert hl =>
    simp only [Traced.noteFound, hl]
    exact h.insert hl _ _
  | @finalize i req acc d passwd fault hl =>
    have hdone : Inv (t.base.setPhase i ⟨req, .loaded acc⟩ .done) t.found t.cached :=
      h.setPhase_same hl trivial
    exact (hdone.finalize
      (State.finalizeRun_spec _ ⟨req, .loaded acc⟩ acc d passwd fault)).record
  | bindNewSDK hdoc => exact h.bindNewSDK hdoc (hasks _ rfl)
  | write hw => exact h.write hw _
  | receive hm | cleanup hseq | evictBind | evictIDs => exact h.frame rfl rfl rfl h.hashes
  | @roleClear k m fault hm =>
    have hcut : Inv { t.base with clears := t.base.clears.eraseIdx k } t.found t.cached :=
      h.frame rfl rfl rfl h.hashes
    exact (hcut.clear (State.clearRun_spec _ m fault)).record
  | tick => exact h.tick _
  | evictHash => exact h.evictHash _

theorem Inv.initial (h : (caching PlainBindKey).init t) : Inv t.base t.found t.cached := by
  obtain ⟨⟨hhashes, -, -, hlogins, hwriters, -⟩, hdocs⟩ := h
  refine ⟨?_, hdocs, ?_, ?_⟩
  · simp [hlogins]
  · intro a
    rw [State.hash, hhashes]
    exact Hash.Carries.empty _
  · simp [hwriters]

theorem inv_of_reachable (h : (caching PlainBindKey).Reachable (Traced.Asks PlainBindKey) t) :
    Inv t.base t.found t.cached := by
  refine h.invariant (P := fun t => Inv t.base t.found t.cached) (fun _ => Inv.initial) ?_
  intro t a t' _ hinv hasks hs
  exact hinv.step hasks hs

end Steps

/-- Binds come back from the hash as they were, whatever else it holds, exactly if
no account has a comma. So in every run in which all accounts are without a comma, a
login that goes on to its game node takes the binds along that Mongo had when the
account was cached. -/
theorem cached_binds_roundtrip (acc : Data) (h : Hash) :
    (∀ (keys : List (ℤ × String)) (acc' : Data), keys ≠ [] →
      (∀ k ∈ keys, k.2 ≠ "") →
      acc.binds = keys.map (fun k => formatBindKey k.1 k.2) →
      Data.scan {} (h.insert .binds acc.marshalBinds) accFields = (acc', true) →
      (acc'.unmarshalBinds.binds = acc.binds ↔ ∀ k ∈ keys, ',' ∉ k.2.toList)) ∧
    ∀ t : Traced, (caching PlainBindKey).Reachable (Traced.Asks PlainBindKey) t →
      ∀ (i : ℕ) (req : Request) (acc acc' : Data) (d : Discovery) (passwd : UInt64),
        t.base.logins[i]? = some ⟨req, .loaded acc⟩ →
        finalizeLoginSession acc req d passwd = .ok acc' → acc'.binds = t.found i := by
  constructor
  · intro keys acc' hne haccounts hbinds hscan
    have hnil : acc.binds ≠ [] := by simpa [hbinds] using hne
    have hnoEmpty : ∀ b ∈ acc.binds, b ≠ "" := by
      rw [hbinds, List.forall_mem_map]
      intro k hk
      exact formatBindKey_ne_empty (haccounts k hk)
    have hfield : (h.insert .binds acc.marshalBinds).lookup .binds = some (joined acc.binds) := by
      rw [marshalBinds_eq hnil]
      exact Finmap.lookup_insert h
    have hfields : accFields = [.accID] ++ .binds :: [.freeze, .gameID, .seq, .passwd] := rfl
    rw [hfields] at hscan
    rw [unmarshalBinds_eq_iff hnil hnoEmpty
      (scan_bindsJSON (by decide) (by decide) hfield hscan), hbinds, List.forall_mem_map]
    simp only [comma_notMem_formatBindKey]
  · intro t hr i req acc acc' d passwd hl hfin
    have hloaded := ((inv_of_reachable hr).logins i _ hl).2
    obtain ⟨_, -, rfl⟩ := finalizeLoginSession_eq hfin
    exact hloaded

section Reload

/-- Whether login 1 reconnects and the account whose hash it is about to read. -/
def Traced.reading (t : Traced) : Option (Bool × UInt64) :=
  match t.base.logins[(1 : ℕ)]? with
  | some ⟨req, .getHash accID⟩ => some (req.reconnect, accID)
  | _ => none

/-- Login 1 is about to read from the hash what login 0 has registered. -/
structure Traced.Reload (bind : String) (t : Traced) : Prop where
  reading : t.reading = some (false, 1)
  cached : t.cached 1 = [bind]
  ok : (Data.scan {} (t.base.hash 1) accFields).2 = true
  accID : (Data.scan {} (t.base.hash 1) accFields).1.accID = 1
  json : (Data.scan {} (t.base.hash 1) accFields).1.bindsJSON = bind

instance (bind : String) : DecidablePred (Traced.Reload bind) := fun t =>
  decidable_of_iff
    (t.reading = some (false, 1) ∧ t.cached 1 = [bind] ∧
      (Data.scan {} (t.base.hash 1) accFields).2 = true ∧
      (Data.scan {} (t.base.hash 1) accFields).1.accID = 1 ∧
      (Data.scan {} (t.base.hash 1) accFields).1.bindsJSON = bind)
    ⟨fun ⟨h₁, h₂, h₃, h₄, h₅⟩ => ⟨h₁, h₂, h₃, h₄, h₅⟩, fun h => ⟨h.1, h.2, h.3, h.4, h.5⟩⟩

/-- A login that does not reconnect finds a game server. -/
theorem finalizeLoginSession_ok {req : Request} (hreq : req.reconnect = false) (acc : Data)
    (game : UInt8) (passwd : UInt64) :
    ∃ acc', finalizeLoginSession acc req ⟨true, some game⟩ passwd = .ok acc' := by
  unfold finalizeLoginSession
  rw [if_neg (by simp [hreq]), allocateGameServer]
  split
  · rename_i herr
    split at herr <;> cases herr
  · exact ⟨_, rfl⟩

/-- The read, and the login that goes on with what the split gives. -/
theorem Traced.Reload.sent {bound : String → Prop} {bind : String} {t : Traced}
    (hr : (caching bound).Reachable (Traced.Asks bound) t) (h : t.Reload bind)
    (hne : bind ≠ "") :
    ∃ (t' : Traced) (req : Request) (acc acc' : Data),
      (caching bound).Reachable (Traced.Asks bound) t' ∧
      t'.base.logins[1]? = some ⟨req, .loaded acc⟩ ∧ t'.found 1 = [bind] ∧
      finalizeLoginSession acc req ⟨true, some 3⟩ 42 = .ok acc' ∧
      acc'.binds = bind.splitOn "," := by
  have hreading := h.reading
  unfold Traced.reading at hreading
  split at hreading
  · rename_i req accID hl
    obtain ⟨hreq, rfl⟩ : req.reconnect = false ∧ accID = 1 := by simpa using hreading
    generalize hacc : (Data.scan {} (t.base.hash 1) accFields).1 = acc
    have hscan : Data.scan {} (t.base.hash 1) accFields = (acc, true) := Prod.ext hacc h.ok
    have hid := h.accID
    have hjson := h.json
    rw [hacc] at hid hjson
    have hget : t.base.getHash 1 ⟨req, .getHash 1⟩ 1 false =
        t.base.setPhase 1 ⟨req, .getHash 1⟩ (.loaded acc.unmarshalBinds) := by
      unfold State.getHash
      rw [hscan]
      exact if_pos ⟨rfl, rfl, by rw [hid]; decide⟩
    have hstep : t.step (.getHash 1 false) = some
        ⟨t.base.setPhase 1 ⟨req, .getHash 1⟩ (.loaded acc.unmarshalBinds),
          Function.update t.found 1 (t.cached 1), t.cached⟩ := by
      simp only [Traced.step, State.step, hl, hget, Option.map_some, Traced.noteFound,
        Traced.noteCached]
    have hasks : t.Asks bound (.getHash 1 false) := by
      intro b hb
      cases hb
    obtain ⟨acc', hfin⟩ := finalizeLoginSession_ok hreq acc.unmarshalBinds 3 42
    refine ⟨_, req, acc.unmarshalBinds, acc', .step hr hasks hstep, ?_, ?_, hfin, ?_⟩
    · rw [State.setPhase, getElem?_set_some hl, if_pos rfl]
    · exact (Function.update_self 1 (t.cached 1) t.found).trans h.cached
    · obtain ⟨_, -, rfl⟩ := finalizeLoginSession_eq hfin
      rw [Data.unmarshalBinds, if_pos (by rwa [hjson]), hjson]
  · cases hreading

/-- The stores are empty, and nothing has been noted. -/
def Traced.empty : Traced := ⟨.empty, fun _ => [], fun _ => []⟩

theorem caching_empty (bound : String → Prop) : (caching bound).init .empty :=
  ⟨accounts_empty, by simp [Traced.empty, State.empty]⟩

/-- Login 0 registers the account and login 1 finds its ID. -/
def reload (bind : String) : List Act :=
  register 0 bind 3 ++ [Act.login ⟨bind, false, 0⟩, .getBind 1 false]

/-- Two binds of one account, and the login of an account that has one. -/
theorem plainAccount_roundtrip :
    (Data.scan {} ((∅ : Hash).insert .binds (Data.marshalBinds { binds := ["1@a", "2@b"] }))
      accFields).1.unmarshalBinds.binds = ["1@a", "2@b"] ∧
    ∃ (t : Traced) (req : Request) (acc acc' : Data),
      (caching PlainBindKey).Reachable (Traced.Asks PlainBindKey) t ∧
        t.base.logins[1]? = some ⟨req, .loaded acc⟩ ∧
        finalizeLoginSession acc req ⟨true, some 3⟩ 42 = .ok acc' ∧
        acc'.binds = t.found 1 ∧ t.found 1 = ["1@a"] := by
  constructor
  · have hok : (Data.scan {} ((∅ : Hash).insert .binds
        (Data.marshalBinds { binds := ["1@a", "2@b"] })) accFields).2 = true := by decide +kernel
    have hbinds : ["1@a", "2@b"] = [((1 : ℤ), "a"), (2, "b")].map
        (fun k => formatBindKey k.1 k.2) := by decide +kernel
    exact ((cached_binds_roundtrip { binds := ["1@a", "2@b"] } ∅).1 [(1, "a"), (2, "b")] _
      (by simp) (by decide +kernel) hbinds (Prod.ext rfl hok)).mpr (by decide +kernel)
  · obtain ⟨t, hr, ht⟩ := Machine.exec_reaches (m := caching PlainBindKey)
      (Traced.Asks (· = "1@a")) (Traced.Reload "1@a") (reload "1@a") (caching_empty _)
      (by decide +kernel)
    have hplain : PlainBindKey "1@a" := ⟨1, "a", by decide, by decide, by decide +kernel⟩
    have hrun := hr.mono fun _ _ => Traced.Asks.mono fun b hb => hb ▸ hplain
    obtain ⟨t', req, acc, acc', hr', hl, hfound, hfin, -⟩ := ht.sent hrun (by decide)
    have hsent := (cached_binds_roundtrip acc ∅).2 t' hr' 1 req acc acc' _ _ hl hfin
    exact ⟨t', req, acc, acc', hr', hl, hfin, hsent, hfound⟩

/-- A player logs in with the account `a,b`. The next login takes two binds along. -/
theorem commaAccount_split : ∃ (t : Traced) (req : Request) (acc acc' : Data),
    (caching BindKey).Reachable (Traced.Asks BindKey) t ∧
      t.base.logins[1]? = some ⟨req, .loaded acc⟩ ∧
      finalizeLoginSession acc req ⟨true, some 3⟩ 42 = .ok acc' ∧
      acc'.binds = ["1@a", "b"] ∧ t.found 1 = ["1@a,b"] := by
  obtain ⟨t, hr, ht⟩ := Machine.exec_reaches (m := caching BindKey)
    (Traced.Asks (· = "1@a,b")) (Traced.Reload "1@a,b") (reload "1@a,b") (caching_empty _)
    (by decide +kernel)
  have hkey : BindKey "1@a,b" := ⟨1, "a,b", by decide, by decide +kernel⟩
  have hrun := hr.mono fun _ _ => Traced.Asks.mono fun b hb => hb ▸ hkey
  obtain ⟨t', req, acc, acc', hr', hl, hfound, hfin, hbinds⟩ := ht.sent hrun (by decide)
  have hjoin : "1@a,b" = String.intercalate (.singleton ',') ["1@a", "b"] := by decide +kernel
  have hsplit : "1@a,b".splitOn "," = ["1@a", "b"] := by
    rw [hjoin]
    exact (splitOn_intercalate_singleton (by simp)).mpr (by decide)
  exact ⟨t', req, acc, acc', hr', hl, hfin, hbinds.trans hsplit, hfound⟩

end Reload

end GameCluster.Account
