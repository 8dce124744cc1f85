import GameCluster.Lib.Machine
import GameCluster.Lib.Table
import GameCluster.Role.Record

/-!
The registry of running roles (`role/registry.go`): one index from sessions to
role IDs, one from role IDs to the `meta` of a `Role`. Each index is split into
shards by its key, so the shards together are one map, and every access takes
one lock. `Register`, `Unregister` and the look-ups by session take two locks
one after the other, and anything can happen between the two.

A `meta` is known by the number of the `Register` call that made it. The state
also records which call wrote a session entry, which roles the look-ups by
session have reached and which role entries the calls of `Unregister` have
deleted; the source keeps none of this.
-/

namespace GameCluster.Registry

open Lib

/-- How far the `Unregister` of a `Role` has come. -/
inductive Exit where
  | uncalled
  /-- It has deleted the session entry. -/
  | sesDropped
  | returned
  deriving DecidableEq, Repr

/-- A `Role` whose `Register` has written the session entry. -/
structure Incarnation where
  roleID : RoleID
  sesID : UInt64
  /-- `Register` has returned. -/
  registered : Bool
  exit : Exit
  deriving DecidableEq, Repr

/-- A `Kick` or `DispatchBySesID` whose `getBySes` has read the session entry. -/
structure Lookup where
  sesID : UInt64
  roleID : RoleID
  pending : Bool
  deriving DecidableEq, Repr

structure State where
  ses : Map UInt64 RoleID
  roles : Map RoleID Nat
  writer : Map UInt64 Nat
  incs : List Incarnation
  lookups : List Lookup
  /-- The session of a look-up and the `Role` it kicked or fed. -/
  reached : List (UInt64 × Nat)
  /-- The caller of `Unregister` and the `Role` whose entry it deleted. -/
  deleted : List (Nat × Nat)

/-- `NewRegistry`. -/
def State.initial : State := ⟨∅, ∅, ∅, [], [], [], []⟩

inductive Act where
  /-- `Register` up to its first unlock. -/
  | register (roleID : RoleID) (sesID : UInt64)
  | registerRole (i : Nat)
  /-- `Unregister` up to its first unlock, with the pair of the `Role`. -/
  | unregister (i : Nat)
  | unregisterRole (i : Nat)
  /-- The first half of `getBySes`. -/
  | getSes (sesID : UInt64)
  /-- Its second half, and the `Kick` or `Push` on what it found. -/
  | getRole (k : Nat)
  /-- `Dispatch`, and the look-up of `KickAndWait`: one read of the role index. -/
  | get (roleID : RoleID)

namespace State

def setInc (s : State) (i : Nat) (inc : Incarnation) : State :=
  { s with incs := s.incs.set i inc }

def register (s : State) (roleID : RoleID) (sesID : UInt64) : State :=
  { s with
    ses := s.ses.insert sesID roleID
    writer := s.writer.insert sesID s.incs.length
    incs := s.incs ++ [⟨roleID, sesID, false, .uncalled⟩] }

def registerRole (s : State) (i : Nat) (inc : Incarnation) : State :=
  { s.setInc i { inc with registered := true } with roles := s.roles.insert inc.roleID i }

/-- The first section of `Unregister`. With another role's ID in the session
entry, or none, nothing more is done. -/
def unregister (s : State) (i : Nat) (inc : Incarnation) : State :=
  if s.ses.lookup inc.sesID = some inc.roleID then
    { s.setInc i { inc with exit := .sesDropped } with ses := s.ses.erase inc.sesID }
  else s.setInc i { inc with exit := .returned }

def unregisterRole (s : State) (i : Nat) (inc : Incarnation) : State :=
  { s.setInc i { inc with exit := .returned } with
    roles := s.roles.erase inc.roleID
    deleted := s.deleted ++ (s.roles.lookup inc.roleID).toList.map fun j => (i, j) }

def getSes (s : State) (sesID : UInt64) : State :=
  { s with
    lookups := s.lookups ++
      (s.ses.lookup sesID).toList.map fun roleID => ⟨sesID, roleID, true⟩ }

def getRole (s : State) (k : Nat) (l : Lookup) : State :=
  { s with
    lookups := s.lookups.set k { l with pending := false }
    reached := s.reached ++ (s.roles.lookup l.roleID).toList.map fun j => (l.sesID, j) }

def step (s : State) : Act → Option State
  | .register roleID sesID => some (s.register roleID sesID)
  | .registerRole i => atEntry s.incs i (·.registered = false) (s.registerRole i)
  | .unregister i => atEntry s.incs i (·.exit = .uncalled) (s.unregister i)
  | .unregisterRole i => atEntry s.incs i (·.exit = .sesDropped) (s.unregisterRole i)
  | .getSes sesID => some (s.getSes sesID)
  | .getRole k => atEntry s.lookups k (·.pending = true) (s.getRole k)
  | .get _ => some s

end State

/-- Any number of callers of one registry. -/
def registry : Machine State Act where
  init s := s = State.initial
  step := State.step

/-- Everything one step can do. -/
inductive Effect (s : State) : Act → State → Prop
  | register {roleID : RoleID} {sesID : UInt64} :
      Effect s (.register roleID sesID) (s.register roleID sesID)
  | registerRole {i : Nat} {inc : Incarnation} (hi : s.incs[i]? = some inc)
      (hp : inc.registered = false) : Effect s (.registerRole i) (s.registerRole i inc)
  | unregister {i : Nat} {inc : Incarnation} (hi : s.incs[i]? = some inc)
      (hp : inc.exit = .uncalled) : Effect s (.unregister i) (s.unregister i inc)
  | unregisterRole {i : Nat} {inc : Incarnation} (hi : s.incs[i]? = some inc)
      (hp : inc.exit = .sesDropped) : Effect s (.unregisterRole i) (s.unregisterRole i inc)
  | getSes {sesID : UInt64} : Effect s (.getSes sesID) (s.getSes sesID)
  | getRole {k : Nat} {l : Lookup} (hl : s.lookups[k]? = some l) (hp : l.pending = true) :
      Effect s (.getRole k) (s.getRole k l)
  | get {roleID : RoleID} : Effect s (.get roleID) s

theorem step_effect {s s' : State} {a : Act} (h : s.step a = some s') : Effect s a s' := by
  cases a with
  | register roleID sesID =>
    cases h
    exact .register
  | registerRole i =>
    obtain ⟨inc, hi, hp, rfl⟩ := atEntry_eq_some h
    exact .registerRole hi hp
  | unregister i =>
    obtain ⟨inc, hi, hp, rfl⟩ := atEntry_eq_some h
    exact .unregister hi hp
  | unregisterRole i =>
    obtain ⟨inc, hi, hp, rfl⟩ := atEntry_eq_some h
    exact .unregisterRole hi hp
  | getSes sesID =>
    cases h
    exact .getSes
  | getRole k =>
    obtain ⟨l, hl, hp, rfl⟩ := atEntry_eq_some h
    exact .getRole hl hp
  | get roleID =>
    cases h
    exact .get

/-- No call is between its two locks. -/
def State.Quiet (s : State) : Prop :=
  (∀ inc ∈ s.incs, inc.registered = true ∧ inc.exit ≠ .sesDropped) ∧
    ∀ l ∈ s.lookups, l.pending = false

/-- The two indices are inverse to each other, and what goes by a session
reaches the `Role` registered with that session. -/
structure Inverse (s : State) : Prop where
  session : s.Quiet → ∀ sesID roleID, s.ses.lookup sesID = some roleID →
    ∃ i, s.writer.lookup sesID = some i ∧ s.roles.lookup roleID = some i
  role : s.Quiet → ∀ roleID i, s.roles.lookup roleID = some i →
    ∃! sesID, s.ses.lookup sesID = some roleID
  returned : ∀ i inc, s.incs[i]? = some inc → inc.exit = .returned →
    (∀ roleID, s.roles.lookup roleID ≠ some i) ∧
      ∀ sesID, (s.ses.lookup sesID).isSome → s.writer.lookup sesID ≠ some i
  reached : ∀ hit ∈ s.reached, ∃ inc, s.incs[hit.2]? = some inc ∧ inc.sesID = hit.1
  deleted : ∀ pair ∈ s.deleted, pair.1 = pair.2

/-- `Register` is called once the `Unregister` of every earlier `Role` with that
role ID or that session ID has returned, and no look-up by session is about to
look for the role ID. `Unregister` is called after `Register` has returned. -/
def apart (s : State) : Act → Prop
  | .register roleID sesID =>
    (∀ inc ∈ s.incs, inc.exit ≠ .returned → inc.roleID ≠ roleID ∧ inc.sesID ≠ sesID) ∧
      ∀ l ∈ s.lookups, l.pending = true → l.roleID ≠ roleID
  | .unregister i => ∀ inc ∈ s.incs[i]?, inc.registered = true
  | _ => True

instance (s : State) (a : Act) : Decidable (apart s a) := by
  unfold apart
  split <;> infer_instance

/-- A role ID or a session ID belongs to one `Role` at a time, and a look-up by
session that is under way is for the `Role` it started for, or for none. -/
structure Separate (s : State) : Prop where
  single : ∀ (i j : Nat) (a b : Incarnation), s.incs[i]? = some a → s.incs[j]? = some b →
    a.exit ≠ .returned → b.exit ≠ .returned → a.roleID = b.roleID ∨ a.sesID = b.sesID → i = j
  pending : ∀ l ∈ s.lookups, l.pending = true → ∀ (i : Nat) (inc : Incarnation),
    s.incs[i]? = some inc → inc.exit ≠ .returned → inc.roleID = l.roleID → inc.sesID = l.sesID
  reached : ∀ hit ∈ s.reached, ∃ inc, s.incs[hit.2]? = some inc ∧ inc.sesID = hit.1

/-- A `Role` holds its session entry until its `Unregister` is called, and its
role entry from the end of `Register` to the end of `Unregister`. -/
structure Indexed (s : State) : Prop where
  owner : ∀ sesID roleID, s.ses.lookup sesID = some roleID → ∃ i inc,
    s.writer.lookup sesID = some i ∧ s.incs[i]? = some inc ∧ inc.exit = .uncalled ∧
      inc.sesID = sesID ∧ inc.roleID = roleID
  entered : ∀ (i : Nat) (inc : Incarnation), s.incs[i]? = some inc → inc.exit = .uncalled →
    s.ses.lookup inc.sesID = some inc.roleID
  holder : ∀ roleID i, s.roles.lookup roleID = some i → ∃ inc,
    s.incs[i]? = some inc ∧ inc.registered = true ∧ inc.exit ≠ .returned ∧ inc.roleID = roleID
  held : ∀ (i : Nat) (inc : Incarnation), s.incs[i]? = some inc → inc.registered = true →
    inc.exit ≠ .returned → s.roles.lookup inc.roleID = some i
  registered : ∀ (i : Nat) (inc : Incarnation), s.incs[i]? = some inc →
    inc.exit ≠ .uncalled → inc.registered = true

variable {s : State} {roleID : RoleID} {sesID : UInt64} {i : Nat} {inc : Incarnation}

theorem register_incs (hi : (s.register roleID sesID).incs[i]? = some inc) :
    i = s.incs.length ∧ inc = ⟨roleID, sesID, false, .uncalled⟩ ∨ s.incs[i]? = some inc := by
  rw [State.register, getElem?_concat] at hi
  split at hi
  · exact Or.inl ⟨by assumption, (Option.some.inj hi).symm⟩
  · exact Or.inr hi

theorem register_incs_old (hi : s.incs[i]? = some inc) :
    (s.register roleID sesID).incs[i]? = some inc := by
  rw [State.register, getElem?_concat, if_neg (Nat.ne_of_lt (lt_length_of_some hi)), hi]

theorem Separate.register (h : Separate s) (hok : apart s (.register roleID sesID)) :
    Separate (s.register roleID sesID) := by
  obtain ⟨hincs, hlookups⟩ := hok
  constructor
  case single =>
    intro i j a b hi hj ha hb hab
    obtain ⟨rfl, rfl⟩ | hi := register_incs hi
    · obtain ⟨rfl, rfl⟩ | hj := register_incs hj
      · rfl
      · have hne := hincs b (List.mem_of_getElem? hj) hb
        exact absurd hab (by simp [hne.1.symm, hne.2.symm])
    · obtain ⟨rfl, rfl⟩ | hj := register_incs hj
      · have hne := hincs a (List.mem_of_getElem? hi) ha
        exact absurd hab (by simp [hne.1, hne.2])
      · exact h.single i j a b hi hj ha hb hab
  case pending =>
    intro l hl hp i inc hi hexit hrole
    obtain ⟨-, rfl⟩ | hi := register_incs hi
    · exact absurd hrole.symm (hlookups l hl hp)
    · exact h.pending l hl hp i inc hi hexit hrole
  case reached =>
    intro hit hhit
    obtain ⟨inc, hi, hs⟩ := h.reached hit hhit
    exact ⟨inc, register_incs_old hi, hs⟩

/-- Whatever a call does to a `Role` that keeps its IDs and does not bring it
back keeps the roles apart. -/
theorem Separate.setInc (h : Separate s) {inc inc' : Incarnation} (hi : s.incs[i]? = some inc)
    (hrole : inc'.roleID = inc.roleID) (hses : inc'.sesID = inc.sesID)
    (hexit : inc.exit = .returned → inc'.exit = .returned) :
    Separate (s.setInc i inc') := by
  have hfrom : ∀ (j : Nat) (b : Incarnation), (s.setInc i inc').incs[j]? = some b →
      b.exit ≠ .returned → ∃ a, s.incs[j]? = some a ∧ a.exit ≠ .returned ∧
        a.roleID = b.roleID ∧ a.sesID = b.sesID := by
    intro j b hj hb
    rw [State.setInc, getElem?_set_some hi] at hj
    split at hj
    · obtain rfl := Option.some.inj hj
      subst j
      exact ⟨inc, hi, fun hr => hb (hexit hr), hrole.symm, hses.symm⟩
    · exact ⟨b, hj, hb, rfl, rfl⟩
  constructor
  case single =>
    intro j k a b hj hk ha hb hab
    obtain ⟨a', hj', ha', har, has⟩ := hfrom j a hj ha
    obtain ⟨b', hk', hb', hbr, hbs⟩ := hfrom k b hk hb
    exact h.single j k a' b' hj' hk' ha' hb' (by rwa [har, has, hbr, hbs])
  case pending =>
    intro l hl hp j b hj hb hr
    obtain ⟨b', hj', hb', hbr, hbs⟩ := hfrom j b hj hb
    rw [← hbs]
    exact h.pending l hl hp j b' hj' hb' (hbr.trans hr)
  case reached =>
    intro hit hhit
    obtain ⟨b, hb, hs⟩ := h.reached hit hhit
    rw [State.setInc, getElem?_set_some hi]
    split
    · rename_i heq
      obtain rfl : inc = b := Option.some.inj (hi.symm.trans (heq ▸ hb))
      exact ⟨inc', rfl, hses.trans hs⟩
    · exact ⟨b, hb, hs⟩

theorem Indexed.register (h : Indexed s) (hok : apart s (.register roleID sesID)) :
    Indexed (s.register roleID sesID) := by
  constructor
  case owner =>
    intro ses role hses
    by_cases hs : ses = sesID
    · subst hs
      obtain rfl : roleID = role := by simpa [State.register] using hses
      refine ⟨s.incs.length, ⟨roleID, ses, false, .uncalled⟩, ?_, ?_, rfl, rfl, rfl⟩
      · simp [State.register]
      · simp [State.register]
    · obtain ⟨i, inc, hw, hi, hrest⟩ := h.owner ses role (by simpa [State.register, hs] using hses)
      exact ⟨i, inc, by simp [State.register, hs, hw], register_incs_old hi, hrest⟩
  case entered =>
    intro i inc hi hexit
    obtain ⟨-, rfl⟩ | hi := register_incs hi
    · simp [State.register]
    · have hne := (hok.1 inc (List.mem_of_getElem? hi) (by simp [hexit])).2
      simp [State.register, hne, h.entered i inc hi hexit]
  case holder =>
    intro role i hrole
    obtain ⟨inc, hi, hrest⟩ := h.holder role i hrole
    exact ⟨inc, register_incs_old hi, hrest⟩
  case held =>
    intro i inc hi hreg hexit
    obtain ⟨-, rfl⟩ | hi := register_incs hi
    · cases hreg
    · exact h.held i inc hi hreg hexit
  case registered =>
    intro i inc hi hexit
    obtain ⟨-, rfl⟩ | hi := register_incs hi
    · exact absurd rfl hexit
    · exact h.registered i inc hi hexit

theorem Indexed.registerRole (h : Indexed s) (hsep : Separate s) (hi : s.incs[i]? = some inc)
    (hp : inc.registered = false) :
    Indexed (s.registerRole i inc) := by
  have hexit : inc.exit = .uncalled := by
    by_contra hne
    simp [h.registered i inc hi hne] at hp
  have hother : ∀ (j : Nat) (b : Incarnation), s.incs[j]? = some b → b.exit ≠ .returned →
      b.roleID = inc.roleID → j = i := by
    intro j b hj hb hrole
    exact hsep.single j i b inc hj hi hb (by simp [hexit]) (Or.inl hrole)
  obtain ⟨howner, hentered, hholder, hheld, hregistered⟩ := h
  constructor <;> simp only [State.registerRole, State.setInc, getElem?_set_some hi,
    Map.lookup_insert_ite] <;> grind

theorem Indexed.unregister (h : Indexed s) (hsep : Separate s) (hi : s.incs[i]? = some inc)
    (hp : inc.exit = .uncalled) (hreg : inc.registered = true) :
    Indexed { s.setInc i { inc with exit := .sesDropped } with ses := s.ses.erase inc.sesID } := by
  have hother : ∀ (j : Nat) (b : Incarnation), s.incs[j]? = some b → b.exit ≠ .returned →
      b.sesID = inc.sesID → j = i := by
    intro j b hj hb hses
    exact hsep.single j i b inc hj hi hb (by simp [hp]) (Or.inr hses)
  obtain ⟨howner, hentered, hholder, hheld, hregistered⟩ := h
  constructor <;> simp only [State.setInc, getElem?_set_some hi, Map.lookup_erase_ite] <;> grind

theorem Indexed.unregisterRole (h : Indexed s) (hi : s.incs[i]? = some inc)
    (hheld : s.roles.lookup inc.roleID = some i) (hreg : inc.registered = true)
    (hp : inc.exit = .sesDropped) :
    Indexed (s.unregisterRole i inc) := by
  obtain ⟨howner, hentered, hholder, hheld', hregistered⟩ := h
  constructor <;> simp only [State.unregisterRole, State.setInc, getElem?_set_some hi,
    Map.lookup_erase_ite] <;> grind

structure Inv (s : State) : Prop where
  separate : Separate s
  indexed : Indexed s
  deleted : ∀ pair ∈ s.deleted, pair.1 = pair.2

theorem Inv.initial : Inv State.initial := by
  refine ⟨?_, ?_, ?_⟩
  · constructor <;> simp [State.initial]
  · constructor <;> simp [State.initial]
  · simp [State.initial]

/-- A look-up that has read a session entry looks for the role that wrote it. -/
theorem Inv.getSes (h : Inv s) (sesID : UInt64) : Inv (s.getSes sesID) := by
  refine ⟨⟨h.separate.single, ?_, h.separate.reached⟩, ⟨h.indexed.owner, h.indexed.entered,
    h.indexed.holder, h.indexed.held, h.indexed.registered⟩, h.deleted⟩
  intro l hl hp i inc hi hexit hrole
  obtain hl | ⟨roleID, hses, rfl⟩ : l ∈ s.lookups ∨ ∃ roleID,
      s.ses.lookup sesID = some roleID ∧ ⟨sesID, roleID, true⟩ = l := by
    simpa [State.getSes] using hl
  · exact h.separate.pending l hl hp i inc hi hexit hrole
  · obtain ⟨j, b, -, hj, hb, rfl, rfl⟩ := h.indexed.owner sesID roleID hses
    obtain rfl := h.separate.single i j inc b hi hj hexit (by simp [hb]) (Or.inl hrole)
    obtain rfl : inc = b := Option.some.inj (hi.symm.trans hj)
    rfl

theorem Inv.getRole (h : Inv s) {k : Nat} {l : Lookup} (hl : s.lookups[k]? = some l)
    (hp : l.pending = true) : Inv (s.getRole k l) := by
  refine ⟨⟨h.separate.single, ?_, ?_⟩, ⟨h.indexed.owner, h.indexed.entered,
    h.indexed.holder, h.indexed.held, h.indexed.registered⟩, h.deleted⟩
  · intro l' hl' hp'
    obtain hl' | rfl := List.mem_or_eq_of_mem_set hl'
    · exact h.separate.pending l' hl' hp'
    · cases hp'
  · intro hit hhit
    obtain hhit | ⟨j, hj, rfl⟩ : hit ∈ s.reached ∨ ∃ j,
        s.roles.lookup l.roleID = some j ∧ (l.sesID, j) = hit := by
      simpa [State.getRole] using hhit
    · exact h.separate.reached hit hhit
    · obtain ⟨inc, hi, -, hexit, hrole⟩ := h.indexed.holder l.roleID j hj
      exact ⟨inc, hi, h.separate.pending l (List.mem_of_getElem? hl) hp j inc hi hexit hrole⟩

theorem Inv.registerRole (h : Inv s) (hi : s.incs[i]? = some inc) (hp : inc.registered = false) :
    Inv (s.registerRole i inc) := by
  have hsep : Separate (s.setInc i { inc with registered := true }) :=
    h.separate.setInc hi rfl rfl id
  exact ⟨⟨hsep.single, hsep.pending, hsep.reached⟩, h.indexed.registerRole h.separate hi hp,
    h.deleted⟩

/-- The session entry of a role that is being unregistered still has its ID. -/
theorem Inv.unregister_eq (h : Inv s) (hi : s.incs[i]? = some inc) (hp : inc.exit = .uncalled) :
    s.unregister i inc =
      { s.setInc i { inc with exit := .sesDropped } with ses := s.ses.erase inc.sesID } := by
  rw [State.unregister, if_pos (h.indexed.entered i inc hi hp)]

theorem Inv.unregister (h : Inv s) (hi : s.incs[i]? = some inc) (hp : inc.exit = .uncalled)
    (hreg : inc.registered = true) :
    Inv (s.unregister i inc) := by
  rw [h.unregister_eq hi hp]
  have hsep : Separate (s.setInc i { inc with exit := .sesDropped }) :=
    h.separate.setInc hi rfl rfl (by simp [hp])
  exact ⟨⟨hsep.single, hsep.pending, hsep.reached⟩, h.indexed.unregister h.separate hi hp hreg,
    h.deleted⟩

/-- The second section of `Unregister` deletes the caller's own role entry. -/
theorem Inv.unregisterRole (h : Inv s) (hi : s.incs[i]? = some inc) (hp : inc.exit = .sesDropped) :
    Inv (s.unregisterRole i inc) := by
  have hreg : inc.registered = true := h.indexed.registered i inc hi (by simp [hp])
  have hheld : s.roles.lookup inc.roleID = some i := h.indexed.held i inc hi hreg (by simp [hp])
  have hsep : Separate (s.setInc i { inc with exit := .returned }) :=
    h.separate.setInc hi rfl rfl fun _ => rfl
  refine ⟨⟨hsep.single, hsep.pending, hsep.reached⟩, h.indexed.unregisterRole hi hheld hreg hp, ?_⟩
  intro pair hpair
  obtain hpair | rfl : pair ∈ s.deleted ∨ pair = (i, i) := by
    simpa [State.unregisterRole, hheld] using hpair
  · exact h.deleted pair hpair
  · rfl

theorem Inv.step {s s' : State} {a : Act} (h : Inv s) (hok : apart s a)
    (hs : s.step a = some s') : Inv s' := by
  cases step_effect hs with
  | register => exact ⟨h.separate.register hok, h.indexed.register hok, h.deleted⟩
  | registerRole hi hp => exact h.registerRole hi hp
  | unregister hi hp => exact h.unregister hi hp (hok _ hi)
  | unregisterRole hi hp => exact h.unregisterRole hi hp
  | getSes => exact h.getSes _
  | getRole hl hp => exact h.getRole hl hp
  | get => exact h

theorem Inv.session (h : Inv s) (hq : s.Quiet) (hses : s.ses.lookup sesID = some roleID) :
    ∃ i, s.writer.lookup sesID = some i ∧ s.roles.lookup roleID = some i := by
  obtain ⟨i, inc, hw, hi, hexit, -, rfl⟩ := h.indexed.owner sesID roleID hses
  have hreg := (hq.1 inc (List.mem_of_getElem? hi)).1
  exact ⟨i, hw, h.indexed.held i inc hi hreg (by simp [hexit])⟩

theorem Inv.role (h : Inv s) (hq : s.Quiet) (hrole : s.roles.lookup roleID = some i) :
    ∃! sesID, s.ses.lookup sesID = some roleID := by
  obtain ⟨inc, hi, -, hexit, rfl⟩ := h.indexed.holder roleID i hrole
  have huncalled : inc.exit = .uncalled := by
    have hne := (hq.1 inc (List.mem_of_getElem? hi)).2
    cases hx : inc.exit with
    | uncalled => rfl
    | sesDropped => exact absurd hx hne
    | returned => exact absurd hx hexit
  refine ⟨inc.sesID, h.indexed.entered i inc hi huncalled, fun sesID hses => ?_⟩
  obtain ⟨j, b, -, hj, hb, rfl, hrole⟩ := h.indexed.owner sesID inc.roleID hses
  obtain rfl := h.separate.single j i b inc hj hi (by simp [hb]) hexit (Or.inl hrole)
  rw [Option.some.inj (hj.symm.trans hi)]

/-- A `Role` whose `Unregister` has returned is in neither index. -/
theorem Inv.returned (h : Inv s) (hi : s.incs[i]? = some inc) (hexit : inc.exit = .returned) :
    (∀ roleID, s.roles.lookup roleID ≠ some i) ∧
      ∀ sesID, (s.ses.lookup sesID).isSome → s.writer.lookup sesID ≠ some i := by
  constructor
  · intro roleID hrole
    obtain ⟨b, hb, -, hne, -⟩ := h.indexed.holder roleID i hrole
    obtain rfl : inc = b := Option.some.inj (hi.symm.trans hb)
    exact hne hexit
  · intro sesID hses hw
    obtain ⟨roleID, hses⟩ := Option.isSome_iff_exists.mp hses
    obtain ⟨j, b, hwj, hb, hne, -⟩ := h.indexed.owner sesID roleID hses
    obtain rfl : i = j := Option.some.inj (hw.symm.trans hwj)
    obtain rfl : inc = b := Option.some.inj (hi.symm.trans hb)
    simp [hexit] at hne

theorem inv_of_reachable (h : registry.Reachable apart s) : Inv s := by
  refine Machine.Reachable.invariant (P := Inv) ?_ ?_ h
  · rintro _ rfl
    exact Inv.initial
  · intro _ _ _ _ ih hok hs
    exact ih.step hok hs

/-- If the registrations of one role ID or session ID do not overlap, the two indices
are inverse to each other whenever no call is under way, and what goes by a session
reaches the role registered with it. -/
theorem registry_stays_inverse {s : State} (h : registry.Reachable apart s) : Inverse s := by
  have hinv := inv_of_reachable h
  exact
    { session := fun hq _ _ hses => hinv.session hq hses
      role := fun hq _ _ hrole => hinv.role hq hrole
      returned := fun _ _ hi hexit => hinv.returned hi hexit
      reached := hinv.separate.reached
      deleted := hinv.deleted }

/-- A role is registered, kicked by its session, unregistered and registered
again under another session. -/
theorem nextSession_stays_inverse : ∃ s, registry.Reachable apart s ∧
    s.ses.lookup 200 = some 7 ∧ s.reached = [(100, 0)] ∧ Inverse s := by
  obtain ⟨s, hr, hs⟩ := Machine.exec_reaches (m := registry) apart
    (fun s => s.ses.lookup 200 = some 7 ∧ s.reached = [(100, 0)])
    [.register 7 100, .registerRole 0, .getSes 100, .getRole 0, .unregister 0,
      .unregisterRole 0, .register 7 200, .registerRole 1] rfl (by decide +kernel)
  exact ⟨s, hr, hs.1, hs.2, registry_stays_inverse hr⟩

/-- `Register` for a role that still runs under an older session leaves the old
session entry, which then names the new `Role`. -/
theorem registeredTwice_not_inverse : ∃ s, registry.Reachable Machine.anyStep s ∧ ¬Inverse s := by
  obtain ⟨s, hr, hq, hw, hses, hrole⟩ := Machine.exec_reaches (m := registry) Machine.anyStep
    (fun s => ((∀ inc ∈ s.incs, inc.registered = true ∧ inc.exit ≠ .sesDropped) ∧
      ∀ l ∈ s.lookups, l.pending = false) ∧ s.writer.lookup 100 = some 0 ∧
      s.ses.lookup 100 = some 7 ∧ s.roles.lookup 7 = some 1)
    [.register 7 100, .registerRole 0, .register 7 200, .registerRole 1] rfl (by decide +kernel)
  refine ⟨s, hr, fun hinv => ?_⟩
  obtain ⟨i, hi, hrole'⟩ := hinv.session hq 100 7 hses
  obtain rfl : 0 = i := Option.some.inj (hw.symm.trans hi)
  simp [hrole] at hrole'

end GameCluster.Registry
