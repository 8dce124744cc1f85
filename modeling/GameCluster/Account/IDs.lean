import GameCluster.Bus.Dispatch
import GameCluster.Lib.Machine
import GameCluster.Lib.Table
import Mathlib.Data.List.Nodup

/-!
The IDs of accounts (`account/auth/acc.go`, `registerNewAccounts` of
`loader.go`). A starting node reads the largest ID in Mongo and raises the Redis
counter to it by a script; a running node takes its IDs from the counter by
`INCR` and inserts accounts under them. Several nodes start, allocate and insert
at the same time, so what a node has read can be old when its script runs.

Redis and Mongo hold an ID as a decimal text and as a 64-bit integer; both are
numbers here. A Lua number is a double. The stores start empty, and the counter
is never lost. `returned` remembers each ID handed out and the accounts that
were in Mongo then.
-/

namespace GameCluster.AccIDs

open Lib Bus

/-- A natural number as a Lua number: 53 significant bits, rounded to nearest
and to even. -/
def toDouble (n : ℕ) : ℕ :=
  if n < 2 ^ 53 then n
  else
    let e := n.log2 - 52
    let q := n / 2 ^ e
    let r := n % 2 ^ e
    if 2 ^ (e - 1) < r ∨ r = 2 ^ (e - 1) ∧ q % 2 = 1 then (q + 1) * 2 ^ e else q * 2 ^ e

theorem toDouble_of_lt {n : ℕ} (h : n < 2 ^ 53) : toDouble n = n := if_pos h

/-- Where a node stands: at the start of `InitDistributedAccID`, between its
read and its script, running, or stopped by an error. -/
inductive Phase where
  | starting
  | read (maxID : ℕ)
  | ready
  | failed
  deriving DecidableEq, Repr

/-- How a command ends for its caller. -/
inductive Reply where
  | ok
  /-- Carried out, and the reply lost. -/
  | lost
  | refused
  deriving DecidableEq, Repr

structure Returned where
  id : ℕ
  accounts : List ℕ

structure State where
  /-- `server:acc_id` in Redis. -/
  counter : Option ℕ := none
  /-- The IDs in the `accounts` collection. -/
  accounts : List ℕ := []
  nodes : List Phase := []
  returned : List Returned := []

inductive Act where
  | start
  /-- `FindOne` sorted by ID, downwards. -/
  | findMax (i : ℕ) (err : Bool)
  /-- The script of `InitDistributedAccID`. -/
  | raise (i : ℕ) (reply : Reply)
  /-- `GenerateNextAccID` -/
  | generate (i : ℕ) (reply : Reply)
  /-- `InsertOne` of an account with the `k`-th ID returned. -/
  | insert (k : ℕ)

/-- The value of the counter, where a missing key counts as zero. -/
def State.value (s : State) : ℕ := s.counter.getD 0

/-- The largest ID in Mongo, or `ActorID_IDAccBegin` in an empty collection. -/
def findMaxID (accounts : List ℕ) : ℕ := (accounts.max?).getD idAccBegin.toNat

/-- The script: the new value of the counter. -/
def luaRaise (counter : Option ℕ) (proposed : ℕ) : Option ℕ :=
  let current := toDouble (counter.getD 0)
  if current < toDouble proposed then some (toDouble proposed) else counter

def State.raise (s : State) (i maxID : ℕ) : Reply → State
  | .ok => { s with counter := luaRaise s.counter maxID, nodes := s.nodes.set i .ready }
  | .lost => { s with counter := luaRaise s.counter maxID, nodes := s.nodes.set i .failed }
  | .refused => { s with nodes := s.nodes.set i .failed }

def State.generate (s : State) : Reply → State
  | .ok =>
    { s with
      counter := some (s.value + 1)
      returned := s.returned ++ [⟨s.value + 1, s.accounts⟩] }
  | .lost => { s with counter := some (s.value + 1) }
  | .refused => s

def step (s : State) : Act → Option State
  | .start => some { s with nodes := s.nodes ++ [.starting] }
  | .findMax i err =>
    match s.nodes[i]? with
    | some .starting =>
      some { s with
        nodes := s.nodes.set i (if err then .failed else .read (findMaxID s.accounts)) }
    | _ => none
  | .raise i reply =>
    match s.nodes[i]? with
    | some (.read maxID) => some (s.raise i maxID reply)
    | _ => none
  | .generate i reply =>
    match s.nodes[i]? with
    | some .ready => some (s.generate reply)
    | _ => none
  | .insert k =>
    match s.returned[k]? with
    | some r => some { s with accounts := s.accounts ++ [r.id] }
    | none => none

/-- Any number of nodes over one Redis and one Mongo. -/
def accIDs : Machine State Act where
  init s := s = {}
  step := step

/-- The IDs stay below `2^53`. -/
def below53 (s : State) : Act → Prop
  | .generate _ _ => s.value + 1 < 2 ^ 53
  | .start | .findMax _ _ | .raise _ _ | .insert _ => True

instance (s : State) (a : Act) : Decidable (below53 s a) :=
  match a with
  | .generate _ _ => inferInstanceAs (Decidable (s.value + 1 < 2 ^ 53))
  | .start | .findMax _ _ | .raise _ _ | .insert _ => inferInstanceAs (Decidable True)

inductive Effect (s : State) : Act → State → Prop
  | start : Effect s .start { s with nodes := s.nodes ++ [.starting] }
  | findMax {i : ℕ} (err : Bool) (hi : s.nodes[i]? = some .starting) :
      Effect s (.findMax i err)
        { s with nodes := s.nodes.set i (if err then .failed else .read (findMaxID s.accounts)) }
  | raise {i maxID : ℕ} (reply : Reply) (hi : s.nodes[i]? = some (.read maxID)) :
      Effect s (.raise i reply) (s.raise i maxID reply)
  | generate {i : ℕ} (reply : Reply) (hi : s.nodes[i]? = some .ready) :
      Effect s (.generate i reply) (s.generate reply)
  | insert {k : ℕ} {r : Returned} (hr : s.returned[k]? = some r) :
      Effect s (.insert k) { s with accounts := s.accounts ++ [r.id] }

theorem step_effect {s t : State} {a : Act} (h : step s a = some t) : Effect s a t := by
  unfold step at h
  cases a with
  | start =>
    cases h
    exact .start
  | findMax i err =>
    simp only at h
    split at h
    · rename_i hi
      cases h
      exact .findMax err hi
    · cases h
  | raise i reply =>
    simp only at h
    split at h
    · rename_i maxID hi
      cases h
      exact .raise reply hi
    · cases h
  | generate i reply =>
    simp only at h
    split at h
    · rename_i hi
      cases h
      exact .generate reply hi
    · cases h
  | insert k =>
    simp only at h
    split at h
    · rename_i r hr
      cases h
      exact .insert hr
    · cases h

/-- What every step keeps. -/
structure Inv (s : State) : Prop where
  value_lt : s.value < 2 ^ 53
  /-- A node that runs has raised the counter. -/
  ready : .ready ∈ s.nodes → idAccBegin.toNat ≤ s.value
  /-- What a node has read may be old, but not above what IDs there are. -/
  read : ∀ maxID, .read maxID ∈ s.nodes → idAccBegin.toNat ≤ maxID ∧ maxID < 2 ^ 53
  above : ∀ r ∈ s.returned, idAccBegin.toNat < r.id ∧ r.id ≤ s.value
  accounts : ∀ id ∈ s.accounts, ∃ r ∈ s.returned, r.id = id
  exceeds : ∀ r ∈ s.returned, ∀ id ∈ r.accounts, id < r.id
  nodup : (s.returned.map Returned.id).Nodup

namespace Inv

variable {s t : State}

theorem accounts_le (h : Inv s) {id : ℕ} (hid : id ∈ s.accounts) :
    idAccBegin.toNat < id ∧ id ≤ s.value := by
  obtain ⟨r, hr, rfl⟩ := h.accounts id hid
  exact h.above r hr

/-- The read of a starting node. -/
theorem findMaxID_bounds (h : Inv s) :
    idAccBegin.toNat ≤ findMaxID s.accounts ∧ findMaxID s.accounts < 2 ^ 53 := by
  unfold findMaxID
  cases hmax : s.accounts.max? with
  | none => exact ⟨Nat.le_refl _, by decide⟩
  | some m =>
    have hbounds := h.accounts_le (List.max?_mem hmax)
    have hvalue := h.value_lt
    simp only [Option.getD_some]
    omega

/-- Below `2^53` the script takes the maximum. -/
theorem luaRaise_value (h : Inv s) {maxID : ℕ} (hmax : maxID < 2 ^ 53) :
    (luaRaise s.counter maxID).getD 0 = max s.value maxID := by
  have hvalue : s.counter.getD 0 < 2 ^ 53 := h.value_lt
  simp only [luaRaise, toDouble_of_lt hmax, toDouble_of_lt hvalue, State.value]
  split
  · rename_i hlt
    rw [Option.getD_some, Nat.max_eq_right (Nat.le_of_lt hlt)]
  · rename_i hge
    rw [Nat.max_eq_left (Nat.le_of_not_lt hge)]

/-- The counter may rise as long as it stays below the bound. -/
theorem raised (h : Inv s) (hle : s.value ≤ t.value) (hlt : t.value < 2 ^ 53)
    (hready : .ready ∈ t.nodes → idAccBegin.toNat ≤ t.value)
    (hread : ∀ maxID, .read maxID ∈ t.nodes → idAccBegin.toNat ≤ maxID ∧ maxID < 2 ^ 53)
    (hacc : t.accounts = s.accounts) (hret : t.returned = s.returned) : Inv t where
  value_lt := hlt
  ready := hready
  read := hread
  above := by
    rw [hret]
    intro r hr
    exact ⟨(h.above r hr).1, (h.above r hr).2.trans hle⟩
  accounts := by
    rw [hacc, hret]
    exact h.accounts
  exceeds := by
    rw [hret]
    exact h.exceeds
  nodup := by
    rw [hret]
    exact h.nodup

theorem mem_set {nodes : List Phase} {i : ℕ} {p q : Phase} (h : q ∈ nodes.set i p) :
    q ∈ nodes ∨ q = p :=
  List.mem_or_eq_of_mem_set h

/-- A node that fails leaves the others as they are. -/
theorem failed (h : Inv s) (i : ℕ) (hle : s.value ≤ t.value) (hlt : t.value < 2 ^ 53)
    (hnodes : t.nodes = s.nodes.set i .failed) (hacc : t.accounts = s.accounts)
    (hret : t.returned = s.returned) : Inv t := by
  refine h.raised hle hlt ?_ ?_ hacc hret
  · rw [hnodes]
    intro hmem
    rcases mem_set hmem with hold | heq
    · exact (h.ready hold).trans hle
    · cases heq
  · rw [hnodes]
    intro maxID hmem
    rcases mem_set hmem with hold | heq
    · exact h.read maxID hold
    · cases heq

theorem findMax (h : Inv s) (i : ℕ) (err : Bool) :
    Inv { s with
      nodes := s.nodes.set i (if err then .failed else .read (findMaxID s.accounts)) } := by
  refine h.raised (Nat.le_refl _) h.value_lt ?_ ?_ rfl rfl
  · intro hmem
    rcases mem_set hmem with hold | heq
    · exact h.ready hold
    · cases err <;> cases heq
  · intro maxID hmem
    rcases mem_set hmem with hold | heq
    · exact h.read maxID hold
    · cases err with
      | true => cases heq
      | false =>
        cases heq
        exact h.findMaxID_bounds

theorem raise (h : Inv s) {i maxID : ℕ} (hi : s.nodes[i]? = some (.read maxID)) (reply : Reply) :
    Inv (s.raise i maxID reply) := by
  obtain ⟨hbegin, hmax⟩ := h.read maxID (List.mem_of_getElem? hi)
  have hraised : ({ s with counter := luaRaise s.counter maxID } : State).value =
      Nat.max s.value maxID := h.luaRaise_value hmax
  have hle : s.value ≤ Nat.max s.value maxID := Nat.le_max_left _ _
  have hlt : Nat.max s.value maxID < 2 ^ 53 := Nat.max_lt.mpr ⟨h.value_lt, hmax⟩
  cases reply with
  | ok =>
    refine h.raised (hle.trans_eq hraised.symm) (hraised.trans_lt hlt) ?_ ?_ rfl rfl
    · intro _
      exact (hbegin.trans (Nat.le_max_right _ _)).trans_eq hraised.symm
    · intro m hmem
      rcases mem_set hmem with hold | heq
      · exact h.read m hold
      · cases heq
  | lost => exact h.failed i (hle.trans_eq hraised.symm) (hraised.trans_lt hlt) rfl rfl rfl
  | refused => exact h.failed i (Nat.le_refl _) h.value_lt rfl rfl rfl

theorem generate (h : Inv s) (hready : .ready ∈ s.nodes) (hlt : s.value + 1 < 2 ^ 53)
    (reply : Reply) : Inv (s.generate reply) := by
  have hbegin := h.ready hready
  have lost : Inv { s with counter := some (s.value + 1) } := by
    refine h.raised (Nat.le_succ _) hlt ?_ h.read rfl rfl
    intro _
    exact hbegin.trans (Nat.le_succ _)
  cases reply with
  | ok =>
    refine ⟨hlt, lost.ready, lost.read, ?_, ?_, ?_, ?_⟩
    · intro r hr
      rcases List.mem_append.mp hr with hold | hnew
      · exact lost.above r hold
      · rw [List.mem_singleton.mp hnew]
        exact ⟨Nat.lt_succ_of_le hbegin, Nat.le_refl _⟩
    · intro id hid
      obtain ⟨r, hr, heq⟩ := h.accounts id hid
      exact ⟨r, List.mem_append_left _ hr, heq⟩
    · intro r hr id hid
      rcases List.mem_append.mp hr with hold | hnew
      · exact h.exceeds r hold id hid
      · rw [List.mem_singleton.mp hnew] at hid ⊢
        exact Nat.lt_succ_of_le (h.accounts_le hid).2
    · rw [State.generate, List.map_append]
      refine h.nodup.append (List.nodup_singleton _) (List.disjoint_singleton.mpr ?_)
      intro hmem
      obtain ⟨r, hr, heq⟩ := List.mem_map.mp hmem
      have hle := (h.above r hr).2
      simp only at heq
      omega
  | lost => exact lost
  | refused => exact h

theorem insert (h : Inv s) {k : ℕ} {r : Returned} (hr : s.returned[k]? = some r) :
    Inv { s with accounts := s.accounts ++ [r.id] } := by
  refine ⟨h.value_lt, h.ready, h.read, h.above, ?_, h.exceeds, h.nodup⟩
  intro id hid
  rcases List.mem_append.mp hid with hold | hnew
  · exact h.accounts id hold
  · exact ⟨r, List.mem_of_getElem? hr, (List.mem_singleton.mp hnew).symm⟩

theorem start (h : Inv s) : Inv { s with nodes := s.nodes ++ [.starting] } := by
  refine h.raised (Nat.le_refl _) h.value_lt ?_ ?_ rfl rfl
  · intro hmem
    exact h.ready (by simpa using hmem)
  · intro maxID hmem
    exact h.read maxID (by simpa using hmem)

theorem effect {a : Act} (h : Inv s) (hok : below53 s a) (e : Effect s a t) : Inv t := by
  cases e with
  | start => exact h.start
  | @findMax i err _ => exact h.findMax i err
  | raise reply hi => exact h.raise hi reply
  | generate reply hi => exact h.generate (List.mem_of_getElem? hi) hok reply
  | insert hr => exact h.insert hr

theorem value_le {a : Act} (h : Inv s) (e : Effect s a t) : s.value ≤ t.value := by
  cases e with
  | start | findMax _ _ | insert _ => exact Nat.le_refl _
  | @raise i maxID reply hi =>
    have hmax := (h.read maxID (List.mem_of_getElem? hi)).2
    have hle : s.value ≤ (luaRaise s.counter maxID).getD 0 := by
      rw [h.luaRaise_value hmax]
      exact Nat.le_max_left _ _
    cases reply with
    | ok | lost => exact hle
    | refused => exact Nat.le_refl _
  | generate reply _ =>
    cases reply with
    | ok | lost => exact Nat.le_succ _
    | refused => exact Nat.le_refl _

end Inv

theorem inv_of_reachable {s : State} (h : accIDs.Reachable below53 s) : Inv s := by
  apply h.invariant
  · rintro s rfl
    constructor
    case value_lt => decide
    case nodup => exact List.nodup_nil
    all_goals simp
  · intro s a t _ ih hok hs
    exact ih.effect hok (step_effect hs)

/-- A message for a role goes to the role's queue. -/
theorem onServerMsg_role (g : GameServer) {m : Message} (hses : m.head.sesID = 0)
    (hid : idAccBegin < m.head.actorID) :
    g.onServerMsg m = ({ g with roles := dispatch g.roles m.head.actorID m }, none) := by
  have hroute : GameServer.route m = .dispatchRole m.head.actorID := by
    simp [GameServer.route, hses, hid]
  simp only [GameServer.onServerMsg, hroute]

/-- No ID is returned twice, the counter never falls, an ID is above those of
all accounts in Mongo at the time and above those of the actors, and a game
server hands a message for that role to the role's queue and to no actor. -/
theorem accIDs_unique {s : State} (h : accIDs.Reachable below53 s) :
    (s.returned.map Returned.id).Nodup ∧
    (∀ a t, step s a = some t → s.value ≤ t.value) ∧
    ∀ r ∈ s.returned, (∀ id ∈ r.accounts, id < r.id) ∧ idAccBegin.toNat < r.id ∧
      ∀ (g : GameServer) (m : Message), m.head.sesID = 0 → m.head.actorID = .ofNat r.id →
        g.onServerMsg m = ({ g with roles := dispatch g.roles (.ofNat r.id) m }, none) := by
  have inv := inv_of_reachable h
  refine ⟨inv.nodup, fun a t hs => inv.value_le (step_effect hs), fun r hr => ?_⟩
  obtain ⟨habove, hle⟩ := inv.above r hr
  refine ⟨inv.exceeds r hr, habove, fun g m hses hactor => ?_⟩
  have hlt : r.id < 2 ^ 64 := by
    have hvalue := inv.value_lt
    omega
  have hrole : idAccBegin < m.head.actorID := by
    rw [hactor, UInt64.lt_iff_toNat_lt, UInt64.toNat_ofNat_of_lt' hlt]
    exact habove
  rw [onServerMsg_role g hses hrole, hactor]

/-- A node whose read is old by the time of its script, and one that starts
later and reads an account. -/
theorem threeNodes_unique : ∃ s, accIDs.Reachable below53 s ∧
    s.returned.map Returned.id = [100001, 100002, 100003] ∧
      (s.returned.map Returned.id).Nodup := by
  obtain ⟨s, hs, hp⟩ := Machine.exec_reaches (m := accIDs) below53
    (fun s => s.returned.map Returned.id = [100001, 100002, 100003])
    [.start, .start, .findMax 0 false, .findMax 1 false, .raise 0 .ok, .generate 0 .ok, .insert 0,
      .raise 1 .ok, .generate 1 .ok, .start, .findMax 2 false, .raise 2 .ok, .generate 2 .ok]
    rfl (by decide +kernel)
  exact ⟨s, hs, hp, (accIDs_unique hs).1⟩

end GameCluster.AccIDs
