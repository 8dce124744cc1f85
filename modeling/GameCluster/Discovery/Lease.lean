import GameCluster.Lib.Machine
import Mathlib.Data.List.Nodup

/-!
A service node and its lease (`pkg/discovery/register.go`): `keepAliveLoop` with
`initialRegister` and `keepAlive`, and an etcd that numbers the leases it grants.
A lease may expire at any step, and the service key goes with the lease it was
put under. Any call to etcd may fail, and a failed one may have been carried out.

`asked` records the `KeepAlive` requests, with what the call of `keepAlive` had
got from etcd before. `NewRegister` sets the field `first`; the loop is run here
from there and, to see what the branch without it does, with either value of it.
-/

namespace GameCluster.Discovery

open Lib

/-- A call that etcd answers with an error, carried out or not. -/
structure Fault where
  applied : Bool

/-- Where the goroutine of `keepAliveLoop` is. -/
inductive Pc where
  | top
  | grant
  | put
  | ask
  /-- The loop over `keepAliveCh`. -/
  | watch
  /-- `keepAlive` has returned an error. -/
  | failed
  /-- The three seconds until the next try. -/
  | pause
  | stopped
  deriving DecidableEq, Repr

/-- A `KeepAlive` request of the `call`th call of `keepAlive`. -/
structure Ask where
  call : ℕ
  lease : ℕ
  /-- The lease that this call has been granted. -/
  granted : Option ℕ
  /-- The lease that this call has put the service key under. -/
  put : Option ℕ
  deriving DecidableEq, Repr

structure State where
  /-- The number of the next lease. -/
  next : ℕ
  live : List ℕ
  /-- The lease that the service key is attached to, if the key is there. -/
  key : Option ℕ
  leaseID : ℕ
  first : Bool
  cancelled : Bool
  pc : Pc
  calls : ℕ
  granted : Option ℕ
  put : Option ℕ
  asked : List Ask
  deriving DecidableEq, Repr

inductive Act where
  | cancel
  | expire (lease : ℕ)
  /-- The first `select` of the loop. -/
  | loop
  | grant (fault : Option Fault)
  | put (fault : Option Fault)
  | keepAlive (err : Bool)
  /-- etcd closes `keepAliveCh`. -/
  | closed
  /-- A branch of `ctx.Done()`. -/
  | done
  /-- The `select` after an error. -/
  | check
  | timer

namespace State

/-- The call of `keepAlive`, up to its first call of etcd. -/
def call (s : State) : State :=
  { s with
    pc := if s.first then .ask else .grant
    calls := s.calls + 1
    granted := none
    put := none }

/-- `Grant`. The error of `initialRegister` is ignored. -/
def grant (s : State) : Option Fault → State
  | none =>
    { s with
      live := s.live ++ [s.next]
      next := s.next + 1
      leaseID := s.next
      granted := some s.next
      pc := .put }
  | some f =>
    if f.applied then
      { s with live := s.live ++ [s.next], next := s.next + 1, first := false, pc := .ask }
    else { s with first := false, pc := .ask }

/-- `Put` with the lease, which fails if the lease is not there. -/
def putKey (s : State) (fault : Option Fault) : State :=
  let s := { s with first := false, pc := .ask }
  if s.leaseID ∈ s.live then
    match fault with
    | none => { s with key := some s.leaseID, put := some s.leaseID }
    | some f => if f.applied then { s with key := some s.leaseID } else s
  else s

def keepAlive (s : State) (err : Bool) : State :=
  { s with
    pc := if err then .failed else .watch
    asked := s.asked ++ [⟨s.calls, s.leaseID, s.granted, s.put⟩] }

def expire (s : State) (lease : ℕ) : State :=
  { s with
    live := s.live.filter (· ≠ lease)
    key := if s.key = some lease then none else s.key }

def step (s : State) : Act → Option State
  | .cancel => some { s with cancelled := true }
  | .expire lease => some (s.expire lease)
  | .loop =>
    if s.pc = .top then some (if s.cancelled then { s with pc := .stopped } else s.call) else none
  | .grant fault => if s.pc = .grant then some (s.grant fault) else none
  | .put fault => if s.pc = .put then some (s.putKey fault) else none
  | .keepAlive err => if s.pc = .ask then some (s.keepAlive err) else none
  | .closed => if s.pc = .watch then some { s with pc := .failed } else none
  | .done =>
    if s.cancelled = true ∧ s.pc = .watch then some { s with pc := .pause }
    else if s.cancelled = true ∧ s.pc = .pause then some { s with pc := .stopped }
    else none
  | .check =>
    if s.pc = .failed then some { s with pc := if s.cancelled then .stopped else .pause }
    else none
  | .timer => if s.pc = .pause then some { s with pc := .top } else none

end State

/-- The node when `NewRegister` starts the loop: `initialRegister` has succeeded. -/
def newRegister : State where
  next := 1
  live := [0]
  key := some 0
  leaseID := 0
  first := true
  cancelled := false
  pc := .top
  calls := 0
  granted := none
  put := none
  asked := []

/-- `keepAliveLoop` over a `Register` with either value of `first`. -/
def register : Machine State Act where
  init s := ∃ first, s = { newRegister with first }
  step := State.step

/-- The same as `NewRegister` starts it. -/
def fromNewRegister : Machine State Act where
  init s := s = newRegister
  step := State.step

/-- Every call of `keepAlive` after the first one has a new lease and has put the
key under it when it asks etcd to keep a lease alive, so that no lease is asked
for a second time. -/
structure State.ComesBack (s : State) : Prop where
  registers : ∀ q ∈ s.asked, 1 < q.call → q.granted = some q.lease ∧ q.put = some q.lease
  fresh : (s.asked.map (·.lease)).Nodup

/-- `keepAlive` is called again only with `first` unset, and the `Grant` and the
`Put` of such a call succeed. -/
def registersAgain (s : State) : Act → Prop
  | .loop => s.cancelled = false → 0 < s.calls → s.first = false
  | .grant fault => 1 < s.calls → fault.isNone = true
  | .put fault => 1 < s.calls → fault.isNone = true ∧ s.leaseID ∈ s.live
  | _ => True

instance (s : State) (a : Act) : Decidable (registersAgain s a) :=
  match a with
  | .loop => inferInstanceAs (Decidable (s.cancelled = false → 0 < s.calls → s.first = false))
  | .grant fault => inferInstanceAs (Decidable (1 < s.calls → fault.isNone = true))
  | .put fault =>
    inferInstanceAs (Decidable (1 < s.calls → fault.isNone = true ∧ s.leaseID ∈ s.live))
  | .cancel | .expire _ | .keepAlive _ | .closed | .done | .check | .timer => isTrue trivial

variable {s t : State} {a : Act}

/-- The goroutine is in a call of `keepAlive` that has not asked yet. -/
def Pc.early : Pc → Bool
  | .grant | .put | .ask => true
  | .top | .watch | .failed | .pause | .stopped => false

inductive Effect (s : State) : Act → State → Prop
  | cancel : Effect s .cancel { s with cancelled := true }
  | expire (lease : ℕ) : Effect s (.expire lease) (s.expire lease)
  | call (hpc : s.pc = .top) (hopen : s.cancelled = false) : Effect s .loop s.call
  | grant (hpc : s.pc = .grant) (fault : Option Fault) : Effect s (.grant fault) (s.grant fault)
  | put (hpc : s.pc = .put) (fault : Option Fault) : Effect s (.put fault) (s.putKey fault)
  | keepAlive (hpc : s.pc = .ask) (err : Bool) : Effect s (.keepAlive err) (s.keepAlive err)
  /-- The goroutine goes on without a call to etcd. -/
  | goto {a : Act} {pc : Pc} (hfrom : s.pc.early = false) (hidle : pc.early = false) :
      Effect s a { s with pc }

theorem step_effect (hs : s.step a = some t) : Effect s a t := by
  cases a with
  | cancel =>
    cases hs
    exact .cancel
  | expire lease =>
    cases hs
    exact .expire lease
  | loop =>
    obtain ⟨hpc, hs⟩ := Option.ite_none_right_eq_some.mp hs
    cases hs
    split
    · exact .goto (by rw [hpc]; rfl) rfl
    · rename_i hopen
      exact .call hpc (by simpa using hopen)
  | grant fault =>
    obtain ⟨hpc, hs⟩ := Option.ite_none_right_eq_some.mp hs
    cases hs
    exact .grant hpc fault
  | put fault =>
    obtain ⟨hpc, hs⟩ := Option.ite_none_right_eq_some.mp hs
    cases hs
    exact .put hpc fault
  | keepAlive err =>
    obtain ⟨hpc, hs⟩ := Option.ite_none_right_eq_some.mp hs
    cases hs
    exact .keepAlive hpc err
  | closed | timer =>
    obtain ⟨hpc, hs⟩ := Option.ite_none_right_eq_some.mp hs
    cases hs
    exact .goto (by rw [hpc]; rfl) rfl
  | done =>
    simp only [State.step] at hs
    split at hs
    · rename_i hdone
      cases hs
      exact .goto (by rw [hdone.2]; rfl) rfl
    · obtain ⟨hdone, hs⟩ := Option.ite_none_right_eq_some.mp hs
      cases hs
      exact .goto (by rw [hdone.2]; rfl) rfl
  | check =>
    obtain ⟨hpc, hs⟩ := Option.ite_none_right_eq_some.mp hs
    cases hs
    exact .goto (by rw [hpc]; rfl) (by cases s.cancelled <;> rfl)

structure Inv (s : State) : Prop where
  lease : s.leaseID < s.next
  asked : ∀ q ∈ s.asked, q.lease < s.next
  fresh : (s.asked.map (·.lease)).Nodup
  registers : ∀ q ∈ s.asked, 1 < q.call → q.granted = some q.lease ∧ q.put = some q.lease
  count : s.asked.length ≤ s.calls
  early : s.pc.early = true → s.asked.length < s.calls
  putting : s.pc = .put → s.granted = some s.leaseID ∧ ∀ q ∈ s.asked, q.lease < s.leaseID
  asking : s.pc = .ask → 1 < s.calls →
    s.granted = some s.leaseID ∧ s.put = some s.leaseID ∧ ∀ q ∈ s.asked, q.lease < s.leaseID

/-- A step outside the calls to etcd. -/
theorem Inv.frame (h : Inv s) (hlease : t.leaseID = s.leaseID) (hnext : t.next = s.next)
    (hcalls : t.calls = s.calls) (hgranted : t.granted = s.granted) (hput : t.put = s.put)
    (hasked : t.asked = s.asked) (hpc : t.pc = s.pc ∨ t.pc.early = false) : Inv t where
  lease := by
    rw [hlease, hnext]
    exact h.lease
  asked := by
    rw [hasked, hnext]
    exact h.asked
  fresh := hasked ▸ h.fresh
  registers := hasked ▸ h.registers
  count := by
    rw [hasked, hcalls]
    exact h.count
  early hearly := by
    rw [hasked, hcalls]
    rcases hpc with hpc | hpc
    · exact h.early (hpc ▸ hearly)
    · exact absurd hearly (by simp [hpc])
  putting hput' := by
    rw [hgranted, hlease, hasked]
    rcases hpc with hpc | hpc
    · exact h.putting (hpc ▸ hput')
    · simp [hput', Pc.early] at hpc
  asking hask := by
    rw [hcalls, hgranted, hput, hlease, hasked]
    rcases hpc with hpc | hpc
    · exact h.asking (hpc ▸ hask)
    · simp [hask, Pc.early] at hpc

theorem Inv.init (hs : register.init s) : Inv s := by
  obtain ⟨first, rfl⟩ := hs
  constructor <;> simp [newRegister, Pc.early]

theorem Inv.call (h : Inv s) (hok : 0 < s.calls → s.first = false) : Inv s.call where
  lease := h.lease
  asked := h.asked
  fresh := h.fresh
  registers := h.registers
  count := h.count.trans (Nat.le_succ _)
  early _ := Nat.lt_succ_of_le h.count
  putting hpc := by
    simp only [State.call] at hpc
    split at hpc <;> cases hpc
  asking hpc hcalls := by
    have hfirst := hok (Nat.lt_of_succ_lt_succ hcalls)
    simp [State.call, hfirst] at hpc

theorem Inv.grant (h : Inv s) (hpc : s.pc = .grant) {fault : Option Fault}
    (hok : 1 < s.calls → fault.isNone = true) : Inv (s.grant fault) := by
  have hearly : s.asked.length < s.calls := h.early (by rw [hpc]; rfl)
  cases fault with
  | none =>
    exact ⟨Nat.lt_succ_self _, fun q hq => (h.asked q hq).trans (Nat.lt_succ_self _), h.fresh,
      h.registers, h.count, fun _ => hearly, fun _ => ⟨rfl, h.asked⟩, fun hask => nomatch hask⟩
  | some f =>
    have hcalls : ¬1 < s.calls := fun hcalls => nomatch hok hcalls
    unfold State.grant
    simp only
    split
    · exact ⟨h.lease.trans (Nat.lt_succ_self _),
        fun q hq => (h.asked q hq).trans (Nat.lt_succ_self _), h.fresh, h.registers, h.count,
        fun _ => hearly, (fun hput => nomatch hput), fun _ hlater => absurd hlater hcalls⟩
    · exact ⟨h.lease, h.asked, h.fresh, h.registers, h.count, fun _ => hearly,
        (fun hput => nomatch hput), fun _ hlater => absurd hlater hcalls⟩

theorem State.putKey_frame (s : State) (fault : Option Fault) :
    (s.putKey fault).leaseID = s.leaseID ∧ (s.putKey fault).next = s.next ∧
      (s.putKey fault).calls = s.calls ∧ (s.putKey fault).granted = s.granted ∧
      (s.putKey fault).asked = s.asked ∧ (s.putKey fault).pc = .ask := by
  unfold State.putKey
  simp only
  split
  · split
    · exact ⟨rfl, rfl, rfl, rfl, rfl, rfl⟩
    · split <;> exact ⟨rfl, rfl, rfl, rfl, rfl, rfl⟩
  · exact ⟨rfl, rfl, rfl, rfl, rfl, rfl⟩

theorem Inv.put (h : Inv s) (hpc : s.pc = .put) {fault : Option Fault}
    (hok : 1 < s.calls → fault.isNone = true ∧ s.leaseID ∈ s.live) : Inv (s.putKey fault) := by
  obtain ⟨hlease, hnext, hcalls, hgranted, hasked, hask⟩ := s.putKey_frame fault
  obtain ⟨hnew, hbelow⟩ := h.putting hpc
  refine ⟨?_, ?_, ?_, ?_, ?_, fun _ => ?_, fun hput => ?_, fun _ hlater => ?_⟩
  · rw [hlease, hnext]
    exact h.lease
  · rw [hasked, hnext]
    exact h.asked
  · rw [hasked]
    exact h.fresh
  · rw [hasked]
    exact h.registers
  · rw [hasked, hcalls]
    exact h.count
  · rw [hasked, hcalls]
    exact h.early (by rw [hpc]; rfl)
  · rw [hask] at hput
    cases hput
  · obtain ⟨hnone, hlive⟩ := hok (hcalls ▸ hlater)
    rw [Option.isNone_iff_eq_none] at hnone
    subst hnone
    refine ⟨hgranted.trans (hnew.trans (congrArg some hlease.symm)), ?_, ?_⟩
    · simp [State.putKey, hlive]
    · rw [hasked, hlease]
      exact hbelow

theorem Inv.keepAlive (h : Inv s) (hpc : s.pc = .ask) (err : Bool) : Inv (s.keepAlive err) := by
  have hearly : s.asked.length < s.calls := h.early (by rw [hpc]; rfl)
  have hbelow : ∀ q ∈ s.asked, q.lease < s.leaseID := by
    rcases Nat.lt_or_ge 1 s.calls with hlater | hfirst
    · exact (h.asking hpc hlater).2.2
    · have hnil : s.asked = [] := List.length_eq_zero_iff.mp (by omega)
      simp [hnil]
  have hidle : (s.keepAlive err).pc.early = false := by cases err <;> rfl
  refine ⟨h.lease, fun q hq => ?_, ?_, fun q hq hcall => ?_, ?_, fun hpc' => ?_, fun hpc' => ?_,
    fun hpc' => ?_⟩
  · rcases List.mem_append.mp hq with hq | hq
    · exact h.asked q hq
    · rw [List.mem_singleton.mp hq]
      exact h.lease
  · simp only [State.keepAlive, List.map_append, List.map_cons, List.map_nil]
    refine h.fresh.append (List.nodup_singleton _) (List.disjoint_singleton.mpr fun hmem => ?_)
    obtain ⟨q, hq, hlease⟩ := List.mem_map.mp hmem
    exact absurd hlease (hbelow q hq).ne
  · rcases List.mem_append.mp hq with hq | hq
    · exact h.registers q hq hcall
    · obtain rfl := List.mem_singleton.mp hq
      obtain ⟨hgranted, hput, -⟩ := h.asking hpc hcall
      exact ⟨hgranted, hput⟩
  · simp only [State.keepAlive, List.length_append, List.length_singleton]
    exact hearly
  · rw [hidle] at hpc'
    cases hpc'
  · simp [hpc', Pc.early] at hidle
  · simp [hpc', Pc.early] at hidle

theorem Inv.effect (h : Inv s) (hok : registersAgain s a) (e : Effect s a t) : Inv t := by
  cases e with
  | cancel | expire lease => exact h.frame rfl rfl rfl rfl rfl rfl (Or.inl rfl)
  | call _ hopen => exact h.call (hok hopen)
  | grant hpc fault => exact h.grant hpc hok
  | put hpc fault => exact h.put hpc hok
  | keepAlive hpc err => exact h.keepAlive hpc err
  | goto _ hidle => exact h.frame rfl rfl rfl rfl rfl rfl (Or.inr hidle)

theorem inv_of_registersAgain (hr : register.Reachable registersAgain s) : Inv s := by
  refine hr.invariant (P := Inv) (fun _ hs => Inv.init hs) ?_
  intro s a t _ ih hok hs
  exact ih.effect hok (step_effect hs)

/-- What `NewRegister` leaves: the loop asks for its first lease and no other, once
in every call. -/
structure Stuck (s : State) : Prop where
  first : s.first = true
  lease : s.leaseID = 0
  asked : ∀ q ∈ s.asked, q.lease = 0
  pc : s.pc ≠ .grant ∧ s.pc ≠ .put
  calls : s.calls = s.asked.length + if s.pc = .ask then 1 else 0
  order : s.asked.map (·.call) = List.range' 1 s.asked.length

theorem Stuck.keepAlive (h : Stuck s) (hpc : s.pc = .ask) (err : Bool) :
    Stuck (s.keepAlive err) := by
  have hcalls := h.calls
  rw [if_pos hpc] at hcalls
  refine ⟨h.first, h.lease, fun q hq => ?_, by cases err <;> simp [State.keepAlive], ?_, ?_⟩
  · rcases List.mem_append.mp hq with hq | hq
    · exact h.asked q hq
    · rw [List.mem_singleton.mp hq]
      exact h.lease
  · cases err <;> simpa [State.keepAlive] using hcalls
  · simp [State.keepAlive, h.order, hcalls, List.range'_concat, Nat.add_comm]

theorem Stuck.effect (h : Stuck s) (e : Effect s a t) : Stuck t := by
  cases e with
  | cancel | expire lease => exact ⟨h.first, h.lease, h.asked, h.pc, h.calls, h.order⟩
  | call hpc hopen =>
    have hcalls := h.calls
    rw [hpc, if_neg (by decide)] at hcalls
    refine ⟨h.first, h.lease, h.asked, ?_, ?_, h.order⟩
    · simp [State.call, h.first]
    · simp [State.call, h.first, hcalls]
  | grant hpc fault => exact absurd hpc h.pc.1
  | put hpc fault => exact absurd hpc h.pc.2
  | keepAlive hpc err => exact h.keepAlive hpc err
  | @goto a pc hfrom hidle =>
    have hcalls := h.calls
    rw [if_neg (by rintro heq; simp [heq, Pc.early] at hfrom)] at hcalls
    refine ⟨h.first, h.lease, h.asked, ⟨?_, ?_⟩, ?_, h.order⟩
    · rintro rfl
      cases hidle
    · rintro rfl
      cases hidle
    · rw [if_neg (by rintro rfl; cases hidle)]
      exact hcalls

/-- Nothing unsets `first` after `NewRegister`, so its loop never registers again. -/
theorem stuck_of_newRegister (hr : fromNewRegister.Reachable Machine.anyStep s) : Stuck s := by
  refine hr.invariant (P := Stuck) ?_ ?_
  · rintro s rfl
    exact ⟨rfl, rfl, by simp [newRegister], by simp [newRegister], rfl, rfl⟩
  · intro s a t _ ih _ hs
    exact ih.effect (step_effect hs)

/-- The requests of `NewRegister`'s loop are all for one lease, so it takes two of
them to miss. -/
theorem Stuck.comesBack_iff (h : Stuck s) : s.ComesBack ↔ s.asked.length ≤ 1 := by
  constructor
  · intro hback
    have hzero : s.asked.map (·.lease) = List.replicate s.asked.length 0 := by
      rw [List.eq_replicate_iff]
      exact ⟨List.length_map _, by simpa using h.asked⟩
    exact List.nodup_replicate.mp (hzero ▸ hback.fresh)
  · intro hone
    match hasked : s.asked with
    | [] => exact ⟨by simp [hasked], by simp [hasked]⟩
    | [q] =>
      have horder := h.order
      rw [hasked] at horder
      have hcall : q.call = 1 := by simpa using horder
      exact ⟨by simp [hasked, hcall], by simp [hasked]⟩
    | _ :: _ :: _ =>
      rw [hasked] at hone
      simp at hone

/-- In runs in which every later call registers again, none asks for a lease that
it has not just been granted. In the runs of `NewRegister`, which never registers
again, that is so until its second request. -/
theorem keepAlive_comes_back (s : State) :
    (register.Reachable registersAgain s → s.ComesBack) ∧
      (fromNewRegister.Reachable Machine.anyStep s → (s.ComesBack ↔ s.asked.length ≤ 1)) := by
  refine ⟨fun hr => ?_, fun hr => (stuck_of_newRegister hr).comesBack_iff⟩
  have hinv := inv_of_registersAgain hr
  exact ⟨hinv.registers, hinv.fresh⟩

/-- The lease runs out, its channel closes and the loop comes to the next try. -/
def loseLease (lease : ℕ) : List Act := [.expire lease, .closed, .check, .timer]

/-- With `first` unset the second call gets lease 2 after lease 1 has expired. With
`first` set the loop of `NewRegister` has done no harm while it keeps its lease. -/
theorem secondLease_comes_back :
    (∃ s, register.Reachable registersAgain s ∧
      (s.key = some 2 ∧ s.asked.map (·.lease) = [1, 2]) ∧ s.ComesBack) ∧
    ∃ s, fromNewRegister.Reachable Machine.anyStep s ∧
      (s.key = some 0 ∧ s.pc = .watch ∧ s.asked.length = 1) ∧ s.ComesBack := by
  obtain ⟨s, hr, hs⟩ := Machine.exec_reaches (m := register) registersAgain
    (fun s => s.key = some 2 ∧ s.asked.map (·.lease) = [1, 2])
    ([Act.loop, .grant none, .put none, .keepAlive false] ++ loseLease 1 ++
      [Act.loop, .grant none, .put none, .keepAlive false]) ⟨false, rfl⟩ (by decide +kernel)
  obtain ⟨t, hrt, ht⟩ := Machine.exec_reaches (m := fromNewRegister) Machine.anyStep
    (fun s => s.key = some 0 ∧ s.pc = .watch ∧ s.asked.length = 1)
    [Act.loop, .keepAlive false] rfl (by decide +kernel)
  exact ⟨⟨s, hr, hs, (keepAlive_comes_back s).1 hr⟩,
    t, hrt, ht, ((keepAlive_comes_back t).2 hrt).mpr ht.2.2.le⟩

/-- The node of `NewRegister` loses its lease. Its second call of `keepAlive` asks for
the lease that has expired, and the service key stays away. -/
theorem expiredLease_asked_again : ∃ s, fromNewRegister.Reachable Machine.anyStep s ∧
    (s.first = true ∧ s.key = none) ∧ ¬s.ComesBack := by
  obtain ⟨s, hr, hstate, hasked⟩ := Machine.exec_reaches (m := fromNewRegister) Machine.anyStep
    (fun s => (s.first = true ∧ s.key = none) ∧ s.asked.map (·.lease) = [0, 0])
    ([Act.loop, .keepAlive false] ++ loseLease 0 ++ [Act.loop, .keepAlive false]) rfl
    (by decide +kernel)
  refine ⟨s, hr, hstate, fun hback => ?_⟩
  have hfresh := hback.fresh
  rw [hasked] at hfresh
  exact absurd hfresh (by decide)

end GameCluster.Discovery
