import GameCluster.Role.Registry

/-!
The goroutine of a `Role` (`Role.Run`, `Offline` and `marshal` of `role.go`)
over any components: an event handler or a hook may do anything to the role's
own data and may panic, and any encoding may fail. `GoSafe` recovers a panic
after the deferred function has run, and a panic inside the deferred function
ends it where it is.

Many goroutines share the registry. One statement of the source is one step,
and `Unregister` is two, one for each lock.
-/

namespace GameCluster.Exit

open Lib

/-- The length of `Role.Comps`. -/
def tcMax : Nat := 5

abbrev CompIndex := Fin tcMax

def tcBase : CompIndex := ⟨0, by decide⟩

/-- What the goroutine asks of `r.Data`, of type `D`, and of the components, of
type `C`: their encodings, whether a component has been changed, and whether it
has an `Offline` hook. -/
structure Code (D C : Type) where
  marshalData : D → Option String
  marshalComp : C → Option String
  isDirty : C → Bool
  hasOffline : C → Bool

structure Body (D C : Type) where
  data : D
  dirty : Bool
  comps : CompIndex → Option C

abbrev SaveData := Map CompIndex String

section Marshal

variable {D C : Type} (code : Code D C)

/-- One round of the component loop of `marshal`. A component whose encoding
fails is logged and left out. -/
def Body.marshalComp (b : Body D C) (force : Bool) (rd : SaveData) (i : CompIndex) : SaveData :=
  match b.comps i with
  | none => rd
  | some v =>
    if force || code.isDirty v then
      match code.marshalComp v with
      | some str => rd.insert i str
      | none => rd
    else rd

def Body.marshal (b : Body D C) (force : Bool) : Option SaveData :=
  if force || b.dirty then
    match code.marshalData b.data with
    | some str =>
      some ((List.finRange tcMax).foldl (b.marshalComp code force)
        ((∅ : SaveData).insert tcBase str))
    | none => none
  else some ((List.finRange tcMax).foldl (b.marshalComp code force) ∅)

/-- The data hold `TCBase` and every component that is not nil. -/
def Complete (b : Body D C) (rd : SaveData) : Prop :=
  (rd.lookup tcBase).isSome ∧ ∀ i, (b.comps i).isSome → (rd.lookup i).isSome

/-- Every encoding that a forced `marshal` asks for succeeds. -/
def Body.Encodes (b : Body D C) : Prop :=
  (code.marshalData b.data).isSome ∧ ∀ i, ∀ v ∈ b.comps i, (code.marshalComp v).isSome

instance (b : Body D C) : Decidable (b.Encodes code) := inferInstanceAs (Decidable (_ ∧ _))

theorem marshalComp_keeps (b : Body D C) (force : Bool) {rd : SaveData} {i : CompIndex}
    (j : CompIndex) (h : (rd.lookup i).isSome) :
    ((b.marshalComp code force rd j).lookup i).isSome := by
  unfold Body.marshalComp
  split
  · exact h
  · split
    · split
      · rw [Map.lookup_insert_ite]
        split
        · rfl
        · exact h
      · exact h
    · exact h

theorem foldl_marshalComp_keeps (b : Body D C) (force : Bool) {i : CompIndex}
    (js : List CompIndex) {rd : SaveData} (h : (rd.lookup i).isSome) :
    ((js.foldl (b.marshalComp code force) rd).lookup i).isSome := by
  induction js generalizing rd with
  | nil => exact h
  | cons j rest ih => exact ih (marshalComp_keeps code b force j h)

theorem Body.Encodes.foldl_marshalComp {b : Body D C} (h : b.Encodes code) {i : CompIndex}
    (hi : (b.comps i).isSome) (js : List CompIndex) (hj : i ∈ js) (rd : SaveData) :
    ((js.foldl (b.marshalComp code true) rd).lookup i).isSome := by
  induction js generalizing rd with
  | nil => cases hj
  | cons j rest ih =>
    rw [List.foldl_cons]
    obtain rfl | hj := List.mem_cons.mp hj
    · apply foldl_marshalComp_keeps
      obtain ⟨v, hv⟩ := Option.isSome_iff_exists.mp hi
      obtain ⟨str, hstr⟩ := Option.isSome_iff_exists.mp (h.2 i v hv)
      simp [Body.marshalComp, hv, hstr]
    · exact ih hj _

/-- The final `marshal(true)` is complete if nothing fails to encode. -/
theorem Body.Encodes.marshal {b : Body D C} (h : b.Encodes code) :
    ∃ rd, b.marshal code true = some rd ∧ Complete b rd := by
  obtain ⟨str, hstr⟩ := Option.isSome_iff_exists.mp h.1
  refine ⟨_, by simp [Body.marshal, hstr]; rfl, ?_, ?_⟩
  · apply foldl_marshalComp_keeps
    simp
  · intro i hi
    exact h.foldl_marshalComp code hi _ (List.mem_finRange i) _

end Marshal

/-- Where the goroutine of a `Role` is. -/
inductive Pc where
  /-- `NewRole` has returned. -/
  | created
  /-- `Run` has been called; `Online` is next. -/
  | online
  | loop
  /-- The deferred function is next. -/
  | deferred
  /-- The loop over the `Offline` hooks has come to a component. -/
  | hooks (k : Nat)
  | unregister
  | unregisterRole
  | marshal
  | logout
  | disconnect
  | center
  | done
  | exited
  deriving DecidableEq, Repr

structure Goroutine (D C : Type) where
  body : Body D C
  pc : Pc
  /-- What `marshal(true)` returned. -/
  rd : Option SaveData
  /-- The calls of `Wait.Done`. -/
  dones : Nat

structure State (D C : Type) where
  reg : Registry.State
  /-- The roles in the order of their `Register` calls. -/
  roles : List (Goroutine D C)
  /-- The events `EvtLogout` posted, each with the `Role` that posted it. -/
  logouts : List (Nat × SaveData)

inductive Outcome where
  | returns
  | panics
  deriving DecidableEq, Repr

inductive RunAct (D C : Type) where
  | online (out : Outcome) (body : Body D C)
  | handle (out : Outcome) (body : Body D C)
  /-- `r.Ctx.Err() != nil`. -/
  | stop
  /-- `Offline` notes the time. -/
  | offline (data : D)
  /-- The next component of the loop over the `Offline` hooks. -/
  | hook (out : Outcome) (body : Body D C)
  | unregister
  | unregisterRole
  | marshal
  | logout
  | disconnect
  | center
  | done

inductive Act (D C : Type) where
  /-- `initRole` up to the first unlock of `Register`. -/
  | initRole (roleID : RoleID) (sesID : UInt64) (body : Body D C)
  | registerRole (i : Nat)
  /-- `Role.Run`. -/
  | run (i : Nat)
  | role (i : Nat) (a : RunAct D C)
  /-- Look-ups in the registry. -/
  | getSes (sesID : UInt64)
  | getRole (k : Nat)

section Machine

variable {D C : Type} (code : Code D C)

/-- Where a panic, or a return, leaves the event loop. -/
def Outcome.next : Outcome → Pc
  | .returns => .loop
  | .panics => .deferred

/-- The loop over the hooks after the component at `k`, which panics only if it
has a hook. -/
def Goroutine.hook (g : Goroutine D C) (k : Nat) (out : Outcome) (body : Body D C) :
    Goroutine D C :=
  if h : k < tcMax then
    if (g.body.comps ⟨k, h⟩).any code.hasOffline then
      match out with
      | .returns => { g with body, pc := .hooks (k + 1) }
      -- The panic leaves the deferred function; `Wait.Done` is not reached.
      | .panics => { g with body, pc := .exited }
    else { g with pc := .hooks (k + 1) }
  else { g with pc := .unregister }

/-- After the first section of `Unregister` the second one is due if the session
entry was the role's. -/
def afterUnregister (reg : Registry.State) (i : Nat) : Pc :=
  if (reg.incs[i]?).any (·.exit = .sesDropped) then .unregisterRole else .marshal

def State.setRole (s : State D C) (i : Nat) (g : Goroutine D C) : State D C :=
  { s with roles := s.roles.set i g }

def State.roleStep (s : State D C) (i : Nat) (g : Goroutine D C) :
    RunAct D C → Option (State D C)
  | .online out body =>
    if g.pc = .online then some (s.setRole i { g with body, pc := out.next }) else none
  | .handle out body =>
    if g.pc = .loop then some (s.setRole i { g with body, pc := out.next }) else none
  | .stop => if g.pc = .loop then some (s.setRole i { g with pc := .deferred }) else none
  | .offline data =>
    if g.pc = .deferred then
      some (s.setRole i { g with body := { g.body with data }, pc := .hooks 0 })
    else none
  | .hook out body =>
    match g.pc with
    | .hooks k => some (s.setRole i (g.hook code k out body))
    | _ => none
  | .unregister =>
    if g.pc = .unregister then
      (s.reg.step (.unregister i)).map fun reg =>
        { s.setRole i { g with pc := afterUnregister reg i } with reg }
    else none
  | .unregisterRole =>
    if g.pc = .unregisterRole then
      (s.reg.step (.unregisterRole i)).map fun reg =>
        { s.setRole i { g with pc := .marshal } with reg }
    else none
  | .marshal =>
    if g.pc = .marshal then
      some (s.setRole i { g with rd := g.body.marshal code true, pc := .logout })
    else none
  | .logout =>
    if g.pc = .logout then
      some
        { s.setRole i { g with pc := .disconnect } with
          logouts := s.logouts ++ g.rd.toList.map fun rd => (i, rd) }
    else none
  | .disconnect =>
    if g.pc = .disconnect then some (s.setRole i { g with pc := .center }) else none
  | .center => if g.pc = .center then some (s.setRole i { g with pc := .done }) else none
  | .done =>
    if g.pc = .done then
      some (s.setRole i { g with pc := .exited, dones := g.dones + 1 })
    else none

def State.step (s : State D C) : Act D C → Option (State D C)
  | .initRole roleID sesID body =>
    some
      { s with
        reg := s.reg.register roleID sesID
        roles := s.roles ++ [⟨body, .created, none, 0⟩] }
  | .registerRole i => (s.reg.step (.registerRole i)).map fun reg => { s with reg }
  | .run i =>
    if (s.reg.incs[i]?).any (·.registered) then
      atEntry s.roles i (·.pc = .created) fun g => s.setRole i { g with pc := .online }
    else none
  | .role i a => (s.roles[i]?).bind fun g => s.roleStep code i g a
  | .getSes sesID => (s.reg.step (.getSes sesID)).map fun reg => { s with reg }
  | .getRole k => (s.reg.step (.getRole k)).map fun reg => { s with reg }

/-- The roles of one server and its registry. -/
def server : Machine (State D C) (Act D C) where
  init s := s = ⟨Registry.State.initial, [], []⟩
  step := State.step code

/-- The steps of a goroutine that touch nothing but its own `Role`. -/
inductive Own (g : Goroutine D C) : RunAct D C → Goroutine D C → Prop
  | online {out : Outcome} {body : Body D C} (hpc : g.pc = .online) :
      Own g (.online out body) { g with body, pc := out.next }
  | handle {out : Outcome} {body : Body D C} (hpc : g.pc = .loop) :
      Own g (.handle out body) { g with body, pc := out.next }
  | stop (hpc : g.pc = .loop) : Own g .stop { g with pc := .deferred }
  | offline {data : D} (hpc : g.pc = .deferred) :
      Own g (.offline data) { g with body := { g.body with data }, pc := .hooks 0 }
  | hook {out : Outcome} {body : Body D C} {k : Nat} (hpc : g.pc = .hooks k) :
      Own g (.hook out body) (g.hook code k out body)
  | marshal (hpc : g.pc = .marshal) :
      Own g .marshal { g with rd := g.body.marshal code true, pc := .logout }
  | disconnect (hpc : g.pc = .disconnect) : Own g .disconnect { g with pc := .center }
  | center (hpc : g.pc = .center) : Own g .center { g with pc := .done }
  | done (hpc : g.pc = .done) : Own g .done { g with pc := .exited, dones := g.dones + 1 }

/-- Everything one step of a goroutine can do. -/
inductive Effect (s : State D C) (i : Nat) (g : Goroutine D C) : RunAct D C → State D C → Prop
  | own {a : RunAct D C} {g' : Goroutine D C} (h : Own code g a g') :
      Effect s i g a (s.setRole i g')
  | unregister {reg : Registry.State} (hpc : g.pc = .unregister)
      (hreg : s.reg.step (.unregister i) = some reg) :
      Effect s i g .unregister { s.setRole i { g with pc := afterUnregister reg i } with reg }
  | unregisterRole {reg : Registry.State} (hpc : g.pc = .unregisterRole)
      (hreg : s.reg.step (.unregisterRole i) = some reg) :
      Effect s i g .unregisterRole { s.setRole i { g with pc := .marshal } with reg }
  | logout (hpc : g.pc = .logout) : Effect s i g .logout
      { s.setRole i { g with pc := .disconnect } with
        logouts := s.logouts ++ g.rd.toList.map fun rd => (i, rd) }

variable {s t : State D C} {i : Nat} {g g' : Goroutine D C} {a : RunAct D C}
  {inc : Registry.Incarnation} {logs : List SaveData} {reg : Registry.State}

theorem roleStep_effect (h : s.roleStep code i g a = some t) : Effect code s i g a t := by
  cases a with
  | online | handle | stop | offline | marshal | disconnect | center | done =>
    obtain ⟨hpc, h⟩ := Option.ite_none_right_eq_some.mp h
    cases h
    apply Effect.own
    constructor
    exact hpc
  | hook out body =>
    simp only [State.roleStep] at h
    split at h
    · rename_i k hpc
      cases h
      exact .own (.hook hpc)
    · cases h
  | unregister | unregisterRole =>
    obtain ⟨hpc, h⟩ := Option.ite_none_right_eq_some.mp h
    obtain ⟨reg, hreg, rfl⟩ := Option.map_eq_some_iff.mp h
    constructor
    · exact hpc
    · exact hreg
  | logout =>
    obtain ⟨hpc, h⟩ := Option.ite_none_right_eq_some.mp h
    cases h
    exact .logout hpc

/-- The statements of the deferred function that are still to run. -/
def Pc.left : Pc → Nat
  | .created | .online | .loop | .deferred => tcMax + 10
  | .hooks k => tcMax - k + 9
  | .unregister => 8
  | .unregisterRole => 7
  | .marshal => 6
  | .logout => 5
  | .disconnect => 4
  | .center => 3
  | .done => 2
  | .exited => 1

/-- The goroutine is in the deferred function. -/
def Pc.leaving : Pc → Bool
  | .created | .online | .loop | .exited => false
  | _ => true

def State.logoutsOf (s : State D C) (i : Nat) : List SaveData :=
  (s.logouts.filter (·.1 = i)).map (·.2)

/-- Every role's exit posts its full record exactly once. -/
structure Exits (s : State D C) : Prop where
  /-- `Wait.Done` is called at most once, and by every goroutine that ends. -/
  once : ∀ (i : Nat) (g : Goroutine D C), s.roles[i]? = some g →
    g.dones ≤ 1 ∧ (g.pc = .exited → g.dones = 1)
  posted : ∀ (i : Nat) (g : Goroutine D C), s.roles[i]? = some g → 0 < g.dones →
    ∃ rd, s.logoutsOf i = [rd] ∧ Complete g.body rd
  unregistered : ∀ (i : Nat) (g : Goroutine D C), s.roles[i]? = some g → 0 < g.dones →
    (∀ roleID, s.reg.roles.lookup roleID ≠ some i) ∧
      ∀ sesID, (s.reg.ses.lookup sesID).isSome → s.reg.writer.lookup sesID ≠ some i
  /-- A goroutine that has been started can go on until it has ended. -/
  proceeds : ∀ (i : Nat) (g : Goroutine D C), s.roles[i]? = some g → g.pc ≠ .created →
    g.pc ≠ .exited → ∃ a t, s.step code (.role i a) = some t
  /-- In the deferred function each step brings it nearer to its end. -/
  nears : ∀ (i : Nat) (g : Goroutine D C) (a : RunAct D C) (t : State D C),
    s.roles[i]? = some g → g.pc.leaving = true → s.step code (.role i a) = some t →
      ∃ g', t.roles[i]? = some g' ∧ g'.pc.left < g.pc.left

/-- No `Offline` hook panics, everything encodes when `marshal(true)` is called,
and `Register` is called as the registry needs it. -/
def sound (s : State D C) : Act D C → Prop
  | .initRole roleID sesID _ => Registry.apart s.reg (.register roleID sesID)
  | .role _ (.hook out _) => out = .returns
  | .role i .marshal => ∀ g ∈ s.roles[i]?, g.body.Encodes code
  | _ => True

instance (s : State D C) (a : Act D C) : Decidable (sound code s a) := by
  unfold sound
  split <;> infer_instance

/-- What a role's place in its code says about the registry, the events posted
and the calls of `Wait.Done`. -/
def Stage (logs : List SaveData) (g : Goroutine D C) (inc : Registry.Incarnation) : Prop :=
  match g.pc with
  | .created => inc.exit = .uncalled ∧ logs = [] ∧ g.dones = 0
  | .online | .loop | .deferred | .hooks _ | .unregister =>
    (inc.registered = true ∧ inc.exit = .uncalled) ∧ logs = [] ∧ g.dones = 0
  | .unregisterRole => inc.exit = .sesDropped ∧ logs = [] ∧ g.dones = 0
  | .marshal => inc.exit = .returned ∧ logs = [] ∧ g.dones = 0
  | .logout =>
    inc.exit = .returned ∧ (logs = [] ∧ ∃ rd, g.rd = some rd ∧ Complete g.body rd) ∧
      g.dones = 0
  | .disconnect | .center | .done =>
    inc.exit = .returned ∧ (∃ rd, logs = [rd] ∧ Complete g.body rd) ∧ g.dones = 0
  | .exited => inc.exit = .returned ∧ (∃ rd, logs = [rd] ∧ Complete g.body rd) ∧ g.dones = 1

structure Inv (s : State D C) : Prop where
  reg : Registry.Inv s.reg
  length : s.roles.length = s.reg.incs.length
  stage : ∀ (i : Nat) (g : Goroutine D C) (inc : Registry.Incarnation), s.roles[i]? = some g →
    s.reg.incs[i]? = some inc → Stage (s.logoutsOf i) g inc
  known : ∀ e ∈ s.logouts, e.1 < s.roles.length

theorem Inv.initial : Inv (⟨Registry.State.initial, [], []⟩ : State D C) := by
  refine ⟨Registry.Inv.initial, rfl, ?_, ?_⟩
  · simp
  · simp

theorem logoutsOf_eq_nil (h : Inv s) (hi : s.roles.length ≤ i) : s.logoutsOf i = [] := by
  have hnone : s.logouts.filter (·.1 = i) = [] := by
    refine List.filter_eq_nil_iff.mpr fun e he => ?_
    have hlt := h.known e he
    simp only [decide_eq_true_eq]
    omega
  simp [State.logoutsOf, hnone]

theorem Inv.initRole (h : Inv s) {roleID : RoleID} {sesID : UInt64} (body : Body D C)
    (hok : Registry.apart s.reg (.register roleID sesID)) :
    Inv { s with
      reg := s.reg.register roleID sesID
      roles := s.roles ++ [⟨body, .created, none, 0⟩] } := by
  refine ⟨h.reg.step hok rfl, ?_, ?_, ?_⟩
  · simp [Registry.State.register, h.length]
  · intro i g inc hi hinc
    simp only [getElem?_concat] at hi
    split at hi
    · subst i
      obtain rfl := Option.some.inj hi
      obtain ⟨-, rfl⟩ | hinc := Registry.register_incs hinc
      · exact ⟨rfl, logoutsOf_eq_nil (s := s) h (Nat.le_refl _), rfl⟩
      · have hlt := lt_length_of_some hinc
        exact absurd h.length (by omega)
    · have hlt := lt_length_of_some hi
      obtain ⟨rfl, -⟩ | hinc := Registry.register_incs hinc
      · exact absurd h.length (by omega)
      · exact h.stage i g inc hi hinc
  · intro e he
    have hlt := h.known e he
    simp only [List.length_append, List.length_singleton]
    omega

/-- A step that changes one role, its registry entry and the events it posted. -/
theorem Inv.move (h : Inv s) {inc inc' : Registry.Incarnation} (hi : s.roles[i]? = some g)
    (hinc : s.reg.incs[i]? = some inc) (hreg : Registry.Inv t.reg)
    (hroles : t.roles = s.roles.set i g') (hincs : t.reg.incs = s.reg.incs.set i inc')
    (logs : List SaveData) (hlogs : t.logouts = s.logouts ++ logs.map fun rd => (i, rd))
    (hstage : Stage (s.logoutsOf i ++ logs) g' inc') : Inv t := by
  have hmine : t.logoutsOf i = s.logoutsOf i ++ logs := by
    simp [State.logoutsOf, hlogs, List.filter_map, Function.comp_def]
  have hother : ∀ j, j ≠ i → t.logoutsOf j = s.logoutsOf j := by
    intro j hj
    simp [State.logoutsOf, hlogs, List.filter_map, Function.comp_def, hj.symm]
  refine ⟨hreg, by simp [hroles, hincs, h.length], ?_, ?_⟩
  · intro j a b hj hb
    rw [hroles, getElem?_set_some hi] at hj
    rw [hincs, getElem?_set_some hinc] at hb
    split at hj
    · subst j
      obtain rfl := Option.some.inj hj
      rw [if_pos rfl] at hb
      obtain rfl := Option.some.inj hb
      rw [hmine]
      exact hstage
    · rename_i hne
      rw [if_neg hne] at hb
      rw [hother j hne]
      exact h.stage j a b hj hb
  · intro e he
    rw [hroles, List.length_set]
    rw [hlogs, List.mem_append] at he
    obtain he | he := he
    · exact h.known e he
    · obtain ⟨rd, -, rfl⟩ := List.mem_map.mp he
      exact lt_length_of_some hi

theorem Inv.entry (h : Inv s) (hi : s.roles[i]? = some g) : ∃ inc, s.reg.incs[i]? = some inc := by
  have hlt := lt_length_of_some hi
  rw [h.length] at hlt
  exact ⟨_, List.getElem?_eq_getElem hlt⟩

/-- A step on the role's own data. -/
theorem Inv.setRole (h : Inv s) (hi : s.roles[i]? = some g) (hinc : s.reg.incs[i]? = some inc)
    (hstage : Stage (s.logoutsOf i) g' inc) : Inv (s.setRole i g') :=
  h.move hi hinc h.reg rfl (set_getElem?_self hinc).symm [] (by simp [State.setRole])
    (by rwa [List.append_nil])

/-- The hooks run before `Unregister`, one after the other. -/
theorem Stage.hook {k : Nat} (h : Stage logs g inc) (hpc : g.pc = .hooks k) (body : Body D C) :
    Stage logs (g.hook code k .returns body) inc := by
  rw [Stage, hpc] at h
  unfold Goroutine.hook
  split
  · split
    · exact h
    · exact h
  · exact h

theorem Stage.own (h : Stage logs g inc) (ho : Own code g a g')
    (hhook : ∀ out body, a = .hook out body → out = .returns)
    (henc : a = .marshal → g.body.Encodes code) : Stage logs g' inc := by
  cases ho with
  | @online out body hpc | @handle out body hpc =>
    rw [Stage, hpc] at h
    cases out with
    | returns | panics => exact h
  | stop hpc | offline hpc | disconnect hpc | center hpc =>
    rw [Stage, hpc] at h
    exact h
  | @hook out body k hpc =>
    obtain rfl := hhook out body rfl
    exact h.hook code hpc body
  | marshal hpc =>
    rw [Stage, hpc] at h
    obtain ⟨rd, hrd, hcomplete⟩ := (henc rfl).marshal code
    exact ⟨h.1, ⟨h.2.1, rd, hrd, hcomplete⟩, h.2.2⟩
  | done hpc =>
    rw [Stage, hpc] at h
    exact ⟨h.1, h.2.1, congrArg (· + 1) h.2.2⟩

/-- The first section of `Unregister` finds the role's own session entry. -/
theorem Inv.unregister (h : Inv s) (hi : s.roles[i]? = some g) (hpc : g.pc = .unregister)
    (hreg : s.reg.step (.unregister i) = some reg) :
    Inv { s.setRole i { g with pc := afterUnregister reg i } with reg } := by
  cases Registry.step_effect hreg with
  | @unregister _ inc hinc hexit =>
    have hstage := h.stage i g inc hi hinc
    rw [Stage, hpc] at hstage
    obtain ⟨⟨hregistered, -⟩, hlogs, hdones⟩ := hstage
    have hinv := h.reg.unregister hinc hexit hregistered
    rw [h.reg.unregister_eq hinc hexit] at hinv ⊢
    refine h.move hi hinc hinv rfl rfl [] (by simp [State.setRole]) ?_
    have hget : (s.reg.incs.set i { inc with exit := .sesDropped })[i]? =
        some { inc with exit := .sesDropped } := by
      rw [getElem?_set_some hinc, if_pos rfl]
    have hpc' : afterUnregister { s.reg.setInc i { inc with exit := .sesDropped } with
        ses := s.reg.ses.erase inc.sesID } i = .unregisterRole := by
      simp [afterUnregister, Registry.State.setInc, hget]
    rw [hpc']
    exact ⟨rfl, by simpa using hlogs, hdones⟩

theorem Inv.unregisterRole (h : Inv s) (hi : s.roles[i]? = some g) (hpc : g.pc = .unregisterRole)
    (hreg : s.reg.step (.unregisterRole i) = some reg) :
    Inv { s.setRole i { g with pc := .marshal } with reg } := by
  cases Registry.step_effect hreg with
  | @unregisterRole _ inc hinc hexit =>
    have hstage := h.stage i g inc hi hinc
    rw [Stage, hpc] at hstage
    refine h.move hi hinc (h.reg.unregisterRole hinc hexit) rfl rfl []
      (by simp [State.setRole]) ?_
    exact ⟨rfl, by simpa using hstage.2.1, hstage.2.2⟩

theorem Inv.logout (h : Inv s) (hi : s.roles[i]? = some g) (hpc : g.pc = .logout) :
    Inv { s.setRole i { g with pc := .disconnect } with
      logouts := s.logouts ++ g.rd.toList.map fun rd => (i, rd) } := by
  obtain ⟨inc, hinc⟩ := h.entry hi
  have hstage := h.stage i g inc hi hinc
  rw [Stage, hpc] at hstage
  obtain ⟨hexit, ⟨hlogs, rd, hrd, hcomplete⟩, hdones⟩ := hstage
  refine h.move hi hinc h.reg rfl (set_getElem?_self hinc).symm [rd] (by simp [hrd]) ?_
  exact ⟨hexit, ⟨rd, by simp [hlogs], hcomplete⟩, hdones⟩

theorem Inv.roleStep (h : Inv s) (hi : s.roles[i]? = some g) (hok : sound code s (.role i a))
    (hs : Effect code s i g a t) : Inv t := by
  cases hs with
  | own ho =>
    obtain ⟨inc, hinc⟩ := h.entry hi
    refine h.setRole hi hinc ((h.stage i g inc hi hinc).own code ho ?_ ?_)
    · rintro out body rfl
      exact hok
    · rintro rfl
      exact hok g hi
  | unregister hpc hreg => exact h.unregister hi hpc hreg
  | unregisterRole hpc hreg => exact h.unregisterRole hi hpc hreg
  | logout hpc => exact h.logout hi hpc

theorem Stage.register (h : Stage logs g inc) : Stage logs g { inc with registered := true } := by
  unfold Stage at h ⊢
  cases hpc : g.pc <;> simp only [hpc] at h ⊢ <;> first | exact h | exact ⟨⟨trivial, h.1.2⟩, h.2⟩

/-- `Register` goes on, or somebody looks a role up. -/
theorem Inv.registry (h : Inv s) {a : Registry.Act} (ha : Registry.apart s.reg a)
    (hreg : s.reg.step a = some reg)
    (hincs : reg.incs = s.reg.incs ∨ ∃ i inc, s.reg.incs[i]? = some inc ∧ reg.incs =
      s.reg.incs.set i { inc with registered := true }) :
    Inv { s with reg } := by
  refine ⟨h.reg.step ha hreg, ?_, ?_, h.known⟩
  · obtain hincs | ⟨i, inc, -, hincs⟩ := hincs
    · rw [hincs]
      exact h.length
    · rw [hincs, List.length_set]
      exact h.length
  · intro j g b hj hb
    obtain hincs | ⟨i, inc, hinc, hincs⟩ := hincs
    · rw [hincs] at hb
      exact h.stage j g b hj hb
    · rw [hincs, getElem?_set_some hinc] at hb
      split at hb
      · subst j
        obtain rfl := Option.some.inj hb
        exact (h.stage i g inc hj hinc).register
      · exact h.stage j g b hj hb

theorem Inv.step {a : Act D C} (h : Inv s) (hok : sound code s a) (hs : s.step code a = some t) :
    Inv t := by
  cases a with
  | initRole roleID sesID body =>
    cases hs
    exact h.initRole body hok
  | registerRole i =>
    obtain ⟨reg, hreg, rfl⟩ := Option.map_eq_some_iff.mp hs
    refine h.registry (a := .registerRole i) trivial hreg (Or.inr ?_)
    cases Registry.step_effect hreg with
    | @registerRole _ inc hinc _ => exact ⟨i, inc, hinc, rfl⟩
  | run i =>
    obtain ⟨hregistered, hs⟩ := Option.ite_none_right_eq_some.mp hs
    obtain ⟨g, hi, hpc, rfl⟩ := atEntry_eq_some hs
    obtain ⟨inc, hinc⟩ := h.entry hi
    have hstage := h.stage i g inc hi hinc
    rw [Stage, hpc] at hstage
    refine h.setRole hi hinc ⟨⟨?_, hstage.1⟩, hstage.2⟩
    simpa [hinc] using hregistered
  | role i a =>
    obtain ⟨g, hi, hs⟩ := Option.bind_eq_some_iff.mp hs
    exact h.roleStep code hi hok (roleStep_effect code hs)
  | getSes sesID =>
    simp only [State.step] at hs
    obtain ⟨reg, hreg, rfl⟩ := Option.map_eq_some_iff.mp hs
    refine h.registry (a := .getSes sesID) trivial hreg (Or.inl ?_)
    cases Registry.step_effect hreg
    rfl
  | getRole k =>
    obtain ⟨reg, hreg, rfl⟩ := Option.map_eq_some_iff.mp hs
    refine h.registry (a := .getRole k) trivial hreg (Or.inl ?_)
    cases Registry.step_effect hreg
    rfl

theorem hook_left {k : Nat} (out : Outcome) (body : Body D C) :
    (g.hook code k out body).pc.left < (Pc.hooks k).left := by
  unfold Goroutine.hook
  split
  · split
    · cases out with
      | returns | panics =>
        simp only [Pc.left]
        omega
    · simp only [Pc.left]
      omega
  · simp only [Pc.left]
    omega

theorem Own.left (h : Own code g a g') (hpc : g.pc.leaving = true) : g'.pc.left < g.pc.left := by
  cases h with
  | online h | handle h | stop h => simp [h, Pc.leaving] at hpc
  | offline h => simp [h, Pc.left]
  | @hook out body k h =>
    rw [h]
    exact hook_left code out body
  | marshal h | disconnect h | center h | done h => simp [h, Pc.left]

theorem Effect.left (h : Effect code s i g a t) (hi : s.roles[i]? = some g)
    (hpc : g.pc.leaving = true) :
    ∃ g', t.roles[i]? = some g' ∧ g'.pc.left < g.pc.left := by
  have hset : ∀ g' : Goroutine D C, (s.roles.set i g')[i]? = some g' := by
    intro g'
    rw [getElem?_set_some hi, if_pos rfl]
  cases h with
  | own ho => exact ⟨_, hset _, ho.left code hpc⟩
  | unregister h _ =>
    refine ⟨_, hset _, ?_⟩
    unfold afterUnregister
    split <;> simp [h, Pc.left]
  | unregisterRole h _ | logout h => exact ⟨_, hset _, by simp [h, Pc.left]⟩

/-- Nothing but another step of the goroutine itself is needed to go on. -/
theorem Inv.proceeds (h : Inv s) (hi : s.roles[i]? = some g) (hcreated : g.pc ≠ .created)
    (hexited : g.pc ≠ .exited) :
    ∃ a t, s.step code (.role i a) = some t := by
  have hstep : ∀ a t, s.roleStep code i g a = some t → ∃ a t, s.step code (.role i a) = some t := by
    intro a t ha
    exact ⟨a, t, by simp [State.step, hi, ha]⟩
  obtain ⟨inc, hinc⟩ := h.entry hi
  have hstage := h.stage i g inc hi hinc
  rw [Stage] at hstage
  cases hpc : g.pc with
  | created => exact absurd hpc hcreated
  | online => exact hstep (.online .returns g.body) _ (if_pos hpc)
  | loop => exact hstep (.handle .returns g.body) _ (if_pos hpc)
  | deferred => exact hstep (.offline g.body.data) _ (if_pos hpc)
  | hooks k =>
    have hhook : s.roleStep code i g (.hook .returns g.body) =
        some (s.setRole i (g.hook code k .returns g.body)) := by
      simp only [State.roleStep, hpc]
    exact hstep _ _ hhook
  | unregister =>
    rw [hpc] at hstage
    have hreg : s.reg.step (.unregister i) = some (s.reg.unregister i inc) := by
      simp [Registry.State.step, atEntry, hinc, hstage.1.2]
    exact hstep .unregister _ ((if_pos hpc).trans (congrArg (Option.map _) hreg))
  | unregisterRole =>
    rw [hpc] at hstage
    have hreg : s.reg.step (.unregisterRole i) = some (s.reg.unregisterRole i inc) := by
      simp [Registry.State.step, atEntry, hinc, hstage.1]
    exact hstep .unregisterRole _ ((if_pos hpc).trans (congrArg (Option.map _) hreg))
  | marshal => exact hstep .marshal _ (if_pos hpc)
  | logout => exact hstep .logout _ (if_pos hpc)
  | disconnect => exact hstep .disconnect _ (if_pos hpc)
  | center => exact hstep .center _ (if_pos hpc)
  | done => exact hstep .done _ (if_pos hpc)
  | exited => exact absurd hpc hexited

/-- Only a goroutine that has ended has called `Wait.Done`. -/
theorem Stage.ended (h : Stage logs g inc) : g.dones = 0 ∧ g.pc ≠ .exited ∨
      inc.exit = .returned ∧ (∃ rd, logs = [rd] ∧ Complete g.body rd) ∧ g.dones = 1 := by
  unfold Stage at h
  split at h
  case h_13 => exact Or.inr h
  all_goals exact Or.inl ⟨h.2.2, by simp [*]⟩

end Machine

/-- Components that encode as themselves; those with a text have a hook. -/
def textCode : Code String String where
  marshalData d := some d
  marshalComp c := some c
  isDirty _ := true
  hasOffline c := c ≠ ""

def twoComps : Body String String where
  data := "role"
  dirty := false
  comps i := if i.val = 1 then some "example" else if i.val = 2 then some "" else none

/-- From `initRole` to the hooks, with a handler that panics. -/
def upToHooks : List (Act String String) :=
  [.initRole 7 100 twoComps, .registerRole 0, .run 0, .role 0 (.online .returns twoComps),
    .role 0 (.handle .panics twoComps), .role 0 (.offline "role")]

end GameCluster.Exit
