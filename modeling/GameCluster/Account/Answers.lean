import GameCluster.Account.Requests
import GameCluster.Lib.Tally

/-!
Every request is answered once. A request that has been accepted is in one place
(the event queue, an SDK goroutine, a loader's channel, its batch or what it has
at hand) or has been answered, and every step only moves requests between places.
The exceptions are at the shutdown: the batch of a loader that sees `ctx.Done()`,
and what reaches a queue that is not read any more.
-/

namespace GameCluster.Requests

open Lib
open Account (Data Discovery LoginCode)
open scoped BigOperators

/-- All goroutines have ended. -/
def State.stopped (s : State) : Prop :=
  s.main = .stopped ∧ (∀ i, (s.loaders i).stage.isStopped = true) ∧ s.sdks = []

def State.answersTo (s : State) (n : ℕ) : ℕ := s.answers.countP (·.1.id = n)

structure Answered (s : State) : Prop where
  once : ∀ n, s.answersTo n ≤ 1
  all : s.stopped → ∀ n < s.accepted, s.answersTo n = 1

/-- A goroutine of `StartService` starts before the context is cancelled, a loader
takes the branch of `ctx.Done()` only with an empty batch, and `PushToLoader` is
not called for a loader that has returned. -/
def orderly (s : State) : Act → Prop
  | .start => s.cancelled = false
  | .loader _ .start => s.cancelled = false
  | .loader i .done => (s.loaders i).batch.isEmpty = true
  | .sdk k true => ∀ req ∈ s.sdks[k]?, (s.loaders req.loader).stage.isStopped = false
  | _ => True

/-- The loader has taken the branch of `ctx.Done()`, or has never run. -/
def Stage.ended : Stage → Bool
  | .draining => true
  | .stopped => true
  | _ => false

theorem Stage.ended_of_isStopped {st : Stage} (h : st.isStopped = true) : st.ended = true := by
  cases st <;> first | rfl | cases h

section Weights

/-- Is this request number `n`? -/
def ReqLogin.weight (n : ℕ) (req : ReqLogin) : ℕ := if req.id = n then 1 else 0

def Event.weight (n : ℕ) (e : Event) : ℕ :=
  match e.req with
  | some req => req.weight n
  | none => 0

def Stage.requests : Stage → List ReqLogin
  | .getBinds batch => batch
  | .getHashes batch _ => batch
  | .scan cmdAcc batchFromDB => cmdAcc ++ batchFromDB
  | .find batch => batch
  | .dispatch _ rest newAccBatch => rest ++ newAccBatch
  | .register rest successList => rest ++ successList.map (·.1)
  | .deliver rest => rest.map (·.1)
  | _ => []

def Stage.weight (n : ℕ) (st : Stage) : ℕ := tally (ReqLogin.weight n) st.requests

def Loader.weight (n : ℕ) (l : Loader) : ℕ :=
  tally (ReqLogin.weight n) l.loading + tally (ReqLogin.weight n) l.batch + l.stage.weight n

def answersWeight (n : ℕ) (answers : List (ReqLogin × Answer)) : ℕ :=
  tally (fun a => a.1.weight n) answers

def Output.weight (n : ℕ) (o : Output) : ℕ :=
  tally (Event.weight n) o.events + tally (ReqLogin.weight n) o.sdks + answersWeight n o.answers

/-- How often request number `n` is under way. -/
def State.pending (s : State) (n : ℕ) : ℕ :=
  tally (Event.weight n) s.evt.waiting + tally (ReqLogin.weight n) s.sdks +
    ∑ i, (s.loaders i).weight n

/-- How often it is under way or answered. -/
def State.total (s : State) (n : ℕ) : ℕ := s.pending n + answersWeight n s.answers

theorem answersWeight_eq (s : State) (n : ℕ) : answersWeight n s.answers = s.answersTo n :=
  tally_countP (fun a : ReqLogin × Answer => a.1.id = n) s.answers

@[simp] theorem answersWeight_nil (n : ℕ) : answersWeight n [] = 0 := rfl

@[simp] theorem answersWeight_append (n : ℕ) (l l' : List (ReqLogin × Answer)) :
    answersWeight n (l ++ l') = answersWeight n l + answersWeight n l' :=
  tally_append _ l l'

@[simp] theorem answersWeight_map (n : ℕ) (answer : Answer) (reqs : List ReqLogin) :
    answersWeight n (reqs.map fun req => (req, answer)) = tally (ReqLogin.weight n) reqs :=
  tally_map _ _ _

@[simp] theorem weight_none (n : ℕ) : Output.weight n {} = 0 := rfl

@[simp] theorem weight_event (n : ℕ) (e : Event) :
    Output.weight n { events := [e] } = e.weight n := by
  simp [Output.weight, answersWeight]

@[simp] theorem weight_sendLoginFailure (n : ℕ) (req : ReqLogin) (code : LoginCode) :
    (sendLoginFailure req code).weight n = req.weight n := by
  simp [sendLoginFailure, Output.weight, answersWeight]

@[simp] theorem weight_answers (n : ℕ) (answers : List (ReqLogin × Answer)) :
    Output.weight n { answers } = answersWeight n answers := by
  simp [Output.weight]

end Weights

section Outputs

/-- Every event but a role clear is one request, and handling it passes the request on. -/
theorem processEvent_weight (n : ℕ) (env : Env) (e : Event) :
    (processEvent env e).weight n = e.weight n := by
  cases e with
  | login req =>
    show (login req env.setNX).weight n = req.weight n
    unfold login authenticateWithSDK
    split
    · split
      · simp [Output.weight, answersWeight]
      · simp [Event.weight, Event.req]
    · simp [Event.weight, Event.req]
  | afterSDKCheck req acc =>
    show (onSDKAuthSuccess acc req env).weight n = req.weight n
    unfold onSDKAuthSuccess
    split
    · simp
    · split
      · simp
      · split
        · simp
        · simp
        · simp [answersWeight]
  | roleClear => rfl
  | loginFail req code => simp [processEvent, Event.weight, Event.req]

theorem drainEvent_answers (n : ℕ) (e : Event) :
    answersWeight n (drainEvent e).answers = e.weight n := by
  cases e <;>
    simp [drainEvent, Event.weight, Event.req, sendLoginFailure, answersWeight]

theorem drainEvent_weight (n : ℕ) (e : Event) : (drainEvent e).weight n = e.weight n := by
  rw [← drainEvent_answers n e]
  cases e <;> simp [drainEvent, Event.req, Output.weight, sendLoginFailure]

end Outputs

namespace Loader

theorem dedup_weight (n : ℕ) (seen : List String) (batch : List ReqLogin) :
    tally (ReqLogin.weight n) (dedup seen batch).1 +
      tally (ReqLogin.weight n) (dedup seen batch).2 = tally (ReqLogin.weight n) batch := by
  induction batch generalizing seen with
  | nil => rfl
  | cons req rest ih =>
    rw [dedup]
    split
    · have hrest := ih seen
      simp only [tally_cons]
      omega
    · have hrest := ih (req.bindAcc :: seen)
      simp only [tally_cons]
      omega

section Stages

variable (n : ℕ)

theorem fallBack_weight (batch : List ReqLogin) :
    (fallBack batch).weight n = tally (ReqLogin.weight n) batch := by
  cases batch <;> rfl

theorem scanning_weight (cmdAcc batchFromDB : List ReqLogin) :
    (scanning cmdAcc batchFromDB).weight n =
      tally (ReqLogin.weight n) cmdAcc + tally (ReqLogin.weight n) batchFromDB := by
  cases cmdAcc with
  | nil => simpa [scanning] using fallBack_weight n batchFromDB
  | cons req rest => exact tally_append _ _ _

theorem dispatching_weight (result : List (String × Data)) (rest newAccBatch : List ReqLogin) :
    (dispatching result rest newAccBatch).weight n =
      tally (ReqLogin.weight n) rest + tally (ReqLogin.weight n) newAccBatch := by
  cases rest with
  | nil => cases newAccBatch <;> simp [dispatching, Stage.weight, Stage.requests]
  | cons req rest => exact tally_append _ _ _

theorem delivering_weight (rest : List (ReqLogin × Data)) :
    (delivering rest).weight n = tally (ReqLogin.weight n) (rest.map (·.1)) := by
  cases rest <;> rfl

theorem registering_weight (rest : List ReqLogin) (successList : List (ReqLogin × Data)) :
    (registering rest successList).weight n =
      tally (ReqLogin.weight n) rest +
        tally (ReqLogin.weight n) (successList.map (·.1)) := by
  cases rest with
  | nil => simpa [registering] using delivering_weight n successList
  | cons req rest => exact tally_append _ _ _

theorem fallBack_ended (batch : List ReqLogin) : (fallBack batch).ended = false := by
  cases batch <;> rfl

theorem scanning_ended (cmdAcc batchFromDB : List ReqLogin) :
    (scanning cmdAcc batchFromDB).ended = false := by
  cases cmdAcc with
  | nil => exact fallBack_ended batchFromDB
  | cons req rest => rfl

theorem dispatching_ended (result : List (String × Data)) (rest newAccBatch : List ReqLogin) :
    (dispatching result rest newAccBatch).ended = false := by
  cases rest with
  | nil => cases newAccBatch <;> rfl
  | cons req rest => rfl

theorem delivering_ended (rest : List (ReqLogin × Data)) : (delivering rest).ended = false := by
  cases rest <;> rfl

theorem registering_ended (rest : List ReqLogin) (successList : List (ReqLogin × Data)) :
    (registering rest successList).ended = false := by
  cases rest with
  | nil => exact delivering_ended successList
  | cons req rest => rfl

end Stages

/-- What a loader's step can do: go on with its requests, or take part in the shutdown. -/
inductive Move (l : Loader) (cancelled : Bool) : LoaderAct → Loader → Output → Prop
  | works {a : LoaderAct} {l' : Loader} {o : Output} (hl : l.stage.ended = false)
      (hl' : l'.stage.ended = false) (hweight : ∀ n, l'.weight n + o.weight n = l.weight n) :
      Move l cancelled a l' o
  | late (hl : l.stage = .starting) (hc : cancelled = true) :
      Move l cancelled .start { l with stage := .stopped } {}
  | done (hl : l.stage = .select) :
      Move l cancelled .done { l with batch := [], stage := .draining } {}
  | drain {req : ReqLogin} {loading : List ReqLogin} (hl : l.stage = .draining)
      (hloading : l.loading = req :: loading) :
      Move l cancelled .drain { l with loading } (sendLoginFailure req .LCServerBusy)
  | stop (hl : l.stage = .draining) (hloading : l.loading = []) :
      Move l cancelled .drain { l with stage := .stopped } {}

section Moves

variable {l : Loader} {cancelled : Bool}

/-- A step that changes the stage alone accounts for the requests of the stage. -/
theorem Move.stage {a : LoaderAct} {st st' : Stage} {o : Output} (hl : l.stage = st)
    (hst : st.ended = false) (hst' : st'.ended = false)
    (hweight : ∀ n, st'.weight n + o.weight n = st.weight n) :
    Move l cancelled a { l with stage := st' } o := by
  refine .works (hl ▸ hst) hst' fun n => ?_
  have hn := hweight n
  simp only [Loader.weight, hl]
  omega

theorem flush_move (cancelled : Bool) (a : LoaderAct) (hl : l.stage = .select) :
    Move l cancelled a l.flush.1 l.flush.2 := by
  unfold flush
  split
  · exact .works (hl ▸ rfl) (hl ▸ rfl) fun n => by simp
  · refine .works (hl ▸ rfl) rfl fun n => ?_
    have hdedup := dedup_weight n [] l.batch
    simp only [Loader.weight, weight_answers, answersWeight_map, hl, Stage.weight, Stage.requests,
      tally_nil]
    omega

theorem receive_move (cancelled : Bool) {req : ReqLogin} {loading : List ReqLogin}
    (hl : l.stage = .select) (hloading : l.loading = req :: loading) {l₁ : Loader}
    (hl₁ : l₁ = { l with loading, batch := l.batch ++ [req] }) :
    Move l cancelled .receive (if batchSize ≤ l₁.batch.length then l₁.flush else (l₁, {})).1
      (if batchSize ≤ l₁.batch.length then l₁.flush else (l₁, {})).2 := by
  have hstage : l₁.stage = .select := hl₁ ▸ hl
  have hsame : ∀ n, l₁.weight n = l.weight n := by
    intro n
    subst hl₁
    simp only [Loader.weight, hloading, tally_append, tally_cons, tally_nil]
    omega
  split
  · cases flush_move cancelled .tick hstage with
    | works _ hend hweight =>
      exact .works (hl ▸ rfl) hend fun n => (hweight n).trans (hsame n)
  · exact .works (hl ▸ rfl) (hstage ▸ rfl) fun n => by simpa using hsame n

theorem scan_move {k : ℕ} {acc : Option Data} {cmdAcc batchFromDB : List ReqLogin}
    {req : ReqLogin} (hl : l.stage = .scan cmdAcc batchFromDB) (hk : cmdAcc[k]? = some req) :
    (∀ acc', Move l cancelled (.scan k acc)
      { l with stage := scanning (cmdAcc.eraseIdx k) batchFromDB }
      { events := [.afterSDKCheck req (some acc')] }) ∧
    Move l cancelled (.scan k acc)
      { l with stage := scanning (cmdAcc.eraseIdx k) (batchFromDB ++ [req]) } {} := by
  have herase : ∀ n, tally (ReqLogin.weight n) (cmdAcc.eraseIdx k) + req.weight n =
      tally (ReqLogin.weight n) cmdAcc := fun n => tally_eraseIdx (ReqLogin.weight n) hk
  constructor
  · intro acc'
    refine .stage hl rfl (scanning_ended _ _) fun n => ?_
    have hn := herase n
    rw [scanning_weight]
    simp only [weight_event, Event.weight, Event.req, Stage.weight, Stage.requests, tally_append]
    omega
  · refine .stage hl rfl (scanning_ended _ _) fun n => ?_
    have hn := herase n
    rw [scanning_weight]
    simp only [weight_none, Stage.weight, Stage.requests, tally_append, tally_cons, tally_nil]
    omega

theorem dispatch_move {result : List (String × Data)} {req : ReqLogin}
    {rest newAccBatch : List ReqLogin} (hl : l.stage = .dispatch result (req :: rest) newAccBatch) :
    (∀ acc, Move l cancelled .dispatch { l with stage := dispatching result rest newAccBatch }
      { events := [.afterSDKCheck req (some acc)] }) ∧
    Move l cancelled .dispatch
      { l with stage := dispatching result rest (newAccBatch ++ [req]) } {} := by
  constructor
  · intro acc
    refine .stage hl rfl (dispatching_ended _ _ _) fun n => ?_
    rw [dispatching_weight]
    simp only [weight_event, Event.weight, Event.req, Stage.weight, Stage.requests, tally_append,
      tally_cons]
    omega
  · refine .stage hl rfl (dispatching_ended _ _ _) fun n => ?_
    rw [dispatching_weight]
    simp only [weight_none, Stage.weight, Stage.requests, tally_append, tally_cons, tally_nil]
    omega

theorem register_move {res : Insert} {req : ReqLogin} {rest : List ReqLogin}
    {successList : List (ReqLogin × Data)} (hl : l.stage = .register (req :: rest) successList) :
    (∀ code, Move l cancelled (.register res) { l with stage := registering rest successList }
      (sendLoginFailure req code)) ∧
    ∀ acc, Move l cancelled (.register res)
      { l with stage := registering rest (successList ++ [(req, acc)]) } {} := by
  constructor
  · intro code
    refine .stage hl rfl (registering_ended _ _) fun n => ?_
    rw [registering_weight]
    simp only [weight_sendLoginFailure, Stage.weight, Stage.requests, tally_append, tally_cons]
    omega
  · intro acc
    refine .stage hl rfl (registering_ended _ _) fun n => ?_
    rw [registering_weight]
    simp only [weight_none, Stage.weight, Stage.requests, List.map_append, List.map_cons,
      List.map_nil, tally_append, tally_cons, tally_nil]
    omega

theorem deliver_move {req : ReqLogin} {acc : Data} {rest : List (ReqLogin × Data)}
    (hl : l.stage = .deliver ((req, acc) :: rest)) :
    Move l cancelled .deliver { l with stage := delivering rest }
      { events := [.afterSDKCheck req (some acc)] } := by
  refine .stage hl rfl (delivering_ended _) fun n => ?_
  rw [delivering_weight]
  simp only [weight_event, Event.weight, Event.req, Stage.weight, Stage.requests, List.map_cons,
    tally_cons]
  omega

end Moves

theorem step_move {l l' : Loader} {cancelled : Bool} {a : LoaderAct} {o : Output}
    (h : l.step cancelled a = some (l', o)) : Move l cancelled a l' o := by
  unfold step at h
  split at h
  next hl =>
    cases h
    cases cancelled with
    | false => exact .stage hl rfl rfl fun n => rfl
    | true => exact .late hl rfl
  next hl =>
    split at h
    · cases h
    · rename_i hloading
      have hmove := receive_move cancelled hl hloading rfl
      rwa [Option.some.inj h] at hmove
  next hl =>
    have hmove := flush_move cancelled .tick hl
    rwa [Option.some.inj h] at hmove
  next hl =>
    cases h
    exact .stage hl rfl rfl fun n => rfl
  next hl =>
    split at h
    · cases h
      exact .stage hl rfl rfl fun n => rfl
    · cases h
      exact .stage hl rfl (fallBack_ended _) fun n => fallBack_weight n _
  next batch hits hl =>
    split at h
    · cases h
      exact .stage hl rfl rfl fun n => rfl
    · cases h
      refine .stage hl rfl (scanning_ended _ _) fun n => ?_
      have hfilter := tally_filter (ReqLogin.weight n) (fun req => decide (req.id ∈ hits)) batch
      rw [scanning_weight, weight_none, Nat.add_zero]
      simp only [decide_not]
      exact hfilter
  next hl =>
    split at h
    · rename_i hk
      cases h
      exact (scan_move hl hk).1 _
    · rename_i hk
      cases h
      exact (scan_move hl hk).2
    · cases h
  next hl =>
    cases h
    refine .stage hl rfl rfl fun n => ?_
    simp [Stage.weight, Stage.requests]
  next hl =>
    cases h
    refine .stage hl rfl (dispatching_ended _ _ _) fun n => ?_
    rw [dispatching_weight]
    rfl
  next hl =>
    split at h
    · cases h
      exact (dispatch_move hl).1 _
    · cases h
      exact (dispatch_move hl).2
  next hl =>
    split at h
    · cases h
      exact (register_move hl).1 _
    · cases h
      exact (register_move hl).1 _
    · cases h
      exact (register_move hl).1 _
    · cases h
      exact (register_move hl).2 _
  next hl =>
    cases h
    exact deliver_move hl
  next hl =>
    split at h
    · cases h
      exact .done hl
    · cases h
  next hl =>
    split at h
    · rename_i hloading
      cases h
      exact .drain hl hloading
    · rename_i hloading
      cases h
      exact .stop hl hloading
  next => cases h

end Loader

section Conservation

variable (n : ℕ)

theorem push_weight (q : SwapQueue Event) (e : Event) :
    tally (Event.weight n) (q.push e).1.waiting + (if (q.push e).2 = none then 0 else e.weight n) =
      tally (Event.weight n) q.waiting + e.weight n := by
  rw [q.push_waiting e]
  split <;> simp

theorem dispatchEvent_total (s : State) (e : Event) :
    (s.dispatchEvent e).total n = s.total n + e.weight n := by
  have hpush := push_weight n s.evt e
  unfold State.dispatchEvent
  split
  · rename_i evt hq
    simp only [hq, if_true] at hpush
    simp only [State.total, State.pending]
    omega
  · rename_i evt err hq
    simp only [hq, reduceCtorEq, if_false] at hpush
    simp only [State.total, State.pending, answersWeight_append, drainEvent_answers]
    omega

theorem emit_total (s : State) (o : Output) : (s.emit o).total n = s.total n + o.weight n := by
  have hfold : ∀ (events : List Event) (s : State),
      (events.foldl State.dispatchEvent s).total n = s.total n + tally (Event.weight n) events := by
    intro events
    induction events with
    | nil => intro s; rfl
    | cons e rest ih =>
      intro s
      rw [List.foldl_cons, ih, dispatchEvent_total, tally_cons, Nat.add_assoc]
  rw [State.emit, hfold]
  simp only [State.total, State.pending, tally_append, answersWeight_append, Output.weight]
  omega

/-- Another loader takes the place of the `i`th. -/
theorem total_update (s : State) (i : Fin loadThread) (l : Loader) :
    ({ s with loaders := Function.update s.loaders i l } : State).total n +
      (s.loaders i).weight n = s.total n + l.weight n := by
  have hsum := sum_update (Loader.weight n) s.loaders i l
  simp only [State.total, State.pending]
  omega

theorem pushToLoader_total (s : State) (req : ReqLogin) :
    (s.pushToLoader req).total n = s.total n + req.weight n := by
  unfold State.pushToLoader
  simp only
  split
  · have hup := total_update n s req.loader
      { s.loaders req.loader with loading := (s.loaders req.loader).loading ++ [req] }
    simp only [Loader.weight, tally_append, tally_cons, tally_nil] at hup
    omega
  · simp only [State.total, State.pending, sendLoginFailure, answersWeight_append]
    simp [answersWeight, Nat.add_assoc]

theorem handleLoginRequest_total (s : State) (req : Option C2SLogin) :
    (s.handleLoginRequest req).total n =
      s.total n + if s.accepted = n ∧ req.isSome then 1 else 0 := by
  cases req with
  | none => simp [State.handleLoginRequest]
  | some m =>
    rw [State.handleLoginRequest, dispatchEvent_total]
    simp [Event.weight, Event.req, ReqLogin.weight, State.total, State.pending]

end Conservation

/-- Nothing is left in, or reaches, a place that nobody looks at any more. -/
structure Shut (s : State) : Prop where
  read : s.main ≠ .handling → s.main ≠ .draining → s.evt.read = []
  closed : s.main = .draining ∨ s.main = .stopped → s.evt.closed = true ∧ s.evt.write = []
  batch : ∀ i, (s.loaders i).stage.ended = true → (s.loaders i).batch = []
  loading : ∀ i, (s.loaders i).stage.isStopped = true → (s.loaders i).loading = []

/-- Each accepted request is in one place, under way or among the answers. -/
def OnePlace (s : State) : Prop := ∀ n, s.total n = if n < s.accepted then 1 else 0

/-- The goroutines are where they were, and a queue that is closed takes nothing. -/
structure Same (s s' : State) : Prop where
  main : s'.main = s.main
  accepted : s'.accepted = s.accepted
  loaders : s'.loaders = s.loaders
  read : s'.evt.read = s.evt.read
  closed : s'.evt.closed = s.evt.closed
  write : s.evt.closed = true → s'.evt.write = s.evt.write

theorem Same.trans {s s₁ s₂ : State} (h : Same s s₁) (h' : Same s₁ s₂) : Same s s₂ where
  main := h'.main.trans h.main
  accepted := h'.accepted.trans h.accepted
  loaders := h'.loaders.trans h.loaders
  read := h'.read.trans h.read
  closed := h'.closed.trans h.closed
  write := fun hc => (h'.write (h.closed.trans hc)).trans (h.write hc)

theorem dispatchEvent_same (s : State) (e : Event) : Same s (s.dispatchEvent e) := by
  obtain ⟨hread, hclosed, -⟩ := s.evt.push_contents e
  have hwrite : s.evt.closed = true → (s.evt.push e).1.write = s.evt.write := by
    intro hc
    simp [SwapQueue.push, SwapQueue.pushData, SwapQueue.wake, hc]
  unfold State.dispatchEvent
  split <;> rename_i hq <;> rw [hq] at hread hclosed hwrite <;>
    exact ⟨rfl, rfl, rfl, hread, hclosed, hwrite⟩

theorem emit_same (s : State) (o : Output) : Same s (s.emit o) := by
  have hfold : ∀ (events : List Event) (s₁ : State), Same s s₁ →
      Same s (events.foldl State.dispatchEvent s₁) := by
    intro events
    induction events with
    | nil => exact fun _ h => h
    | cons e rest ih => exact fun s₁ h => ih _ (h.trans (dispatchEvent_same s₁ e))
  exact hfold o.events _ ⟨rfl, rfl, rfl, rfl, rfl, fun _ => rfl⟩

variable {s s' : State} {l : Loader} {o : Output}

theorem Shut.same (h : Shut s) (hsame : Same s s') : Shut s' where
  read := by
    rw [hsame.main, hsame.read]
    exact h.read
  closed := by
    rw [hsame.main, hsame.closed]
    intro hend
    obtain ⟨hclosed, hwrite⟩ := h.closed hend
    exact ⟨hclosed, (hsame.write hclosed).trans hwrite⟩
  batch := hsame.loaders ▸ h.batch
  loading := hsame.loaders ▸ h.loading

theorem OnePlace.of (h : OnePlace s) (haccepted : s'.accepted = s.accepted)
    (htotal : ∀ n, s'.total n = s.total n) : OnePlace s' := by
  intro n
  rw [htotal, haccepted, h]

theorem handleLoginRequest_accepted (s : State) (req : Option C2SLogin) :
    (s.handleLoginRequest req).accepted = s.accepted + if req.isSome then 1 else 0 := by
  cases req with
  | none => rfl
  | some m => exact (dispatchEvent_same _ _).accepted

theorem OnePlace.handleLoginRequest (h : OnePlace s) (req : Option C2SLogin) :
    OnePlace (s.handleLoginRequest req) := by
  intro n
  rw [handleLoginRequest_total, handleLoginRequest_accepted, h]
  cases req.isSome with
  | false => simp
  | true =>
    simp only [and_true, if_true]
    split <;> split <;> split <;> omega

theorem Shut.handleLoginRequest (h : Shut s) (req : Option C2SLogin) :
    Shut (s.handleLoginRequest req) := by
  cases req with
  | none => exact h
  | some m =>
    have hnext : Shut { s with accepted := s.accepted + 1 } :=
      ⟨h.read, h.closed, h.batch, h.loading⟩
    exact hnext.same (dispatchEvent_same _ _)

/-- The event at the head of the read buffer is handled. -/
theorem pop_total (n : ℕ) (s : State) {e : Event} {read : List Event}
    (hread : s.evt.read = e :: read) :
    ({ s with evt := { s.evt with read } } : State).total n + e.weight n = s.total n := by
  simp only [State.total, State.pending, SwapQueue.waiting, hread, List.cons_append, tally_cons]
  omega

/-- `Range` swaps the buffers when its last call is over. -/
theorem swap_total (n : ℕ) (s : State) (main : Main) {q : SwapQueue Event}
    (hq : q.waiting = s.evt.waiting) (hread : q.read = []) :
    ({ s with main, evt := q.swap } : State).total n = s.total n := by
  simp only [State.total, State.pending, q.swap_waiting hread, hq]

theorem swap_write (q : SwapQueue Event) : q.swap.write = [] := by
  unfold SwapQueue.swap
  split
  · rename_i hw
    exact List.isEmpty_iff.mp hw
  · rfl

theorem swap_closed (q : SwapQueue Event) : q.swap.closed = q.closed := by
  unfold SwapQueue.swap
  split <;> rfl

theorem close_read (q : SwapQueue Event) : q.close.read = q.read := by
  unfold SwapQueue.close SwapQueue.wake
  split <;> rfl

theorem Shut.update (h : Shut s) (i : Fin loadThread)
    (hbatch : l.stage.ended = true → l.batch = [])
    (hloading : l.stage.isStopped = true → l.loading = []) :
    Shut { s with loaders := Function.update s.loaders i l } := by
  refine ⟨h.read, h.closed, ?_, ?_⟩
  · intro j hend
    by_cases hj : j = i
    · subst hj
      simp only [Function.update_self] at hend ⊢
      exact hbatch hend
    · simp only [Function.update_of_ne hj] at hend ⊢
      exact h.batch j hend
  · intro j hend
    by_cases hj : j = i
    · subst hj
      simp only [Function.update_self] at hend ⊢
      exact hloading hend
    · simp only [Function.update_of_ne hj] at hend ⊢
      exact h.loading j hend

/-- A loader's channel gets a request while the loader is there to read it. -/
theorem Shut.pushToLoader (h : Shut s) {req : ReqLogin}
    (hrun : (s.loaders req.loader).stage.isStopped = false) : Shut (s.pushToLoader req) := by
  unfold State.pushToLoader
  simp only
  split
  · refine h.update req.loader (h.batch _) fun hend => ?_
    rw [hrun] at hend
    cases hend
  · exact ⟨h.read, h.closed, h.batch, h.loading⟩

theorem pushToLoader_accepted (s : State) (req : ReqLogin) :
    (s.pushToLoader req).accepted = s.accepted := by
  unfold State.pushToLoader
  simp only
  split <;> rfl

/-- A loader passes on, answers or keeps every request, unless it drops a batch. -/
theorem Loader.Move.weight {l l' : Loader} {cancelled : Bool} {a : LoaderAct}
    (h : l.Move cancelled a l' o) (hdone : a = .done → l.batch = []) (n : ℕ) :
    l'.weight n + o.weight n = l.weight n := by
  cases h with
  | works hl hl' hweight => exact hweight n
  | late hl hc | stop hl hloading => simp [Loader.weight, hl, Stage.weight, Stage.requests]
  | done hl => simp [Loader.weight, hl, hdone rfl, Stage.weight, Stage.requests]
  | drain hl hloading =>
    simp only [Loader.weight, hl, hloading, weight_sendLoginFailure, tally_cons]
    omega

theorem Loader.Move.shut {l l' : Loader} {cancelled : Bool} {a : LoaderAct}
    (h : l.Move cancelled a l' o) (hbatch : l.stage.ended = true → l.batch = [])
    (hstart : a = .start → cancelled = false) :
    (l'.stage.ended = true → l'.batch = []) ∧ (l'.stage.isStopped = true → l'.loading = []) := by
  cases h with
  | works hl hl' hweight =>
    have hstop : l'.stage.isStopped = false := by
      cases hst : l'.stage <;> rw [hst] at hl' <;> first | rfl | cases hl'
    simp [hl', hstop]
  | late hl hc =>
    rw [hstart rfl] at hc
    cases hc
  | done hl => exact ⟨fun _ => rfl, fun hend => by cases hend⟩
  | drain hl hloading =>
    refine ⟨fun _ => hbatch (by rw [hl]; rfl), fun hend => ?_⟩
    simp [hl, Stage.isStopped] at hend
  | stop hl hloading => exact ⟨fun _ => hbatch (by rw [hl]; rfl), fun _ => hloading⟩

/-- The invariant of the runs that shut down in order. -/
def Kept (s : State) : Prop := OnePlace s ∧ Shut s

theorem Kept.emit {s s₀ : State} (h : Kept s) (hshut : Shut s₀)
    (haccepted : s₀.accepted = s.accepted) (htotal : ∀ n, s₀.total n + o.weight n = s.total n) :
    Kept (s₀.emit o) := by
  refine ⟨h.1.of ((emit_same s₀ o).accepted.trans haccepted) fun n => ?_,
    hshut.same (emit_same s₀ o)⟩
  rw [emit_total, htotal]

theorem Kept.dispatchEvent {s s₀ : State} (h : Kept s) {e : Event} (hshut : Shut s₀)
    (haccepted : s₀.accepted = s.accepted) (htotal : ∀ n, s₀.total n + e.weight n = s.total n) :
    Kept (s₀.dispatchEvent e) := by
  refine ⟨h.1.of ((dispatchEvent_same s₀ e).accepted.trans haccepted) fun n => ?_,
    hshut.same (dispatchEvent_same s₀ e)⟩
  rw [dispatchEvent_total, htotal]

theorem Kept.step {a : Act} (h : Kept s) (hok : orderly s a) (hs : s.step a = some s') :
    Kept s' := by
  obtain ⟨hone, hshut⟩ := h
  cases a with
  | cancel =>
    cases hs
    exact ⟨hone.of rfl fun _ => rfl, ⟨hshut.read, hshut.closed, hshut.batch, hshut.loading⟩⟩
  | handleLoginRequest req =>
    cases hs
    exact ⟨hone.handleLoginRequest req, hshut.handleLoginRequest req⟩
  | onClearRole =>
    cases hs
    exact Kept.dispatchEvent ⟨hone, hshut⟩ hshut rfl fun n => rfl
  | start =>
    obtain ⟨hmain, hs⟩ := Option.ite_none_right_eq_some.mp hs
    cases hs
    have hcancelled : s.cancelled = false := hok
    refine ⟨hone.of rfl fun _ => rfl, ⟨?_, ?_, hshut.batch, hshut.loading⟩⟩
    · exact fun _ _ => hshut.read (by simp [hmain]) (by simp [hmain])
    · simp [hcancelled]
  | wake =>
    obtain ⟨hmain, hs⟩ := Option.ite_none_right_eq_some.mp hs
    cases hs
    have hread := hshut.read (by simp [hmain.1]) (by simp [hmain.1])
    exact ⟨hone.of rfl fun n => swap_total n s _ rfl hread,
      ⟨by simp, by simp, hshut.batch, hshut.loading⟩⟩
  | process env =>
    obtain ⟨hmain, hs⟩ := Option.ite_none_right_eq_some.mp hs
    split at hs
    · rename_i e read hread
      cases hs
      refine Kept.emit ⟨hone, hshut⟩ ⟨?_, ?_, hshut.batch, hshut.loading⟩ rfl fun n => ?_
      · simp [hmain]
      · simp [hmain]
      · rw [processEvent_weight, pop_total n s hread]
    · rename_i hread
      cases hs
      exact ⟨hone.of rfl fun _ => rfl, ⟨fun _ _ => hread, by simp, hshut.batch, hshut.loading⟩⟩
  | done =>
    obtain ⟨hmain, hs⟩ := Option.ite_none_right_eq_some.mp hs
    cases hs
    have hread := hshut.read (by simp [hmain.1]) (by simp [hmain.1])
    refine ⟨hone.of rfl fun n => ?_, ⟨by simp, fun _ => ?_, hshut.batch, hshut.loading⟩⟩
    · exact swap_total n s _ s.evt.close_waiting ((close_read _).trans hread)
    · exact ⟨(swap_closed _).trans s.evt.close_closed, swap_write _⟩
  | drain =>
    obtain ⟨hmain, hs⟩ := Option.ite_none_right_eq_some.mp hs
    split at hs
    · rename_i e read hread
      cases hs
      refine Kept.emit ⟨hone, hshut⟩ ⟨?_, hshut.closed, hshut.batch, hshut.loading⟩ rfl
        fun n => ?_
      · simp [hmain]
      · rw [drainEvent_weight, pop_total n s hread]
    · rename_i hread
      cases hs
      exact ⟨hone.of rfl fun _ => rfl,
        ⟨fun _ _ => hread, fun _ => hshut.closed (Or.inl hmain), hshut.batch, hshut.loading⟩⟩
  | sdk k ok =>
    obtain ⟨req, hreq, rfl⟩ := Option.map_eq_some_iff.mp hs
    have hshut' : Shut { s with sdks := s.sdks.eraseIdx k } :=
      ⟨hshut.read, hshut.closed, hshut.batch, hshut.loading⟩
    have htotal : ∀ n, ({ s with sdks := s.sdks.eraseIdx k } : State).total n + req.weight n =
        s.total n := by
      intro n
      have herase := tally_eraseIdx (ReqLogin.weight n) hreq
      simp only [State.total, State.pending]
      omega
    cases ok with
    | true =>
      refine ⟨hone.of (pushToLoader_accepted _ _) fun n => ?_,
        hshut'.pushToLoader (hok req hreq)⟩
      simp only [if_true]
      rw [pushToLoader_total, htotal]
    | false => exact Kept.dispatchEvent ⟨hone, hshut⟩ hshut' rfl htotal
  | loader i a =>
    obtain ⟨⟨l, o⟩, hl, rfl⟩ := Option.map_eq_some_iff.mp hs
    have hmove := Loader.step_move hl
    obtain ⟨hbatch, hloading⟩ := hmove.shut (hshut.batch i) (fun ha => by subst ha; exact hok)
    refine Kept.emit ⟨hone, hshut⟩ (hshut.update i hbatch hloading) rfl fun n => ?_
    have hweight := hmove.weight (fun ha => by subst ha; exact List.isEmpty_iff.mp hok) n
    have hupdate := total_update n s i l
    omega

theorem Kept.initial : Kept State.initial := by
  constructor
  · intro n
    simp [State.total, State.pending, State.initial, SwapQueue.waiting, Loader.weight,
      Stage.weight, Stage.requests]
  · constructor <;> simp [State.initial, Stage.ended, Stage.isStopped]

/-- When all goroutines have ended nothing is under way. -/
theorem Shut.pending (h : Shut s) (hstop : s.stopped) (n : ℕ) : s.pending n = 0 := by
  obtain ⟨hmain, hloaders, hsdks⟩ := hstop
  have hread := h.read (by simp [hmain]) (by simp [hmain])
  have hwrite := (h.closed (Or.inr hmain)).2
  have hloader : ∀ i, (s.loaders i).weight n = 0 := by
    intro i
    have hend := hloaders i
    have hempty : (s.loaders i).stage.weight n = 0 := by
      cases hst : (s.loaders i).stage <;> rw [hst] at hend <;> first | rfl | cases hend
    rw [Loader.weight, h.loading i hend, h.batch i (Stage.ended_of_isStopped hend), hempty]
    rfl
  simp [State.pending, SwapQueue.waiting, hread, hwrite, hsdks, hloader]

section Runs

/-- All goroutines of `StartService` get to their loops. -/
def startAll : List Act :=
  [.start, .loader 0 .start, .loader 1 .start, .loader 2 .start]

/-- The context is cancelled, and every goroutine sees it. -/
def stopAll : List Act :=
  [.cancel, .done, .drain, .loader 0 .done, .loader 0 .drain, .loader 1 .done, .loader 1 .drain,
    .loader 2 .done, .loader 2 .drain]

def guest : C2SLogin := ⟨0, "a", false, 0⟩

end Runs

instance (s : State) : Decidable s.stopped := by
  unfold State.stopped
  infer_instance

instance (s : State) (a : Act) : Decidable (orderly s a) := by
  unfold orderly
  split <;> infer_instance

/-- The context is cancelled while a request waits in the batch of its loader. -/
theorem cancelledBatch_not_answered : ∃ s, requests.Reachable Machine.anyStep s ∧
    s.stopped ∧ 0 < s.accepted ∧ s.answersTo 0 = 0 := by
  obtain ⟨s, hr, hs⟩ := Machine.exec_reaches (m := requests) Machine.anyStep
    (fun s => s.stopped ∧ 0 < s.accepted ∧ s.answersTo 0 = 0)
    (startAll ++ [Act.handleLoginRequest (some guest), .wake, .process {}, .process {}, .sdk 0 true,
      .loader 1 .receive] ++ stopAll) rfl (by decide +kernel)
  exact ⟨s, hr, hs⟩

/-- No request is answered twice, and after an orderly shutdown every accepted one has
been answered. -/
theorem every_request_answered {s : State} (h : requests.Reachable orderly s) : Answered s := by
  obtain ⟨hone, hshut⟩ : Kept s := by
    refine Machine.Reachable.invariant (P := Kept) ?_ (fun _ _ _ _ ih hok hs => ih.step hok hs) h
    rintro _ rfl
    exact Kept.initial
  have hle : ∀ n, s.pending n + s.answersTo n = if n < s.accepted then 1 else 0 := by
    intro n
    rw [← hone n, State.total, answersWeight_eq]
  constructor
  case once =>
    intro n
    have hn := hle n
    split at hn <;> omega
  case all =>
    intro hstop n hlt
    have hn := hle n
    rwa [hshut.pending hstop, Nat.zero_add, if_pos hlt] at hn

/-- Two logins of a new player fall into one batch, and later the service stops. -/
theorem twoLogins_answered : ∃ s, requests.Reachable orderly s ∧ s.stopped ∧
    s.answers.map (fun a => (a.1.id, a.2)) =
      [(1, .loginFailure .LCServerBusy), (0, .reqLogin 3)] ∧ Answered s := by
  obtain ⟨s, hr, hstop, hs⟩ := Machine.exec_reaches (m := requests) orderly
    (fun s => s.stopped ∧ s.answers.map (fun a => (a.1.id, a.2)) =
      [(1, .loginFailure .LCServerBusy), (0, .reqLogin 3)])
    (startAll ++ [Act.handleLoginRequest (some guest), .handleLoginRequest (some guest), .wake,
      .process {}, .process {}, .process {}, .sdk 0 true, .sdk 0 true, .loader 1 .receive,
      .loader 1 .receive, .loader 1 .tick, .loader 1 (.getBinds (some [])),
      .loader 1 (.find (some [])), .loader 1 .dispatch, .loader 1 (.register (.inserted 1)),
      .loader 1 .deliver, .wake, .process { d := ⟨true, some 3⟩ }, .process {}] ++ stopAll)
    rfl (by decide +kernel)
  exact ⟨s, hr, hstop, hs, every_request_answered hr⟩

end GameCluster.Requests
