import GameCluster.Account.Requests
import GameCluster.Account.Sequence

/-!
The reconnect token from `onLogin` (`auth/handle.go`) to the check in
`finalizeLoginSession`. A successful login stores `Passwd` and sends it on as
`ReConnToken`. The check compares it with the `ReConnToken` of the next request,
but `onLogin` makes that request of a `C2SLogin`, which has no such field.

What it means that a `C2SLogin` carries a token is left open (`carries`): the
results hold however a client may put the token into the message.
-/

namespace GameCluster.Account

open Lib

/-- `pb.C2SLogin`, without `CliInfo`. -/
structure C2SLogin where
  sdkType : ℤ
  account : String
  token : String := ""
  channel : UInt32 := 0
  dev : String := ""
  area : UInt32 := 0
  version : String := ""
  reconnect : Bool := false

/-- `pb.S2SReqLogin`. -/
structure S2SReqLogin where
  req : C2SLogin
  sesID : UInt64
  roleID : UInt64 := 0
  reConnToken : UInt64 := 0
  seq : UInt32 := 0
  bindAcc : String := ""
  connectedAcc : List String := []

def onLogin (sesID : UInt64) (req : C2SLogin) : S2SReqLogin := { req, sesID }

def handleLoginRequest (req : S2SReqLogin) : S2SReqLogin :=
  { req with bindAcc := Requests.formatBindKey req.req.sdkType req.req.account }

def S2SReqLogin.request (req : S2SReqLogin) : Request :=
  ⟨req.bindAcc, req.req.reconnect, req.reConnToken⟩

/-- `generatePasswd`, which draws random numbers until one is not zero. -/
def generatePasswd (draws : List UInt64) : Option UInt64 := draws.find? (· ≠ 0)

/-- A message from a client, with the runs before it came. -/
structure Received where
  msg : C2SLogin
  before : List Event

/-- The account nodes and the message behind each of their logins. -/
structure Traffic where
  nodes : State
  received : List Received

inductive TrafficAct where
  | onLogin (sesID : UInt64) (req : C2SLogin)
  | finalize (i : Nat) (d : Discovery) (draws : List UInt64) (fault : Option Fault)
  /-- Any other step of the nodes. -/
  | nodes (act : Act)

/-- A step that is neither a new login nor `finalizeLoginSession`. -/
def Act.inner : Act → Bool
  | .login _ => false
  | .finalize .. => false
  | _ => true

def Traffic.step (s : Traffic) : TrafficAct → Option Traffic
  | .onLogin sesID req =>
    (s.nodes.step (.login (handleLoginRequest (onLogin sesID req)).request)).map fun nodes =>
      { nodes, received := s.received ++ [⟨req, s.nodes.log⟩] }
  | .finalize i d draws fault =>
    (generatePasswd draws).bind fun passwd =>
      (s.nodes.step (.finalize i d passwd fault)).map fun nodes => { s with nodes }
  | .nodes act =>
    if act.inner then (s.nodes.step act).map fun nodes => { s with nodes } else none

def traffic : Machine Traffic TrafficAct where
  init s := accounts.init s.nodes ∧ s.received = []
  step := Traffic.step

def Event.token (e : Event) : Option UInt64 :=
  match e.outcome with
  | .saved acc => some acc.passwd
  | _ => none

/-- The tokens that successful logins of the account have stored. -/
def issued (a : UInt64) (log : List Event) : List UInt64 :=
  (log.filter (·.accID = a)).filterMap Event.token

/-- `finalizeLoginSession` gets past the comparison of the tokens. -/
def PassesCheck (acc : Data) (req : Request) : Prop :=
  ∀ d passwd, finalizeLoginSession acc req d passwd ≠ .error .LCCanNotReConn

section Claim

variable (a : UInt64) (carries : C2SLogin → UInt64 → Prop)

/-- A `C2SLogin` with `Reconnect` that comes after a successful login of account
`a` and has loaded that account passes the check exactly if it carries the token. -/
def TokenChecked (s : Traffic) : Prop :=
  ∀ (i : ℕ) (r : Received) (l : Login) (acc : Data), s.received[i]? = some r →
    s.nodes.logins[i]? = some l → l.phase = .loaded acc → acc.accID = a →
    r.msg.reconnect = true → ∀ tok ∈ issued a r.before, tok ≠ 0 →
      (PassesCheck acc l.req ↔ carries r.msg tok)

/-- The step does not take the hash of the account away. -/
def hashKept (s : Traffic) : TrafficAct → Prop
  | .nodes act => keeps a s.nodes act
  | _ => True

/-- A reconnecting client does not carry the token. -/
def tokenless (s : Traffic) : TrafficAct → Prop
  | .onLogin _ req => req.reconnect = true → ∀ tok ∈ issued a s.nodes.log, ¬carries req tok
  | _ => True

end Claim

theorem generatePasswd_ne_zero {draws : List UInt64} {passwd : UInt64}
    (h : generatePasswd draws = some passwd) : passwd ≠ 0 := by
  simpa using List.find?_some h

theorem passesCheck_iff (acc : Data) (req : Request) :
    PassesCheck acc req ↔ ¬(req.reconnect ∧ acc.passwd ≠ 0 ∧ req.reConnToken ≠ acc.passwd) := by
  constructor
  · intro hpass hrefused
    exact hpass ⟨false, none⟩ 0 (if_pos hrefused)
  · intro hok d passwd
    rw [finalizeLoginSession, if_neg hok]
    split
    · rename_i code hcode
      have hgame : code = .LCNoGame := by
        unfold allocateGameServer at hcode
        split at hcode
        · cases hcode
        · split at hcode <;> cases hcode
          rfl
      rw [hgame]
      simp
    · simp

theorem finalizeLoginSession_passwd {acc acc' : Data} {req : Request} {d : Discovery}
    {passwd : UInt64} (h : finalizeLoginSession acc req d passwd = .ok acc') (hne : passwd ≠ 0) :
    acc'.passwd ≠ 0 := by
  obtain ⟨_, -, rfl⟩ := finalizeLoginSession_eq h
  simp only
  split
  · exact hne
  · assumption

section Knowing

/-- How a login comes by the account that it goes on with after a step. -/
inductive Source (s : State) (l : Login) (acc : Data) : Prop
  | kept (h : l.phase.account = some acc)
  | read (h : ∀ gameID seq passwd, (s.hash acc.accID).Holds gameID seq passwd →
      acc.passwd = passwd)
  | fresh (h : ∀ d ∈ s.mongo, d.accID ≠ acc.accID)

/-- What a login is after a step: a new one, or what it was with an account that
it may have come to know. -/
inductive Knows (s : State) (act : Act) (j : ℕ) (l' : Login) : Prop
  | new (hact : act = .login l'.req) (hj : j = s.logins.length) (hp : l'.phase = .getBind)
  | old {l : Login} (hl : s.logins[j]? = some l) (hreq : l'.req = l.req)
      (hacc : ∀ acc, l'.phase.account = some acc → Source s l acc)

variable {s s' : State} {act : Act}

theorem Moves.source {l : Login} {phase : Phase} (hn : Naming s) (h : Moves s l phase)
    (acc : Data) (hacc : phase.account = some acc) : Source s l acc := by
  cases h with
  | @hashHit accID acc' hp hscan hpos =>
    obtain rfl := Option.some.inj hacc
    obtain ⟨hid, -, -, hpasswd⟩ := unmarshalBinds_state acc'
    have haccID := scan_accFields (hn.hash accID) hscan hpos
    refine .read fun gameID seq passwd hh => ?_
    rw [hid, haccID] at hh
    exact hpasswd.trans (hh.scan_accFields hscan).2.2
  | @enriched doc hp =>
    obtain rfl := Option.some.inj hacc
    have hid : (doc.account.scan (s.hash doc.accID) stateFields).1.accID = doc.accID :=
      scan_accID doc.account _ _ (by decide)
    refine .read fun gameID seq passwd hh => ?_
    rw [hid] at hh
    rw [hh.scan_state doc.account rfl rfl rfl]
  | executed hp =>
    obtain rfl := Option.some.inj hacc
    exact .kept (by rw [hp]; rfl)
  | _ => cases hacc

theorem Knows.same (hlogins : s'.logins = s.logins) {j : ℕ} {l' : Login}
    (hl' : s'.logins[j]? = some l') : Knows s act j l' :=
  .old (hlogins ▸ hl') rfl fun _ hacc => .kept hacc

/-- One login goes on, the others stay where they are. -/
theorem Knows.setPhase {i : ℕ} {l : Login} {phase : Phase} (hl : s.logins[i]? = some l)
    (hlogins : s'.logins = s.logins.set i { l with phase })
    (hacc : ∀ acc, phase.account = some acc → Source s l acc) {j : ℕ} {l' : Login}
    (hl' : s'.logins[j]? = some l') : Knows s act j l' := by
  rw [hlogins, getElem?_set_some hl] at hl'
  split at hl'
  · rename_i hj
    cases hl'
    exact .old (l := l) (hj ▸ hl) rfl hacc
  · exact .old hl' rfl fun _ hacc => .kept hacc

theorem Effect.knows (hn : Naming s) (he : Effect s act s') {j : ℕ} {l' : Login}
    (hl' : s'.logins[j]? = some l') : Knows s act j l' := by
  cases he with
  | login =>
    rw [getElem?_concat] at hl'
    split at hl'
    · rename_i hj
      cases hl'
      exact .new rfl hj rfl
    · exact .old hl' rfl fun _ hacc => .kept hacc
  | moves hl hm => exact .setPhase hl rfl (hm.source hn) hl'
  | @exec i l c rest acc hl hp applied =>
    have hlogins := (applied_frame s c applied).2.1
    refine .setPhase hl (congrArg (List.set · i ⟨l.req, .pipeline rest acc⟩) hlogins)
      (fun _ hacc => .kept ?_) hl'
    rw [hp]
    exact hacc
  | generated hl hp => exact .setPhase hl rfl (by simp [Phase.account]) hl'
  | insert hl hp hnew hphase =>
    refine .setPhase hl rfl (fun acc hacc => ?_) hl'
    obtain rfl | rfl := hphase
    · cases hacc
    · obtain rfl := Option.some.inj hacc
      exact .fresh fun d hd => (hnew d hd).1
  | finalize hl hp hf => exact .setPhase hl hf.frame.1 (by simp [Phase.account]) hl'
  | @write j c rest hw applied =>
    have hlogins := (applied_frame s c applied).2.1
    exact .same hlogins hl'
  | @roleClear k m _ s' ok hm hc =>
    have hlogins : s'.logins = s.logins := hc.frame.1
    exact .same hlogins hl'
  | _ => exact .same rfl hl'

end Knowing

section Storing

variable {a : UInt64} {s s' : State} {act : Act}

/-- The hash holds a login state, with a token once a login has succeeded. -/
def TokenStored (a : UInt64) (s : State) : Prop :=
  ∃ gameID seq passwd, (s.hash a).Holds gameID seq passwd ∧ (issued a s.log ≠ [] → passwd ≠ 0)

theorem issued_eq (a : UInt64) (s : State) :
    issued a s.log = (s.events a).filterMap Event.token := rfl

/-- A step that neither writes the login state nor is a run on the account. -/
theorem TokenStored.quiet (h : TokenStored a s) (hhash : SameState a s s')
    (hevents : s'.events a = s.events a) : TokenStored a s' := by
  obtain ⟨gameID, seq, passwd, hh, hpasswd⟩ := h
  refine ⟨gameID, seq, passwd, hhash.holds hh, ?_⟩
  rw [issued_eq, hevents]
  exact hpasswd

/-- A run that has not issued a token. -/
theorem TokenStored.record (h : TokenStored a s') {accID : UInt64} {bind : String}
    {outcome : Outcome} (hnone : ∀ acc, outcome ≠ .saved acc) :
    TokenStored a (s.record s' accID bind outcome) := by
  have hissued : issued a (s.record s' accID bind outcome).log = issued a s'.log := by
    rw [issued_eq, record_events, List.filterMap_append, ← issued_eq]
    split
    · cases outcome with
      | saved acc => exact absurd rfl (hnone acc)
      | _ => exact List.append_nil _
    · exact List.append_nil _
  obtain ⟨gameID, seq, tok, hh, htok⟩ := h
  refine ⟨gameID, seq, tok, hh, ?_⟩
  rw [hissued]
  exact htok

/-- A run that has written a login state with a token. -/
theorem TokenStored.login {acc : Data} (hne : acc.passwd ≠ 0)
    (hhash : s'.hash a = (s.hash a).login acc) {accID : UInt64} {bind : String}
    {outcome : Outcome} : TokenStored a (s.record s' accID bind outcome) := by
  refine ⟨acc.gameID, acc.seq, acc.passwd, ?_, fun _ => hne⟩
  show (s'.hash a).Holds _ _ _
  rw [hhash]
  exact Hash.login_holds _ _

theorem TokenStored.finalize (h : TokenStored a s) {l : Login} {acc : Data} {d : Discovery}
    {passwd : UInt64} {outcome : Outcome} (hne : passwd ≠ 0) (ha : acc.accID = a)
    (hf : Finalize s l acc d passwd s' outcome) :
    TokenStored a (s.record s' acc.accID l.req.bindAcc outcome) := by
  subst ha
  have hset : ∀ acc', (s.setHash acc.accID ((s.hash acc.accID).login acc')).hash acc.accID =
      (s.hash acc.accID).login acc' := by
    intro acc'
    rw [setHash_hash, if_pos rfl]
  cases hf with
  | rejected | failed => exact h.record (by simp)
  | lost hfin hseq | saved hfin hseq => exact .login (finalizeLoginSession_passwd hfin hne) (hset _)

theorem TokenStored.clear (h : TokenStored a s) {m : RoleClear} {ok : Bool} (ha : m.accID = a)
    (hc : Clear s m s' ok) : TokenStored a (s.record s' m.accID "" (.cleared m.seq ok)) := by
  subst ha
  cases hc with
  | ignored => exact h.record (by simp)
  | cleared hseq =>
    obtain ⟨gameID, seq, tok, hh, htok⟩ := h
    have hcleared : TokenStored m.accID
        (s.setHash m.accID ((s.hash m.accID).insert .gameID "0")) := by
      refine ⟨0, seq, tok, ?_, htok⟩
      rw [setHash_hash, if_pos rfl]
      exact hh.clear
    exact hcleared.record (by simp)

/-- While its hash is kept, an account keeps a stored token. -/
theorem TokenStored.move (h : TokenStored a s) (hm : AccountMove a s act s')
    (hkeeps : keeps a s act)
    (hdraw : ∀ i d passwd fault, act = .finalize i d passwd fault → passwd ≠ 0) :
    TokenStored a s' := by
  cases hm with
  | quiet hhash hframe => exact h.quiet hhash hframe.events
  | expired hact => exact absurd hkeeps hact
  | @finalize i l _ _ _ _ _ _ hl hp ha hf =>
    have hdone : TokenStored a (s.setPhase i l .done) := h.quiet (.of_hash rfl) rfl
    exact hdone.finalize (hdraw _ _ _ _ rfl) ha hf
  | receive hm ha accepted | cleanup hseq => exact h.quiet (.of_hash rfl) rfl
  | @roleClear k m _ _ _ hm ha hc =>
    have herased : TokenStored a { s with clears := s.clears.eraseIdx k } :=
      h.quiet (.of_hash rfl) rfl
    exact herased.clear ha hc

theorem Effect.log_grows (he : Effect s act s') : s.log <+: s'.log := by
  cases he with
  | @exec i l c _ _ _ _ applied | @write j c _ _ applied =>
    exact (applied_frame s c applied).2.2.2 ▸ List.prefix_rfl
  | finalize hl hp hf =>
    have hlog := hf.frame.2.2.2.2
    exact ⟨_, congrArg (· ++ _) hlog.symm⟩
  | roleClear hm hc =>
    have hlog := hc.frame.2.2.2.2.2
    exact ⟨_, congrArg (· ++ _) hlog.symm⟩
  | _ => exact List.prefix_rfl

theorem issued_grows {log log' : List Event} (h : log <+: log') (hne : issued a log ≠ []) :
    issued a log' ≠ [] := by
  obtain ⟨more, rfl⟩ := h
  rw [issued, List.filter_append, List.filterMap_append]
  exact List.append_ne_nil_of_left_ne_nil hne _

end Storing

section Guarding

variable {a : UInt64} {s t : Traffic} {act : TrafficAct}

/-- The nodes when a request has reached a loader. -/
def arrive (s : State) (sesID : UInt64) (req : C2SLogin) : State :=
  { s with
    logins := s.logins ++ [⟨(handleLoginRequest (onLogin sesID req)).request, .getBind⟩] }

/-- A step of the traffic is a step of the nodes, with a new message or without. -/
inductive TrafficMove (s : Traffic) : TrafficAct → Traffic → Prop
  | onLogin {sesID : UInt64} {req : C2SLogin} :
      TrafficMove s (.onLogin sesID req)
        { nodes := arrive s.nodes sesID req, received := s.received ++ [⟨req, s.nodes.log⟩] }
  | finalize {i : ℕ} {d : Discovery} {draws : List UInt64} {fault : Option Fault} {passwd : UInt64}
      {nodes : State} (hdraw : passwd ≠ 0)
      (h : s.nodes.step (.finalize i d passwd fault) = some nodes) :
      TrafficMove s (.finalize i d draws fault) { s with nodes }
  | nodes {act : Act} {nodes : State} (hinner : act.inner = true)
      (h : s.nodes.step act = some nodes) : TrafficMove s (.nodes act) { s with nodes }

theorem Traffic.step_move (hs : s.step act = some t) : TrafficMove s act t := by
  cases act with
  | onLogin sesID req =>
    cases hs
    exact .onLogin
  | finalize i d draws fault =>
    obtain ⟨passwd, hdraw, h⟩ := Option.bind_eq_some_iff.mp hs
    obtain ⟨nodes, hnodes, rfl⟩ := Option.map_eq_some_iff.mp h
    exact .finalize (generatePasswd_ne_zero hdraw) hnodes
  | nodes act =>
    obtain ⟨hinner, h⟩ := Option.ite_none_right_eq_some.mp hs
    obtain ⟨nodes, hnodes, rfl⟩ := Option.map_eq_some_iff.mp h
    exact .nodes hinner hnodes

/-- A login and the message that it comes from. -/
structure Thread (a : UInt64) (log : List Event) (r : Received) (l : Login) : Prop where
  reconnect : l.req.reconnect = r.msg.reconnect
  token : l.req.reConnToken = 0
  older : issued a r.before ≠ [] → issued a log ≠ []
  passwd : issued a r.before ≠ [] → ∀ acc, l.phase.account = some acc → acc.accID = a →
    acc.passwd ≠ 0

/-- Logins that came after a successful one know that the account has a token. -/
structure Guarded (a : UInt64) (s : Traffic) : Prop where
  naming : Naming s.nodes
  plain : Plain s.nodes
  stored : TokenStored a s.nodes
  length : s.received.length = s.nodes.logins.length
  threads : ∀ (i : ℕ) (r : Received) (l : Login), s.received[i]? = some r →
    s.nodes.logins[i]? = some l → Thread a s.nodes.log r l

theorem Guarded.initial (hs : traffic.init s) : Guarded a s := by
  obtain ⟨hnodes, hreceived⟩ := hs
  obtain ⟨hhashes, -, -, hlogins, -, -, -, -, hlog⟩ := id hnodes
  refine ⟨Naming.initial hnodes, Plain.initial hnodes, ?_, by simp [hreceived, hlogins], ?_⟩
  · refine ⟨0, 0, 0, ?_, by simp [hlog, issued]⟩
    have hempty : s.nodes.hash a = ∅ := by rw [State.hash, hhashes]
    rw [hempty]
    exact Hash.Holds.empty
  · intro i r l hr
    simp [hreceived] at hr

/-- What a step of the nodes leaves of a login that was there before. -/
theorem Guarded.thread (h : Guarded a s) {nact : Act} {nodes : State}
    (hs : s.nodes.step nact = some nodes) {i : ℕ} {r : Received} {l l' : Login}
    (hr : s.received[i]? = some r) (hl : s.nodes.logins[i]? = some l) (hreq : l'.req = l.req)
    (hacc : ∀ acc, l'.phase.account = some acc → Source s.nodes l acc) :
    Thread a nodes.log r l' := by
  have hold := h.threads i r l hr hl
  have hgrows := (State.step_effect hs).log_grows
  refine ⟨hreq ▸ hold.reconnect, hreq ▸ hold.token, fun hne => issued_grows hgrows (hold.older hne),
    fun hne acc hphase ha => ?_⟩
  cases hacc acc hphase with
  | kept hkept => exact hold.passwd hne acc hkept ha
  | read hread =>
    obtain ⟨gameID, seq, passwd, hh, hpasswd⟩ := h.stored
    rw [hread gameID seq passwd (ha ▸ hh)]
    exact hpasswd (hold.older hne)
  | fresh hfresh =>
    -- the account of a successful login is in the collection
    obtain ⟨tok, htok⟩ := List.exists_mem_of_ne_nil _ (hold.older hne)
    obtain ⟨e, he, hsaved⟩ := List.mem_filterMap.mp htok
    obtain ⟨hlog, hid⟩ := List.mem_filter.mp he
    have hout : ∃ acc', e.outcome = .saved acc' := by
      unfold Event.token at hsaved
      split at hsaved
      · rename_i acc' hout
        exact ⟨acc', hout⟩
      · cases hsaved
    obtain ⟨acc', hout⟩ := hout
    obtain ⟨d, hd, -, hda⟩ := h.naming.log e hlog acc' hout
    exact absurd (hda.trans ((of_decide_eq_true hid).trans ha.symm)) (hfresh d hd)

theorem Effect.length {s s' : State} {act : Act} (he : Effect s act s')
    (hact : ∀ req, act ≠ .login req) : s'.logins.length = s.logins.length := by
  cases he with
  | @login req => exact absurd rfl (hact req)
  | @exec i l c rest acc hl hp applied =>
    rw [← (applied_frame s c applied).2.1]
    exact List.length_set
  | moves | generated | insert => exact List.length_set
  | finalize hl hp hf =>
    have hlogins := congrArg List.length hf.frame.1
    exact hlogins.trans List.length_set
  | @write j c rest hw applied =>
    exact congrArg List.length (applied_frame s c applied).2.1
  | roleClear hm hc => exact congrArg List.length hc.frame.1
  | _ => rfl

theorem Guarded.inside (h : Guarded a s) {nact : Act} {nodes : State}
    (hs : s.nodes.step nact = some nodes) (hact : ∀ req, nact ≠ .login req)
    (hkeeps : keeps a s.nodes nact)
    (hdraw : ∀ i d passwd fault, nact = .finalize i d passwd fault → passwd ≠ 0) :
    Guarded a { s with nodes } where
  naming := h.naming.step (State.step_effect hs)
  plain := h.plain.step (State.step_effect hs)
  stored :=
    h.stored.move ((State.step_effect hs).accountMove h.naming h.plain a) hkeeps hdraw
  length := h.length.trans ((State.step_effect hs).length hact).symm
  threads := by
    intro i r l' hr hl'
    cases (State.step_effect hs).knows h.naming hl' with
    | new hnew => exact absurd hnew (hact _)
    | old hl hreq hacc => exact h.thread hs hr hl hreq hacc

theorem Guarded.arrive (h : Guarded a s) (sesID : UInt64) (req : C2SLogin) :
    Guarded a { nodes := arrive s.nodes sesID req,
                received := s.received ++ [⟨req, s.nodes.log⟩] } where
  naming := h.naming.step .login
  plain := h.plain.step .login
  stored := h.stored.quiet (.of_hash rfl) rfl
  length := by
    simp only [Account.arrive, List.length_append, List.length_singleton, h.length]
  threads := by
    intro i r l hr hl
    simp only [Account.arrive] at hl
    rw [getElem?_concat, h.length] at hr
    rw [getElem?_concat] at hl
    split at hl
    · rename_i hi
      rw [if_pos hi] at hr
      cases hr
      cases hl
      exact ⟨rfl, rfl, fun hne => hne, by simp [Phase.account]⟩
    · rename_i hi
      rw [if_neg hi] at hr
      obtain ⟨hreconnect, htoken, holder, hpasswd⟩ := h.threads i r l hr hl
      exact ⟨hreconnect, htoken, holder, hpasswd⟩

theorem guarded_of_reachable {ok : Traffic → TrafficAct → Prop}
    (hkept : ∀ s act, ok s act → hashKept a s act) (hr : traffic.Reachable ok s) :
    Guarded a s := by
  refine hr.invariant (fun s hs => Guarded.initial hs) ?_
  intro s act t _ h hok hs
  have hkeeps := hkept s act hok
  cases Traffic.step_move hs with
  | onLogin => exact h.arrive _ _
  | finalize hdraw hnodes =>
    refine h.inside hnodes (by simp) trivial ?_
    rintro i d passwd fault heq
    cases heq
    exact hdraw
  | nodes hinner hnodes =>
    refine h.inside hnodes ?_ hkeeps ?_
    · rintro req rfl
      cases hinner
    · rintro i d passwd fault rfl
      cases hinner

/-- A reconnect that comes after a successful login is refused, whatever the message
carries. -/
theorem Guarded.refused (h : Guarded a s) {i : ℕ} {r : Received} {l : Login} {acc : Data}
    (hr : s.received[i]? = some r) (hl : s.nodes.logins[i]? = some l) (hp : l.phase = .loaded acc)
    (ha : acc.accID = a) (hreconnect : r.msg.reconnect = true) (hne : issued a r.before ≠ []) :
    ¬PassesCheck acc l.req := by
  have hthread := h.threads i r l hr hl
  have hpasswd := hthread.passwd hne acc (by rw [hp]; rfl) ha
  rw [passesCheck_iff, not_not]
  refine ⟨hthread.reconnect.trans hreconnect, hpasswd, ?_⟩
  rw [hthread.token]
  exact hpasswd.symm

end Guarding

/-- In runs that keep the account's hash and in which no reconnecting client carries
the token, the check passes exactly for those that do. -/
theorem reconnect_checked (a : UInt64) (carries : C2SLogin → UInt64 → Prop) {s : Traffic}
    (hr : traffic.Reachable (fun s act => hashKept a s act ∧ tokenless a carries s act) s) :
    TokenChecked a carries s := by
  have hguarded : Guarded a s := guarded_of_reachable (fun _ _ hok => hok.1) hr
  have hwithout : ∀ r ∈ s.received, r.msg.reconnect = true →
      ∀ tok ∈ issued a r.before, ¬carries r.msg tok := by
    refine hr.invariant (P := fun s => ∀ r ∈ s.received, r.msg.reconnect = true →
      ∀ tok ∈ issued a r.before, ¬carries r.msg tok) ?_ ?_
    · rintro s ⟨-, hreceived⟩ r hmem
      simp [hreceived] at hmem
    · intro s act t _ ih hok hs
      cases Traffic.step_move hs with
      | onLogin =>
        intro r hmem
        rcases List.mem_append.mp hmem with hmem | hmem
        · exact ih r hmem
        · obtain rfl := List.mem_singleton.mp hmem
          exact hok.2
      | finalize | nodes => exact ih
  intro i r l acc hrec hl hp ha hreconnect tok htok _
  refine iff_of_false ?_ (hwithout r (List.mem_of_getElem? hrec) hreconnect tok htok)
  exact hguarded.refused hrec hl hp ha hreconnect (List.ne_nil_of_mem htok)

section Runs

instance (a : UInt64) (s : Traffic) (act : TrafficAct) : Decidable (hashKept a s act) :=
  match act with
  | .nodes act => inferInstanceAs (Decidable (keeps a s.nodes act))
  | .onLogin .. => isTrue trivial
  | .finalize .. => isTrue trivial

instance (a : UInt64) (carries : C2SLogin → UInt64 → Prop) [∀ req tok, Decidable (carries req tok)]
    (s : Traffic) (act : TrafficAct) : Decidable (tokenless a carries s act) :=
  match act with
  | .onLogin _ req =>
    -- over the list of tokens, not over all values of the type
    letI : Decidable (∀ tok ∈ issued a s.nodes.log, ¬carries req tok) := List.decidableBAll _ _
    inferInstanceAs (Decidable (req.reconnect = true →
      ∀ tok ∈ issued a s.nodes.log, ¬carries req tok))
  | .nodes _ => isTrue trivial
  | .finalize .. => isTrue trivial

/-- The token as a decimal text in the field `Token`. -/
def carriesText (req : C2SLogin) (tok : UInt64) : Prop := req.token = tok.toNat.repr

instance (req : C2SLogin) (tok : UInt64) : Decidable (carriesText req tok) :=
  inferInstanceAs (Decidable (_ = _))

/-- A first login gets the token 42, and a reconnect with the given `Token` loads
the account. -/
def comeBack (token : String) : List TrafficAct :=
  [.onLogin 7 { sdkType := 1, account := "a" }, .nodes (.getBind 0 false), .nodes (.find 0 false),
    .nodes (.generate 0 false), .nodes (.insert 0 none), .nodes (.exec 0 true),
    .nodes (.exec 0 true), .nodes (.exec 0 true), .nodes (.exec 0 true),
    .finalize 0 ⟨true, some 3⟩ [0, 42] none,
    .onLogin 8 { sdkType := 1, account := "a", token, reconnect := true },
    .nodes (.getBind 1 false), .nodes (.getHash 1 false)]

def Phase.loads (a : UInt64) : Phase → Bool
  | .loaded acc => acc.accID = a
  | _ => false

/-- The second login of `comeBack` is about to be checked. -/
def atCheck (token : String) (s : Traffic) : Bool :=
  (s.received[1]?).any (fun r =>
      r.msg.reconnect ∧ r.msg.token = token ∧ issued 1 r.before = [42]) &&
    (s.nodes.logins[1]?).any fun l => l.phase.loads 1

theorem traffic_empty : traffic.init ⟨State.empty, []⟩ := ⟨accounts_empty, rfl⟩

theorem emptyToken_checked : ∃ s,
    traffic.Reachable (fun s act => hashKept 1 s act ∧ tokenless 1 carriesText s act) s ∧
      atCheck "" s = true ∧ TokenChecked 1 carriesText s := by
  obtain ⟨s, hr, hs⟩ := Machine.exec_reaches (m := traffic)
    (fun s act => hashKept 1 s act ∧ tokenless 1 carriesText s act) (fun s => atCheck "" s = true)
    (comeBack "") traffic_empty (by decide +kernel)
  exact ⟨s, hr, hs, reconnect_checked 1 carriesText hr⟩

/-- The client sends the token 42 that it was issued, and is refused. -/
theorem issuedToken_refused : ∃ s, traffic.Reachable (hashKept 1) s ∧
    ¬TokenChecked 1 carriesText s := by
  obtain ⟨s, hr, hs⟩ := Machine.exec_reaches (m := traffic) (hashKept 1)
    (fun s => atCheck "42" s = true) (comeBack "42") traffic_empty (by decide +kernel)
  refine ⟨s, hr, fun hchecked => ?_⟩
  obtain ⟨hreceived, hloads⟩ := Bool.and_eq_true_iff.mp hs
  obtain ⟨r, hrec, hmsg⟩ := (Option.any_eq_true _ _).mp hreceived
  obtain ⟨hreconnect, htoken, hissued⟩ := of_decide_eq_true hmsg
  obtain ⟨l, hl, hphase⟩ := (Option.any_eq_true _ _).mp hloads
  have hloaded : ∃ acc, l.phase = .loaded acc ∧ acc.accID = 1 := by
    unfold Phase.loads at hphase
    split at hphase
    · rename_i acc hp
      exact ⟨acc, hp, of_decide_eq_true hphase⟩
    · cases hphase
  obtain ⟨acc, hp, ha⟩ := hloaded
  have htok : (42 : UInt64) ∈ issued 1 r.before := by
    rw [hissued]
    exact List.mem_singleton_self _
  have hpass := (hchecked 1 r l acc hrec hl hp ha hreconnect 42 htok (by decide)).mpr htoken
  have hguarded : Guarded 1 s := guarded_of_reachable (fun _ _ hok => hok) hr
  exact hguarded.refused hrec hl hp ha hreconnect (List.ne_nil_of_mem htok) hpass

end Runs

end GameCluster.Account
