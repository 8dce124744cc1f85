import GameCluster.Bus.Typed
import GameCluster.Gateway.Forward
import GameCluster.Lib.Machine

/-!
The life of a client's session on the gateway (`session.go`, `sender.go` and
`recver.go` of `gateway/session`). `start` lists the session and starts two
goroutines: one writes what is pushed for the client, the other forwards what
the client sends. Anyone may close the session, which stores the first reason
and cancels a context; a goroutine that ends counts itself out, and the last of
them takes the session off the list, tells the game server and closes the
connection.

One statement of a goroutine is one step. `sync.Once` lets the first `Close`
store and cancel, which are two steps, while the others wait for it. A push is
one step, as `SwapQueue` has it. The session is taken up where `start` has
returned: what others do with it before, they can do before the first steps of
its goroutines. Logging and the wait group of `GracefulStop` are left out, and
so is the table of the sessions but for whether this one is in it.
-/

namespace GameCluster.Gateway.Life

open Lib Bus Pb

/-! ### Reasons -/

/-- `pb.DisconnectReason` -/
inductive DisconnectReason where
  | normal
  | heartbeat
  | shutDown
  | limit
  | decodeErr
  | pkgCntErr
  | initErr
  | kick
  | slowClient
  | netErr
  | unknown
  deriving DecidableEq, Repr

def DisconnectReason.number : DisconnectReason → BitVec 32
  | normal => 0
  | heartbeat => 1
  | shutDown => 2
  | limit => 3
  | decodeErr => 4
  | pkgCntErr => 5
  | initErr => 6
  | kick => 7
  | slowClient => 8
  | netErr => 9
  | unknown => 10

/-- What `classifyReadErr` looks for in an error. -/
structure NetErr where
  /-- The code of a `websocket.CloseError`. -/
  closeCode : Option ℕ
  /-- Whether it is a `net.Error` that says `Timeout`. -/
  timeout : Bool
  /-- The text of an `os.SyscallError` in a `net.OpError`, in lower case. -/
  sysErr : Option String
  text : String

/-- `strings.Contains` -/
def contains (s sub : String) : Bool := decide (sub.toList <:+: s.toList)

def classifyReadErr (err : NetErr) : DisconnectReason :=
  match err.closeCode with
  | some code => if code = 1000 ∨ code = 1001 ∨ code = 1005 ∨ code = 1006 then .normal else .netErr
  | none =>
    if err.timeout then .heartbeat
    else if err.sysErr.any fun errMsg => contains errMsg "connection reset" ||
        contains errMsg "broken pipe" || contains errMsg "wsarecv" then .normal
    else if contains err.text "message too large" then .limit
    else .unknown

/-! ### The session -/

structure MsgSend where
  id : UInt32
  data : List UInt8
  deriving DecidableEq, Repr

/-- A WebSocket frame to the client. -/
inductive Frame where
  | binary (payload : List UInt8)
  | close
  deriving DecidableEq, Repr

/-- `binary.BigEndian.PutUint32`, and the data after it. -/
def MsgSend.frame (v : MsgSend) : Frame :=
  .binary ((Bytes.le 4 v.id.toNat).reverse ++ v.data)

variable [Wire.Protohelpers]

/-- What the session puts on the bus. -/
inductive Out where
  | client (subject : String) (m : Message)
  /-- The call of `SendToGame` when the session has ended, with what the batcher
  is given, if the bus takes it. -/
  | notice (x : Send) (m : Option Message)

/-- A message of the client, under the ID of the session. -/
def Out.IsClient (id : UInt64) : Out → Prop
  | client _ m => m.head.sesID = id ∧ s2sMax < m.head.msgID
  | notice _ _ => False

/-- Where a goroutine is in `onLoopExit`. -/
inductive ExitPc where
  | count
  | remove
  | notice
  | connClose
  | finished
  deriving DecidableEq, Repr

/-- Where `sendLoop` is. `final` is whether it has seen that the context is
done. -/
inductive SendPc where
  | select
  /-- Before the critical section of `Range`. -/
  | drain (final : Bool)
  /-- In the loop of `Range`. -/
  | write (final failed : Bool)
  | closeFrame
  | close
  /-- In `Close`, until the context is cancelled. -/
  | wait
  | exit (pc : ExitPc)
  deriving DecidableEq, Repr

/-- What `NextReader` returns. -/
inductive Incoming where
  | err (err : NetErr)
  /-- A message of another type. -/
  | other
  /-- A binary message, and what the error of its reader is, if that fails. -/
  | binary (r : Reader) (err : NetErr)

/-- Where `readLoop` is. -/
inductive RecvPc where
  | next
  | payload (r : Reader) (err : NetErr)
  | forward (src : List UInt8)
  | check
  | close (why : DisconnectReason) (again : Bool)
  /-- In `Close`, until the context is cancelled; `again` is whether the loop
  goes on to look at the context. -/
  | wait (again : Bool)
  | exit (pc : ExitPc)

structure State where
  id : UInt64
  gameID : Int32
  out : SwapQueue MsgSend
  /-- `disConnReason`, once `closeOnce` has been entered. -/
  reason : Option (BitVec 32)
  cancelled : Bool
  loopCount : ℤ
  send : SendPc
  recv : RecvPc
  /-- Whether it is in the table of the sessions. -/
  listed : Bool
  wire : List Frame
  connClosed : Bool
  bus : List Out
  /-- The reasons of the calls of `Close` that have begun, oldest first. -/
  closes : List (BitVec 32)
  /-- What has been pushed and accepted, and what of it has been written. -/
  pushed : List MsgSend
  wrote : List MsgSend
  /-- Whether a write has failed. -/
  broken : Bool
  /-- How many had been pushed when the context was cancelled. -/
  early : ℕ
  /-- How many messages have been given to `forwardToSrv` since then. -/
  late : ℕ

/-- `OutChanSize` -/
def outChanSize : ℕ := 16

/-- The session when `start` has returned. -/
def initial (id : UInt64) : State where
  id
  gameID := 0
  out := { maxSize := outChanSize * 100 }
  reason := none
  cancelled := false
  loopCount := 2
  send := .select
  recv := .next
  listed := true
  wire := []
  connClosed := false
  bus := []
  closes := []
  pushed := []
  wrote := []
  broken := false
  early := 0
  late := 0

/-- The first half of `Close`. -/
def State.enterClose (s : State) (why : BitVec 32) : State :=
  { s with reason := some (s.reason.getD why), closes := s.closes ++ [why] }

/-- `SendToGame` with an `S2SGt2SDisconnect`. -/
def notice (id : UInt64) (gameID : Int32) (why : BitVec 32) : Send where
  t := .s2sGt2SDisconnect
  m := disconnect id.toBitVec why
  serType := 2
  serID := Session.getSerID ⟨id, gameID⟩ 2
  actorID := 0
  sesID := 0
  r := sorted
  r' := sorted
  pooled := []

/-- A statement of `onLoopExit`, and where the goroutine is after it. -/
def State.exitStep (s : State) (bs : DataBus) : ExitPc → Option (State × ExitPc)
  | .count =>
    some ({ s with loopCount := s.loopCount - 1 },
      if s.loopCount - 1 = 0 then .remove else .finished)
  | .remove => some ({ s with listed := false }, .notice)
  | .notice =>
    let x := Life.notice s.id s.gameID (s.reason.getD 0)
    some ({ s with bus := s.bus ++ [.notice x (x.message bs)] }, .connClose)
  | .connClose => some ({ s with connClosed := true }, .finished)
  | .finished => none

/-- The next statement of `sendLoop`. In the `select`, `ok` is whether the
signal is taken; at a write it is whether it succeeds. -/
def State.sendStep (s : State) (bs : DataBus) (ok : Bool) : Option State :=
  match s.send with
  | .select =>
    if ok then
      if s.out.sig then
        some { s with out := { s.out with sig := false }, send := .drain false }
      else none
    else if s.cancelled then some { s with send := .drain true }
    else none
  | .drain final => some { s with out := s.out.swap, send := .write final false }
  | .write final failed =>
    match s.out.read with
    | v :: rest =>
      let s := { s with out := { s.out with read := rest } }
      if failed then some s
      else if ok then some { s with wire := s.wire ++ [v.frame], wrote := s.wrote ++ [v] }
      else some { s with broken := true, send := .write final true }
    | [] =>
      if final then some { s with send := .closeFrame }
      else some { s with send := if failed then .close else .select }
  | .closeFrame =>
    some { s with wire := if ok then s.wire ++ [.close] else s.wire, send := .exit .count }
  | .close => some { s.enterClose DisconnectReason.netErr.number with send := .wait }
  | .wait => if s.cancelled then some { s with send := .exit .count } else none
  | .exit pc => (s.exitStep bs pc).map fun (s, pc) => { s with send := .exit pc }

/-- The next statement of `readLoop`; `msg` is what `NextReader` returns. -/
def State.recvStep (s : State) (bs : DataBus) (msg : Incoming) : Option State :=
  match s.recv with
  | .next =>
    match msg with
    | .err err => some { s with recv := .close (classifyReadErr err) false }
    | .other => some s
    | .binary r err => some { s with recv := .payload r err }
  | .payload r err =>
    match readFullMsg r with
    | .ok src => some { s with recv := .forward src }
    | .error (.payload _) => some { s with recv := .close (classifyReadErr err) false }
    | .error (.tooLarge total limit) =>
      let err := ⟨none, false, none, (ReadErr.tooLarge total limit).error⟩
      some { s with recv := .close (classifyReadErr err) false }
  | .forward src =>
    let s := { s with late := if s.cancelled then s.late + 1 else s.late }
    match forwardToSrv bs ⟨s.id, s.gameID⟩ src with
    | .closed => some { s with recv := .close .decodeErr true }
    | .refused => some { s with recv := .check }
    | .failed _ => some { s with recv := .check }
    | .sent subject m => some { s with bus := s.bus ++ [.client subject m], recv := .check }
  | .check =>
    if s.cancelled then some { s with recv := .close .normal false }
    else some { s with recv := .next }
  | .close why again => some { s.enterClose why.number with recv := .wait again }
  | .wait again =>
    if s.cancelled then some { s with recv := if again then .check else .exit .count }
    else none
  | .exit pc => (s.exitStep bs pc).map fun (s, pc) => { s with recv := .exit pc }

inductive Act where
  /-- `onDisconnect` or `GracefulStop` calls `Close`. -/
  | close (why : BitVec 32)
  /-- The call of `Close` that was first cancels the context. -/
  | cancel
  /-- `SendBytes` -/
  | push (v : MsgSend)
  | updateSerId (gameID : Int32)
  | send (bs : DataBus) (ok : Bool)
  | recv (bs : DataBus) (msg : Incoming)

/-- Others may keep a session that is not listed any more. -/
def step (s : State) : Act → Option State
  | .close why => some (s.enterClose why)
  | .cancel =>
    if s.reason.isSome ∧ s.cancelled = false then
      some { s with cancelled := true, early := s.pushed.length }
    else none
  | .push v =>
    let (out, err) := s.out.push v
    some { s with out, pushed := if err = none then s.pushed ++ [v] else s.pushed }
  | .updateSerId gameID => some { s with gameID }
  | .send bs ok => s.sendStep bs ok
  | .recv bs msg => s.recvStep bs msg

def machine (id : UInt64) : Machine State Act where
  init s := s = initial id
  step := step

end GameCluster.Gateway.Life
