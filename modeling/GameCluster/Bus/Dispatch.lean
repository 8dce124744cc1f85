import GameCluster.Bus.Frame
import GameCluster.Lib.Map
import GameCluster.Queue.SwapQueue

/-!
What a server does with a message from the bus: the handler table of
`gnet/router`, and the `OnServerMsg` of the game server, the center, the
gateway and the account server. A role and an actor have an event queue each,
and the loop that drains it calls the router with the message.

A handler is known by the ID it was registered for. Handlers and unmarshalling
are whatever the servers register. The two look-ups of `DispatchBySesID` are
one step here.
-/

namespace GameCluster.Bus

open Lib

/-- `gmsg.Normal` -/
def normal : UInt8 := 0

/-- `gmsg.Forward` -/
def forward : UInt8 := 1

/-- `MsgIDMax_S2SMax` -/
def s2sMax : UInt32 := 100000

/-- `ActorID_IDGlobal` -/
def idGlobal : UInt64 := 1

/-- `ActorID_IDAccBegin` -/
def idAccBegin : UInt64 := 100000

/-- The messages between servers. -/
inductive MsgIDS2S where
  | none
  | reqLogin
  | reqLoginOrLogout
  | resLoginOrLogout
  | reqConfig
  | resConfig
  | kickAcc
  | kickRole
  | relayToRole
  | offlineEvt
  | resLogin
  | gt2SDisconnect
  | s2GtDisconnect
  | roleClear
  | echo
  | rpcEchoReq
  | rpcEchoRes
  | rpcEchoRoleReq
  | rpcEchoRoleRes
  deriving DecidableEq, Repr

def MsgIDS2S.number : MsgIDS2S → UInt32
  | none => 0
  | reqLogin => 1
  | reqLoginOrLogout => 8
  | resLoginOrLogout => 9
  | reqConfig => 10
  | resConfig => 11
  | kickAcc => 12
  | kickRole => 13
  | relayToRole => 14
  | offlineEvt => 15
  | resLogin => 18
  | gt2SDisconnect => 19
  | s2GtDisconnect => 20
  | roleClear => 21
  | echo => 22
  | rpcEchoReq => 23
  | rpcEchoRes => 24
  | rpcEchoRoleReq => 25
  | rpcEchoRoleRes => 26

theorem MsgIDS2S.number_le (id : MsgIDS2S) : id.number ≤ s2sMax := by
  cases id <;> decide

/-! ### The handler table -/

/-- A `MsgHandler` or an `RpcHandler`. -/
structure Handler where
  registeredFor : UInt32
  rpc : Bool
  /-- Whether `UnmarshalVT` of the request accepts the bytes. -/
  unmarshal : List UInt8 → Bool

structure Router where
  /-- `len(rt.handlers)` -/
  size : ℕ
  handlers : Map UInt32 Handler

namespace Router

def newMsgRouter (max : ℕ) : Router := ⟨max, ∅⟩

/-- The checks that `Register` and `RegisterRpc` share, and the new entry. -/
def add (rt : Router) (isReady : Bool) (h : Handler) : Except String Router :=
  if isReady then .error "must register before action"
  else if rt.size ≤ h.registeredFor.toNat then
    .error ("msg id[" ++ toString h.registeredFor ++ "] out of range")
  else if (rt.handlers.lookup h.registeredFor).isSome then
    .error ("msg id[" ++ toString h.registeredFor ++ "] already register")
  else .ok { rt with handlers := rt.handlers.insert h.registeredFor h }

def register (rt : Router) (isReady : Bool) (msgID : UInt32) (unmarshal : List UInt8 → Bool) :
    Except String Router :=
  rt.add isReady ⟨msgID, false, unmarshal⟩

def registerRpc (rt : Router) (isReady : Bool) (msgID : UInt32) (unmarshal : List UInt8 → Bool) :
    Except String Router :=
  rt.add isReady ⟨msgID, true, unmarshal⟩

def getHandler (rt : Router) (id : UInt32) : Except String Handler :=
  if rt.size ≤ id.toNat then .error ("msg id[" ++ toString id ++ "] out of range")
  else
    match rt.handlers.lookup id with
    | none => .error ("msg handler[" ++ toString id ++ "] not found")
    | some h => .ok h

/-- `Router.Handle`: the handler whose function runs. -/
def handle (rt : Router) (m : Message) : Except String Handler :=
  match rt.getHandler m.head.msgID with
  | .error err => .error err
  | .ok h => if m.data ≠ [] ∧ h.unmarshal m.data = false then .error "unmarshal" else .ok h

/-- The tables that registrations make out of an empty one. -/
inductive Registered : Router → Prop
  | new (max : ℕ) : Registered (newMsgRouter max)
  | register {rt rt' : Router} {isReady : Bool} {msgID : UInt32} {unmarshal : List UInt8 → Bool} :
      Registered rt → rt.register isReady msgID unmarshal = .ok rt' → Registered rt'
  | registerRpc {rt rt' : Router} {isReady : Bool} {msgID : UInt32}
      {unmarshal : List UInt8 → Bool} :
      Registered rt → rt.registerRpc isReady msgID unmarshal = .ok rt' → Registered rt'

/-- Every handler stands at the ID it was registered for. -/
def Indexed (rt : Router) : Prop :=
  ∀ id h, rt.handlers.lookup id = some h → h.registeredFor = id

theorem Indexed.add {rt rt' : Router} (hi : Indexed rt) {isReady : Bool} {h : Handler}
    (hadd : rt.add isReady h = .ok rt') : Indexed rt' := by
  unfold Router.add at hadd
  split at hadd
  · cases hadd
  · split at hadd
    · cases hadd
    · split at hadd
      · cases hadd
      · cases hadd
        intro id g hg
        rw [Map.lookup_insert_ite] at hg
        split at hg
        · rename_i hid
          cases hg
          exact hid.symm
        · exact hi id g hg

theorem Registered.indexed {rt : Router} (h : Registered rt) : Indexed rt := by
  induction h with
  | new max =>
    intro id g hg
    cases hg
  | register _ hadd ih | registerRpc _ hadd ih => exact ih.add hadd

/-- The function that runs was registered for the message's own ID. -/
theorem Registered.handle {rt : Router} (hr : Registered rt) {m : Message} {h : Handler}
    (hh : rt.handle m = .ok h) : h.registeredFor = m.head.msgID := by
  unfold Router.handle Router.getHandler at hh
  split at hh
  · cases hh
  · rename_i g hg
    split at hh
    · cases hh
    · cases hh
      split at hg
      · cases hg
      · split at hg
        · cases hg
        · rename_i hlookup
          cases hg
          exact hr.indexed _ _ hlookup

end Router

/-! ### The servers -/

/-- `Dispatch` of a registry of event queues: the message goes to one queue or
to none. -/
def dispatch (queues : Map UInt64 (SwapQueue Message)) (id : UInt64) (m : Message) :
    Map UInt64 (SwapQueue Message) :=
  match queues.lookup id with
  | none => queues
  | some q => queues.insert id (q.push m).1

theorem dispatch_lookup_ne (queues : Map UInt64 (SwapQueue Message)) {id id' : UInt64}
    (m : Message) (hne : id' ≠ id) : (dispatch queues id m).lookup id' = queues.lookup id' := by
  unfold dispatch
  split
  · rfl
  · rw [Map.lookup_insert_ite, if_neg hne]

structure GameServer where
  /-- The session index of `role.Mgr`. -/
  ses : Map UInt64 UInt64
  /-- The event queues of the roles. -/
  roles : Map UInt64 (SwapQueue Message)
  actors : Map UInt64 (SwapQueue Message)
  router : Router

/-- Where `OnServerMsg` of a server sends a message. -/
inductive Route where
  | dispatchBySesID (sesID : UInt64)
  | dispatchRole (roleID : UInt64)
  | dispatchActor (actorID : UInt64)
  | router
  /-- To a client connection (gateway) or on to a game server (center). -/
  | forward
  deriving DecidableEq, Repr

namespace GameServer

def route (m : Message) : Route :=
  if m.head.sesID ≠ 0 then .dispatchBySesID m.head.sesID
  else if idAccBegin < m.head.actorID then .dispatchRole m.head.actorID
  else if 0 < m.head.actorID then .dispatchActor m.head.actorID
  else .router

/-- `DispatchBySesID` -/
def dispatchBySesID (g : GameServer) (sesID : UInt64) (m : Message) :
    Map UInt64 (SwapQueue Message) :=
  match g.ses.lookup sesID with
  | none => g.roles
  | some roleID => dispatch g.roles roleID m

/-- `OnServerMsg`: the server after it, and the handler that ran, if any. -/
def onServerMsg (g : GameServer) (m : Message) : GameServer × Option Handler :=
  match route m with
  | .dispatchBySesID sesID => ({ g with roles := g.dispatchBySesID sesID m }, none)
  | .dispatchRole roleID => ({ g with roles := dispatch g.roles roleID m }, none)
  | .dispatchActor actorID => ({ g with actors := dispatch g.actors actorID m }, none)
  | .router => (g, (g.router.handle m).toOption)
  | .forward => (g, none)

end GameServer

/-- `OnServerMsg` of the center. -/
def centerRoute (m : Message) : Route :=
  if m.head.flag = forward then .forward
  else if 0 < m.head.actorID then .dispatchActor m.head.actorID
  else .dispatchActor idGlobal

/-- `OnServerMsg` of the gateway. -/
def gatewayRoute (m : Message) : Route :=
  if m.head.flag = forward then .forward else .router

/-- `OnServerMsg` of the account server. -/
def accountRoute (_ : Message) : Route := .router

end GameCluster.Bus
