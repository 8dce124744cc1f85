import GameCluster.Bus.Dispatch
import GameCluster.Gateway.Reading
import GameCluster.Lib.Decimal

/-!
What a client can put on the bus (`gateway/session/recver.go`, `msgq/pub.go`).
The gateway reads a packet into a buffer of fixed size, takes a message ID from
its first four bytes, refuses the IDs of the servers' own messages, and sends
the rest to the server that the ID names, under the session's ID.
-/

namespace GameCluster.Gateway

open Lib Bus

/-- `binary.BigEndian.Uint32(src[0:4])` -/
def bigEndianUint32 (src : List UInt8) : UInt32 := UInt32.ofNat (Bytes.ofLe (src.take 4).reverse)

def decode (src : List UInt8) : Except String (UInt32 × List UInt8) :=
  if src.length < 4 then .error "packet head < 4" else .ok (bigEndianUint32 src, src.drop 4)

structure Session where
  id : UInt64
  gameID : Int32

/-- The low byte of `GameID`, whatever the server type. -/
def Session.getSerID (s : Session) (_serType : UInt32) : UInt8 := s.gameID.toUInt32.toUInt8

inductive BusErr where
  | errClosed
  | errArg
  deriving DecidableEq, Repr

structure DataBus where
  serType : UInt8
  serID : UInt8
  closed : Bool
  /-- Whether the batcher of a node takes messages. -/
  running : UInt32 → UInt8 → Bool

/-- `pb.Server_name` -/
def srvName (serType : UInt32) : String :=
  match serType.toNat with
  | 0 => "Gateway"
  | 1 => "Account"
  | 2 => "Game"
  | 3 => "Center"
  | 4 => "Log"
  | 20 => "GM"
  | 21 => "Robot"
  | 22 => "Max"
  | _ => ""

def nodeSubjectName (serType : UInt32) (serID : UInt8) : String :=
  "msg." ++ srvName serType ++ ".node." ++ serID.toNat.repr

def svcTypeMax : UInt32 := 64
def svcIDMax : UInt8 := 64

/-- `DataBus.SendToNode`: the subject of the batcher and the message it takes. -/
def DataBus.sendToNode (bs : DataBus) (serType : UInt32) (serID : UInt8) (msgID : UInt32)
    (data : List UInt8) (actorID sesID : UInt64) : Except BusErr (String × Message) :=
  if bs.closed then .error .errClosed
  else if svcTypeMax ≤ serType ∨ svcIDMax ≤ serID then .error .errArg
  else if bs.running serType serID then
    .ok (nodeSubjectName serType serID,
      { head := {
          msgID
          fromSerID := bs.serID
          fromSer := bs.serType
          toSer := serType.toUInt8
          toSerID := serID
          actorID
          sesID
          flag := normal }
        data })
  else .error .errClosed

/-- What `forwardToSrv` comes to. -/
inductive Forwarded where
  /-- The session is closed with `DecodeErr`. -/
  | closed
  | refused
  | failed (err : BusErr)
  | sent (subject : String) (m : Message)

def forwardToSrv (bs : DataBus) (s : Session) (src : List UInt8) : Forwarded :=
  match decode src with
  | .error _ => .closed
  | .ok (msgID, data) =>
    if msgID ≤ s2sMax then .refused
    else
      let serType := msgID / 100000
      match bs.sendToNode serType (s.getSerID serType) msgID data 0 s.id with
      | .error err => .failed err
      | .ok (subject, m) => .sent subject m

variable {sesID : UInt64} {subject : String} {m : Message} {s : Session} {src : List UInt8}

theorem DataBus.sendToNode_ok {bs : DataBus} {serType : UInt32} {serID : UInt8} {msgID : UInt32}
    {data : List UInt8} {actorID sesID : UInt64}
    (h : bs.sendToNode serType serID msgID data actorID sesID = .ok (subject, m)) :
    serType < svcTypeMax ∧ subject = nodeSubjectName serType serID ∧
      m = ⟨⟨actorID, sesID, msgID, normal, bs.serType, bs.serID, serType.toUInt8, serID⟩, data,
        ""⟩ := by
  unfold DataBus.sendToNode at h
  split at h
  · cases h
  · split at h
    · cases h
    · rename_i harg
      split at h
      · cases h
        exact ⟨UInt32.not_le.mp fun hle => harg (.inl hle), rfl, rfl⟩
      · cases h

/-- What a message on the bus owes to the client it comes from. -/
structure Authored (s : Session) (src : List UInt8) (subject : String) (m : Message) : Prop where
  sesID : m.head.sesID = s.id
  actorID : m.head.actorID = 0
  flag : m.head.flag = normal
  msgID : s2sMax < m.head.msgID
  data : m.data = src.drop 4
  toSer : m.head.toSer.toNat = m.head.msgID.toNat / 100000
  subject : subject = nodeSubjectName (m.head.msgID / 100000) m.head.toSerID

/-- A server type below the size of the table fits the byte of the head. -/
theorem toSer_toNat {msgID : UInt32} (h : msgID / 100000 < svcTypeMax) :
    (msgID / 100000).toUInt8.toNat = msgID.toNat / 100000 := by
  have hlt : (msgID / 100000).toNat < 64 := UInt32.lt_iff_toNat_lt.mp h
  rw [UInt32.toNat_toUInt8, Nat.mod_eq_of_lt (by omega), UInt32.toNat_div]
  rfl

theorem forwardToSrv_authored {bs : DataBus} (h : forwardToSrv bs s src = .sent subject m) :
    Authored s src subject m := by
  unfold forwardToSrv at h
  split at h
  · cases h
  · rename_i msgID data hdec
    split at h
    · cases h
    · rename_i hs2s
      dsimp only at h
      split at h
      · cases h
      · rename_i subject' m' hsend
        cases h
        obtain ⟨htype, rfl, rfl⟩ := DataBus.sendToNode_ok hsend
        have hdata : data = src.drop 4 := by
          unfold decode at hdec
          split at hdec
          · cases hdec
          · cases hdec
            rfl
        exact ⟨rfl, rfl, rfl, UInt32.not_le.mp hs2s, hdata, toSer_toNat htype, rfl⟩

/-- The reply subject that decoding adds is none of the client's doing. -/
theorem Authored.withReply (h : Authored s src subject m) (reply : String) :
    Authored s src subject (m.withReply reply) :=
  ⟨h.sesID, h.actorID, h.flag, h.msgID, h.data, h.toSer, h.subject⟩

theorem Authored.bodySize_lt (h : Authored s src subject m) (hlen : src.length ≤ maxRecvMsgSize) :
    m.bodySize < 2 ^ 32 := by
  have hdata : m.data.length = src.length - 4 := by rw [h.data, List.length_drop]
  simp only [Message.bodySize, frameBodyHeadSize, maxRecvMsgSize] at hlen ⊢
  omega

/-- A client's message reaches one queue of a game server at most. -/
theorem Authored.onServerMsg (h : Authored s src subject m) (hid : s.id ≠ 0) (g : GameServer) :
    g.onServerMsg m = ({ g with roles := g.dispatchBySesID s.id m }, none) := by
  have hroute : GameServer.route m = .dispatchBySesID s.id := by
    rw [GameServer.route, h.sesID, if_pos hid]
  simp only [GameServer.onServerMsg, hroute]

theorem dispatchBySesID_other (g : GameServer) {sesID roleID : UInt64} (m : Message)
    (hne : g.ses.lookup sesID ≠ some roleID) :
    (g.dispatchBySesID sesID m).lookup roleID = g.roles.lookup roleID := by
  unfold GameServer.dispatchBySesID
  split
  · rfl
  · rename_i found hfound
    apply dispatch_lookup_ne
    rintro rfl
    exact hne hfound

theorem dispatchBySesID_bound {g : GameServer} {sesID roleID : UInt64} {q : SwapQueue Message}
    (m : Message) (hses : g.ses.lookup sesID = some roleID)
    (hq : g.roles.lookup roleID = some q) :
    (g.dispatchBySesID sesID m).lookup roleID = some (q.push m).1 := by
  simp only [GameServer.dispatchBySesID, hses, dispatch, hq]
  rw [Map.lookup_insert_ite, if_pos rfl]

/-- No handler of a message between servers runs for a client. -/
theorem Authored.not_s2s (h : Authored s src subject m) {rt : Router} (hrt : rt.Registered)
    {hd : Handler} (hh : rt.handle m = .ok hd) (id : MsgIDS2S) : hd.registeredFor ≠ id.number := by
  intro heq
  have hle := id.number_le
  rw [← heq, hrt.handle hh] at hle
  exact UInt32.not_le.mpr h.msgID hle

/-- Whatever bytes a client sends, a message that they put on the bus is read
by the receiver, wherever its frame stands in a publication, as one from that
session, to the server its ID names, with the client's own data. A game server
pushes it to the queue of the session's role and to nothing else, no server
forwards it or gives it to an actor of the sender's choice, and no handler of a
message between servers runs for it. -/
theorem client_bytes_stay_client {bs : DataBus} {s : Session} {src : List UInt8} {r : Reader}
    {subject : String} {m : Message} (hread : readFullMsg r = .ok src) (hid : s.id ≠ 0)
    (h : forwardToSrv bs s src = .sent subject m) (reply : String) :
    (∀ before after : List Message, (∀ o ∈ before ++ after, o.bodySize < 2 ^ 32) →
      decodeManyAndHandle (frames (before ++ m :: after)) reply =
        ⟨before.map (·.withReply reply) ++ m.withReply reply :: after.map (·.withReply reply),
          0, none⟩) ∧
    Authored s src subject (m.withReply reply) ∧
    (∀ g : GameServer,
      g.onServerMsg (m.withReply reply) =
        ({ g with roles := g.dispatchBySesID s.id (m.withReply reply) }, none) ∧
      (∀ roleID q, g.ses.lookup s.id = some roleID → g.roles.lookup roleID = some q →
        (g.dispatchBySesID s.id (m.withReply reply)).lookup roleID =
          some (q.push (m.withReply reply)).1) ∧
      ∀ roleID, g.ses.lookup s.id ≠ some roleID →
        (g.dispatchBySesID s.id (m.withReply reply)).lookup roleID = g.roles.lookup roleID) ∧
    centerRoute (m.withReply reply) = .dispatchActor idGlobal ∧
    gatewayRoute (m.withReply reply) = .router ∧ accountRoute (m.withReply reply) = .router ∧
    ∀ (rt : Router) (hd : Handler), rt.Registered → rt.handle (m.withReply reply) = .ok hd →
      ∀ id : MsgIDS2S, hd.registeredFor ≠ id.number := by
  have hauth := forwardToSrv_authored h
  have hdec := hauth.withReply reply
  have hsize := hauth.bodySize_lt (length_le_of_readFullFrom hread (Nat.zero_le _))
  refine ⟨?_, hdec, ?_, ?_, ?_, rfl, ?_⟩
  · intro before after hothers
    rw [decode_frames]
    · simp
    · intro o ho
      rcases List.mem_append.mp ho with hb | ha
      · exact hothers o (List.mem_append_left _ hb)
      · rcases List.mem_cons.mp ha with rfl | ha
        · exact hsize
        · exact hothers o (List.mem_append_right _ ha)
  · intro g
    exact ⟨hdec.onServerMsg hid g, fun roleID q hses hq => dispatchBySesID_bound _ hses hq,
      fun roleID hne => dispatchBySesID_other g _ hne⟩
  · simp [centerRoute, hdec.flag, hdec.actorID, normal, forward]
  · simp [gatewayRoute, hdec.flag, normal, forward]
  · intro rt hd hrt hh id
    exact hdec.not_s2s hrt hh id

/-- A heartbeat of session 7, whose role is on game server 3. -/
theorem heartbeat_stays_client : let bs : DataBus := ⟨0, 1, false, fun _ _ => true⟩
    let m : Message := ⟨⟨0, 7, 200004, 0, 0, 1, 2, 3⟩, [8, 1], ""⟩
    forwardToSrv bs ⟨7, 3⟩ [0, 3, 13, 68, 8, 1] = .sent "msg.Game.node.3" m ∧
      decodeManyAndHandle (frames [m]) "" = ⟨[m], 0, none⟩ := by
  have hsent : forwardToSrv ⟨0, 1, false, fun _ _ => true⟩ ⟨7, 3⟩ [0, 3, 13, 68, 8, 1] =
      .sent "msg.Game.node.3" ⟨⟨0, 7, 200004, 0, 0, 1, 2, 3⟩, [8, 1], ""⟩ := by rfl
  have hread : readFullMsg ⟨[0, 3, 13, 68, 8, 1], fun _ => 2, .eofAfter⟩ =
      .ok [0, 3, 13, 68, 8, 1] := by
    rw [readFullMsg, readFullFrom_eq (by decide) (Or.inr rfl)]
    rfl
  exact ⟨hsent, (client_bytes_stay_client hread (by decide) hsent "").1 [] [] (by simp)⟩

end GameCluster.Gateway
