import GameCluster.Bus.Dispatch
import GameCluster.Gateway.Forward
import GameCluster.Pb.Coding

/-!
From a typed message to the handler of its type. The sender finds the ID of the
message by its type and encodes the message into a buffer from a pool; the
receiver finds the handler by the ID and decodes into a message that may come
from a pool as well. Handlers are registered by their type, so both sides rely
on the tables of `api/pb/init.go`, which are filled when the program starts.
-/

namespace GameCluster.Bus

open Lib Lib.Wire Lib.Wire.FieldType Pb

/-! ### The tables of messages -/

structure TypeMeta where
  idByType : Map UInt32 MsgName
  typeByID : Map MsgName UInt32

namespace TypeMeta

def register (tm : TypeMeta) (id : UInt32) (t : MsgName) : TypeMeta :=
  ⟨tm.idByType.insert id t, tm.typeByID.insert t id⟩

def registerAll (entries : List (UInt32 × MsgName)) : TypeMeta :=
  entries.foldl (fun tm e => tm.register e.1 e.2) ⟨∅, ∅⟩

theorem registerAll_concat (entries : List (UInt32 × MsgName)) (e : UInt32 × MsgName) :
    registerAll (entries ++ [e]) = (registerAll entries).register e.1 e.2 := by
  rw [registerAll, List.foldl_append]
  rfl

/-- With no ID and no type twice, both maps hold the entries. -/
theorem lookup_registerAll {entries : List (UInt32 × MsgName)}
    (hids : (entries.map Prod.fst).Nodup) (htypes : (entries.map Prod.snd).Nodup) (id : UInt32)
    (t : MsgName) :
    ((registerAll entries).idByType.lookup id = some t ↔ (id, t) ∈ entries) ∧
      ((registerAll entries).typeByID.lookup t = some id ↔ (id, t) ∈ entries) := by
  induction entries using List.reverseRecOn with
  | nil => simp [registerAll]
  | append_singleton entries e ih =>
    obtain ⟨id', t'⟩ := e
    rw [List.map_append, List.map_singleton, List.nodup_append] at hids htypes
    obtain ⟨ihid, iht⟩ := ih hids.1 htypes.1
    have hid : (id', t) ∉ entries := fun hmem =>
      hids.2.2 id' (List.mem_map_of_mem hmem) id' (List.mem_singleton_self _) rfl
    have ht : (id, t') ∉ entries := fun hmem =>
      htypes.2.2 t' (List.mem_map_of_mem hmem) t' (List.mem_singleton_self _) rfl
    rw [registerAll_concat, register, Map.lookup_insert_ite, Map.lookup_insert_ite,
      List.mem_append, List.mem_singleton, Prod.mk.injEq]
    constructor
    · by_cases h : id = id'
      · subst h
        simp only [if_true, Option.some.injEq, hid, false_or, true_and]
        exact eq_comm
      · rw [if_neg h, ihid]
        simp [h]
    · by_cases h : t = t'
      · subst h
        simp only [if_true, Option.some.injEq, ht, false_or, and_true]
        exact eq_comm
      · rw [if_neg h, iht]
        simp [h]

end TypeMeta

/-- `registerAllS2SMsg` -/
def s2sMsgs : List (UInt32 × MsgName) :=
  [(MsgIDS2S.none.number, .s2sNone),
   (MsgIDS2S.reqLogin.number, .s2sReqLogin),
   (MsgIDS2S.reqLoginOrLogout.number, .s2sReqLoginOrLogout),
   (MsgIDS2S.resLoginOrLogout.number, .s2sResLoginOrLogout),
   (MsgIDS2S.reqConfig.number, .s2sReqConfig),
   (MsgIDS2S.resConfig.number, .s2sResConfig),
   (MsgIDS2S.kickAcc.number, .s2sKickAcc),
   (MsgIDS2S.kickRole.number, .s2sKickRole),
   (MsgIDS2S.relayToRole.number, .s2sRelayToRole),
   (MsgIDS2S.offlineEvt.number, .s2sOfflineEvt),
   (MsgIDS2S.resLogin.number, .s2sResLogin),
   (MsgIDS2S.gt2SDisconnect.number, .s2sGt2SDisconnect),
   (MsgIDS2S.s2GtDisconnect.number, .s2sS2GtDisconnect),
   (MsgIDS2S.roleClear.number, .s2sRoleClear),
   (MsgIDS2S.echo.number, .s2sEcho),
   (MsgIDS2S.rpcEchoReq.number, .s2sRpcEchoReq),
   (MsgIDS2S.rpcEchoRes.number, .s2sRpcEchoRes),
   (MsgIDS2S.rpcEchoRoleReq.number, .s2sRpcEchoRoleReq),
   (MsgIDS2S.rpcEchoRoleRes.number, .s2sRpcEchoRoleRes)]

/-- `registerAllC2SMsg` -/
def c2sMsgs : List (UInt32 × MsgName) :=
  [(0, .c2sNone),
   (100000, .c2sAccountHandle),
   (100001, .c2sLogin),
   (200000, .c2sGameHandle),
   (200001, .c2sClientReady),
   (200004, .c2sHeartBeat),
   (200006, .c2sWithoutRole),
   (200007, .c2sEcho)]

def s2s : TypeMeta := TypeMeta.registerAll s2sMsgs
def c2s : TypeMeta := TypeMeta.registerAll c2sMsgs

def getMsgIDS2S (t : MsgName) : Option UInt32 := s2s.typeByID.lookup t
def getMsgIDC2S (t : MsgName) : Option UInt32 := c2s.typeByID.lookup t

theorem s2s_lookup (id : UInt32) (t : MsgName) :
    (s2s.idByType.lookup id = some t ↔ (id, t) ∈ s2sMsgs) ∧
      (getMsgIDS2S t = some id ↔ (id, t) ∈ s2sMsgs) :=
  TypeMeta.lookup_registerAll (by decide) (by decide) id t

theorem c2s_lookup (id : UInt32) (t : MsgName) :
    (c2s.idByType.lookup id = some t ↔ (id, t) ∈ c2sMsgs) ∧
      (getMsgIDC2S t = some id ↔ (id, t) ∈ c2sMsgs) :=
  TypeMeta.lookup_registerAll (by decide) (by decide) id t

/-- Only the ID 0 belongs to messages of both tables. -/
theorem eq_of_same_id {t t' : MsgName} {id : UInt32} (h0 : id ≠ 0)
    (h : (id, t) ∈ s2sMsgs ∨ (id, t) ∈ c2sMsgs) (h' : (id, t') ∈ s2sMsgs ∨ (id, t') ∈ c2sMsgs) :
    t = t' := by
  have hapart : ∀ e ∈ s2sMsgs, ∀ e' ∈ c2sMsgs, e.1 = e'.1 → e.1 = 0 := by decide
  rcases h with h | h <;> rcases h' with h' | h'
  · have hid := (s2s_lookup id t).1.mpr h
    rw [(s2s_lookup id t').1.mpr h'] at hid
    exact (Option.some.inj hid).symm
  · exact absurd (hapart _ h _ h' rfl) h0
  · exact absurd (hapart _ h' _ h rfl) h0
  · have hid := (c2s_lookup id t).1.mpr h
    rw [(c2s_lookup id t').1.mpr h'] at hid
    exact (Option.some.inj hid).symm

/-- `pooled` is the array behind the buffer that the pool has. -/
def ensureBuf (pooled : List UInt8) (size : ℕ) : List UInt8 :=
  if pooled.length < size then List.replicate size 0 else pooled.take size

theorem length_ensureBuf (pooled : List UInt8) (size : ℕ) :
    (ensureBuf pooled size).length = size := by
  unfold ensureBuf
  split
  · exact List.length_replicate
  · exact List.length_take_of_le (by omega)

section Code

variable [Protohelpers]

/-- The ID of a message and what a factory for it makes. The messages between
servers come first. -/
def findMsgIDAndCreateFunc (t : MsgName) : Except String (UInt32 × MsgName) :=
  match getMsgIDS2S t with
  | some id =>
    match s2s.idByType.lookup id with
    | some create => .ok (id, create)
    | none => .error ("message *pb." ++ (schema t).name ++ " not found create func in TypeMeta")
  | none =>
    match getMsgIDC2S t with
    | some id =>
      match c2s.idByType.lookup id with
      | some create => .ok (id, create)
      | none =>
        .error ("message *pb." ++ (schema t).name ++ " not found create func in TypeMeta")
    | none => .error ("message *pb." ++ (schema t).name ++ " not found in TypeMeta")

theorem findMsgIDAndCreateFunc_ok {t create : MsgName} {id : UInt32}
    (h : findMsgIDAndCreateFunc t = .ok (id, create)) :
    create = t ∧ ((id, t) ∈ s2sMsgs ∨ (id, t) ∈ c2sMsgs) := by
  unfold findMsgIDAndCreateFunc at h
  split at h
  · rename_i id' hid
    have hmem := (s2s_lookup id' t).2.mp hid
    rw [(s2s_lookup id' t).1.mpr hmem] at h
    cases h
    exact ⟨rfl, .inl hmem⟩
  · split at h
    · rename_i id' hid
      have hmem := (c2s_lookup id' t).2.mp hid
      rw [(c2s_lookup id' t).1.mpr hmem] at h
      cases h
      exact ⟨rfl, .inr hmem⟩
    · cases h

/-! ### Sending -/

/-- A message encoded into a buffer of a pool. -/
def marshalPooled (t : MsgName) (r r' : Range) (pooled : List UInt8) (m : (type t).Msg) :
    Option (List UInt8) :=
  ((type t).marshalToSizedBuffer r m (ensureBuf pooled ((type t).size r' m))).map fun (buf, n) =>
    buf.take n

/-- What the buffer held does not show. -/
theorem marshalPooled_eq [LawfulProtohelpers] (t : MsgName) (r r' : Range)
    (pooled : List UInt8) (m : (type t).Msg) :
    marshalPooled t r r' pooled m = (type t).marshalVT r r' m := by
  obtain ⟨enc, h⟩ := type_lawful t
  rw [marshalPooled, h.marshalToSizedBuffer_eq, length_ensureBuf, h.size_eq r r',
    if_pos (Nat.le_refl _), Option.map_some, Nat.sub_self, List.take_zero, List.nil_append,
    h.marshalVT_eq]
  exact congrArg some List.take_length

/-- A call of `SendToGameS` or `SendToGateS`: the message, where it goes, and
what the runtime has for it, the orders of maps and the buffer of the pool. -/
structure Send where
  t : MsgName
  m : (type t).Msg
  serType : UInt32
  serID : UInt8
  actorID : UInt64
  sesID : UInt64
  r : Range
  r' : Range
  pooled : List UInt8

namespace Send

/-- What a batcher is given for it, unless the type has no ID or the bus does
not take it. -/
def message (bs : Gateway.DataBus) (x : Send) : Option Message := do
  let msgID ← getMsgIDS2S x.t
  let data ← marshalPooled x.t x.r x.r' x.pooled x.m
  match bs.sendToNode x.serType x.serID msgID data x.actorID x.sesID with
  | .ok (_, p) => some p
  | .error _ => none

/-- The head that the bus writes. -/
def head (bs : Gateway.DataBus) (x : Send) (msgID : UInt32) : Head where
  actorID := x.actorID
  sesID := x.sesID
  msgID
  flag := normal
  fromSer := bs.serType
  fromSerID := bs.serID
  toSer := x.serType.toUInt8
  toSerID := x.serID

theorem message_ok [LawfulProtohelpers] {bs : Gateway.DataBus} {x : Send} {p : Message}
    (h : x.message bs = some p) : ∃ msgID, getMsgIDS2S x.t = some msgID ∧
      (type x.t).marshalVT x.r x.r' x.m = some p.data ∧ p.head = x.head bs msgID := by
  unfold message at h
  obtain ⟨msgID, hid, h⟩ := Option.bind_eq_some_iff.mp h
  obtain ⟨data, hdata, h⟩ := Option.bind_eq_some_iff.mp h
  split at h
  · rename_i subject p' hsend
    cases h
    obtain ⟨-, -, rfl⟩ := Gateway.DataBus.sendToNode_ok hsend
    rw [marshalPooled_eq] at hdata
    exact ⟨msgID, hid, hdata, rfl⟩
  · cases h

end Send

/-! ### Handling -/

/-- A `MsgHandler` or an `RpcHandler`: what its factory makes, and the type that
the function is called with. -/
structure Node where
  create : MsgName
  usePool : Bool
  dispatchTo : MsgName
  res : Option MsgName

structure Registry where
  base : Router
  nodes : Map UInt32 Node

inductive HandleErr where
  | router (text : String)
  | unmarshal (err : Err)

/-- What becomes of a message for which there is a handler. A message that is
not of the type of the function panics. -/
inductive Outcome where
  | called (head : Head) (t : MsgName) (m : (type t).Msg)
  | panicked

/-- `proto.Reset`, of whatever is left in a message. -/
def reset {t : MsgName} (_ : (type t).Msg) : (type t).Msg := (type t).zero

/-- `MsgFactory.Get`; `stale` is what the pool has. -/
def Node.get (n : Node) (stale : (t : MsgName) → (type t).Msg) : (type n.create).Msg :=
  if n.usePool then reset (stale n.create) else (type n.create).zero

theorem Node.get_eq_zero (n : Node) (stale : (t : MsgName) → (type t).Msg) :
    n.get stale = (type n.create).zero :=
  ite_self _

def Node.handle (n : Node) (stale : (t : MsgName) → (type t).Msg) (p : Message) :
    Except HandleErr Outcome :=
  let msgPB := n.get stale
  let read := if p.data ≠ [] then (type n.create).unmarshal msgPB p.data else .ok msgPB
  match read with
  | .error err => .error (.unmarshal err)
  | .ok m => if n.create = n.dispatchTo then .ok (.called p.head n.create m) else .ok .panicked

namespace Registry

def new : Registry := ⟨Router.newMsgRouter 999999, ∅⟩

/-- `register` and `registerRpc`, which has a type for the answer. Both panic on
an error. -/
def add (reg : Registry) (isReady usePool : Bool) (t : MsgName) (res : Option MsgName) :
    Except String Registry :=
  match findMsgIDAndCreateFunc t with
  | .error err => .error err
  | .ok (msgID, create) =>
    let unmarshal := fun data => ((type create).unmarshal (type create).zero data).isOk
    match reg.base.add isReady ⟨msgID, res.isSome, unmarshal⟩ with
    | .error err => .error err
    | .ok base => .ok ⟨base, reg.nodes.insert msgID ⟨create, usePool, t, res⟩⟩

def register (reg : Registry) (isReady usePool : Bool) (t : MsgName) : Except String Registry :=
  reg.add isReady usePool t none

def registerRpc (reg : Registry) (isReady usePool : Bool) (t res : MsgName) :
    Except String Registry :=
  reg.add isReady usePool t (some res)

/-- The tables that registrations by type make. -/
inductive Registered : Registry → Prop
  | new : Registered new
  | add {reg reg' : Registry} {isReady usePool : Bool} {t : MsgName} {res : Option MsgName} :
      Registered reg → reg.add isReady usePool t res = .ok reg' → Registered reg'

/-- `Router.Handle` -/
def handle (reg : Registry) (stale : (t : MsgName) → (type t).Msg) (p : Message) :
    Except HandleErr Outcome :=
  match reg.base.getHandler p.head.msgID with
  | .error err => .error (.router err)
  | .ok _ =>
    match reg.nodes.lookup p.head.msgID with
    | none => .ok .panicked
    | some n => n.handle stale p

/-- Each node stands at the ID of its type, and there only if the router has a
handler. -/
structure Sound (reg : Registry) : Prop where
  size_eq : reg.base.size = 999999
  lookup_iff : ∀ id, (reg.base.handlers.lookup id).isSome = (reg.nodes.lookup id).isSome
  node : ∀ id n, reg.nodes.lookup id = some n →
    findMsgIDAndCreateFunc n.dispatchTo = .ok (id, n.create)

theorem Sound.add {reg reg' : Registry} (hs : reg.Sound) {isReady usePool : Bool} {t : MsgName}
    {res : Option MsgName} (h : reg.add isReady usePool t res = .ok reg') : reg'.Sound := by
  unfold Registry.add at h
  split at h
  · cases h
  · rename_i msgID create hfind
    dsimp only at h
    split at h
    · cases h
    · rename_i base hbase
      cases h
      unfold Router.add at hbase
      split at hbase
      · cases hbase
      · split at hbase
        · cases hbase
        · split at hbase
          · cases hbase
          · cases hbase
            refine ⟨hs.size_eq, fun id => ?_, fun id n hn => ?_⟩
            · rw [Map.lookup_insert_ite, Map.lookup_insert_ite]
              by_cases hid : id = msgID
              · rw [if_pos hid, if_pos hid]
                rfl
              · rw [if_neg hid, if_neg hid]
                exact hs.lookup_iff id
            · rw [Map.lookup_insert_ite] at hn
              split at hn
              · rename_i hid
                cases hn
                rw [hid]
                exact hfind
              · exact hs.node id n hn

theorem Registered.sound {reg : Registry} (h : reg.Registered) : reg.Sound := by
  induction h with
  | new =>
    refine ⟨rfl, fun id => rfl, fun id n hn => ?_⟩
    cases hn
  | add _ hadd ih => exact ih.add hadd

/-- Whether a handler for the type is registered. -/
def handles (reg : Registry) (t : MsgName) : Bool :=
  match getMsgIDS2S t with
  | none => false
  | some id => (reg.nodes.lookup id).any fun n => decide (n.dispatchTo = t)

/-- The handler of a type gets what was encoded. No handler of another type is
called, except that both tables have the ID 0. -/
theorem Sound.handle_eq [LawfulProtohelpers] {reg : Registry} (hs : reg.Sound) {t : MsgName}
    {id : UInt32} (hid : getMsgIDS2S t = some id) (h0 : id ≠ 0) {m : (type t).Msg}
    (hm : (type t).Valid m) {r r' : Range} (hsize : (type t).size r m < 2 ^ 63) {p : Message}
    (hdata : (type t).marshalVT r r' m = some p.data) (hp : p.head.msgID = id)
    (stale : (t : MsgName) → (type t).Msg) :
    reg.handle stale p = if reg.handles t then .ok (.called p.head t m)
      else .error (.router ("msg handler[" ++ toString id ++ "] not found")) := by
  have hmem := (s2s_lookup id t).2.mp hid
  have hrange : ¬reg.base.size ≤ id.toNat := by
    have hall : ∀ e ∈ s2sMsgs, e.1.toNat < 999999 := by decide
    rw [hs.size_eq]
    exact not_le.mpr (hall _ hmem)
  have hsome := hs.lookup_iff id
  rw [Registry.handle, hp, Router.getHandler, if_neg hrange]
  cases hnode : reg.nodes.lookup id with
  | none =>
    rw [hnode, Option.isSome_none, Option.isSome_eq_false_iff, Option.isNone_iff_eq_none] at hsome
    have hhandles : reg.handles t = false := by rw [handles, hid]; simp [hnode]
    rw [hsome, hhandles]
    rfl
  | some n =>
    rw [hnode, Option.isSome_some, Option.isSome_iff_exists] at hsome
    obtain ⟨h, hh⟩ := hsome
    obtain ⟨create, usePool, dispatchTo, res⟩ := n
    obtain ⟨hcreate, hmem'⟩ := findMsgIDAndCreateFunc_ok (hs.node id _ hnode)
    obtain rfl : dispatchTo = t := eq_of_same_id h0 hmem' (.inl hmem)
    dsimp only at hcreate
    subst hcreate
    have hread := unmarshal_of_marshalVT hm r r' hsize hdata
    have hhandles : reg.handles create = true := by rw [handles, hid]; simp [hnode]
    rw [hh, hhandles, if_pos rfl]
    dsimp only
    rw [Node.handle, Node.get_eq_zero]
    dsimp only
    -- No bytes are the encoding of the zero message only.
    have hmsg : (if p.data ≠ [] then (type create).unmarshal (type create).zero p.data
        else .ok (type create).zero) = .ok m := by
      by_cases hnil : p.data = []
      · rw [hnil] at hread
        rw [if_neg (not_not.mpr hnil)]
        exact hread
      · rw [if_pos hnil, hread]
    rw [hmsg]
    dsimp only
    rw [if_pos rfl]

/-- What handling a message comes to that was sent so. -/
def expected (reg : Registry) (bs : Gateway.DataBus) (x : Send) : Except HandleErr Outcome :=
  let msgID := (getMsgIDS2S x.t).getD 0
  if reg.handles x.t then .ok (.called (x.head bs msgID) x.t x.m)
  else .error (.router ("msg handler[" ++ toString msgID ++ "] not found"))

theorem Sound.handle_sent [LawfulProtohelpers] {reg : Registry} (hs : reg.Sound)
    {bs : Gateway.DataBus} {x : Send} {p : Message} (h : x.message bs =
      some p) (hm : (type x.t).Valid x.m)
    (h0 : getMsgIDS2S x.t ≠ some 0) (hsize : p.bodySize < 2 ^ 32) (reply : String)
    (stale : (t : MsgName) → (type t).Msg) :
    reg.handle stale (p.withReply reply) = reg.expected bs x := by
  obtain ⟨msgID, hid, hdata, hhead⟩ := Send.message_ok h
  have hlen := size_of_marshalVT hdata x.r
  have hid0 : msgID ≠ 0 := fun hz => h0 (hid.trans (congrArg some hz))
  have hmsgID : (p.withReply reply).head.msgID = msgID := congrArg Head.msgID hhead
  rw [Message.bodySize] at hsize
  rw [hs.handle_eq (p := p.withReply reply) hid hid0 hm (by omega) hdata hmsgID, expected, hid]
  dsimp only [Option.getD_some, Message.withReply]
  rw [hhead]

/-- The messages of a batch are handled in the order in which they were sent,
each by the handler of its own type, which is called with the message and the
head that were sent. It shows neither what the pools of buffers and messages
held nor in which orders maps were ranged over. -/
theorem batch_reaches_handlers [LawfulProtohelpers] (reg : Registry) (hreg : reg.Registered)
    (bs : Gateway.DataBus) (sends : List Send) (msgs : List Message)
    (hsent : List.Forall₂ (fun x p => x.message bs = some p) sends msgs)
    (hvalid : ∀ x ∈ sends, (type x.t).Valid x.m) (h0 : ∀ x ∈ sends, getMsgIDS2S x.t ≠ some 0)
    (hsize : ∀ p ∈ msgs, p.bodySize < 2 ^ 32) (reply : String)
    (stale : Message → (t : MsgName) → (type t).Msg) :
    (decodeManyAndHandle (frames msgs) reply).err = none ∧
      (decodeManyAndHandle (frames msgs) reply).delivered.map (fun p => reg.handle (stale p) p) =
        sends.map (reg.expected bs) := by
  rw [decode_frames msgs hsize reply]
  refine ⟨rfl, ?_⟩
  dsimp only
  induction hsent with
  | nil => rfl
  | cons hx _ ih =>
    rw [List.map_cons, List.map_cons, List.map_cons,
      hreg.sound.handle_sent hx (hvalid _ List.mem_cons_self) (h0 _ List.mem_cons_self)
        (hsize _ List.mem_cons_self),
      ih (fun x hx => hvalid x (List.mem_cons_of_mem _ hx))
        (fun x hx => h0 x (List.mem_cons_of_mem _ hx))
        (fun p hp => hsize p (List.mem_cons_of_mem _ hp))]

end Registry

end Code

namespace Registry

attribute [local instance] Base128.helpers Base128.lawful

/-- The gateway tells the game that a session has ended. -/
def disconnectSend : Send where
  t := .s2sGt2SDisconnect
  m := disconnect 5 2
  serType := 2
  serID := 1
  actorID := 0
  sesID := 0
  r := sorted
  r' := sorted
  pooled := [0xff, 0xff, 0xff, 0xff, 0xff]

theorem exists_disconnectRegistry : ∃ reg, Registry.new.register false true .s2sGt2SDisconnect =
    .ok reg ∧ reg.handles .s2sGt2SDisconnect = true :=
  ⟨_, rfl, rfl⟩

theorem disconnect_reaches_handler :
    ∃ reg : Registry, reg.handles .s2sGt2SDisconnect = true ∧
      (decodeManyAndHandle (frames [⟨⟨0, 0, 19, 0, 0, 3, 2, 1⟩, [8, 5, 16, 2], ""⟩]) "").err =
        none ∧
      (decodeManyAndHandle (frames [⟨⟨0, 0, 19, 0, 0, 3, 2, 1⟩, [8, 5, 16, 2], ""⟩])
          "").delivered.map (fun p => reg.handle (fun t => (type t).zero) p) =
        [disconnectSend].map (reg.expected ⟨0, 3, false, fun _ _ => true⟩) := by
  obtain ⟨reg, hreg, hhandles⟩ := exists_disconnectRegistry
  refine ⟨reg, hhandles, batch_reaches_handlers reg (.add .new hreg)
    ⟨0, 3, false, fun _ _ => true⟩ [disconnectSend] _ (.cons (by decide) .nil) ?_ (by decide)
    (by decide) "" fun _ t => (type t).zero⟩
  intro x hx
  obtain rfl := List.mem_singleton.mp hx
  exact disconnect_valid 5 2

end Registry

end GameCluster.Bus
