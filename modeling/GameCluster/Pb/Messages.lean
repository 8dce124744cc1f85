import GameCluster.Lib.MapField
import GameCluster.Lib.SchemaLaws

/-!
The messages of `api/pb`, as the generated code has them: for each field its
number in the switch of `UnmarshalVT`, its name in errors, the bytes that
`MarshalToSizedBufferVT` writes as its tag, the number of them that `SizeVT`
counts, and its type. An enumeration is an `int32`, a `string` and a `bytes` are
the same to the code.
-/

namespace GameCluster.Pb

open Lib.Wire Lib.Wire.FieldType

section Schemas

variable [Protohelpers]

/-! ### The fields -/

def c2sAccountHandle : Schema Range := ⟨"C2SAccountHandle", []⟩

def c2sGameHandle : Schema Range := ⟨"C2SGameHandle", []⟩

def s2cNone : Schema Range := ⟨"S2CNone", []⟩

def s2sNone : Schema Range := ⟨"S2SNone", []⟩

def c2sNone : Schema Range := ⟨"C2SNone", []⟩

def s2cGateHandle : Schema Range := ⟨"S2CGateHandle", []⟩

def c2sHeartBeat : Schema Range where
  name := "C2SHeartBeat"
  fields :=
    [⟨1, "CliTime", [0x8], 1, .sint64⟩,
     ⟨3, "CliVersion", [0x1a], 1, .bytes⟩]

def s2cHeartBeat : Schema Range where
  name := "S2CHeartBeat"
  fields :=
    [⟨1, "CliTime", [0x8], 1, .sint64⟩,
     ⟨2, "SerTime", [0x10], 1, .sint64⟩]

def clientInfo : Schema Range where
  name := "ClientInfo"
  fields :=
    [⟨1, "DevID", [0xa], 1, .bytes⟩,
     ⟨2, "AdvType", [0x12], 1, .bytes⟩,
     ⟨3, "PhoneModel", [0x1a], 1, .bytes⟩,
     ⟨4, "SysVersion", [0x22], 1, .bytes⟩,
     ⟨5, "Machine", [0x2a], 1, .bytes⟩,
     ⟨6, "Ip", [0x32], 1, .bytes⟩]

def c2sLogin : Schema Range where
  name := "C2SLogin"
  fields :=
    [⟨1, "SdkType", [0x8], 1, .int32⟩,
     ⟨2, "Account", [0x12], 1, .bytes⟩,
     ⟨3, "Token", [0x1a], 1, .bytes⟩,
     ⟨4, "Channel", [0x20], 1, .uint32⟩,
     ⟨5, "Dev", [0x2a], 1, .bytes⟩,
     ⟨7, "Area", [0x38], 1, .uint32⟩,
     ⟨8, "Version", [0x42], 1, .bytes⟩,
     ⟨9, "Reconnect", [0x48], 1, .bool⟩,
     ⟨10, "CliInfo", [0x52], 1, .message clientInfo.type⟩]

def roleData : Schema Range where
  name := "RoleData"
  fields :=
    [⟨1, "ID", [0x8], 1, .uint64⟩,
     ⟨3, "Level", [0x18], 1, .sint32⟩,
     ⟨4, "Exp", [0x20], 1, .uint32⟩,
     ⟨5, "Name", [0x2a], 1, .bytes⟩,
     ⟨20, "Country", [0xa0, 0x1], 2, .uint32⟩,
     ⟨23, "OfflineTime", [0xb8, 0x1], 2, .int64⟩,
     ⟨24, "OnlineTime", [0xc0, 0x1], 2, .int64⟩,
     ⟨25, "CreateTime", [0xc8, 0x1], 2, .int64⟩,
     ⟨26, "ResetTime", [0xd0, 0x1], 2, .sint64⟩,
     ⟨27, "DayChange", [0xd8, 0x1], 2, .sint64⟩,
     ⟨28, "DataResetMonth", [0xe0, 0x1], 2, .sint64⟩,
     ⟨35, "Items", [0x9a, 0x2], 2, .stringMap⟩]

def s2cLogin : Schema Range where
  name := "S2CLogin"
  fields :=
    [⟨1, "Code", [0x8], 1, .int32⟩,
     ⟨2, "GameID", [0x10], 1, .uint32⟩,
     ⟨3, "OpenTime", [0x18], 1, .sint64⟩,
     ⟨4, "ServerNowTime", [0x20], 1, .int64⟩,
     ⟨5, "ServerBeginTime", [0x28], 1, .int64⟩,
     ⟨6, "Dev", [0x32], 1, .bytes⟩,
     ⟨7, "RetDesc", [0x3a], 1, .bytes⟩,
     ⟨8, "Token", [0x40], 1, .uint32⟩,
     ⟨9, "CliVersion", [0x4a], 1, .bytes⟩,
     ⟨10, "Data", [0x52], 1, .message c2sLogin.type⟩,
     ⟨11, "Player", [0x5a], 1, .message roleData.type⟩,
     ⟨12, "ConnectAcc", [0x62], 1, .strings⟩]

def s2sReqLogin : Schema Range where
  name := "S2SReqLogin"
  fields :=
    [⟨1, "Req", [0xa], 1, .message c2sLogin.type⟩,
     ⟨2, "SesID", [0x10], 1, .uint64⟩,
     ⟨3, "RoleID", [0x18], 1, .uint64⟩,
     ⟨4, "ReConnToken", [0x20], 1, .uint64⟩,
     ⟨5, "Seq", [0x28], 1, .uint32⟩,
     ⟨6, "BindAcc", [0x32], 1, .bytes⟩,
     ⟨7, "ConnectedAcc", [0x3a], 1, .strings⟩]

def s2sResLogin : Schema Range where
  name := "S2SResLogin"
  fields :=
    [⟨1, "Res", [0xa], 1, .message s2cLogin.type⟩,
     ⟨2, "GameID", [0x10], 1, .int32⟩]

def s2sGt2SDisconnect : Schema Range where
  name := "S2SGt2SDisconnect"
  fields :=
    [⟨1, "SesID", [0x8], 1, .uint64⟩,
     ⟨2, "Why", [0x10], 1, .int32⟩]

def s2sS2GtDisconnect : Schema Range where
  name := "S2SS2GtDisconnect"
  fields :=
    [⟨1, "SesID", [0x8], 1, .uint64⟩,
     ⟨2, "Why", [0x10], 1, .int32⟩]

def s2sRoleClear : Schema Range where
  name := "S2SRoleClear"
  fields :=
    [⟨1, "RoleID", [0x8], 1, .uint64⟩,
     ⟨3, "Seq", [0x18], 1, .uint32⟩]

def s2cKickRole : Schema Range := ⟨"S2CKickRole", []⟩

def s2sReqLoginOrLogout : Schema Range where
  name := "S2SReqLoginOrLogout"
  fields :=
    [⟨1, "RoleID", [0x8], 1, .uint64⟩,
     ⟨2, "SesID", [0x10], 1, .uint64⟩,
     ⟨3, "GameID", [0x18], 1, .uint32⟩,
     ⟨4, "Login", [0x20], 1, .bool⟩]

def s2sResLoginOrLogout : Schema Range where
  name := "S2SResLoginOrLogout"
  fields :=
    [⟨1, "RoleID", [0x8], 1, .uint64⟩,
     ⟨2, "Login", [0x10], 1, .bool⟩]

def s2sReqConfig : Schema Range := ⟨"S2SReqConfig", []⟩

def s2sResConfig : Schema Range where
  name := "S2SResConfig"
  fields :=
    [⟨1, "Data", [0xa], 1, .bytes⟩]

def s2sKickAcc : Schema Range where
  name := "S2SKickAcc"
  fields :=
    [⟨1, "Acc", [0x8], 1, .uint64⟩]

def s2sKickRole : Schema Range := ⟨"S2SKickRole", []⟩

def c2sClientReady : Schema Range := ⟨"C2SClientReady", []⟩

def s2cDayChange : Schema Range := ⟨"S2CDayChange", []⟩

def s2cDataReset : Schema Range := ⟨"S2CDataReset", []⟩

def s2sRelayToRole : Schema Range where
  name := "S2SRelayToRole"
  fields :=
    [⟨1, "MsgID", [0x8], 1, .uint32⟩,
     ⟨2, "Data", [0x12], 1, .bytes⟩]

def s2sOfflineEvt : Schema Range where
  name := "S2SOfflineEvt"
  fields :=
    [⟨1, "Role", [0x8], 1, .uint64⟩,
     ⟨2, "Type", [0x10], 1, .uint32⟩,
     ⟨3, "Data", [0x1a], 1, .bytes⟩,
     ⟨4, "ProtoName", [0x22], 1, .bytes⟩]

def c2sWithoutRole : Schema Range := ⟨"C2SWithoutRole", []⟩

def roleInDb : Schema Range where
  name := "RoleInDb"
  fields :=
    [⟨1, "ID", [0x8], 1, .uint64⟩,
     ⟨3, "Data", [0x1a], 1, .bytes⟩]

def evtOffline : Schema Range where
  name := "EvtOffline"
  fields :=
    [⟨1, "MsgName", [0xa], 1, .bytes⟩,
     ⟨2, "MsgID", [0x10], 1, .uint32⟩,
     ⟨3, "Data", [0x1a], 1, .bytes⟩,
     ⟨4, "RoleID", [0x20], 1, .uint64⟩]

/-- The fields that the echo messages share. -/
def echoFields : List (Lib.Wire.Field Range) :=
  [⟨1, "ID", [0x8], 1, .uint64⟩,
   ⟨2, "Name", [0x12], 1, .bytes⟩,
   ⟨3, "Level", [0x18], 1, .uint32⟩,
   ⟨4, "Exp", [0x20], 1, .uint32⟩,
   ⟨5, "Data", [0x2a], 1, .bytes⟩]

def c2sEcho : Schema Range :=
  ⟨"C2SEcho", echoFields ++ [⟨6, "Time", [0x30], 1, .sint64⟩]⟩

def s2cEcho : Schema Range :=
  ⟨"S2CEcho", echoFields ++
    [⟨6, "CliTime", [0x30], 1, .sint64⟩, ⟨7, "SrvTime", [0x38], 1, .sint64⟩]⟩

def s2sEcho : Schema Range :=
  ⟨"S2SEcho", echoFields ++ [⟨6, "Time", [0x30], 1, .sint64⟩]⟩

def s2sRpcEchoReq : Schema Range :=
  ⟨"S2SRpcEchoReq", echoFields ++ [⟨6, "Time", [0x30], 1, .sint64⟩]⟩

def s2sRpcEchoRes : Schema Range :=
  ⟨"S2SRpcEchoRes", echoFields ++ [⟨6, "Time", [0x30], 1, .sint64⟩]⟩

def s2sRpcEchoRoleReq : Schema Range :=
  ⟨"S2SRpcEchoRoleReq", echoFields ++ [⟨6, "Time", [0x30], 1, .sint64⟩]⟩

def s2sRpcEchoRoleRes : Schema Range :=
  ⟨"S2SRpcEchoRoleRes", echoFields ++ [⟨6, "Time", [0x30], 1, .sint64⟩]⟩

/-! ### All messages -/

inductive MsgName where
  | c2sAccountHandle
  | c2sGameHandle
  | s2cNone
  | s2sNone
  | c2sNone
  | s2cGateHandle
  | c2sHeartBeat
  | s2cHeartBeat
  | c2sLogin
  | s2cLogin
  | s2sReqLogin
  | s2sResLogin
  | s2sGt2SDisconnect
  | s2sS2GtDisconnect
  | s2sRoleClear
  | s2cKickRole
  | s2sReqLoginOrLogout
  | s2sResLoginOrLogout
  | s2sReqConfig
  | s2sResConfig
  | s2sKickAcc
  | s2sKickRole
  | c2sClientReady
  | s2cDayChange
  | s2cDataReset
  | s2sRelayToRole
  | s2sOfflineEvt
  | c2sWithoutRole
  | clientInfo
  | roleInDb
  | evtOffline
  | roleData
  | c2sEcho
  | s2cEcho
  | s2sEcho
  | s2sRpcEchoReq
  | s2sRpcEchoRes
  | s2sRpcEchoRoleReq
  | s2sRpcEchoRoleRes
  deriving DecidableEq, Repr

/-- The generated code of `api/pb`, message by message. -/
def schema : MsgName → Schema Range
  | .c2sAccountHandle => c2sAccountHandle
  | .c2sGameHandle => c2sGameHandle
  | .s2cNone => s2cNone
  | .s2sNone => s2sNone
  | .c2sNone => c2sNone
  | .s2cGateHandle => s2cGateHandle
  | .c2sHeartBeat => c2sHeartBeat
  | .s2cHeartBeat => s2cHeartBeat
  | .c2sLogin => c2sLogin
  | .s2cLogin => s2cLogin
  | .s2sReqLogin => s2sReqLogin
  | .s2sResLogin => s2sResLogin
  | .s2sGt2SDisconnect => s2sGt2SDisconnect
  | .s2sS2GtDisconnect => s2sS2GtDisconnect
  | .s2sRoleClear => s2sRoleClear
  | .s2cKickRole => s2cKickRole
  | .s2sReqLoginOrLogout => s2sReqLoginOrLogout
  | .s2sResLoginOrLogout => s2sResLoginOrLogout
  | .s2sReqConfig => s2sReqConfig
  | .s2sResConfig => s2sResConfig
  | .s2sKickAcc => s2sKickAcc
  | .s2sKickRole => s2sKickRole
  | .c2sClientReady => c2sClientReady
  | .s2cDayChange => s2cDayChange
  | .s2cDataReset => s2cDataReset
  | .s2sRelayToRole => s2sRelayToRole
  | .s2sOfflineEvt => s2sOfflineEvt
  | .c2sWithoutRole => c2sWithoutRole
  | .clientInfo => clientInfo
  | .roleInDb => roleInDb
  | .evtOffline => evtOffline
  | .roleData => roleData
  | .c2sEcho => c2sEcho
  | .s2cEcho => s2cEcho
  | .s2sEcho => s2sEcho
  | .s2sRpcEchoReq => s2sRpcEchoReq
  | .s2sRpcEchoRes => s2sRpcEchoRes
  | .s2sRpcEchoRoleReq => s2sRpcEchoRoleReq
  | .s2sRpcEchoRoleRes => s2sRpcEchoRoleRes

/-- `type t` is the code for messages `t`. -/
def type (t : MsgName) : MsgType Range := (schema t).type

end Schemas

/-! ### The constants of the generated code fit together -/

def fieldConstants (f : Lib.Wire.Field Range) : Bool :=
  f.tag == varint (BitVec.ofNat 64 (f.num * 8 + f.type.wireType)) && f.tagSize == f.tag.length &&
    decide (0 < f.num) && decide (f.num < 2 ^ 29) &&
    (f.type.wireType == 0 || f.type.wireType == 2)

def constants (s : Schema Range) : Bool := decide s.nums.Nodup && s.fields.all fieldConstants

theorem wellFormed_of_constants {s : Schema Range} (h : constants s = true)
    (hlawful : ∀ f ∈ s.fields, f.type.Lawful) : s.WellFormed := by
  rw [constants, Bool.and_eq_true, List.all_eq_true] at h
  refine ⟨of_decide_eq_true h.1, fun f hf => ?_⟩
  have hf' := h.2 f hf
  simp only [fieldConstants, Bool.and_eq_true, Bool.or_eq_true, beq_iff_eq, decide_eq_true_eq]
    at hf'
  obtain ⟨⟨⟨⟨htag, hsize⟩, hpos⟩, hlt⟩, hwt⟩ := hf'
  exact ⟨htag, hsize, hpos, hlt, hwt, hlawful f hf⟩

/-! The messages that stand in others come first. -/

variable [Protohelpers] [LawfulProtohelpers]

theorem clientInfo_fields : ∀ f ∈ clientInfo.fields, f.type.Lawful := by
  simp [clientInfo]

@[simp] theorem clientInfo_lawful : clientInfo.type.Lawful :=
  (wellFormed_of_constants rfl clientInfo_fields).lawful

theorem c2sLogin_fields : ∀ f ∈ c2sLogin.fields, f.type.Lawful := by
  simp [c2sLogin]

@[simp] theorem c2sLogin_lawful : c2sLogin.type.Lawful :=
  (wellFormed_of_constants rfl c2sLogin_fields).lawful

theorem roleData_fields : ∀ f ∈ roleData.fields, f.type.Lawful := by
  simp [roleData]

omit [LawfulProtohelpers] in
/-- The tags of two bytes are computed once no helper is in sight. -/
theorem roleData_constants : constants roleData = true := by
  dsimp only [constants, fieldConstants, roleData, Schema.nums, List.map, List.all, number, uint64,
    int64, sint64, uint32, sint32, FieldType.bytes, stringMap]
  rfl

@[simp] theorem roleData_lawful : roleData.type.Lawful :=
  (wellFormed_of_constants roleData_constants roleData_fields).lawful

theorem s2cLogin_fields : ∀ f ∈ s2cLogin.fields, f.type.Lawful := by
  simp [s2cLogin]

@[simp] theorem s2cLogin_lawful : s2cLogin.type.Lawful :=
  (wellFormed_of_constants rfl s2cLogin_fields).lawful

theorem schema_fields (t : MsgName) : ∀ f ∈ (schema t).fields, f.type.Lawful := by
  cases t
  case clientInfo => exact clientInfo_fields
  case c2sLogin => exact c2sLogin_fields
  case roleData => exact roleData_fields
  case s2cLogin => exact s2cLogin_fields
  all_goals
    simp [schema, echoFields, c2sAccountHandle, c2sGameHandle, s2cNone, s2sNone, c2sNone,
      s2cGateHandle, c2sHeartBeat, s2cHeartBeat, s2sReqLogin, s2sResLogin, s2sGt2SDisconnect,
      s2sS2GtDisconnect, s2sRoleClear, s2cKickRole, s2sReqLoginOrLogout, s2sResLoginOrLogout,
      s2sReqConfig, s2sResConfig, s2sKickAcc, s2sKickRole, c2sClientReady, s2cDayChange,
      s2cDataReset, s2sRelayToRole, s2sOfflineEvt, c2sWithoutRole, roleInDb, evtOffline,
      c2sEcho, s2cEcho, s2sEcho, s2sRpcEchoReq, s2sRpcEchoRes, s2sRpcEchoRoleReq,
      s2sRpcEchoRoleRes]

theorem schema_wellFormed (t : MsgName) : (schema t).WellFormed := by
  refine wellFormed_of_constants ?_ (schema_fields t)
  cases t
  case roleData => exact roleData_constants
  all_goals rfl

end GameCluster.Pb
