import Mathlib.Data.Finset.Sort
import Mathlib.Data.List.Lex
import GameCluster.Lib.Helpers
import GameCluster.Pb.Messages

/-!
What the generated code does with the messages of `api/pb`: how many bytes a
message takes and where in a buffer they go, and what is read back from them.
-/

namespace GameCluster.Pb

open Lib Lib.Wire Lib.Wire.FieldType

section Laws

variable [Protohelpers] [LawfulProtohelpers] (t : MsgName)

theorem type_lawful : (type t).Lawful := (schema_wellFormed t).lawful

/-- `MarshalToSizedBufferVT` fills the end of the buffer and nothing else, with
as many bytes as `SizeVT` says, whatever the buffer held and in whatever order
maps are ranged over each time. It panics if and only if there are fewer. -/
theorem marshal_fills_end (m : (type t).Msg) (r : Range) :
    ∃ bytes, (∀ r', (type t).size r' m = bytes.length) ∧
      (∀ r', (type t).marshalVT r r' m = some bytes) ∧
      ∀ dAtA, (type t).marshalToSizedBuffer r m dAtA =
        if bytes.length ≤ dAtA.length then
          some (dAtA.take (dAtA.length - bytes.length) ++ bytes, bytes.length)
        else none := by
  obtain ⟨enc, h⟩ := type_lawful t
  exact ⟨enc r m, fun r' => h.size_eq r r' m, fun r' => h.marshalVT_eq r r' m,
    h.marshalToSizedBuffer_eq r m⟩

/-! ### Reading back -/

variable {t}

theorem unmarshal_of_marshalVT {m : (type t).Msg} (hm : (type t).Valid m) (r r' : Range)
    (hsize : (type t).size r m < 2 ^ 63) {bytes : List UInt8}
    (h : (type t).marshalVT r r' m = some bytes) :
    (type t).unmarshal (type t).zero bytes = .ok m := by
  obtain ⟨enc, henc⟩ := type_lawful t
  rw [henc.marshalVT_eq] at h
  cases h
  rw [henc.size_eq r r] at hsize
  exact henc.unmarshal_enc r m hm hsize

theorem size_of_marshalVT {m : (type t).Msg} {r r' : Range} {bytes : List UInt8}
    (h : (type t).marshalVT r r' m = some bytes) (q : Range) :
    (type t).size q m = bytes.length := by
  obtain ⟨enc, henc⟩ := type_lawful t
  rw [henc.marshalVT_eq] at h
  cases h
  exact henc.size_eq r q m

theorem unmarshal_valid {m m' : (type t).Msg} (hm : (type t).Valid m) {bytes : List UInt8}
    (h : (type t).unmarshal m bytes = .ok m') : (type t).Valid m' := by
  obtain ⟨enc, henc⟩ := type_lawful t
  exact henc.unmarshal_valid m m' bytes hm h

theorem valid_zero (t : MsgName) : (type t).Valid (type t).zero := by
  obtain ⟨enc, henc⟩ := type_lawful t
  exact henc.valid_zero

theorem exists_marshalVT (m : (type t).Msg) (r : Range) :
    ∃ bytes, ∀ r', (type t).marshalVT r r' m = some bytes := by
  obtain ⟨enc, henc⟩ := type_lawful t
  exact ⟨enc r m, fun r' => henc.marshalVT_eq r r' m⟩

end Laws

/-- The keys of each map in their order. -/
def sorted : Range := fun m =>
  ⟨m.keys.sort (· ≤ ·), m.keys.sort_nodup (· ≤ ·), m.keys.sort_toFinset (· ≤ ·)⟩

/-- An `S2SGt2SDisconnect`. -/
def disconnect [Protohelpers] (sesID : BitVec 64) (why : BitVec 32) :
    (type .s2sGt2SDisconnect).Msg where
  val
    | 1 => sesID
    | 2 => why
    | _ => Slot.zero _
  unknown := []

theorem disconnect_valid [Protohelpers] (sesID : BitVec 64) (why : BitVec 32) :
    (type .s2sGt2SDisconnect).Valid (disconnect sesID why) := by
  refine ⟨fun n => ?_, [], rfl, fun _ hx => absurd hx List.not_mem_nil⟩
  match n with
  | 0 | 1 | 2 => trivial
  | n + 3 => trivial

section Read

variable [Protohelpers] [LawfulProtohelpers] {t : MsgName}

/-- A message of any type is read back from its encoding, whatever the order in
which its maps were written, and so are the messages in it and the unknown
fields at every depth. -/
theorem unmarshal_marshalVT (m : (type t).Msg) (hm : (type t).Valid m) (r : Range)
    (hsize : (type t).size r m < 2 ^ 63) :
    ∃ bytes, (∀ r', (type t).marshalVT r r' m = some bytes) ∧
      (type t).unmarshal (type t).zero bytes = .ok m := by
  obtain ⟨bytes, hbytes⟩ := exists_marshalVT m r
  exact ⟨bytes, hbytes, unmarshal_of_marshalVT hm r r hsize (hbytes r)⟩

/-- What is accepted is well formed: it can be written again, and reading that
gives the same message, although the bytes need not be the same. -/
theorem unmarshal_again (bytes : List UInt8) (m : (type t).Msg)
    (h : (type t).unmarshal (type t).zero bytes = .ok m) (r r' : Range)
    (hsize : (type t).size r m < 2 ^ 63) :
    (type t).Valid m ∧ ∃ bytes', (type t).marshalVT r r' m = some bytes' ∧
      (type t).unmarshal (type t).zero bytes' = .ok m := by
  have hm := unmarshal_valid (valid_zero t) h
  obtain ⟨bytes', hbytes⟩ := exists_marshalVT m r
  exact ⟨hm, bytes', hbytes r', unmarshal_of_marshalVT hm r r hsize (hbytes r)⟩

end Read

section Written

attribute [local instance] Base128.helpers Base128.lawful

/-- What the helpers write for two fields. -/
theorem marshal_disconnect :
    ∃ bytes, (∀ r', (type .s2sGt2SDisconnect).size r' (disconnect 5 2) = bytes.length) ∧
      ∀ dAtA, (type .s2sGt2SDisconnect).marshalToSizedBuffer sorted (disconnect 5 2) dAtA =
        if bytes.length ≤ dAtA.length then
          some (dAtA.take (dAtA.length - bytes.length) ++ bytes, bytes.length)
        else none := by
  obtain ⟨bytes, hsize, -, hfills⟩ := marshal_fills_end .s2sGt2SDisconnect (disconnect 5 2) sorted
  exact ⟨bytes, hsize, hfills⟩

theorem unmarshal_disconnect : (type .s2sGt2SDisconnect).size sorted (disconnect 5 2) < 2 ^ 63 ∧
    ∃ bytes, (∀ r', (type .s2sGt2SDisconnect).marshalVT sorted r' (disconnect 5 2) = some bytes) ∧
      (type .s2sGt2SDisconnect).unmarshal (type .s2sGt2SDisconnect).zero bytes =
        .ok (disconnect 5 2) :=
  ⟨by decide, unmarshal_marshalVT _ (disconnect_valid 5 2) sorted (by decide)⟩

/-- Two fields out of order, the second of them twice, and an unknown one. -/
theorem unmarshal_again_unordered :
    ∃ m, (type .s2sGt2SDisconnect).unmarshal (type .s2sGt2SDisconnect).zero
        [0x10, 3, 0x8, 5, 0x1a, 1, 7, 0x10, 2] = .ok m ∧
      (type .s2sGt2SDisconnect).Valid m ∧
      ∃ bytes', (type .s2sGt2SDisconnect).marshalVT sorted sorted m = some bytes' ∧
        (type .s2sGt2SDisconnect).unmarshal (type .s2sGt2SDisconnect).zero bytes' = .ok m :=
  ⟨_, rfl, unmarshal_again [0x10, 3, 0x8, 5, 0x1a, 1, 7, 0x10, 2] _ rfl sorted sorted (by decide)⟩

end Written

end GameCluster.Pb
