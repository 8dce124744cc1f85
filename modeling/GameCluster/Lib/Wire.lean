import GameCluster.Lib.Bytes
import GameCluster.Lib.Map
import GameCluster.Lib.Varint

/-!
Messages as sequences of numbered fields, in the way `protoc-gen-go-vtproto`
generates code for them. The code calls the package `protohelpers`, which is a
parameter here, with what is documented of it as laws. A message is written
from the end of a buffer to its front, so that the length of a nested message
is known when it is due; it is read by a loop that looks at the number and the
wire type of the next record, stores what a known field reads and keeps the
bytes of unknown ones.

A field type is the code that is generated for a field: whether and how its
value is written, how many bytes that is said to take, and how one record
changes the value. `ρ` is what the runtime is free to choose while it writes,
such as the order in which it ranges over a map.
-/

namespace GameCluster.Lib.Wire

/-! ### Records and the helpers -/

/-- The number of a field, `int32(wire >> 3)`. -/
def fieldNum (wire : BitVec 64) : BitVec 32 := (wire >>> 3).setWidth 32

def wireType (wire : BitVec 64) : ℕ := (wire &&& 7).toNat

/-- Bytes that the loop for numbers reads as `v`, wherever they stand. -/
def IsVarint (bytes : List UInt8) (v : BitVec 64) : Prop :=
  ∀ q b, readVarint 64 ⟨q, bytes ++ b⟩ = .ok (v, ⟨q + bytes.length, b⟩)

/-- What stands behind the tag of a record, for the types of records that are
not groups. -/
inductive IsPayload : ℕ → List UInt8 → Prop
  | varint {bytes : List UInt8} {v : BitVec 64} : IsVarint bytes v → IsPayload 0 bytes
  | fixed64 {bytes : List UInt8} : bytes.length = 8 → IsPayload 1 bytes
  | delimited {len src : List UInt8} {n : BitVec 64} : IsVarint len n → src.length = n.toNat →
      IsPayload 2 (len ++ src)
  | fixed32 {bytes : List UInt8} : bytes.length = 4 → IsPayload 5 bytes

/-- A record of the wire format. A group is a sequence of records between two
tags. -/
inductive IsRecord : List UInt8 → Prop
  | field {tag payload : List UInt8} {wire : BitVec 64} : IsVarint tag wire →
      IsPayload (wireType wire) payload → IsRecord (tag ++ payload)
  | group {start stop : List UInt8} {wire wire' : BitVec 64} (records : List (List UInt8)) :
      IsVarint start wire → wireType wire = 3 → (∀ x ∈ records, IsRecord x) →
      IsVarint stop wire' → wireType wire' = 4 → IsRecord (start ++ (records.flatten ++ stop))

/-- The package `protohelpers`. A function of it that panics has no result. -/
class Protohelpers where
  encodeVarint (dAtA : List UInt8) (offset : ℕ) (v : BitVec 64) : Option (List UInt8 × ℕ)
  sizeOfVarint (x : BitVec 64) : ℕ
  sizeOfZigzag (x : BitVec 64) : ℕ
  skip (dAtA : List UInt8) : Except Err ℕ

open Protohelpers in
/-- What is documented of the package. -/
class LawfulProtohelpers [Protohelpers] : Prop where
  /-- It encodes the number into the bytes that end at the offset, and returns
  where they begin. -/
  encodeVarint_eq : ∀ (dAtA : List UInt8) (offset : ℕ) (v : BitVec 64), offset ≤ dAtA.length →
    (varint v).length ≤ offset → encodeVarint dAtA offset v =
      some (dAtA.take (offset - (varint v).length) ++ varint v ++ dAtA.drop offset,
        offset - (varint v).length)
  /-- An index below zero panics. -/
  encodeVarint_panics : ∀ (dAtA : List UInt8) (offset : ℕ) (v : BitVec 64),
    offset < (varint v).length → encodeVarint dAtA offset v = none
  /-- It returns the size of the encoded value. -/
  sizeOfVarint_eq : ∀ x, sizeOfVarint x = (varint x).length
  sizeOfZigzag_eq : ∀ x, sizeOfZigzag x = (varint (zigzag x)).length
  /-- It skips the first record and returns the offset of the next. -/
  skip_record : ∀ record rest : List UInt8, IsRecord record → (record ++ rest).length < 2 ^ 63 →
    skip (record ++ rest) = .ok record.length
  /-- What it skips is a record, unless that ends behind the bytes. -/
  record_of_skip : ∀ (dAtA : List UInt8) (n : ℕ), skip dAtA = .ok n → n ≤ dAtA.length →
    IsRecord (dAtA.take n)

/-! ### A buffer that is filled from its end -/

/-- What is written so far begins at index `i`. -/
structure Writer where
  buf : List UInt8
  i : ℕ
  deriving DecidableEq, Repr

namespace Writer

/-- `i -= len(src)` and `copy(dAtA[i:], src)`. An index below zero panics. -/
def back (w : Writer) (src : List UInt8) : Option Writer :=
  if src.length ≤ w.i ∧ w.i ≤ w.buf.length then
    some ⟨w.buf.take (w.i - src.length) ++ src ++ w.buf.drop w.i, w.i - src.length⟩
  else none

/-- `i = protohelpers.EncodeVarint(dAtA, i, v)` -/
def encodeVarint [Protohelpers] (w : Writer) (v : BitVec 64) : Option Writer :=
  (Protohelpers.encodeVarint w.buf w.i v).map fun (buf, i) => ⟨buf, i⟩

/-- What is done with `dAtA[:i]`. -/
def inside (step : Writer → Option Writer) (w : Writer) : Option Writer :=
  (step ⟨w.buf.take w.i, w.i⟩).map fun w' => ⟨w'.buf ++ w.buf.drop w.i, w'.i⟩

/-- The bytes of a tag, the last one first. -/
def putTag (w : Writer) (tag : List UInt8) : Option Writer :=
  tag.reverse.foldlM (fun w b => w.back [b]) w

end Writer

/-! ### Reading -/

/-- Goes on with what was read and where reading stopped, unless it failed. -/
def andThen {α β : Type*} (x : Except Err (α × Cursor)) (f : α → Cursor → Except Err β) :
    Except Err β :=
  match x with
  | .error e => .error e
  | .ok (a, c) => f a c

/-- The checks of a length, for bytes that have to be there. Neither the length
nor the index behind the bytes may leave the range of an `int`. -/
def checkLen {α : Type*} (len : BitVec 64) (c : Cursor) (x : Except Err α) : Except Err α :=
  if 2 ^ 63 ≤ len.toNat then .error .invalidLength
  else if 2 ^ 63 ≤ c.pos + len.toNat then .error .invalidLength
  else if c.rest.length < len.toNat then .error .unexpectedEOF
  else x

/-- A length and as many bytes. -/
def readBytes (c : Cursor) : Except Err (List UInt8 × Cursor) :=
  andThen (readVarint 64 c) fun len c =>
    checkLen len c (.ok (c.rest.take len.toNat, c.advance len.toNat))

/-- The record at `c` is passed over, and its bytes are returned. It may not
end behind `limit`. -/
def skipRecord [Protohelpers] (c : Cursor) (limit : ℕ) : Except Err (List UInt8 × Cursor) :=
  match Protohelpers.skip c.rest with
  | .error e => .error e
  | .ok k =>
    if 2 ^ 63 ≤ c.pos + k then .error .invalidLength
    else if limit < c.pos + k then .error .unexpectedEOF
    else .ok (c.rest.take k, c.advance k)

/-- The reader gives `x` for these bytes and stops behind them, wherever they
stand and whatever follows, as long as indices fit an `int`. -/
def Yields {α : Type*} (read : Cursor → Except Err (α × Cursor)) (bytes : List UInt8) (x : α) :
    Prop :=
  ∀ q b, q + (bytes ++ b).length < 2 ^ 63 →
    read ⟨q, bytes ++ b⟩ = .ok (x, ⟨q + bytes.length, b⟩)

/-! ### Field types -/

/-- The code of a field. `write` is given the bytes of the tag and `size` the
number of them that `SizeVT` counts. `Valid` is not code: it holds of the values
in which what is kept of unknown fields consists of records, at every depth. -/
structure FieldType (ρ : Type) where
  Val : Type
  Valid : Val → Prop := fun _ => True
  zero : Val
  wireType : ℕ
  write : ρ → List UInt8 → Val → Writer → Option Writer
  size : ρ → ℕ → Val → ℕ
  read : Val → Cursor → Except Err (Val × Cursor)

/-- The code of a message. -/
structure MsgType (ρ : Type) where
  Msg : Type
  Valid : Msg → Prop
  zero : Msg
  marshal : ρ → Msg → Writer → Option Writer
  size : ρ → Msg → ℕ
  unmarshal : Msg → List UInt8 → Except Err Msg

namespace FieldType

open Protohelpers

variable {ρ : Type} [Protohelpers]

/-- A number that is written as a varint if it is not zero. -/
def number (w : ℕ) (toWire : BitVec w → BitVec 64) (ofWire : BitVec w → BitVec w)
    (sizeOf : BitVec w → ℕ) : FieldType ρ where
  Val := BitVec w
  zero := 0
  wireType := 0
  write _ tag v b := if v = 0 then some b else (b.encodeVarint (toWire v)).bind (·.putTag tag)
  size _ tagSize v := if v = 0 then 0 else tagSize + sizeOf v
  read _ c := andThen (readVarint w c) fun acc c => .ok (ofWire acc, c)

def uint64 : FieldType ρ := number 64 id id sizeOfVarint
def int64 : FieldType ρ := number 64 id id sizeOfVarint
def sint64 : FieldType ρ := number 64 zigzag unzigzag sizeOfZigzag

def uint32 : FieldType ρ :=
  number 32 (·.setWidth 64) id fun v => sizeOfVarint (v.setWidth 64)

/-- Also the type of an enumeration. -/
def int32 : FieldType ρ :=
  number 32 (·.signExtend 64) id fun v => sizeOfVarint (v.signExtend 64)

def sint32 : FieldType ρ :=
  number 32 (fun v => (zigzag v).setWidth 64) unzigzag fun v => sizeOfZigzag (v.signExtend 64)

def bool : FieldType ρ where
  Val := Bool
  zero := false
  wireType := 0
  write _ tag v b := if v then (b.back [1]).bind (·.putTag tag) else some b
  size _ tagSize v := if v then tagSize + 1 else 0
  read _ c := andThen (readVarint 64 c) fun v c => .ok (decide (v ≠ 0), c)

/-- A length-delimited record. -/
def writeBytes (tag src : List UInt8) (b : Writer) : Option Writer :=
  ((b.back src).bind (·.encodeVarint (BitVec.ofNat 64 src.length))).bind (·.putTag tag)

def sizeOfBytes (tagSize len : ℕ) : ℕ := tagSize + len + sizeOfVarint (BitVec.ofNat 64 len)

/-- A `string` or `bytes`. -/
def bytes : FieldType ρ where
  Val := List UInt8
  zero := []
  wireType := 2
  write _ tag v b := if v = [] then some b else writeBytes tag v b
  size _ tagSize v := if v = [] then 0 else sizeOfBytes tagSize v.length
  read _ c := readBytes c

/-- A `repeated string`. -/
def strings : FieldType ρ where
  Val := List (List UInt8)
  zero := []
  wireType := 2
  write _ tag v b := v.reverse.foldlM (fun b s => writeBytes tag s b) b
  size _ tagSize v := (v.map fun s => sizeOfBytes tagSize s.length).sum
  read v c := andThen (readBytes c) fun s c => .ok (v ++ [s], c)

/-- A nested message behind a pointer, which is merged into what is there. -/
def message (t : MsgType ρ) : FieldType ρ where
  Val := Option t.Msg
  Valid v := ∀ m ∈ v, t.Valid m
  zero := none
  wireType := 2
  write r tag v b :=
    match v with
    | none => some b
    | some m =>
      -- The message is written into `dAtA[:i]` and returns how much it has written.
      (Writer.inside (t.marshal r m) b).bind fun b' =>
        (b'.encodeVarint (BitVec.ofNat 64 (b.i - b'.i))).bind (·.putTag tag)
  size r tagSize v :=
    match v with
    | none => 0
    | some m => sizeOfBytes tagSize (t.size r m)
  read v c :=
    andThen (readBytes c) fun slice c =>
      match t.unmarshal (v.getD t.zero) slice with
      | .error e => .error e
      | .ok m => .ok (some m, c)

/-- An order in which each map is ranged over. -/
abbrev Range := (m : Map (List UInt8) (BitVec 64)) →
  { order : List (List UInt8) // Map.Enumerates order m }

/-- One entry of a `map<string, sint64>`. -/
def writeEntry (tag key : List UInt8) (value : BitVec 64) (b : Writer) : Option Writer := do
  let baseI := b.i
  let b ← b.encodeVarint (zigzag value)
  let b ← b.back [0x10]
  let b ← b.back key
  let b ← b.encodeVarint (BitVec.ofNat 64 key.length)
  let b ← b.back [0xa]
  let b ← b.encodeVarint (BitVec.ofNat 64 (baseI - b.i))
  b.putTag tag

def entrySize (key : List UInt8) (value : BitVec 64) : ℕ :=
  1 + key.length + sizeOfVarint (BitVec.ofNat 64 key.length) + 1 + sizeOfZigzag value

/-- The records of an entry up to `postIndex`. A key or a value may reach
beyond it, into what follows the entry. -/
def entryLoop : ℕ → ℕ → List UInt8 → BitVec 64 → Cursor → Except Err (List UInt8 × BitVec 64)
  | 0, _, key, value, _ => .ok (key, value)
  | fuel + 1, postIndex, key, value, c =>
    if postIndex ≤ c.pos then .ok (key, value)
    else
      andThen (readVarint 64 c) fun wire c' =>
        if fieldNum wire = 1 then
          andThen (readBytes c') fun key c => entryLoop fuel postIndex key value c
        else if fieldNum wire = 2 then
          andThen (readVarint 64 c') fun v c => entryLoop fuel postIndex key (unzigzag v) c
        else andThen (skipRecord c postIndex) fun _ c => entryLoop fuel postIndex key value c

/-- A `map<string, sint64>`. -/
def stringMap : FieldType Range where
  Val := Map (List UInt8) (BitVec 64)
  zero := ∅
  wireType := 2
  write range tag v b :=
    (range v).1.foldlM (fun b key => writeEntry tag key ((v.lookup key).getD 0) b) b
  size range tagSize v :=
    ((range v).1.map fun key =>
      let mapEntrySize := entrySize key ((v.lookup key).getD 0)
      mapEntrySize + tagSize + sizeOfVarint (BitVec.ofNat 64 mapEntrySize)).sum
  read v c :=
    andThen (readVarint 64 c) fun msglen c =>
      checkLen msglen c <|
        match entryLoop msglen.toNat (c.pos + msglen.toNat) [] 0 c with
        | .error e => .error e
        | .ok (key, value) => .ok (v.insert key value, c.advance msglen.toNat)

end FieldType

/-! ### Messages -/

/-- A field of a message: its number in the switch, its name in errors, the
bytes of its tag and their number as `SizeVT` has it. -/
structure Field (ρ : Type) where
  num : ℕ
  name : String
  tag : List UInt8
  tagSize : ℕ
  type : FieldType ρ

/-- The fields of a message by their numbers. -/
abbrev Table (ρ : Type) := ℕ → Option (Field ρ)

section Message

variable {ρ : Type} [Protohelpers]

/-- The value that stands at a number. -/
def Slot : Option (Field ρ) → Type
  | none => Unit
  | some f => f.type.Val

namespace Slot

def Valid : (o : Option (Field ρ)) → Slot o → Prop
  | none, _ => True
  | some f, v => f.type.Valid v

def zero : (o : Option (Field ρ)) → Slot o
  | none => ()
  | some f => f.type.zero

def write (r : ρ) : (o : Option (Field ρ)) → Slot o → Writer → Option Writer
  | none, _, b => some b
  | some f, v, b => f.type.write r f.tag v b

def size (r : ρ) : (o : Option (Field ρ)) → Slot o → ℕ
  | none, _ => 0
  | some f, v => f.type.size r f.tagSize v

/-- One record, which begins at `c` and whose tag ends at `c'`: the value at
its number after it, and the bytes of unknown fields. -/
def read (wireType : ℕ) (unknown : List UInt8) (c c' : Cursor) :
    (o : Option (Field ρ)) → Slot o → Except Err ((Slot o × List UInt8) × Cursor)
  | none, v => andThen (skipRecord c c.len) fun record c => .ok ((v, unknown ++ record), c)
  | some f, v =>
    if wireType ≠ f.type.wireType then .error (.wrongWireType wireType f.name)
    else andThen (f.type.read v c') fun v c => .ok ((v, unknown), c)

end Slot

/-- Bytes that are read as a tag which `UnmarshalVT` accepts: it ends no group,
and its number is `n` and positive. -/
structure IsTag (n : ℕ) (wire : BitVec 64) (tag : List UInt8) : Prop where
  yields : Yields (readVarint 64) tag wire
  wireType_ne : wireType wire ≠ 4
  num_pos : 0 < (fieldNum wire).toInt
  num_eq : (fieldNum wire).toNat = n

/-- A record that the loop of `UnmarshalVT` keeps as it is. -/
def UnknownRecord (F : Table ρ) (record : List UInt8) : Prop :=
  IsRecord record ∧ ∃ n wire tag payload, record = tag ++ payload ∧ IsTag n wire tag ∧ F n = none

structure Message (F : Table ρ) where
  val : (n : ℕ) → Slot (F n)
  /-- `unknownFields` -/
  unknown : List UInt8

namespace Message

variable {F : Table ρ}

/-- What is kept of unknown fields is a sequence of records. -/
def Valid (m : Message F) : Prop :=
  (∀ n, Slot.Valid (F n) (m.val n)) ∧
    ∃ records : List (List UInt8), m.unknown = records.flatten ∧ ∀ x ∈ records, UnknownRecord F x

/-- A new message. -/
def zero (F : Table ρ) : Message F := ⟨fun n => Slot.zero (F n), []⟩

/-- `MarshalToSizedBufferVT`: unknown fields first, then from the last field to
the first. -/
def marshal (nums : List ℕ) (r : ρ) (m : Message F) (b : Writer) : Option Writer :=
  (b.back m.unknown).bind fun b =>
    nums.reverse.foldlM (fun b n => Slot.write r (F n) (m.val n) b) b

/-- `SizeVT` -/
def size (nums : List ℕ) (r : ρ) (m : Message F) : ℕ :=
  (nums.map fun n => Slot.size r (F n) (m.val n)).sum + m.unknown.length

/-- One round of the loop of `UnmarshalVT`. -/
def readRecord (name : String) (m : Message F) (c : Cursor) : Except Err (Message F × Cursor) :=
  andThen (readVarint 64 c) fun wire c' =>
    if wireType wire = 4 then .error (.endGroup name)
    else if (fieldNum wire).toInt ≤ 0 then
      .error (.illegalTag name (fieldNum wire).toInt wire.toNat)
    else
      let n := (fieldNum wire).toNat
      andThen (Slot.read (wireType wire) m.unknown c c' (F n) (m.val n)) fun (v, unknown) c =>
        .ok (⟨Function.update m.val n v, unknown⟩, c)

/-- The loop of `UnmarshalVT`. A record takes a byte at least. -/
def unmarshalLoop (name : String) : ℕ → Message F → Cursor → Except Err (Message F)
  | 0, m, _ => .ok m
  | fuel + 1, m, c =>
    if c.rest = [] then .ok m
    else andThen (readRecord name m c) fun m c => unmarshalLoop name fuel m c

/-- `UnmarshalVT` -/
def unmarshal (name : String) (m : Message F) (bytes : List UInt8) : Except Err (Message F) :=
  unmarshalLoop name bytes.length m (Cursor.start bytes)

/-- The generated code of a message with these fields. -/
def type (name : String) (F : Table ρ) (nums : List ℕ) : MsgType ρ where
  Msg := Message F
  Valid := Message.Valid
  zero := Message.zero F
  marshal := Message.marshal nums
  size := Message.size nums
  unmarshal := Message.unmarshal name

end Message

/-- A message as it is declared: its name and its fields in the order of their
numbers. -/
structure Schema (ρ : Type) where
  name : String
  fields : List (Field ρ)

namespace Schema

def table (s : Schema ρ) : Table ρ := fun n => s.fields.find? fun f => f.num == n

def nums (s : Schema ρ) : List ℕ := s.fields.map (·.num)

def type (s : Schema ρ) : MsgType ρ := Message.type s.name s.table s.nums

end Schema

end Message

namespace MsgType

variable {ρ : Type} (t : MsgType ρ)

/-- `MarshalToSizedBufferVT(dAtA)`: the buffer after it, and how many bytes of
it are said to be written. -/
def marshalToSizedBuffer (r : ρ) (m : t.Msg) (dAtA : List UInt8) : Option (List UInt8 × ℕ) :=
  (t.marshal r m ⟨dAtA, dAtA.length⟩).map fun b => (b.buf, dAtA.length - b.i)

/-- `MarshalVT`. The runtime may choose differently for the size. -/
def marshalVT (r r' : ρ) (m : t.Msg) : Option (List UInt8) :=
  (t.marshalToSizedBuffer r m (List.replicate (t.size r' m) 0)).map fun (buf, n) => buf.take n

end MsgType

end GameCluster.Lib.Wire
