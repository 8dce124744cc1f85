import GameCluster.Lib.Bytes

/-!
Messages on the bus (`gnet/gmsg/message.go`). A frame is a four-byte length, a
head of fixed size and the data, and a publication is a concatenation of
frames. Encoding writes at fixed positions of a slice that may hold anything;
decoding walks the buffer with a running offset.

Of a `Message`, the field `U` is left out, which neither direction touches.
-/

namespace GameCluster.Bus

open Lib

def frameLenSize : Nat := 4
def frameBodyHeadSize : Nat := 4 + 8 + 8 + 1 + 1 + 1 + 1 + 1

structure Head where
  actorID : UInt64
  sesID : UInt64
  msgID : UInt32
  flag : UInt8
  fromSer : UInt8
  fromSerID : UInt8
  toSer : UInt8
  toSerID : UInt8
  deriving DecidableEq, Repr

structure Message where
  head : Head
  data : List UInt8
  reply : String := ""
  deriving DecidableEq, Repr

/-- `binary.LittleEndian.PutUint32(dst[off:], v)`. A slice that is too short
panics, which is `none`. -/
def putUint32 (dst : List UInt8) (off : Nat) (v : UInt32) : Option (List UInt8) :=
  Bytes.put dst off (Bytes.le 4 v.toNat)

def putUint64 (dst : List UInt8) (off : Nat) (v : UInt64) : Option (List UInt8) :=
  Bytes.put dst off (Bytes.le 8 v.toNat)

/-- `dst[off] = v`. -/
def putByte (dst : List UInt8) (off : Nat) (v : UInt8) : Option (List UInt8) :=
  Bytes.put dst off [v]

def getUint32 (buf : List UInt8) (off : Nat) : UInt32 :=
  UInt32.ofNat (Bytes.get 4 (buf.drop off))

def getUint64 (buf : List UInt8) (off : Nat) : UInt64 :=
  UInt64.ofNat (Bytes.get 8 (buf.drop off))

def getByte (buf : List UInt8) (off : Nat) : UInt8 := UInt8.ofNat (Bytes.get 1 (buf.drop off))

/-- `Head.EncodeTo`. -/
def Head.encodeTo (head : Head) (dst : List UInt8) (bodySize : Nat) : Option (List UInt8) := do
  let dst ← putUint32 dst 0 (UInt32.ofNat bodySize)
  let dst ← putUint32 dst 4 head.msgID
  let dst ← putUint64 dst 8 head.actorID
  let dst ← putUint64 dst 16 head.sesID
  let dst ← putByte dst 24 head.fromSer
  let dst ← putByte dst 25 head.fromSerID
  let dst ← putByte dst 26 head.toSer
  let dst ← putByte dst 27 head.toSerID
  putByte dst 28 head.flag

/-- `Head.Decode`. No read is out of bounds after the check of the length. -/
def Head.decode (buf : List UInt8) : Except String Head :=
  if buf.length < frameBodyHeadSize then
    .error "decode error: buffer too small for header"
  else
    let offset := 0
    let msgID := getUint32 buf offset
    let offset := offset + 4
    let actorID := getUint64 buf offset
    let offset := offset + 8
    let sesID := getUint64 buf offset
    let offset := offset + 8
    let fromSer := getByte buf offset
    let offset := offset + 1
    let fromSerID := getByte buf offset
    let offset := offset + 1
    let toSer := getByte buf offset
    let offset := offset + 1
    let toSerID := getByte buf offset
    let offset := offset + 1
    let flag := getByte buf offset
    .ok { actorID, sesID, msgID, flag, fromSer, fromSerID, toSer, toSerID }

/-- `Message.EncodeTo`. The copy stops at the end of the slice. -/
def Message.encodeTo (m : Message) (dst : List UInt8) (bodySize : Nat) :
    Option (List UInt8) := do
  let dst ← m.head.encodeTo dst bodySize
  let start := frameLenSize + frameBodyHeadSize
  Bytes.put dst start (m.data.take (dst.length - start))

/-- `Message.Decode`, into a zero `Message`. -/
def Message.decode (buf : List UInt8) : Except String Message :=
  if buf.length < frameBodyHeadSize then
    .error "decode error: buffer too small for header"
  else
    match Head.decode buf with
    | .error err => .error err
    | .ok head => .ok { head, data := buf.drop frameBodyHeadSize }

/-- What `DecodeManyAndHandle` does: the messages passed to the callback in
order, how many sub-messages it skipped, and the error it returns. -/
structure Handled where
  delivered : List Message
  skipped : Nat
  err : Option String

/-- The loop of `DecodeManyAndHandle`. -/
def decodeLoop (buf : List UInt8) (reply : String) (offset : Nat) : Handled :=
  if offset < buf.length then
    if buf.length - offset < 4 then
      ⟨[], 0, some "batch decode error: missing length prefix"⟩
    else
      let subSize := (getUint32 buf offset).toNat
      let offset' := offset + 4
      if buf.length - offset' < subSize then
        ⟨[], 0, some "batch decode error: buffer too small for sub-message"⟩
      else
        let rest := decodeLoop buf reply (offset' + subSize)
        match Message.decode ((buf.drop offset').take subSize) with
        | .error _ => { rest with skipped := rest.skipped + 1 }
        | .ok msg => { rest with delivered := { msg with reply } :: rest.delivered }
  else ⟨[], 0, none⟩
termination_by buf.length - offset

def decodeManyAndHandle (buf : List UInt8) (reply : String) : Handled := decodeLoop buf reply 0

/-- The size `Add` and the frame's length prefix count. -/
def Message.bodySize (m : Message) : Nat := frameBodyHeadSize + m.data.length

def Message.frameSize (m : Message) : Nat := frameLenSize + m.bodySize

/-- The bytes of a head, without the length prefix. -/
def Head.bytes (h : Head) : List UInt8 :=
  Bytes.le 4 h.msgID.toNat ++ Bytes.le 8 h.actorID.toNat ++ Bytes.le 8 h.sesID.toNat ++
    [h.fromSer] ++ [h.fromSerID] ++ [h.toSer] ++ [h.toSerID] ++ [h.flag]

/-- The frame of a message: what `EncodeTo` is meant to write. -/
def Message.frame (m : Message) : List UInt8 :=
  Bytes.le 4 m.bodySize ++ m.head.bytes ++ m.data

theorem Head.length_bytes (h : Head) : h.bytes.length = frameBodyHeadSize := by
  simp [Head.bytes, frameBodyHeadSize]

theorem Message.length_frame (m : Message) : m.frame.length = m.frameSize := by
  simp only [Message.frame, List.length_append, Bytes.length_le, Head.length_bytes]
  simp only [Message.frameSize, Message.bodySize, frameLenSize]
  omega

/-- `EncodeTo` overwrites the whole slice, whatever was in it. -/
theorem Head.encodeTo_eq (h : Head) {dst : List UInt8} (bodySize : Nat)
    (hlen : frameLenSize + frameBodyHeadSize ≤ dst.length) :
    h.encodeTo dst bodySize =
      some (Bytes.le 4 bodySize ++ h.bytes ++ dst.drop (frameLenSize + frameBodyHeadSize)) := by
  simp only [frameLenSize, frameBodyHeadSize] at hlen
  have hsize : Bytes.le 4 (UInt32.ofNat bodySize).toNat = Bytes.le 4 bodySize := by
    rw [UInt32.toNat_ofNat']
    exact Bytes.le_mod 4 bodySize
  have hput : ∀ {done src : List UInt8} {off : Nat} (next : Nat), done.length = off →
      off + src.length = next → next ≤ dst.length →
      Bytes.put (done ++ dst.drop off) off src = some (done ++ src ++ dst.drop next) := by
    intro done src off next hoff hnext hfits
    subst hnext
    exact Bytes.put_next hoff hfits
  have hstart : dst = [] ++ dst.drop 0 := rfl
  rw [Head.encodeTo, putUint32, hsize]
  conv_lhs => rw [hstart]
  simp only [putUint32, putUint64, putByte, Option.bind_eq_bind]
  -- Each write begins where the one before it ended.
  rw [hput 4, Option.bind_some, hput 8, Option.bind_some, hput 16, Option.bind_some, hput 24,
    Option.bind_some, hput 25, Option.bind_some, hput 26, Option.bind_some, hput 27,
    Option.bind_some, hput 28, Option.bind_some, hput 29]
  · simp [Head.bytes, frameLenSize, frameBodyHeadSize]
  all_goals first
    | omega
    | simp

theorem Message.encodeTo_eq (m : Message) {dst : List UInt8} (h : dst.length = m.frameSize) :
    m.encodeTo dst m.bodySize = some m.frame := by
  have hlen : frameLenSize + frameBodyHeadSize + m.data.length = dst.length := by
    rw [h, Message.frameSize, Message.bodySize, Nat.add_assoc]
  have hdone : (Bytes.le 4 m.bodySize ++ m.head.bytes).length =
      frameLenSize + frameBodyHeadSize := by
    rw [List.length_append, Bytes.length_le, Head.length_bytes, frameLenSize]
  rw [Message.encodeTo, Head.encodeTo_eq m.head m.bodySize (by omega), Option.bind_eq_bind,
    Option.bind_some]
  have htake : m.data.take ((Bytes.le 4 m.bodySize ++ m.head.bytes ++
      dst.drop (frameLenSize + frameBodyHeadSize)).length -
        (frameLenSize + frameBodyHeadSize)) = m.data := by
    apply List.take_of_length_le
    rw [List.length_append, hdone, List.length_drop]
    omega
  simp only [htake]
  rw [Bytes.put_next hdone (by omega), List.drop_eq_nil_of_le (by omega),
    List.append_nil, Message.frame]

variable {buf rest : List UInt8} {off : Nat}

theorem getUint32_le {v : UInt32} (h : buf.drop off = Bytes.le 4 v.toNat ++ rest) :
    getUint32 buf off = v := by
  have hlt : v.toNat < 256 ^ 4 := v.toNat_lt
  rw [getUint32, h, Bytes.get_le_append, Nat.mod_eq_of_lt hlt, UInt32.ofNat_toNat]

theorem getUint64_le {v : UInt64} (h : buf.drop off = Bytes.le 8 v.toNat ++ rest) :
    getUint64 buf off = v := by
  have hlt : v.toNat < 256 ^ 8 := v.toNat_lt
  rw [getUint64, h, Bytes.get_le_append, Nat.mod_eq_of_lt hlt, UInt64.ofNat_toNat]

theorem getByte_cons {v : UInt8} (h : buf.drop off = v :: rest) : getByte buf off = v := by
  rw [getByte, h]
  simp [Bytes.get, Bytes.ofLe]

theorem Head.decode_bytes (h : Head) (data : List UInt8) :
    Head.decode (h.bytes ++ data) = .ok h := by
  have hlen : ¬(h.bytes ++ data).length < frameBodyHeadSize := by
    rw [List.length_append, Head.length_bytes]
    omega
  have hbytes : h.bytes ++ data = Bytes.le 4 h.msgID.toNat ++ (Bytes.le 8 h.actorID.toNat ++
      (Bytes.le 8 h.sesID.toNat ++ h.fromSer :: h.fromSerID :: h.toSer :: h.toSerID ::
        h.flag :: data)) := by
    simp [Head.bytes]
  have hactor : (h.bytes ++ data).drop 4 = Bytes.le 8 h.actorID.toNat ++
      (Bytes.le 8 h.sesID.toNat ++ h.fromSer :: h.fromSerID :: h.toSer :: h.toSerID ::
        h.flag :: data) := by
    rw [hbytes, Bytes.drop_le_append _ _ (Nat.le_refl 4)]
    rfl
  have hses : (h.bytes ++ data).drop 12 = Bytes.le 8 h.sesID.toNat ++
      h.fromSer :: h.fromSerID :: h.toSer :: h.toSerID :: h.flag :: data := by
    rw [hbytes, Bytes.drop_le_append _ _ (by omega), Bytes.drop_le_append _ _ (by omega)]
    rfl
  have htail : ∀ k, (h.bytes ++ data).drop (20 + k) =
      (h.fromSer :: h.fromSerID :: h.toSer :: h.toSerID :: h.flag :: data).drop k := by
    intro k
    rw [hbytes, Bytes.drop_le_append _ _ (by omega), Bytes.drop_le_append _ _ (by omega),
      Bytes.drop_le_append _ _ (by omega)]
    congr 1
    omega
  have hmsg : (h.bytes ++ data).drop 0 = _ := hbytes
  rw [Head.decode, if_neg hlen]
  simp only [Nat.zero_add, Nat.reduceAdd, getUint32_le hmsg, getUint64_le hactor,
    getUint64_le hses, getByte_cons (htail 0), getByte_cons (htail 1), getByte_cons (htail 2),
    getByte_cons (htail 3), getByte_cons (htail 4)]

theorem le_getUint32 (h : off + 4 ≤ buf.length) :
    Bytes.le 4 (getUint32 buf off).toNat = (buf.drop off).take 4 := by
  have hlt : Bytes.get 4 (buf.drop off) < 2 ^ 32 := Bytes.get_lt 4 _
  rw [getUint32, UInt32.toNat_ofNat', Nat.mod_eq_of_lt hlt]
  exact Bytes.le_get (by rw [List.length_drop]; omega)

theorem le_getUint64 (h : off + 8 ≤ buf.length) :
    Bytes.le 8 (getUint64 buf off).toNat = (buf.drop off).take 8 := by
  have hlt : Bytes.get 8 (buf.drop off) < 2 ^ 64 := Bytes.get_lt 8 _
  rw [getUint64, UInt64.toNat_ofNat', Nat.mod_eq_of_lt hlt]
  exact Bytes.le_get (by rw [List.length_drop]; omega)

theorem singleton_getByte (h : off + 1 ≤ buf.length) :
    [getByte buf off] = (buf.drop off).take 1 := by
  have hle : Bytes.le 1 (Bytes.get 1 (buf.drop off)) = (buf.drop off).take 1 :=
    Bytes.le_get (by rw [List.length_drop]; omega)
  exact hle

/-- Decoding a head loses none of its bytes. -/
theorem Head.bytes_decode {h : Head} (hdec : Head.decode buf = .ok h) :
    frameBodyHeadSize ≤ buf.length ∧ h.bytes = buf.take frameBodyHeadSize := by
  unfold Head.decode at hdec
  split at hdec
  · cases hdec
  · rename_i hshort
    have hlen : frameBodyHeadSize ≤ buf.length := by omega
    refine ⟨hlen, ?_⟩
    simp only [frameBodyHeadSize] at hlen
    cases hdec
    simp only [Head.bytes, Nat.zero_add, Nat.reduceAdd]
    rw [le_getUint32 (by omega), le_getUint64 (by omega), le_getUint64 (by omega),
      singleton_getByte (by omega), singleton_getByte (by omega), singleton_getByte (by omega),
      singleton_getByte (by omega), singleton_getByte (by omega), List.drop_zero]
    simp only [← List.take_add, Nat.reduceAdd, frameBodyHeadSize]

theorem Message.decode_bytes (m : Message) :
    Message.decode (m.head.bytes ++ m.data) = .ok { m with reply := "" } := by
  have hlen : ¬(m.head.bytes ++ m.data).length < frameBodyHeadSize := by
    rw [List.length_append, Head.length_bytes]
    omega
  rw [Message.decode, if_neg hlen, Head.decode_bytes, ← Head.length_bytes m.head,
    List.drop_left]

theorem Message.bytes_decode {m : Message} (hdec : Message.decode buf = .ok m) :
    m.head.bytes ++ m.data = buf := by
  unfold Message.decode at hdec
  split at hdec
  · cases hdec
  · split at hdec
    · cases hdec
    · rename_i head hhead
      cases hdec
      rw [(Head.bytes_decode hhead).2]
      exact List.take_append_drop _ _

/-- A message as the callback sees it. -/
def Message.withReply (m : Message) (reply : String) : Message := { m with reply }

/-- The loop reads one frame and goes on behind it. -/
theorem decodeLoop_frame (m : Message) (hsize : m.bodySize < 2 ^ 32) (before rest : List UInt8)
    (reply : String) :
    decodeLoop (before ++ (m.frame ++ rest)) reply before.length =
      let tail := decodeLoop (before ++ (m.frame ++ rest)) reply (before ++ m.frame).length
      { tail with delivered := m.withReply reply :: tail.delivered } := by
  have hframe : m.frame.length = 4 + m.bodySize := m.length_frame
  have hlen : (before ++ (m.frame ++ rest)).length =
      before.length + (4 + m.bodySize + rest.length) := by
    rw [List.length_append, List.length_append, hframe]
  have hdrop : (before ++ (m.frame ++ rest)).drop before.length =
      Bytes.le 4 (UInt32.ofNat m.bodySize).toNat ++ (m.head.bytes ++ m.data ++ rest) := by
    rw [List.drop_left, UInt32.toNat_ofNat', Nat.mod_eq_of_lt hsize, Message.frame]
    simp only [List.append_assoc]
  have hsub : (getUint32 (before ++ (m.frame ++ rest)) before.length).toNat = m.bodySize := by
    rw [getUint32_le hdrop, UInt32.toNat_ofNat', Nat.mod_eq_of_lt hsize]
  have hbody : ((before ++ (m.frame ++ rest)).drop (before.length + 4)).take m.bodySize =
      m.head.bytes ++ m.data := by
    rw [← List.drop_drop, hdrop, Bytes.drop_le_append _ _ (Nat.le_refl 4), Nat.sub_self,
      List.drop_zero]
    apply List.take_left'
    rw [List.length_append, Head.length_bytes, Message.bodySize]
  rw [decodeLoop, if_pos (by omega), if_neg (by omega)]
  simp only [hsub]
  rw [if_neg (by omega), hbody, Message.decode_bytes]
  simp only [Message.withReply, List.length_append, hframe, Nat.add_assoc]

/-- The concatenation of the frames of some messages. -/
def frames (msgs : List Message) : List UInt8 := msgs.flatMap Message.frame

@[simp] theorem frames_nil : frames [] = [] := rfl

@[simp] theorem frames_cons (m : Message) (msgs : List Message) :
    frames (m :: msgs) = m.frame ++ frames msgs := rfl

@[simp] theorem frames_append (first second : List Message) :
    frames (first ++ second) = frames first ++ frames second :=
  List.flatMap_append

theorem decodeLoop_frames (msgs : List Message) (hsize : ∀ m ∈ msgs, m.bodySize < 2 ^ 32)
    (before : List UInt8) (reply : String) :
    decodeLoop (before ++ frames msgs) reply before.length =
      ⟨msgs.map (·.withReply reply), 0, none⟩ := by
  induction msgs generalizing before with
  | nil =>
    rw [decodeLoop, if_neg (by simp)]
    rfl
  | cons m rest ih =>
    have hrest := ih (fun m' hm' => hsize m' (List.mem_cons_of_mem _ hm')) (before ++ m.frame)
    rw [List.append_assoc] at hrest
    rw [frames_cons, decodeLoop_frame m (hsize m (List.mem_cons_self ..)), hrest]
    rfl

theorem decode_frames (msgs : List Message) (hsize : ∀ m ∈ msgs, m.bodySize < 2 ^ 32)
    (reply : String) :
    decodeManyAndHandle (frames msgs) reply = ⟨msgs.map (·.withReply reply), 0, none⟩ :=
  decodeLoop_frames msgs hsize [] reply

/-- A buffer that is decoded without an error and without a skip is the
concatenation of the frames of what was delivered. -/
theorem frames_decodeLoop (buf : List UInt8) (reply : String) (offset : Nat)
    (herr : (decodeLoop buf reply offset).err = none)
    (hskip : (decodeLoop buf reply offset).skipped = 0) :
    frames (decodeLoop buf reply offset).delivered = buf.drop offset ∧
      ∀ m ∈ (decodeLoop buf reply offset).delivered, m.bodySize < 2 ^ 32 := by
  fun_induction decodeLoop buf reply offset with
  | case1 | case2 => simp at herr
  | case3 => simp at hskip
  | case4 offset hlt hfour subSize offset' hsub rest msg hdec ih =>
    obtain ⟨hrest, hsizes⟩ := ih herr hskip
    have hbody := Message.bytes_decode hdec
    have hsize : msg.bodySize = subSize := by
      have hlen := congrArg List.length hbody
      rw [List.length_append, Head.length_bytes, List.length_take, List.length_drop] at hlen
      rw [Message.bodySize, hlen]
      omega
    have hprefix : Bytes.le 4 msg.bodySize = (buf.drop offset).take 4 := by
      rw [hsize]
      exact le_getUint32 (by omega)
    constructor
    · change Bytes.le 4 msg.bodySize ++ msg.head.bytes ++ msg.data ++ frames rest.delivered = _
      have hbehind : buf.drop (offset' + subSize) = (buf.drop offset').drop subSize :=
        List.drop_drop.symm
      have hnext : buf.drop offset' = (buf.drop offset).drop 4 := List.drop_drop.symm
      rw [hrest, List.append_assoc (Bytes.le 4 _), hbody, hprefix, List.append_assoc, hbehind,
        List.take_append_drop, hnext, List.take_append_drop]
    · intro m hm
      rcases List.mem_cons.mp hm with rfl | hold
      · change msg.bodySize < 2 ^ 32
        rw [hsize]
        exact UInt32.toNat_lt _
      · exact hsizes m hold
  | case5 offset hge =>
    refine ⟨?_, by simp⟩
    rw [List.drop_eq_nil_of_le (by omega)]
    rfl

/-- The buffer that `RpcCall` sends: `pooled` is the array behind the pool's
buffer, `body` the encoding of the request, which `MarshalToSizedBufferVT`
writes to the end of its slice. -/
def rpcFrame (pooled : List UInt8) (head : Head) (body : List UInt8) : Option (List UInt8) := do
  let bodySize := frameBodyHeadSize + body.length
  let totalSize := bodySize + frameLenSize
  let buf := if pooled.length < totalSize then List.replicate totalSize 0 else pooled.take totalSize
  let buf ← head.encodeTo buf bodySize
  let bodyStart := frameLenSize + frameBodyHeadSize
  let buf ← Bytes.put buf (buf.length - body.length) body
  some (buf.take (bodyStart + body.length))

/-- The head that `RpcCall` fills in. -/
def rpcHead (serType serID toSer toSerID : UInt8) (msgID : UInt32) (actorID : UInt64) : Head where
  actorID := actorID
  sesID := 0
  msgID := msgID
  flag := 0
  fromSer := serType
  fromSerID := serID
  toSer := toSer
  toSerID := toSerID

theorem rpcFrame_eq (pooled : List UInt8) (head : Head) (body : List UInt8) :
    rpcFrame pooled head body = some (Message.frame ⟨head, body, ""⟩) := by
  have hbuf : ∃ dst : List UInt8, dst.length = frameBodyHeadSize + body.length + frameLenSize ∧
      (if pooled.length < frameBodyHeadSize + body.length + frameLenSize then
        List.replicate (frameBodyHeadSize + body.length + frameLenSize) 0
      else pooled.take (frameBodyHeadSize + body.length + frameLenSize)) = dst := by
    split
    · exact ⟨_, List.length_replicate, rfl⟩
    · exact ⟨_, List.length_take_of_le (by omega), rfl⟩
  obtain ⟨dst, hlen, hdst⟩ := hbuf
  have hdone : (Bytes.le 4 (frameBodyHeadSize + body.length) ++ head.bytes).length =
      frameLenSize + frameBodyHeadSize := by
    rw [List.length_append, Bytes.length_le, Head.length_bytes, frameLenSize]
  have hend : (Bytes.le 4 (frameBodyHeadSize + body.length) ++ head.bytes ++
      dst.drop (frameLenSize + frameBodyHeadSize)).length - body.length =
      frameLenSize + frameBodyHeadSize := by
    rw [List.length_append, hdone, List.length_drop]
    omega
  have hframe : (Message.frame ⟨head, body, ""⟩).length =
      frameLenSize + frameBodyHeadSize + body.length := by
    rw [Message.length_frame, Message.frameSize, Message.bodySize, Nat.add_assoc]
  simp only [rpcFrame, hdst]
  rw [Head.encodeTo_eq head _ (by omega), Option.bind_eq_bind, Option.bind_some]
  simp only [hend]
  rw [Bytes.put_next hdone (by omega), Option.bind_some,
    List.drop_eq_nil_of_le (by omega), List.append_nil]
  congr 1
  exact List.take_of_length_le (le_of_eq hframe)

/-- What is written is what is read. `EncodeTo` writes the frame of a message
into any slice of its size, decoding a concatenation of frames delivers the
messages in order, a buffer decoded without error and skip is the concatenation
of the frames of what was delivered, and `RpcCall` sends such a frame. -/
theorem bus_frame_round_trip (reply : String) :
    (∀ (m : Message) (dst : List UInt8), dst.length = frameLenSize + m.bodySize →
      m.encodeTo dst m.bodySize = some m.frame) ∧
    (∀ msgs : List Message, (∀ m ∈ msgs, frameBodyHeadSize + m.data.length < 2 ^ 32) →
      decodeManyAndHandle (frames msgs) reply = ⟨msgs.map (·.withReply reply), 0, none⟩) ∧
    (∀ buf : List UInt8, (decodeManyAndHandle buf reply).err = none →
      (decodeManyAndHandle buf reply).skipped = 0 →
      frames (decodeManyAndHandle buf reply).delivered = buf ∧
        ∀ m ∈ (decodeManyAndHandle buf reply).delivered, m.bodySize < 2 ^ 32) ∧
    ∀ (pooled body : List UInt8) (serType serID toSer toSerID : UInt8) (msgID : UInt32)
      (actorID : UInt64),
      rpcFrame pooled (rpcHead serType serID toSer toSerID msgID actorID) body =
        some (Message.frame ⟨rpcHead serType serID toSer toSerID msgID actorID, body, ""⟩) := by
  refine ⟨?_, ?_, ?_, ?_⟩
  · intro m dst hdst
    exact m.encodeTo_eq hdst
  · intro msgs hsize
    exact decode_frames msgs hsize reply
  · intro buf herr hskip
    exact frames_decodeLoop buf reply 0 herr hskip
  · intro pooled body serType serID toSer toSerID msgID actorID
    exact rpcFrame_eq pooled _ body

theorem twoMessages_round_trip :
    decodeManyAndHandle (frames [⟨rpcHead 2 1 3 1 77 9, [1, 2, 3], ""⟩,
        ⟨rpcHead 3 1 2 1 78 0, [], ""⟩]) "r" =
      ⟨[⟨rpcHead 2 1 3 1 77 9, [1, 2, 3], "r"⟩, ⟨rpcHead 3 1 2 1 78 0, [], "r"⟩], 0, none⟩ :=
  (bus_frame_round_trip "r").2.1 _ (by decide)

end GameCluster.Bus
