import GameCluster.Bus.Frame
import GameCluster.Lib.Framing

/-!
`DecodeManyAndHandle` on arbitrary bytes. The decoder is stated a second time
with every index and slice expression of the source checked against the bounds,
where a panic is `none`, and never panics. What it does is then read off the one
way in which the bytes are frames: it calls back for the bodies that have room
for a head, skips the others, and reports an error if a frame is cut at the end.
-/

namespace GameCluster.Bus

open Lib Lib.Framing

/-- `buf[off:]`. -/
def sliceFrom (buf : List UInt8) (off : Nat) : Option (List UInt8) :=
  if off ≤ buf.length then some (buf.drop off) else none

/-- `buf[i:j]`. -/
def slice (buf : List UInt8) (i j : Nat) : Option (List UInt8) :=
  if i ≤ j ∧ j ≤ buf.length then some ((buf.drop i).take (j - i)) else none

/-- `binary.LittleEndian.Uint32`. -/
def uint32 (b : List UInt8) : Option UInt32 :=
  if 4 ≤ b.length then some (getUint32 b 0) else none

/-- `binary.LittleEndian.Uint64`. -/
def uint64 (b : List UInt8) : Option UInt64 :=
  if 8 ≤ b.length then some (getUint64 b 0) else none

/-- `Head.Decode` with its bounds checks. -/
def Head.decodeBounded (buf : List UInt8) : Option (Except String Head) :=
  if buf.length < frameBodyHeadSize then
    some (.error "decode error: buffer too small for header")
  else do
    let offset := 0
    let msgID ← (sliceFrom buf offset).bind uint32
    let offset := offset + 4
    let actorID ← (sliceFrom buf offset).bind uint64
    let offset := offset + 8
    let sesID ← (sliceFrom buf offset).bind uint64
    let offset := offset + 8
    let fromSer ← buf[offset]?
    let offset := offset + 1
    let fromSerID ← buf[offset]?
    let offset := offset + 1
    let toSer ← buf[offset]?
    let offset := offset + 1
    let toSerID ← buf[offset]?
    let offset := offset + 1
    let flag ← buf[offset]?
    some (.ok { actorID, sesID, msgID, flag, fromSer, fromSerID, toSer, toSerID })

/-- `Message.Decode` with its bounds checks. -/
def Message.decodeBounded (buf : List UInt8) : Option (Except String Message) :=
  if buf.length < frameBodyHeadSize then
    some (.error "decode error: buffer too small for header")
  else do
    match ← Head.decodeBounded buf with
    | .error err => some (.error err)
    | .ok head =>
      let data ← sliceFrom buf frameBodyHeadSize
      some (.ok { head, data })

/-- The loop of `DecodeManyAndHandle` with its bounds checks. -/
def decodeLoopBounded (buf : List UInt8) (reply : String) (offset : Nat) : Option Handled :=
  if offset < buf.length then
    if buf.length - offset < 4 then
      some ⟨[], 0, some "batch decode error: missing length prefix"⟩
    else
      ((sliceFrom buf offset).bind uint32).bind fun size =>
        let subSize := size.toNat
        let offset' := offset + 4
        if buf.length - offset' < subSize then
          some ⟨[], 0, some "batch decode error: buffer too small for sub-message"⟩
        else
          (slice buf offset' (offset' + subSize)).bind fun subBuf =>
            (Message.decodeBounded subBuf).bind fun msg =>
              (decodeLoopBounded buf reply (offset' + subSize)).map fun rest =>
                match msg with
                | .error _ => { rest with skipped := rest.skipped + 1 }
                | .ok msg => { rest with delivered := { msg with reply } :: rest.delivered }
  else some ⟨[], 0, none⟩
termination_by buf.length - offset

section Bounds

variable {buf : List UInt8} {off : Nat}

theorem sliceFrom_uint32 (h : off + 4 ≤ buf.length) :
    (sliceFrom buf off).bind uint32 = some (getUint32 buf off) := by
  rw [sliceFrom, if_pos (by omega), Option.bind_some, uint32,
    if_pos (by rw [List.length_drop]; omega)]
  rfl

theorem sliceFrom_uint64 (h : off + 8 ≤ buf.length) :
    (sliceFrom buf off).bind uint64 = some (getUint64 buf off) := by
  rw [sliceFrom, if_pos (by omega), Option.bind_some, uint64,
    if_pos (by rw [List.length_drop]; omega)]
  rfl

theorem getElem?_getByte (h : off + 1 ≤ buf.length) : buf[off]? = some (getByte buf off) := by
  have hbyte := singleton_getByte h
  rw [List.drop_eq_getElem_cons (by omega), List.take_succ_cons, List.take_zero,
    List.singleton_inj] at hbyte
  rw [hbyte]
  exact List.getElem?_eq_getElem (by omega)

theorem Head.decodeBounded_eq (buf : List UInt8) :
    Head.decodeBounded buf = some (Head.decode buf) := by
  unfold Head.decodeBounded Head.decode
  split
  · rfl
  · rename_i hlen
    have hlen : 25 ≤ buf.length := Nat.le_of_not_lt hlen
    simp only [Option.bind_eq_bind, Nat.zero_add, Nat.reduceAdd]
    rw [sliceFrom_uint32 (by omega), Option.bind_some, sliceFrom_uint64 (by omega),
      Option.bind_some, sliceFrom_uint64 (by omega), Option.bind_some, getElem?_getByte (by omega),
      Option.bind_some, getElem?_getByte (by omega), Option.bind_some, getElem?_getByte (by omega),
      Option.bind_some, getElem?_getByte (by omega), Option.bind_some, getElem?_getByte (by omega),
      Option.bind_some]

theorem Message.decodeBounded_eq (buf : List UInt8) :
    Message.decodeBounded buf = some (Message.decode buf) := by
  unfold Message.decodeBounded Message.decode
  rw [Head.decodeBounded_eq, Option.bind_eq_bind, Option.bind_some]
  split
  · rfl
  · rename_i hlen
    cases Head.decode buf with
    | error err => rfl
    | ok head =>
      rw [sliceFrom, if_pos (Nat.le_of_not_lt hlen)]
      rfl

theorem slice_add {size : Nat} (h : off + size ≤ buf.length) :
    slice buf off (off + size) = some ((buf.drop off).take size) := by
  rw [slice, if_pos ⟨Nat.le_add_right off size, h⟩, Nat.add_sub_cancel_left]

/-- No index or slice expression of the decoder is out of bounds. -/
theorem decodeLoopBounded_eq (buf : List UInt8) (reply : String) (offset : Nat) :
    decodeLoopBounded buf reply offset = some (decodeLoop buf reply offset) := by
  fun_induction decodeLoop buf reply offset with
  | case1 offset hlt hfour => rw [decodeLoopBounded, if_pos hlt, if_pos hfour]
  | case2 offset hlt hfour subSize offset' hsub =>
    rw [decodeLoopBounded, if_pos hlt, if_neg hfour, sliceFrom_uint32 (by omega),
      Option.bind_some]
    exact if_pos hsub
  | case3 offset hlt hfour subSize offset' hsub rest err hdec ih
  | case4 offset hlt hfour subSize offset' hsub rest msg hdec ih =>
    rw [decodeLoopBounded, if_pos hlt, if_neg hfour, sliceFrom_uint32 (by omega),
      Option.bind_some]
    simp only
    rw [if_neg hsub, slice_add (by omega), Option.bind_some, Message.decodeBounded_eq, hdec,
      Option.bind_some, ih, Option.map_some]
  | case5 offset hge => rw [decodeLoopBounded, if_neg hge]

end Bounds

/-- What `DecodeManyAndHandle` returns for what is left behind the last whole
frame. -/
def tailError (tail : List UInt8) : Option String :=
  if tail = [] then none
  else if tail.length < 4 then some "batch decode error: missing length prefix"
  else some "batch decode error: buffer too small for sub-message"

/-- What is handled of the frames of some bodies and a tail. A message is told by
its bytes and its reply subject. -/
structure Handles (reply : String) (bodies : List (List UInt8)) (tail : List UInt8)
    (h : Handled) : Prop where
  delivered : List.Forall₂ (fun m body => m.head.bytes ++ m.data = body ∧ m.reply = reply)
    h.delivered (bodies.filter fun body => frameBodyHeadSize ≤ body.length)
  skipped : h.skipped = (bodies.filter fun body => body.length < frameBodyHeadSize).length
  err : h.err = tailError tail

theorem Message.decode_ok_length {buf : List UInt8} {m : Message}
    (h : Message.decode buf = .ok m) : frameBodyHeadSize ≤ buf.length := by
  rw [← Message.bytes_decode h, List.length_append, Head.length_bytes]
  omega

theorem Message.decode_error_length {buf : List UInt8} {err : String}
    (h : Message.decode buf = .error err) : buf.length < frameBodyHeadSize := by
  by_contra hlen
  simp [Message.decode, Head.decode, hlen] at h

/-- The loop goes on behind a whole frame. -/
theorem drop_eq_frame {buf : List UInt8} {offset : Nat}
    (h : offset + 4 + (getUint32 buf offset).toNat ≤ buf.length) :
    buf.drop offset =
      frame 4 ((buf.drop (offset + 4)).take (getUint32 buf offset).toNat) ++
        buf.drop (offset + 4 + (getUint32 buf offset).toNat) := by
  have hlen : ((buf.drop (offset + 4)).take (getUint32 buf offset).toNat).length =
      (getUint32 buf offset).toNat := by
    rw [List.length_take_of_le]
    rw [List.length_drop]
    omega
  have hnext : buf.drop (offset + 4) = (buf.drop offset).drop 4 := List.drop_drop.symm
  have hbehind : buf.drop (offset + 4 + (getUint32 buf offset).toNat) =
      (buf.drop (offset + 4)).drop (getUint32 buf offset).toNat := List.drop_drop.symm
  rw [frame, hlen, le_getUint32 (by omega), List.append_assoc, hbehind, List.take_append_drop,
    hnext, List.take_append_drop]

theorem toNat_getUint32 (buf : List UInt8) (off : Nat) :
    (getUint32 buf off).toNat = Bytes.get 4 (buf.drop off) := by
  have hlt : Bytes.get 4 (buf.drop off) < 2 ^ 32 := Bytes.get_lt 4 _
  rw [getUint32, UInt32.toNat_ofNat', Nat.mod_eq_of_lt hlt]

theorem Handles.short {reply : String} {bodies : List (List UInt8)} {tail body : List UInt8}
    {h : Handled} (hh : Handles reply bodies tail h) (hlen : body.length < frameBodyHeadSize) :
    Handles reply (body :: bodies) tail { h with skipped := h.skipped + 1 } := by
  refine ⟨?_, ?_, hh.err⟩
  · rw [List.filter_cons_of_neg (by simpa using hlen)]
    exact hh.delivered
  · rw [List.filter_cons_of_pos (by simpa using hlen), List.length_cons, ← hh.skipped]

theorem Handles.whole {reply : String} {bodies : List (List UInt8)} {tail body : List UInt8}
    {h : Handled} (hh : Handles reply bodies tail h) {msg : Message}
    (hdec : Message.decode body = .ok msg) :
    Handles reply (body :: bodies) tail
      { h with delivered := { msg with reply } :: h.delivered } := by
  have hlen := Message.decode_ok_length hdec
  have hbytes : msg.head.bytes ++ msg.data = body := Message.bytes_decode hdec
  refine ⟨?_, ?_, hh.err⟩
  · rw [List.filter_cons_of_pos (by simpa using hlen)]
    exact .cons ⟨hbytes, rfl⟩ hh.delivered
  · rw [List.filter_cons_of_neg (by simpa using hlen)]
    exact hh.skipped

/-- The decoder reads its input as frames. -/
theorem decodeLoop_parse (buf : List UInt8) (reply : String) (offset : Nat) :
    ∃ bodies tail, Parse 4 (buf.drop offset) bodies tail ∧
      Handles reply bodies tail (decodeLoop buf reply offset) := by
  fun_induction decodeLoop buf reply offset with
  | case1 offset hlt hfour =>
    have hlen : (buf.drop offset).length < 4 := by
      rw [List.length_drop]
      exact hfour
    refine ⟨[], buf.drop offset, .truncated (Or.inl hlen), .nil, rfl, ?_⟩
    rw [tailError, if_neg (by rw [List.drop_eq_nil_iff]; omega), if_pos hlen]
  | case2 offset hlt hfour subSize offset' hsub =>
    have hlen : ¬(buf.drop offset).length < 4 := by
      rw [List.length_drop]
      exact hfour
    refine ⟨[], buf.drop offset, .truncated (Or.inr ?_), .nil, rfl, ?_⟩
    · rw [← toNat_getUint32, List.length_drop]
      omega
    · rw [tailError, if_neg (by rw [List.drop_eq_nil_iff]; omega), if_neg hlen]
  | case3 offset hlt hfour subSize offset' hsub rest err hdec ih =>
    obtain ⟨bodies, tail, hparse, hhandles⟩ := ih
    refine ⟨_ :: bodies, tail, ?_, hhandles.short (Message.decode_error_length hdec)⟩
    rw [drop_eq_frame (by omega)]
    exact hparse.cons (lt_of_le_of_lt (List.length_take_le _ _) (UInt32.toNat_lt _))
  | case4 offset hlt hfour subSize offset' hsub rest msg hdec ih =>
    obtain ⟨bodies, tail, hparse, hhandles⟩ := ih
    refine ⟨_ :: bodies, tail, ?_, hhandles.whole hdec⟩
    rw [drop_eq_frame (by omega)]
    exact hparse.cons (lt_of_le_of_lt (List.length_take_le _ _) (UInt32.toNat_lt _))
  | case5 offset hge =>
    refine ⟨[], [], ?_, .nil, rfl, rfl⟩
    rw [List.drop_eq_nil_of_le (by omega)]
    exact .nil 4

/-- The decoder stays within its input and follows the grammar of frames. The
bytes are read as frames in one way only; the callback gets the bodies with room
for a head, in order, and the error tells whether a cut frame is left. -/
theorem decoder_matches_grammar (buf : List UInt8) (reply : String) :
    decodeLoopBounded buf reply 0 = some (decodeManyAndHandle buf reply) ∧
    ∃ bodies tail, Parse 4 buf bodies tail ∧
      (∀ bodies' tail', Parse 4 buf bodies' tail' → bodies' = bodies ∧ tail' = tail) ∧
      Handles reply bodies tail (decodeManyAndHandle buf reply) ∧
      ((decodeManyAndHandle buf reply).err = none ↔ tail = []) := by
  refine ⟨decodeLoopBounded_eq buf reply 0, ?_⟩
  obtain ⟨bodies, tail, hparse, hhandles⟩ := decodeLoop_parse buf reply 0
  refine ⟨bodies, tail, hparse, ?_, hhandles, ?_⟩
  · intro bodies' tail' hparse'
    exact hparse'.unique (by decide) hparse
  · change (decodeLoop buf reply 0).err = none ↔ tail = []
    rw [hhandles.err, tailError]
    by_cases htail : tail = []
    · simp [htail]
    · by_cases hfour : tail.length < 4 <;> simp [htail, hfour]

end GameCluster.Bus
