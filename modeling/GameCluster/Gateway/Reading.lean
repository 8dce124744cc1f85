import Mathlib.Data.List.Basic

/-!
How a packet gets from the connection into the buffer of the gateway
(`readFull` in `gateway/session/recver.go`). The reader of a message hands out
its bytes in reads of any size up to the room it is given, and ends with
`io.EOF`, either with the last bytes or on a read of its own, or with another
error.
-/

namespace GameCluster.Gateway

def maxRecvMsgSize : ℕ := 10240

/-- How a reader ends. -/
inductive Ending where
  /-- `io.EOF` comes with the last bytes. -/
  | eofWith
  /-- `io.EOF` comes on the read after them. -/
  | eofAfter
  /-- Another error comes on the read after them. -/
  | fails (text : String)
  deriving DecidableEq, Repr

inductive ReaderErr where
  | eof
  | other (text : String)
  deriving DecidableEq, Repr

/-- The reader of one message. Its `k`-th read from now on gives at most
`cuts k + 1` bytes, so that no read before the end is empty. -/
structure Reader where
  rest : List UInt8
  cuts : ℕ → ℕ
  ending : Ending

/-- What a call of `Read` returns, and the reader it leaves. -/
structure ReadOut where
  chunk : List UInt8
  err : Option ReaderErr
  next : Reader

/-- `Read` into a slice of `room` bytes. -/
def Reader.read (r : Reader) (room : ℕ) : ReadOut :=
  if r.rest = [] then
    match r.ending with
    | .fails text => ⟨[], some (.other text), r⟩
    | _ => ⟨[], some .eof, r⟩
  else
    let n := min (r.cuts 0 + 1) room
    { chunk := r.rest.take n
      err := if r.rest.drop n = [] ∧ r.ending = .eofWith then some .eof else none
      next := { r with rest := r.rest.drop n, cuts := fun k => r.cuts (k + 1) } }

/-- The errors of `readFull`. -/
inductive ReadErr where
  | payload (text : String)
  | tooLarge (total limit : ℕ)
  deriving DecidableEq, Repr

/-- The text of an error. -/
def ReadErr.error : ReadErr → String
  | .payload text => text
  | .tooLarge total limit => "message too large:" ++ toString total ++ " > " ++ toString limit

/-- A read that gives no error, into a slice with room, takes bytes away. -/
theorem Reader.read_progress {r : Reader} {room : ℕ} (hroom : 0 < room)
    (h : (r.read room).err = none) : (r.read room).next.rest.length < r.rest.length := by
  unfold Reader.read at h ⊢
  split
  · rename_i hrest
    rw [if_pos hrest] at h
    cases hend : r.ending <;> simp [hend] at h
  · rename_i hrest
    have hpos := List.length_pos_iff.mpr hrest
    simp only [List.length_drop]
    omega

/-- `readFull` into a buffer of `limit` bytes that holds `total` so far. -/
def readFullFrom (limit : ℕ) (total : List UInt8) (r : Reader) :
    Except ReadErr (List UInt8) :=
  let out := r.read (limit - total.length)
  match herr : out.err with
  | some .eof => .ok (total ++ out.chunk)
  | some (.other text) => .error (.payload text)
  | none =>
    if hfull : (total ++ out.chunk).length ≥ limit then
      .error (.tooLarge (total ++ out.chunk).length limit)
    else
      have hshorter : out.next.rest.length < r.rest.length := by
        apply Reader.read_progress _ herr
        rw [List.length_append] at hfull
        omega
      readFullFrom limit (total ++ out.chunk) out.next
termination_by r.rest.length

theorem Reader.length_chunk_le (r : Reader) (room : ℕ) : (r.read room).chunk.length ≤ room := by
  unfold Reader.read
  split
  · cases r.ending <;> exact Nat.zero_le room
  · simp only [List.length_take]
    omega

/-- What `readFull` returns fits the buffer. -/
theorem length_le_of_readFullFrom {limit : ℕ} {total src : List UInt8} {r : Reader}
    (h : readFullFrom limit total r = .ok src) (hle : total.length ≤ limit) :
    src.length ≤ limit := by
  fun_induction readFullFrom limit total r with
  | case1 total r out herr =>
    have hchunk : out.chunk.length ≤ limit - total.length := r.length_chunk_le _
    cases h
    rw [List.length_append]
    omega
  | case2 total r out text herr | case3 total r out herr hfull => cases h
  | case4 total r out herr hfull hshorter ih => exact ih h (by omega)

/-- Everything a read of a reader that ends with `io.EOF` can return. -/
inductive Reader.Reads (r : Reader) (room : ℕ) : ReadOut → Prop
  | empty (hrest : r.rest = []) : r.Reads room ⟨[], some .eof, r⟩
  | last {chunk : List UInt8} {next : Reader} (hchunk : chunk = r.rest)
      (hroom : chunk.length ≤ room) (hwith : r.ending = .eofWith) :
      r.Reads room ⟨chunk, some .eof, next⟩
  | more {chunk : List UInt8} {next : Reader} (hsplit : chunk ++ next.rest = r.rest)
      (hroom : chunk.length ≤ room) (hending : next.ending = r.ending)
      (hend : ¬(next.rest = [] ∧ r.ending = .eofWith)) : r.Reads room ⟨chunk, none, next⟩

theorem Reader.read_reads {r : Reader} (hend : r.ending = .eofWith ∨ r.ending = .eofAfter)
    (room : ℕ) : r.Reads room (r.read room) := by
  unfold Reader.read
  split
  · rename_i hrest
    rcases hend with hend | hend <;> rw [hend] <;> exact .empty hrest
  · have hroom : (r.rest.take (min (r.cuts 0 + 1) room)).length ≤ room := by
      rw [List.length_take]
      omega
    dsimp only
    split
    · rename_i hlast
      refine .last ?_ hroom hlast.2
      rw [List.take_of_length_le (List.drop_eq_nil_iff.mp hlast.1)]
    · rename_i hmore
      exact .more (List.take_append_drop _ _) hroom rfl hmore

/-- `readFull` accepts a message that leaves room in the buffer, and one that
fills it if `io.EOF` comes with its last bytes. -/
theorem readFullFrom_eq {limit : ℕ} {total : List UInt8} {r : Reader}
    (hfit : total.length < limit) (hend : r.ending = .eofWith ∨ r.ending = .eofAfter) :
    readFullFrom limit total r =
      if total.length + r.rest.length < limit ∨
        total.length + r.rest.length = limit ∧ r.ending = .eofWith
      then .ok (total ++ r.rest)
      else .error (.tooLarge limit limit) := by
  fun_induction readFullFrom limit total r with
  | case1 total r out herr =>
    have hreads : r.Reads (limit - total.length) out := Reader.read_reads hend _
    clear_value out
    cases hreads with
    | empty hrest =>
      rw [if_pos (Or.inl (by rw [hrest]; exact hfit)), hrest]
    | last hchunk hroom hwith =>
      subst hchunk
      rw [if_pos]
      by_cases hlt : total.length + r.rest.length < limit
      · exact Or.inl hlt
      · exact Or.inr ⟨by omega, hwith⟩
    | more _ _ _ _ => cases herr
  | case2 total r out text herr =>
    have hreads : r.Reads (limit - total.length) out := Reader.read_reads hend _
    clear_value out
    cases hreads <;> cases herr
  | case3 total r out herr hfull =>
    have hreads : r.Reads (limit - total.length) out := Reader.read_reads hend _
    clear_value out
    cases hreads with
    | empty _ | last _ _ _ => cases herr
    | @more chunk next hsplit hroom _ hmore =>
      have hlen := congrArg List.length hsplit
      rw [List.length_append] at hlen hfull
      dsimp only at hfull
      have hlimit : total.length + chunk.length = limit := by omega
      rw [List.length_append, hlimit, if_neg]
      rintro (hlt | ⟨heq, hwith⟩)
      · omega
      · exact hmore ⟨List.eq_nil_of_length_eq_zero (by omega), hwith⟩
  | case4 total r out herr hfull hshorter ih =>
    have hreads : r.Reads (limit - total.length) out := Reader.read_reads hend _
    clear_value out
    cases hreads with
    | empty _ | last _ _ _ => cases herr
    | @more chunk next hsplit hroom hending _ =>
      have hlen := congrArg List.length hsplit
      rw [List.length_append] at hlen
      rw [ih (by omega) (by rw [hending]; exact hend), List.append_assoc, hsplit, hending,
        List.length_append, Nat.add_assoc, hlen]

/-- `readFull` with a buffer of the pool. -/
def readFullMsg (r : Reader) : Except ReadErr (List UInt8) := readFullFrom maxRecvMsgSize [] r

/-- A message is accepted whole up to the limit and refused above it, however its
bytes are split, just when it does not have the size of the buffer or `io.EOF`
comes with its last bytes. -/
theorem readFull_fragmentation (msg : List UInt8) (cuts : ℕ → ℕ) (ending : Ending)
    (hend : ending = .eofWith ∨ ending = .eofAfter) :
    (readFullMsg ⟨msg, cuts, ending⟩ =
        if msg.length ≤ maxRecvMsgSize then .ok msg
        else .error (.tooLarge maxRecvMsgSize maxRecvMsgSize)) ↔
      (msg.length = maxRecvMsgSize → ending = .eofWith) := by
  rw [readFullMsg, readFullFrom_eq (by decide) hend, List.length_nil, List.nil_append,
    Nat.zero_add]
  rcases Nat.lt_trichotomy msg.length maxRecvMsgSize with hlt | heq | hgt
  · simp [hlt, Nat.le_of_lt hlt, Nat.ne_of_lt hlt]
  · simp [heq]
  · simp [Nat.not_lt_of_gt hgt, Nat.not_le_of_gt hgt, Nat.ne_of_gt hgt]

/-- A message of three bytes, read byte by byte. -/
theorem threeBytes_accepted :
    readFullMsg ⟨[1, 2, 3], fun _ => 0, .eofAfter⟩ =
      if [(1 : UInt8), 2, 3].length ≤ maxRecvMsgSize then .ok [1, 2, 3]
      else .error (.tooLarge maxRecvMsgSize maxRecvMsgSize) :=
  (readFull_fragmentation [1, 2, 3] (fun _ => 0) .eofAfter (Or.inr rfl)).mpr (by decide)

/-- A message that fills the buffer is accepted if `io.EOF` comes with its last
bytes and refused if it comes after them. -/
theorem fullBuffer_depends :
    readFullMsg ⟨List.replicate maxRecvMsgSize 7, fun _ => 1023, .eofWith⟩ =
        .ok (List.replicate maxRecvMsgSize 7) ∧
      readFullMsg ⟨List.replicate maxRecvMsgSize 7, fun _ => 1023, .eofAfter⟩ =
        .error (.tooLarge maxRecvMsgSize maxRecvMsgSize) := by
  rw [readFullMsg, readFullMsg, readFullFrom_eq (by decide) (Or.inl rfl),
    readFullFrom_eq (by decide) (Or.inr rfl)]
  simp

end GameCluster.Gateway
