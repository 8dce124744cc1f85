import GameCluster.Lib.Bytes

/-!
Frames with a length prefix: a body behind its length in `w` bytes, least
significant first. A buffer is read from the left as frames until nothing is
left or what is left is not a whole frame. There is one way to read it.
-/

namespace GameCluster.Lib.Framing

variable {w : ℕ}

def frame (w : ℕ) (body : List UInt8) : List UInt8 := Bytes.le w body.length ++ body

/-- The bytes do not begin with a whole frame: the length or the body is cut. -/
def Truncated (w : ℕ) (tail : List UInt8) : Prop :=
  tail.length < w ∨ tail.length - w < Bytes.get w tail

/-- The buffer is the frames of the bodies and a tail that is empty or truncated. -/
structure Parse (w : ℕ) (buf : List UInt8) (bodies : List (List UInt8)) (tail : List UInt8) :
    Prop where
  fits : ∀ body ∈ bodies, body.length < 256 ^ w
  eq : buf = bodies.flatMap (frame w) ++ tail
  stop : tail = [] ∨ Truncated w tail

theorem Parse.nil (w : ℕ) : Parse w [] [] [] := ⟨by simp, rfl, Or.inl rfl⟩

theorem Parse.truncated {tail : List UInt8} (h : Truncated w tail) : Parse w tail [] tail :=
  ⟨by simp, rfl, Or.inr h⟩

theorem Parse.cons {buf tail body : List UInt8} {bodies : List (List UInt8)}
    (h : Parse w buf bodies tail) (hfits : body.length < 256 ^ w) :
    Parse w (frame w body ++ buf) (body :: bodies) tail := by
  refine ⟨?_, ?_, h.stop⟩
  · intro body' hbody'
    obtain rfl | hbody' := List.mem_cons.mp hbody'
    · exact hfits
    · exact h.fits body' hbody'
  · rw [h.eq, List.flatMap_cons, List.append_assoc]

theorem get_frame {body : List UInt8} (hfits : body.length < 256 ^ w) (rest : List UInt8) :
    Bytes.get w (frame w body ++ rest) = body.length := by
  rw [frame, List.append_assoc, Bytes.get_le_append, Nat.mod_eq_of_lt hfits]

theorem length_frame (w : ℕ) (body : List UInt8) : (frame w body).length = w + body.length := by
  rw [frame, List.length_append, Bytes.length_le]

theorem not_truncated_frame {body : List UInt8} (hfits : body.length < 256 ^ w)
    (rest : List UInt8) : ¬Truncated w (frame w body ++ rest) := by
  unfold Truncated
  rw [get_frame hfits, List.length_append, length_frame]
  omega

/-- What begins with a frame begins with one frame only. -/
theorem frame_append_inj {body body' rest rest' : List UInt8} (hfits : body.length < 256 ^ w)
    (hfits' : body'.length < 256 ^ w) (h : frame w body ++ rest = frame w body' ++ rest') :
    body = body' ∧ rest = rest' := by
  have hlen : body.length = body'.length := by
    rw [← get_frame hfits rest, ← get_frame hfits' rest', h]
  obtain ⟨hframe, hrest⟩ := List.append_inj h (by rw [length_frame, length_frame, hlen])
  exact ⟨(List.append_inj hframe (by simp)).2, hrest⟩

/-- What begins with a frame is not the tail of a reading. -/
theorem Parse.ne_nil {buf tail body rest : List UInt8} (hw : 0 < w)
    (hfits : body.length < 256 ^ w) (hbuf : buf = frame w body ++ rest) :
    ¬Parse w buf [] tail := by
  intro h
  have htail : tail = frame w body ++ rest := h.eq.symm.trans hbuf
  obtain hnil | htrunc := h.stop
  · have hlen := congrArg List.length (htail.symm.trans hnil)
    rw [List.length_append, length_frame, List.length_nil] at hlen
    omega
  · exact not_truncated_frame hfits rest (htail ▸ htrunc)

theorem Parse.unique (hw : 0 < w) {buf tail tail' : List UInt8}
    {bodies bodies' : List (List UInt8)} (h : Parse w buf bodies tail)
    (h' : Parse w buf bodies' tail') : bodies = bodies' ∧ tail = tail' := by
  induction bodies generalizing buf bodies' with
  | nil =>
    cases bodies' with
    | nil => exact ⟨rfl, h.eq.symm.trans h'.eq⟩
    | cons body' rest' =>
      exact absurd h (Parse.ne_nil hw (h'.fits body' List.mem_cons_self)
        (by rw [h'.eq, List.flatMap_cons, List.append_assoc]))
  | cons body rest ih =>
    cases bodies' with
    | nil =>
      exact absurd h' (Parse.ne_nil hw (h.fits body List.mem_cons_self)
        (by rw [h.eq, List.flatMap_cons, List.append_assoc]))
    | cons body' rest' =>
      have heq := h.eq.symm.trans h'.eq
      rw [List.flatMap_cons, List.flatMap_cons, List.append_assoc, List.append_assoc] at heq
      obtain ⟨rfl, hrest⟩ := frame_append_inj (h.fits body List.mem_cons_self)
        (h'.fits body' List.mem_cons_self) heq
      obtain ⟨rfl, rfl⟩ := ih
        ⟨fun b hb => h.fits b (List.mem_cons_of_mem _ hb), rfl, h.stop⟩
        ⟨fun b hb => h'.fits b (List.mem_cons_of_mem _ hb), hrest, h'.stop⟩
      exact ⟨rfl, rfl⟩

end GameCluster.Lib.Framing
