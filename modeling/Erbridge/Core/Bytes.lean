import Mathlib.Data.List.Basic

/-!
# Byte buffers and length-prefixed frames

Buffers are lists of a fixed length that is written in place; a slice out of range is `none`, where
the language panics.  A frame is a body behind its length as two big-endian bytes.

* `splice` writes into a buffer at an offset; `take_splice` says what its front is afterwards.
* `be16`, `u16` — `u16::to_be_bytes` and `u16::from_be_bytes`.
* `frames` — the bytes of frames one after the other; `frames_append_prefix` is unique decodability:
  whole frames that start a sequence of frames are the first frames of it.
-/

namespace Erbridge
namespace Core

/-- A string of bytes. -/
abbrev Bytes := List UInt8

/-- `buf[from..to]`. -/
def slice (buf : Bytes) (start stop : Nat) : Option Bytes :=
  if start ≤ stop ∧ stop ≤ buf.length then some ((buf.take stop).drop start) else none

theorem slice_eq_some {buf : Bytes} {start stop : Nat} (hle : start ≤ stop)
    (hlen : stop ≤ buf.length) : slice buf start stop = some ((buf.take stop).drop start) :=
  if_pos ⟨hle, hlen⟩

/-- The buffer after `bytes` were written into it at `offset`. -/
def splice (buf : Bytes) (offset : Nat) (bytes : Bytes) : Bytes :=
  buf.take offset ++ bytes ++ buf.drop (offset + bytes.length)

theorem length_splice {buf bytes : Bytes} {offset : Nat}
    (h : offset + bytes.length ≤ buf.length) : (splice buf offset bytes).length = buf.length := by
  simp only [splice, List.length_append, List.length_take, List.length_drop]
  omega

/-- What was in front of the offset stays there, followed by what was written. -/
theorem take_splice {buf bytes : Bytes} {offset : Nat} (h : offset ≤ buf.length) :
    (splice buf offset bytes).take (offset + bytes.length) = buf.take offset ++ bytes := by
  have hlen : (buf.take offset ++ bytes).length = offset + bytes.length := by
    simp only [List.length_append, List.length_take]
    omega
  rw [splice, ← hlen, List.take_left]

/-! ## Lengths on the wire -/

/-- `(n as u16).to_be_bytes()`. -/
def be16 (n : Nat) : Bytes := [UInt8.ofNat (n / 256), UInt8.ofNat n]

/-- `u16::from_be_bytes`. -/
def u16 (b : Bytes) : Nat := 256 * (b.getD 0 0).toNat + (b.getD 1 0).toNat

@[simp] theorem length_be16 (n : Nat) : (be16 n).length = 2 := rfl

theorem u16_be16 {n : Nat} (h : n < 65536) : u16 (be16 n) = n := by
  simp only [u16, be16, List.getD_cons_zero, List.getD_cons_succ, UInt8.toNat_ofNat']
  omega

theorem u16_lt (b : Bytes) : u16 b < 65536 := by
  have h0 : (b.getD 0 0).toNat < 256 := UInt8.toNat_lt _
  have h1 : (b.getD 1 0).toNat < 256 := UInt8.toNat_lt _
  unfold u16
  omega

theorem be16_u16 {b : Bytes} (h : b.length = 2) : be16 (u16 b) = b := by
  match b, h with
  | [x, y], _ =>
      have hx : x.toNat < 256 := x.toNat_lt
      have hy : y.toNat < 256 := y.toNat_lt
      have hdiv : (256 * x.toNat + y.toNat) / 256 = x.toNat := by omega
      have hmod : UInt8.ofNat (256 * x.toNat + y.toNat) = y := by
        apply UInt8.toNat_inj.1
        rw [UInt8.toNat_ofNat']
        omega
      simp [be16, u16, hdiv, hmod]

/-! ## Frames -/

/-- A body behind its length. -/
def frame (body : Bytes) : Bytes := be16 body.length ++ body

/-- Frames one after the other. -/
def frames (bodies : List Bytes) : Bytes := bodies.flatMap frame

@[simp] theorem frames_nil : frames [] = [] := rfl

theorem frames_cons (body : Bytes) (bodies : List Bytes) :
    frames (body :: bodies) = frame body ++ frames bodies := rfl

theorem frames_append (as bs : List Bytes) : frames (as ++ bs) = frames as ++ frames bs := by
  simp [frames]

theorem length_frame (body : Bytes) : (frame body).length = 2 + body.length := by
  simp [frame]

theorem frame_ne_nil (body : Bytes) : frame body ≠ [] := by
  simp [frame, be16]

/-- Bodies whose length fits into the two bytes. -/
def Fits (bodies : List Bytes) : Prop := ∀ body ∈ bodies, body.length < 65536

/-- Two frames at the same place are the same frame. -/
theorem frame_append_inj {a b x y : Bytes} (ha : a.length < 65536) (hb : b.length < 65536)
    (h : frame a ++ x = frame b ++ y) : a = b ∧ x = y := by
  simp only [frame, List.append_assoc] at h
  obtain ⟨hlen, hrest⟩ := List.append_inj h rfl
  have hab : a.length = b.length := by
    rw [← u16_be16 ha, hlen, u16_be16 hb]
  exact List.append_inj hrest hab

/-- **Unique decodability.**  Whole frames that start a sequence of frames, whatever follows them, are
its first frames. -/
theorem frames_append_prefix {as bs : List Bytes} {rest : Bytes} (ha : Fits as) (hb : Fits bs)
    (h : frames as ++ rest <+: frames bs) :
    ∃ cs, bs = as ++ cs ∧ rest <+: frames cs := by
  induction as generalizing bs with
  | nil => exact ⟨bs, rfl, by simpa using h⟩
  | cons a as ih =>
      obtain ⟨tail, htail⟩ := h
      cases bs with
      | nil =>
          have hlen := congrArg List.length htail
          simp only [frames_cons, List.length_append, length_frame, frames_nil,
            List.length_nil] at hlen
          omega
      | cons b bs =>
          simp only [frames_cons, List.append_assoc] at htail
          obtain ⟨rfl, hrest⟩ := frame_append_inj (ha a List.mem_cons_self)
            (hb b List.mem_cons_self) htail
          obtain ⟨cs, hcs, hpre⟩ := ih (fun c hc => ha c (List.mem_cons_of_mem _ hc))
            (fun c hc => hb c (List.mem_cons_of_mem _ hc))
            ⟨tail, by simpa [List.append_assoc] using hrest⟩
          exact ⟨cs, by rw [hcs]; rfl, hpre⟩

/-- A proper part of one frame: it is not a whole frame, and some frame starts with it. -/
def Incomplete (part : Bytes) : Prop :=
  part.length < 2 ∨ part.length < 2 + u16 part

@[simp] theorem incomplete_nil : Incomplete [] := Or.inl (by simp)

/-- The length of a frame is read off any part of it that has the two bytes. -/
theorem u16_append {a b : Bytes} (h : 2 ≤ a.length) : u16 (a ++ b) = u16 a := by
  match a, h with
  | x :: y :: rest, _ => rfl

theorem u16_frame {body rest : Bytes} (h : body.length < 65536) :
    u16 (frame body ++ rest) = body.length := by
  rw [frame, List.append_assoc, u16_append (by simp), u16_be16 h]

/-- A part that starts with a whole frame is not incomplete. -/
theorem not_incomplete_frame {body rest : Bytes} (h : body.length < 65536) :
    ¬ Incomplete (frame body ++ rest) := by
  unfold Incomplete
  rw [u16_frame h, List.length_append, length_frame]
  omega

/-- If whole frames and an incomplete one are a sequence of frames, then nothing is incomplete. -/
theorem frames_append_eq {as bs : List Bytes} {part : Bytes} (ha : Fits as) (hb : Fits bs)
    (hpart : Incomplete part) (h : frames as ++ part = frames bs) : as = bs ∧ part = [] := by
  obtain ⟨cs, rfl, hrest⟩ := frames_append_prefix ha hb ⟨[], by simpa using h⟩
  rw [frames_append] at h
  have heq : part = frames cs := List.append_cancel_left h
  cases cs with
  | nil => exact ⟨by simp, heq⟩
  | cons c cs =>
      rw [heq, frames_cons] at hpart
      exact absurd hpart (not_incomplete_frame (hb c (by simp)))

/-- Whole frames that start whole frames and an incomplete one are among the whole ones. -/
theorem frames_prefix_of_incomplete {as bs : List Bytes} {part : Bytes} (ha : Fits as)
    (hb : Fits bs) (hpart : Incomplete part) (h : frames as <+: frames bs ++ part) : as <+: bs := by
  induction as generalizing bs with
  | nil => exact List.nil_prefix
  | cons a as ih =>
      obtain ⟨tail, htail⟩ := h
      have hfit : a.length < 65536 := ha a List.mem_cons_self
      rw [frames_cons, List.append_assoc] at htail
      cases bs with
      | nil =>
          rw [frames_nil, List.nil_append] at htail
          rw [← htail] at hpart
          exact absurd hpart (not_incomplete_frame hfit)
      | cons b bs =>
          rw [frames_cons, List.append_assoc] at htail
          obtain ⟨rfl, hrest⟩ := frame_append_inj hfit (hb b List.mem_cons_self) htail
          exact (List.prefix_cons_inj a).2 (ih (fun c hc => ha c (List.mem_cons_of_mem _ hc))
            (fun c hc => hb c (List.mem_cons_of_mem _ hc)) ⟨tail, hrest⟩)

end Core
end Erbridge
