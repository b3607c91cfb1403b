/-
# Buffered writers

A buffer in front of a device that takes what it is given in pieces, can be interrupted, and
can fail at any byte, with the loops of the Rust standard library: `write_all` on the device,
`BufWriter::flush_buf` and `BufWriter::write_all`.

The stream is what the device has taken together with what the buffer still holds for it: a
failed flush takes nothing out of the stream, so what it was to write is written later.
`stream_writeAll` says what a `write_all` adds to the stream, whether it fails or not.
-/
import Mathlib.Data.List.Basic
import Mathlib.Algebra.Order.Sub.Basic

namespace BufIO

open List

/-- What the device answers to one `write`. -/
inductive WriteResult : Type where
  | accepted (n : ℕ)
  | interrupted
  | failed (reason : String)
  deriving DecidableEq

/-- How a loop of writes ends: the number of bytes that the device has taken, the error, and the
answers that have not been used. -/
structure Written where
  taken : ℕ
  error : Option String
  rest : List WriteResult

/-- Write until the device has taken `n` bytes, takes none, or fails.  Once the answers are used
up, it takes everything.  The text is the error for a device that takes none. -/
def writeLoop (zero : String) : List WriteResult → ℕ → Written
  | rs, 0 => ⟨0, none, rs⟩
  | [], n + 1 => ⟨n + 1, none, []⟩
  | .accepted 0 :: rs, _ + 1 => ⟨0, some zero, rs⟩
  | .accepted (k + 1) :: rs, n + 1 =>
    let r := writeLoop zero rs (n - k)
    ⟨min (k + 1) (n + 1) + r.taken, r.error, r.rest⟩
  | .interrupted :: rs, n + 1 => writeLoop zero rs (n + 1)
  | .failed reason :: rs, _ + 1 => ⟨0, some reason, rs⟩

theorem taken_le (zero : String) (rs : List WriteResult) (n : ℕ) :
    (writeLoop zero rs n).taken ≤ n := by
  fun_induction writeLoop zero rs n with
  | case1 rs => exact Nat.le_refl 0
  | case2 n => exact Nat.le_refl _
  | case3 rs n => exact Nat.zero_le _
  | case4 k rs n r ih =>
    have hle : r.taken ≤ n - k := ih
    show min (k + 1) (n + 1) + r.taken ≤ n + 1
    omega
  | case5 rs n ih => exact ih
  | case6 reason rs n => exact Nat.zero_le _

/-- The loop fails if and only if the device has not taken everything. -/
theorem error_eq_none_iff (zero : String) (rs : List WriteResult) (n : ℕ) :
    (writeLoop zero rs n).error = none ↔ (writeLoop zero rs n).taken = n := by
  fun_induction writeLoop zero rs n with
  | case1 rs | case2 n => exact iff_of_true rfl rfl
  | case3 rs n => simp
  | case4 k rs n r ih =>
    have hle : r.taken ≤ n - k := taken_le zero rs (n - k)
    show r.error = none ↔ min (k + 1) (n + 1) + r.taken = n + 1
    have hih : r.error = none ↔ r.taken = n - k := ih
    rw [hih]
    omega
  | case5 rs n ih => exact ih
  | case6 reason rs n => simp

/-- A buffer of `capacity` bytes in front of a device, with what the device has taken. -/
structure BufWriter (β : Type*) (capacity : ℕ) where
  sunk : List β
  buffer : List β
  fits : buffer.length ≤ capacity

/-- What an operation on the buffer leaves. -/
structure Outcome (β : Type*) (capacity : ℕ) where
  writer : BufWriter β capacity
  error : Option String
  rest : List WriteResult

namespace BufWriter

variable {β : Type*} {capacity : ℕ}

/-- A new buffer in front of a new device. -/
def new (β : Type*) (capacity : ℕ) : BufWriter β capacity := ⟨[], [], Nat.zero_le _⟩

variable (w : BufWriter β capacity) (bs : List β) (rs : List WriteResult)

/-- All bytes that the device has taken, or will be given next. -/
def stream : List β := w.sunk ++ w.buffer

/-- `spare_capacity`. -/
def spare : ℕ := capacity - w.buffer.length

/-- `write_to_buffer_unchecked`. -/
def push (h : w.buffer.length + bs.length ≤ capacity) : BufWriter β capacity where
  sunk := w.sunk
  buffer := w.buffer ++ bs
  fits := by rw [length_append]; exact h

/-- `flush_buf`. -/
def flushBuf : Outcome β capacity :=
  let r := writeLoop "failed to write the buffered data" rs w.buffer.length
  ⟨⟨w.sunk ++ w.buffer.take r.taken, w.buffer.drop r.taken,
    by rw [length_drop]; exact Nat.le_trans (Nat.sub_le _ _) w.fits⟩, r.error, r.rest⟩

/-- `write_all` on the device, past the buffer. -/
def writeThrough : Outcome β capacity :=
  let r := writeLoop "failed to write whole buffer" rs bs.length
  ⟨{ w with sunk := w.sunk ++ bs.take r.taken }, r.error, r.rest⟩

theorem buffer_flushBuf (h : (w.flushBuf rs).error = none) :
    (w.flushBuf rs).writer.buffer = [] := by
  have htaken := (error_eq_none_iff _ rs w.buffer.length).mp h
  show w.buffer.drop (writeLoop _ rs w.buffer.length).taken = []
  rw [htaken, drop_length]

/-- `write_all`. -/
def writeAll : Outcome β capacity :=
  if hfits : bs.length ≤ w.spare then
    -- no flush; what is as long as the whole buffer does not go through it
    if capacity ≤ bs.length then w.writeThrough bs rs
    else ⟨w.push bs (by have := w.fits; unfold spare at hfits; omega), none, rs⟩
  else
    let f := w.flushBuf rs
    if hok : f.error = none then
      if hlen : capacity ≤ bs.length then f.writer.writeThrough bs f.rest
      else ⟨f.writer.push bs (by
        rw [w.buffer_flushBuf rs hok, length_nil]; omega), none, f.rest⟩
    else f

/-- How many of the `n` bytes of a `write_all` get into the stream. -/
def leaves (n : ℕ) : ℕ :=
  if n ≤ w.spare then
    if capacity ≤ n then (writeLoop "failed to write whole buffer" rs n).taken else n
  else
    let f := w.flushBuf rs
    if f.error = none then
      if capacity ≤ n then (writeLoop "failed to write whole buffer" f.rest n).taken else n
    else 0

variable {w bs rs}

theorem stream_push (h : w.buffer.length + bs.length ≤ capacity) :
    (w.push bs h).stream = w.stream ++ bs := by
  simp [push, stream]

/-- A flush moves bytes along the stream, also one that fails. -/
@[simp] theorem stream_flushBuf : (w.flushBuf rs).writer.stream = w.stream := by
  simp [flushBuf, stream]

theorem stream_writeThrough (h : w.buffer = []) :
    (w.writeThrough bs rs).writer.stream = w.stream ++
      bs.take (writeLoop "failed to write whole buffer" rs bs.length).taken := by
  simp [writeThrough, stream, h]

/-- What is as long as the whole buffer goes through it only while the buffer is empty. -/
theorem buffer_eq_nil_of_spare (hfits : bs.length ≤ w.spare) (hlen : capacity ≤ bs.length)
    (hpos : 0 < capacity) : w.buffer = [] := by
  apply eq_nil_of_length_eq_zero
  unfold spare at hfits
  omega

/-- The bytes that a `write_all` adds to the stream, whether it fails or not. -/
theorem stream_writeAll (hpos : 0 < capacity) : (w.writeAll bs rs).writer.stream =
    w.stream ++ bs.take (w.leaves rs bs.length) := by
  unfold writeAll leaves
  by_cases hfits : bs.length ≤ w.spare
  · rw [dif_pos hfits, if_pos hfits]
    by_cases hlen : capacity ≤ bs.length
    · rw [if_pos hlen, if_pos hlen]
      exact stream_writeThrough (buffer_eq_nil_of_spare hfits hlen hpos)
    · rw [if_neg hlen, if_neg hlen, take_length]
      have hroom : w.buffer.length + bs.length ≤ capacity := by
        have hcap := w.fits
        unfold spare at hfits
        omega
      exact stream_push hroom
  · rw [dif_neg hfits, if_neg hfits]
    by_cases hok : (w.flushBuf rs).error = none
    · have hempty := w.buffer_flushBuf rs hok
      simp only [hok, dite_true, if_true]
      by_cases hlen : capacity ≤ bs.length
      · simp only [hlen, dite_true, if_true]
        rw [stream_writeThrough hempty, stream_flushBuf]
      · simp only [hlen, dite_false, if_false, take_length]
        rw [stream_push, stream_flushBuf]
    · simp only [hok, dite_false, if_false, take_zero, append_nil]
      exact stream_flushBuf

theorem leaves_le (n : ℕ) : w.leaves rs n ≤ n := by
  unfold leaves
  by_cases hfits : n ≤ w.spare
  · rw [if_pos hfits]
    split
    · exact taken_le _ rs n
    · exact Nat.le_refl n
  · rw [if_neg hfits]
    by_cases hok : (w.flushBuf rs).error = none
    · simp only [hok, if_true]
      split
      · exact taken_le _ _ n
      · exact Nat.le_refl n
    · simp only [hok, if_false]
      exact Nat.zero_le n

end BufWriter

end BufIO
