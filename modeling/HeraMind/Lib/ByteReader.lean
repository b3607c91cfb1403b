/-
# Readers of a byte string

A reader goes through a byte string by positions.  Besides its result it records the positions of
the bytes it has read; a read outside of the string is a panic, and a loop that does not end in time
is unfinished.

A reader that goes `Forward` reads no byte twice and stops with nothing but its own errors.  What is
decoded piece by piece is found by `loop_of_pieces`.
-/
import Mathlib.Data.List.Basic
import Mathlib.Data.List.Range

namespace ByteReader

open List

/-- How reading stops without a result. -/
inductive Stop (ε : Type) : Type where
  | error (e : ε)
  | panic
  | unfinished
  deriving DecidableEq

/-- What a reader has found, and the positions it has read. -/
structure Read (ε α : Type) : Type where
  result : Except (Stop ε) α
  trace : List ℕ

variable {ε α β σ : Type}

namespace Read

protected def pure (a : α) : Read ε α := ⟨.ok a, []⟩

protected def bind (m : Read ε α) (f : α → Read ε β) : Read ε β :=
  match m.result with
  | .ok a => ⟨(f a).result, m.trace ++ (f a).trace⟩
  | .error e => ⟨.error e, m.trace⟩

instance : Monad (Read ε) where
  pure := Read.pure
  bind := Read.bind

def fail (e : ε) : Read ε α := ⟨.error (.error e), []⟩

variable {m : Read ε α}

theorem bind_of_ok {a : α} (h : m.result = .ok a) (f : α → Read ε β) :
    m >>= f = ⟨(f a).result, m.trace ++ (f a).trace⟩ := by
  show Read.bind m f = _
  unfold Read.bind
  rw [h]

theorem bind_of_error {e : Stop ε} (h : m.result = .error e) (f : α → Read ε β) :
    m >>= f = ⟨.error e, m.trace⟩ := by
  show Read.bind m f = _
  unfold Read.bind
  rw [h]

theorem result_bind_of_ok {a : α} (h : m.result = .ok a) (f : α → Read ε β) :
    (m >>= f).result = (f a).result := by
  rw [bind_of_ok h]

/-- What is read in two parts is read in each of them. -/
theorem exists_of_bind {f : α → Read ε β} {b : β} (h : (m >>= f).result = .ok b) :
    ∃ a, m.result = .ok a ∧ (f a).result = .ok b := by
  cases hm : m.result with
  | ok a =>
    rw [result_bind_of_ok hm] at h
    exact ⟨a, rfl, h⟩
  | error e =>
    rw [bind_of_error hm] at h
    cases h

end Read

/-! ## Reading bytes -/

/-- The byte at a position; the byte string begins at `base` of the one that is read. -/
def byteAt (bytes : List UInt8) (base pos : ℕ) : Read ε UInt8 :=
  match bytes[pos]? with
  | some b => ⟨.ok b, [base + pos]⟩
  | none => ⟨.error .panic, []⟩

/-- A part of a byte string, of which nothing is read yet. -/
def slice (bytes : List UInt8) (start stop : ℕ) : Read ε (List UInt8) :=
  if start ≤ stop ∧ stop ≤ bytes.length then ⟨.ok ((bytes.drop start).take (stop - start)), []⟩
  else ⟨.error .panic, []⟩

/-- All bytes of a part are read. -/
def copy (bytes : List UInt8) (base : ℕ) : Read ε (List UInt8) :=
  ⟨.ok bytes, List.range' base bytes.length⟩

/-- Parts of a byte string are read one after the other, until its end. -/
def loop (stop : ℕ) (body : ℕ → σ → Read ε (σ × ℕ)) : ℕ → ℕ → σ → Read ε σ
  | 0, _, _ => ⟨.error .unfinished, []⟩
  | fuel + 1, pos, s =>
    if pos < stop then body pos s >>= fun r => loop stop body fuel r.2 r.1
    else pure s

/-! ## Readers that go forward -/

/-- The reader goes from `start` to the position `next` of its result, and reads no byte twice. -/
structure Forward (start : ℕ) (next : α → ℕ) (m : Read ε α) : Prop where
  sorted : m.trace.Pairwise (· < ·)
  ge : ∀ i ∈ m.trace, start ≤ i
  lt : ∀ a, m.result = .ok a → start ≤ next a ∧ ∀ i ∈ m.trace, i < next a
  stops : ∀ e, m.result = .error e → ∃ d, e = .error d

namespace Forward

variable {start : ℕ} {next : α → ℕ} {m : Read ε α}

theorem ok {a : α} (h : start ≤ next a) : Forward start next (⟨.ok a, []⟩ : Read ε α) where
  sorted := List.Pairwise.nil
  ge i hi := by cases hi
  lt b hb := by
    cases hb
    exact ⟨h, fun i hi => by cases hi⟩
  stops e he := by cases he

theorem pure {a : α} (h : start ≤ next a) : Forward start next (Pure.pure a : Read ε α) :=
  ok h

theorem fail (e : ε) : Forward start next (Read.fail e) where
  sorted := List.Pairwise.nil
  ge i hi := by cases hi
  lt a ha := by cases ha
  stops d hd := by
    cases hd
    exact ⟨e, rfl⟩

theorem mono {next' : α → ℕ} (h : Forward start next m)
    (hle : ∀ a, m.result = .ok a → next a ≤ next' a) : Forward start next' m where
  sorted := h.sorted
  ge := h.ge
  lt a ha := by
    obtain ⟨hstart, hlt⟩ := h.lt a ha
    exact ⟨Nat.le_trans hstart (hle a ha), fun i hi => Nat.lt_of_lt_of_le (hlt i hi) (hle a ha)⟩
  stops := h.stops

/-- A reader that goes on where another one has ended. -/
theorem bind {f : α → Read ε β} {next' : β → ℕ} (h : Forward start next m)
    (hf : ∀ a, m.result = .ok a → Forward (next a) next' (f a)) :
    Forward start next' (m >>= f) := by
  cases hm : m.result with
  | error e =>
    rw [Read.bind_of_error hm]
    refine ⟨h.sorted, h.ge, fun b hb => ?_, fun d hd => ?_⟩
    · cases hb
    · cases hd
      exact h.stops e hm
  | ok a =>
    rw [Read.bind_of_ok hm]
    obtain ⟨hle, hlt⟩ := h.lt a hm
    have h' := hf a hm
    refine ⟨pairwise_append.mpr ⟨h.sorted, h'.sorted, ?_⟩, fun i hi => ?_, fun b hb => ?_, h'.stops⟩
    · intro i hi j hj
      exact Nat.lt_of_lt_of_le (hlt i hi) (h'.ge j hj)
    · rcases mem_append.mp hi with hi | hi
      · exact h.ge i hi
      · exact Nat.le_trans hle (h'.ge i hi)
    · obtain ⟨hle', hlt'⟩ := h'.lt b hb
      refine ⟨Nat.le_trans hle hle', fun i hi => ?_⟩
      rcases mem_append.mp hi with hi | hi
      · exact Nat.lt_of_lt_of_le (hlt i hi) hle'
      · exact hlt' i hi

theorem byteAt {bytes : List UInt8} {pos : ℕ} (base : ℕ) (h : pos < bytes.length) :
    Forward (base + pos) (fun _ => base + (pos + 1))
      (ByteReader.byteAt bytes base pos : Read ε UInt8) := by
  unfold ByteReader.byteAt
  rw [getElem?_eq_getElem h]
  refine ⟨pairwise_singleton _ _, fun i hi => ?_, fun b _ => ⟨by omega, fun i hi => ?_⟩,
    fun e he => by cases he⟩
  · exact (mem_singleton.mp hi).ge
  · have heq := mem_singleton.mp hi
    omega

theorem copy (bytes : List UInt8) (base : ℕ) :
    Forward base (fun _ => base + bytes.length)
      (ByteReader.copy bytes base : Read ε (List UInt8)) where
  sorted := pairwise_lt_range'
  ge i hi := (mem_range'_1.mp hi).1
  lt a _ := ⟨Nat.le_add_right _ _, fun i hi => (mem_range'_1.mp hi).2⟩
  stops e he := by cases he

/-- A loop goes forward if its body does, and gets further each time. -/
theorem loop (stop base : ℕ) (body : ℕ → σ → Read ε (σ × ℕ))
    (hbody : ∀ pos s, pos < stop → Forward (base + pos) (fun r => base + r.2) (body pos s))
    (hnext : ∀ pos s r, (body pos s).result = .ok r → pos < r.2 ∧ r.2 ≤ stop) (fuel : ℕ) :
    ∀ (pos : ℕ) (s : σ), pos ≤ stop → stop < fuel + pos →
      Forward (base + pos) (fun _ => base + stop) (ByteReader.loop stop body fuel pos s) := by
  induction fuel with
  | zero =>
    intro pos s hle hfuel
    omega
  | succ fuel ih =>
    intro pos s hle hfuel
    show Forward _ _ (if pos < stop then _ else _)
    by_cases hpos : pos < stop
    · rw [if_pos hpos]
      refine (hbody pos s hpos).bind fun r hr => ?_
      obtain ⟨hlt, hle'⟩ := hnext pos s r hr
      exact ih r.2 r.1 hle' (by omega)
    · rw [if_neg hpos]
      exact pure (by omega)

end Forward

/-! ## What is read piece by piece -/

/-- A byte string that consists of pieces, each of which is read as one, is read by the loop. -/
theorem loop_of_pieces {φ : Type} {bytes : List UInt8} {body : ℕ → σ → Read ε (σ × ℕ)}
    (encode : φ → List UInt8) (apply : σ → φ → σ) (pieces : List φ)
    (hne : ∀ f ∈ pieces, encode f ≠ [])
    (hbody : ∀ f ∈ pieces, ∀ pos s rest, bytes.drop pos = encode f ++ rest →
      (body pos s).result = .ok (apply s f, pos + (encode f).length)) :
    ∀ (fuel pos : ℕ) (s : σ), bytes.drop pos = pieces.flatMap encode →
      pos ≤ bytes.length → bytes.length < fuel + pos →
      (loop bytes.length body fuel pos s).result = .ok (pieces.foldl apply s) := by
  induction pieces with
  | nil =>
    intro fuel pos s hdrop hpos hfuel
    have hle : bytes.length ≤ pos := drop_eq_nil_iff.mp hdrop
    cases fuel with
    | zero => omega
    | succ fuel =>
      unfold loop
      rw [if_neg (by omega)]
      rfl
  | cons f pieces ih =>
    intro fuel pos s hdrop hpos hfuel
    rw [flatMap_cons] at hdrop
    have hlen : 0 < (encode f).length := length_pos_iff.mpr (hne f mem_cons_self)
    have hlength := congrArg List.length hdrop
    rw [length_drop, length_append] at hlength
    cases fuel with
    | zero => omega
    | succ fuel =>
      unfold loop
      rw [if_pos (by omega), Read.result_bind_of_ok (hbody f mem_cons_self pos s _ hdrop)]
      refine ih (fun g hg => hne g (mem_cons_of_mem _ hg))
        (fun g hg => hbody g (mem_cons_of_mem _ hg)) fuel _ _ ?_ (by omega) (by omega)
      rw [← drop_drop, hdrop, drop_left]

end ByteReader
