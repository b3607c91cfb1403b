/-
# Exact reads

`Read::read_exact` of the Rust standard library on a stream that arrives in pieces, with
interrupts, which are retried, and errors, which are not: whatever was read before an error or
before the end of the stream is lost.
-/
import Mathlib.Data.List.Basic
import Mathlib.Algebra.Order.Sub.Basic

namespace BufIO

open List

/-- What one `read` does: it gives at most `n + 1` bytes, is interrupted, or fails. -/
inductive ReadEvent : Type where
  | chunk (n : ℕ)
  | interrupted
  | failed (reason : String)
  deriving DecidableEq

inductive ReadError : Type where
  | unexpectedEof
  | failed (reason : String)
  deriving DecidableEq

/-- The result of a `read_exact`, and what it leaves of the stream. -/
structure ReadOutcome (β : Type*) where
  result : Except ReadError (List β)
  left : List β

variable {β : Type*}

/-- The read has failed before the end of the stream. -/
def ReadOutcome.hasFailed (r : ReadOutcome β) : Bool :=
  match r.result with
  | .error (.failed _) => true
  | _ => false

/-- The stream has ended before all was read. -/
def ReadOutcome.isEof (r : ReadOutcome β) : Bool :=
  match r.result with
  | .error .unexpectedEof => true
  | _ => false

/-- `read_exact` for `n` bytes.  Once the events are used up, the stream gives what it has. -/
def readExact : List ReadEvent → List β → ℕ → ReadOutcome β
  | _, stream, 0 => ⟨.ok [], stream⟩
  | [], stream, n + 1 =>
    if stream.length < n + 1 then ⟨.error .unexpectedEof, []⟩
    else ⟨.ok (stream.take (n + 1)), stream.drop (n + 1)⟩
  | .chunk _ :: _, [], _ + 1 => ⟨.error .unexpectedEof, []⟩
  | .chunk k :: es, b :: stream, n + 1 =>
    let got := (b :: stream).take (min (k + 1) (n + 1))
    let r := readExact es ((b :: stream).drop got.length) (n + 1 - got.length)
    ⟨r.result.map (got ++ ·), r.left⟩
  | .interrupted :: es, stream, n + 1 => readExact es stream (n + 1)
  | .failed reason :: _, stream, _ + 1 => ⟨.error (.failed reason), stream⟩

/-- All that a `read_exact` can do. -/
inductive Reads (stream : List β) (n : ℕ) : ReadOutcome β → Prop
  | ok (got left : List β) : got.length = n → stream = got ++ left →
      Reads stream n ⟨.ok got, left⟩
  | eof : stream.length < n → Reads stream n ⟨.error .unexpectedEof, []⟩
  | failed (reason : String) (lost left : List β) : lost.length < n → stream = lost ++ left →
      Reads stream n ⟨.error (.failed reason), left⟩

theorem reads_readExact (es : List ReadEvent) (stream : List β) (n : ℕ) :
    Reads stream n (readExact es stream n) := by
  fun_induction readExact es stream n with
  | case1 es stream => exact .ok [] stream rfl rfl
  | case2 stream n hlt => exact .eof hlt
  | case3 stream n hge =>
    refine .ok _ _ ?_ (take_append_drop _ _).symm
    rw [length_take]
    omega
  | case4 k es n => exact .eof (Nat.succ_pos n)
  | case5 k es b stream n got r ih =>
    have hgot : got.length = min (min (k + 1) (n + 1)) (stream.length + 1) := by
      show ((b :: stream).take _).length = _
      rw [length_take, length_cons]
    have hsplit : b :: stream = got ++ (b :: stream).drop got.length := by
      have hdrop : (b :: stream).drop got.length = (b :: stream).drop (min (k + 1) (n + 1)) := by
        rw [hgot]
        by_cases hle : min (k + 1) (n + 1) ≤ stream.length + 1
        · rw [Nat.min_eq_left hle]
        · rw [Nat.min_eq_right (by omega), drop_eq_nil_of_le (by simp),
            drop_eq_nil_of_le (by rw [length_cons]; omega)]
      rw [hdrop]
      exact (take_append_drop _ _).symm
    have hr : r = readExact es ((b :: stream).drop got.length) (n + 1 - got.length) := rfl
    rw [← hr] at ih
    generalize r = outcome at ih ⊢
    cases ih with
    | ok more left hlen hleft =>
      refine .ok (got ++ more) left ?_ ?_
      · rw [length_append, hlen]
        omega
      · rw [append_assoc, ← hleft]
        exact hsplit
    | eof hlt =>
      refine .eof ?_
      have hlen := congrArg List.length hsplit
      rw [length_append] at hlen
      rw [hlen]
      omega
    | failed reason lost left hlen hleft =>
      refine .failed reason (got ++ lost) left ?_ ?_
      · rw [length_append]
        omega
      · rw [append_assoc, ← hleft]
        exact hsplit
  | case6 es stream n ih => exact ih
  | case7 reason es stream n => exact .failed reason [] stream (Nat.succ_pos n) rfl

/-- What a `read_exact` leaves. -/
theorem length_left_readExact (es : List ReadEvent) (stream : List β) (n : ℕ) :
    (readExact es stream n).left.length + (if (readExact es stream n).result.isOk then n else 0) ≤
      stream.length := by
  have hreads := reads_readExact es stream n
  generalize readExact es stream n = r at hreads
  cases hreads with
  | ok got left hlen hstream =>
    rw [hstream, length_append, hlen]
    show left.length + n ≤ n + left.length
    omega
  | eof hlt => exact Nat.zero_le _
  | failed reason lost left hlen hstream =>
    rw [hstream, length_append]
    show left.length + 0 ≤ lost.length + left.length
    omega

/-- A stream that begins with enough bytes gives them, unless it fails. -/
theorem readExact_append {es : List ReadEvent} {first rest : List β}
    (h : (readExact es (first ++ rest) first.length).hasFailed = false) :
    readExact es (first ++ rest) first.length = ⟨.ok first, rest⟩ := by
  have hreads := reads_readExact es (first ++ rest) first.length
  generalize readExact es (first ++ rest) first.length = r at h hreads
  cases hreads with
  | ok got left hlen hstream =>
    have hsplit := append_inj hstream hlen.symm
    rw [hsplit.1, hsplit.2]
  | eof hlt =>
    rw [length_append] at hlt
    omega
  | failed reason lost left hlen hstream => cases h

end BufIO
