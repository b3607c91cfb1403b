/-
# Reading at frame boundaries

Two parts of the runner read its stdin: the reader thread (`start_stdin_reader`,
`crates/heramind-extension-runner/src/ipc_routing.rs`), and `invoke_host_capability`
(`crates/heramind-extension-runner/src/main.rs`), which reads its answer from there itself.
Stdin is locked for one `read_exact` at a time, so either may read between two reads of the
other.

A reader that loses bytes, or takes them from the middle of a frame of the other one, goes on
with payload bytes as a length.  `aligned_of_undisturbed` says when this does not happen.
-/
import HeraMind.Lib.ReadExact
import HeraMind.Lib.Run
import HeraMind.Ipc.Frame
import Mathlib.Data.List.Infix

namespace HeraMind.Ipc

open List Option Bool
open Transition BufIO

/-! ## The readers -/

/-- Where the reader thread is. -/
inductive ReaderPc : Type where
  | length
  | payload (len : ℕ)
  | drain (remaining : ℕ)
  | exited
  deriving DecidableEq

/-- Where a capability call is that has sent its request. -/
inductive CallPc : Type where
  | length
  | payload (len : ℕ)
  deriving DecidableEq

/-- `MAX_CONSECUTIVE_ERRORS`. -/
def maxConsecutiveErrors : ℕ := 5

/-- The size of `drain_buf`. -/
def drainChunk : ℕ := 4096

/-- The limit of `invoke_host_capability`. -/
def capabilityLimit : ℕ := 10 * 1024 * 1024

/-- Stdin, its readers, and the payloads that were given to a parser, oldest first. -/
structure Runner where
  stdin : List UInt8
  reader : ReaderPc
  consecutiveErrors : ℕ
  call : Option CallPc
  parsed : List Payload

namespace Runner

/-- The runner before it reads anything. -/
def new (frames : List IpcFrame) : Runner where
  stdin := frameStream frames
  reader := .length
  consecutiveErrors := 0
  call := none
  parsed := []

/-- What can happen next: the reader thread reads, the main loop calls a capability, or that
call reads. -/
inductive Label : Type where
  | reads (es : List ReadEvent)
  | invoke
  | callReads (es : List ReadEvent)
  deriving DecidableEq

section Step

variable (maxSize : ℕ) (s : Runner)

/-- The reader thread has read a length, or not. -/
def afterLength : ReadOutcome UInt8 → Runner
  | ⟨.ok bytes, left⟩ => { s with
      stdin := left
      consecutiveErrors := 0
      reader :=
        if maxSize < fromLeBytes bytes then .drain (fromLeBytes bytes)
        else .payload (fromLeBytes bytes) }
  | ⟨.error .unexpectedEof, left⟩ => { s with stdin := left, reader := .exited }
  | ⟨.error (.failed _), left⟩ => { s with
      stdin := left
      consecutiveErrors := s.consecutiveErrors + 1
      reader := if maxConsecutiveErrors ≤ s.consecutiveErrors + 1 then .exited else .length }

/-- The reader thread has read a payload, or not; either way it goes on with a length. -/
def afterPayload : ReadOutcome UInt8 → Runner
  | ⟨.ok payload, left⟩ =>
    { s with stdin := left, reader := .length, parsed := s.parsed ++ [payload] }
  | ⟨.error _, left⟩ => { s with stdin := left, reader := .length }

/-- The reader thread has read some bytes that it drops. -/
def afterDrain (remaining : ℕ) : ReadOutcome UInt8 → Runner
  | ⟨.ok _, left⟩ => { s with
      stdin := left
      reader :=
        if remaining ≤ drainChunk then .length else .drain (remaining - drainChunk) }
  | ⟨.error _, left⟩ => { s with stdin := left, reader := .length }

/-- A capability call has read a length, or not. -/
def callAfterLength : ReadOutcome UInt8 → Runner
  | ⟨.ok bytes, left⟩ => { s with
      stdin := left
      call :=
        if capabilityLimit < fromLeBytes bytes then none
        else some (.payload (fromLeBytes bytes)) }
  | ⟨.error _, left⟩ => { s with stdin := left, call := none }

/-- A capability call has read a payload, or not. -/
def callAfterPayload : ReadOutcome UInt8 → Runner
  | ⟨.ok payload, left⟩ =>
    { s with stdin := left, call := none, parsed := s.parsed ++ [payload] }
  | ⟨.error _, left⟩ => { s with stdin := left, call := none }

/-- One `read_exact` of a reader, with what stdin does meanwhile.  An interrupt never gets out
of `read_exact`. -/
def step : Label → Option Runner
  | .reads es =>
    match s.reader with
    | .length => some (s.afterLength maxSize (readExact es s.stdin 4))
    | .payload len => some (s.afterPayload (readExact es s.stdin len))
    | .drain remaining =>
      some (s.afterDrain remaining (readExact es s.stdin (min remaining drainChunk)))
    | .exited => none
  | .invoke =>
    match s.call with
    | none => some { s with call := some .length }
    | some _ => none
  | .callReads es =>
    match s.call with
    | some .length => some (s.callAfterLength (readExact es s.stdin 4))
    | some (.payload len) => some (s.callAfterPayload (readExact es s.stdin len))
    | none => none

end Step

/-! ## The claim -/

/-- A step that reads the length of a frame. -/
def readsLength (s : Runner) : Label → Bool
  | .reads _ => decide (s.reader = .length)
  | .callReads _ => decide (s.call = some .length)
  | .invoke => false

/-- The readers take exactly the frames up to their limits, in order, and read lengths only
where a frame begins. -/
structure Aligned (frames : List IpcFrame) (maxSize : ℕ) (tr : List (Runner × Label))
    (s : Runner) : Prop where
  boundary : ∀ e ∈ tr, e.1.readsLength e.2 = true →
    ∃ todo ∈ frames.tails, e.1.stdin = frameStream todo
  /-- Every frame comes with the limit of the reader that took it. -/
  parsed : ∃ (done : List (IpcFrame × ℕ)) (todo : List IpcFrame),
    frames = done.map Prod.fst ++ todo ∧
    (∀ d ∈ done, d.2 = maxSize ∨ d.2 = capabilityLimit) ∧
    s.parsed = (done.filter fun d => decide (d.1.payload.length ≤ d.2)).map (fun d => d.1.payload) ∧
    (s.reader = .exited → todo = [])

/-- The call is in the middle of a frame. -/
def inCall (s : Runner) : Bool :=
  match s.call with
  | some (.payload _) => true
  | _ => false

/-- The reader thread is in the middle of a frame. -/
def inReader (s : Runner) : Bool :=
  match s.reader with
  | .payload _ | .drain _ => true
  | _ => false

/-- Stdin fails between frames only, and not too often, and nobody reads in the middle of a
frame of the other reader.  A capability call finds a frame up to its limit. -/
def undisturbed (s : Runner) : Label → Bool
  | .reads es =>
    match s.reader with
    | .length =>
      let r := readExact es s.stdin 4
      !s.inCall && decide (r.hasFailed = true →
        r.left = s.stdin ∧ s.consecutiveErrors + 1 < maxConsecutiveErrors)
    | .payload len => !(readExact es s.stdin len).hasFailed
    | .drain remaining => !(readExact es s.stdin (min remaining drainChunk)).hasFailed
    | .exited => true
  | .invoke => true
  | .callReads es =>
    match s.call with
    | some .length =>
      let r := readExact es s.stdin 4
      !s.inReader && decide (r.hasFailed = true → r.left = s.stdin) &&
        decide (∀ bytes ∈ r.result.toOption, fromLeBytes bytes ≤ capabilityLimit)
    | some (.payload len) => !(readExact es s.stdin len).hasFailed
    | none => true

/-! ## Where the readers are -/

/-- Where stdin is, when only `todo` has not been taken yet. -/
inductive At (maxSize : ℕ) : ReaderPc → Option CallPc → List IpcFrame → List UInt8 → Prop
  | boundary {reader : ReaderPc} {call : Option CallPc} {todo : List IpcFrame} :
      (reader = .length ∨ reader = .exited ∧ todo = []) → (call = none ∨ call = some .length) →
      At maxSize reader call todo (frameStream todo)
  | payload {call : Option CallPc} {frame : IpcFrame} {todo : List IpcFrame} :
      frame.payload.length ≤ maxSize → (call = none ∨ call = some .length) →
      At maxSize (.payload frame.payload.length) call (frame :: todo)
        (frame.payload ++ frameStream todo)
  | drain {call : Option CallPc} {frame : IpcFrame} {todo : List IpcFrame} {rest : Payload} :
      maxSize < frame.payload.length → (call = none ∨ call = some .length) → 0 < rest.length →
      At maxSize (.drain rest.length) call (frame :: todo) (rest ++ frameStream todo)
  | callPayload {frame : IpcFrame} {todo : List IpcFrame} :
      frame.payload.length ≤ capabilityLimit →
      At maxSize .length (some (.payload frame.payload.length)) (frame :: todo)
        (frame.payload ++ frameStream todo)

/-- What holds between two reads. -/
structure Inv (frames : List IpcFrame) (maxSize : ℕ) (s : Runner) (done : List (IpcFrame × ℕ))
    (todo : List IpcFrame) : Prop where
  frames : frames = done.map Prod.fst ++ todo
  limits : ∀ d ∈ done, d.2 = maxSize ∨ d.2 = capabilityLimit
  parsed : s.parsed =
    (done.filter fun d => decide (d.1.payload.length ≤ d.2)).map (fun d => d.1.payload)
  position : At maxSize s.reader s.call todo s.stdin

section Steps

variable {frames todo : List IpcFrame} {maxSize : ℕ} {s s' : Runner} {a : Label}
  {done : List (IpcFrame × ℕ)} {es : List ReadEvent}

/-- What a reader finds where a frame begins, or where the stream ends. -/
theorem readExact_frameStream (es : List ReadEvent) (hframes : ∀ frame ∈ todo, frame.Encodable) :
    (∃ bytes frame rest, readExact es (frameStream todo) 4 =
        ⟨.ok bytes, frame.payload ++ frameStream rest⟩ ∧ todo = frame :: rest ∧
        fromLeBytes bytes = frame.payload.length) ∨
      (readExact es (frameStream todo) 4 = ⟨.error .unexpectedEof, []⟩ ∧ todo = []) ∨
      (readExact es (frameStream todo) 4).hasFailed = true := by
  by_cases hfailed : (readExact es (frameStream todo) 4).hasFailed = true
  · exact Or.inr (Or.inr hfailed)
  rw [not_eq_true] at hfailed
  cases todo with
  | nil =>
    have hreads := reads_readExact es (frameStream []) 4
    rw [frameStream_nil] at hfailed hreads ⊢
    generalize readExact es ([] : List UInt8) 4 = r at hfailed hreads ⊢
    cases hreads with
    | ok got left hlen hstream =>
      have hnil := (append_eq_nil_iff.mp hstream.symm).1
      rw [hnil] at hlen
      cases hlen
    | eof hlt => exact Or.inr (Or.inl ⟨rfl, rfl⟩)
    | failed reason lost left hlen hstream => cases hfailed
  | cons frame rest =>
    have hstream : frameStream (frame :: rest) =
        toLeBytes frame.payload.length ++ (frame.payload ++ frameStream rest) := by
      rw [frameStream_cons, IpcFrame.encode, append_assoc]
    rw [hstream] at hfailed ⊢
    refine Or.inl ⟨_, frame, rest, readExact_append hfailed, rfl, ?_⟩
    rw [fromLeBytes_toLeBytes]
    exact Nat.mod_eq_of_lt (hframes frame mem_cons_self)

/-- A frame up to the limit of its reader is parsed. -/
theorem Inv.take {frame : IpcFrame} {limit : ℕ} (h : Inv frames maxSize s done (frame :: todo))
    (hlimit : limit = maxSize ∨ limit = capabilityLimit) (hle : frame.payload.length ≤ limit)
    (hparsed : s'.parsed = s.parsed ++ [frame.payload])
    (hposition : At maxSize s'.reader s'.call todo s'.stdin) :
    Inv frames maxSize s' (done ++ [(frame, limit)]) todo where
  frames := by simp [h.frames]
  limits d hd := by
    rcases mem_append.mp hd with hd | hd
    · exact h.limits d hd
    · rw [mem_singleton.mp hd]
      exact hlimit
  parsed := by
    rw [hparsed, h.parsed, filter_append, map_append]
    simp [hle]
  position := hposition

/-- A frame over the limit is dropped. -/
theorem Inv.drop {frame : IpcFrame} (h : Inv frames maxSize s done (frame :: todo))
    (hlt : maxSize < frame.payload.length) (hparsed : s'.parsed = s.parsed)
    (hposition : At maxSize s'.reader s'.call todo s'.stdin) :
    Inv frames maxSize s' (done ++ [(frame, maxSize)]) todo where
  frames := by simp [h.frames]
  limits d hd := by
    rcases mem_append.mp hd with hd | hd
    · exact h.limits d hd
    · rw [mem_singleton.mp hd]
      exact Or.inl rfl
  parsed := by
    rw [hparsed, h.parsed, filter_append, map_append]
    simp [Nat.not_le_of_lt hlt]
  position := hposition

theorem call_of_not_inCall (h : s.inCall = false) : s.call = none ∨ s.call = some .length := by
  unfold inCall at h
  cases hcall : s.call with
  | none => exact Or.inl rfl
  | some pc =>
    cases pc with
    | length => exact Or.inr rfl
    | payload len => simp [hcall] at h

theorem reader_of_not_inReader (h : s.inReader = false) :
    s.reader = .length ∨ s.reader = .exited := by
  unfold inReader at h
  cases hreader : s.reader with
  | length => exact Or.inl rfl
  | exited => exact Or.inr rfl
  | payload len | drain remaining => simp [hreader] at h

theorem At.stdin_eq {reader : ReaderPc} {call : Option CallPc} {stdin : List UInt8}
    (h : At maxSize reader call todo stdin) (hreader : reader = .length ∨ reader = .exited)
    (hcall : call = none ∨ call = some .length) : stdin = frameStream todo := by
  cases h with
  | boundary hr hc => rfl
  | payload hle hc | drain hlt hc hpos => simp at hreader
  | callPayload hle => simp at hcall

theorem At.todo_eq_nil {call : Option CallPc} {stdin : List UInt8}
    (h : At maxSize .exited call todo stdin) : todo = [] := by
  cases h with
  | boundary hr hc =>
    rcases hr with hr | ⟨-, htodo⟩
    · cases hr
    · exact htodo

namespace Inv

variable (h : Inv frames maxSize s done todo)

include h

/-- A read that is only one step into or within a frame. -/
theorem move (hparsed : s'.parsed = s.parsed)
    (hposition : At maxSize s'.reader s'.call todo s'.stdin) :
    Inv frames maxSize s' done todo where
  frames := h.frames
  limits := h.limits
  parsed := by rw [hparsed, h.parsed]
  position := hposition

/-- What is still to come can be encoded. -/
theorem encodable (hframes : ∀ frame ∈ frames, frame.Encodable) :
    ∀ frame ∈ todo, frame.Encodable := by
  intro frame hframe
  apply hframes
  rw [h.frames]
  exact mem_append_right _ hframe

/-- The reader thread reads a length. -/
theorem readLength (hframes : ∀ frame ∈ frames, frame.Encodable) (hreader : s.reader = .length)
    (hcalm : s.undisturbed (.reads es) = true) :
    Inv frames maxSize (s.afterLength maxSize (readExact es s.stdin 4)) done todo := by
  simp only [undisturbed, hreader, and_eq_true, not_eq_true', decide_eq_true_eq] at hcalm
  obtain ⟨hcall, hfail⟩ := hcalm
  replace hcall := call_of_not_inCall hcall
  have hstdin := h.position.stdin_eq (Or.inl hreader) hcall
  rcases readExact_frameStream es (h.encodable hframes) with
    ⟨bytes, frame, rest, hread, rfl, hlen⟩ | ⟨hread, rfl⟩ | hfailed
  · rw [hstdin, hread]
    refine h.move rfl ?_
    show At maxSize (if _ then _ else _) s.call _ _
    rw [hlen]
    by_cases hlt : maxSize < frame.payload.length
    · rw [if_pos hlt]
      exact .drain hlt hcall (Nat.lt_of_le_of_lt (Nat.zero_le _) hlt)
    · rw [if_neg hlt]
      exact .payload (Nat.le_of_not_lt hlt) hcall
  · rw [hstdin, hread]
    exact h.move rfl (.boundary (Or.inr ⟨rfl, rfl⟩) hcall)
  · rw [← hstdin] at hfailed
    obtain ⟨hleft, hfew⟩ := hfail hfailed
    generalize readExact es s.stdin 4 = r at hfailed hleft
    obtain ⟨result, left⟩ := r
    cases result with
    | ok bytes => cases hfailed
    | error e =>
      cases e with
      | unexpectedEof => cases hfailed
      | failed reason =>
        refine h.move rfl ?_
        show At maxSize (if _ then _ else _) s.call todo left
        rw [if_neg (Nat.not_le_of_lt hfew)]
        have hleft' : left = frameStream todo := hleft.trans hstdin
        rw [hleft']
        exact .boundary (Or.inl rfl) hcall

/-- The reader thread reads a payload. -/
theorem readPayload {len : ℕ} (hreader : s.reader = .payload len)
    (hcalm : s.undisturbed (.reads es) = true) :
    ∃ done' todo', Inv frames maxSize (s.afterPayload (readExact es s.stdin len)) done' todo' := by
  simp only [undisturbed, hreader, not_eq_true'] at hcalm
  have hposition := h.position
  rw [hreader] at hposition
  generalize hstdin : s.stdin = stdin at hposition hcalm ⊢
  generalize hcall : s.call = call at hposition
  cases hposition with
  | boundary hr hc => simp at hr
  | payload hle hc =>
    rw [readExact_append hcalm]
    refine ⟨_, _, h.take (Or.inl rfl) hle rfl ?_⟩
    show At maxSize .length s.call _ _
    rw [hcall]
    exact .boundary (Or.inl rfl) hc

/-- The reader thread drops some bytes. -/
theorem readDrain {remaining : ℕ} (hreader : s.reader = .drain remaining)
    (hcalm : s.undisturbed (.reads es) = true) :
    ∃ done' todo', Inv frames maxSize
      (s.afterDrain remaining (readExact es s.stdin (min remaining drainChunk))) done' todo' := by
  simp only [undisturbed, hreader, not_eq_true'] at hcalm
  have hposition := h.position
  rw [hreader] at hposition
  generalize hstdin : s.stdin = stdin at hposition hcalm ⊢
  generalize hcall : s.call = call at hposition
  cases hposition with
  | boundary hr hc => simp at hr
  | @drain _ frame todo rest hlt hc hpos =>
    have hsplit : rest ++ frameStream todo =
        rest.take drainChunk ++ (rest.drop drainChunk ++ frameStream todo) := by
      rw [← append_assoc, take_append_drop]
    have hlen : min rest.length drainChunk = (rest.take drainChunk).length := by
      rw [length_take, Nat.min_comm]
    rw [hsplit, hlen] at hcalm ⊢
    rw [readExact_append hcalm]
    by_cases hlast : rest.length ≤ drainChunk
    · refine ⟨_, _, h.drop hlt rfl ?_⟩
      show At maxSize (if _ then _ else _) s.call _ _
      rw [if_pos hlast, drop_eq_nil_of_le hlast, nil_append, hcall]
      exact .boundary (Or.inl rfl) hc
    · refine ⟨_, _, h.move rfl ?_⟩
      show At maxSize (if _ then _ else _) s.call _ _
      rw [if_neg hlast, hcall, ← length_drop]
      refine .drain hlt hc ?_
      rw [length_drop]
      omega

/-- A capability call reads a length. -/
theorem callReadLength (hframes : ∀ frame ∈ frames, frame.Encodable)
    (hcall : s.call = some .length) (hcalm : s.undisturbed (.callReads es) = true) :
    Inv frames maxSize (s.callAfterLength (readExact es s.stdin 4)) done todo := by
  simp only [undisturbed, hcall, and_eq_true, not_eq_true', decide_eq_true_eq] at hcalm
  obtain ⟨⟨hreader, hfail⟩, hlimit⟩ := hcalm
  replace hreader := reader_of_not_inReader hreader
  have hposition := h.position
  have hstdin := hposition.stdin_eq hreader (Or.inr hcall)
  have hidle : ∀ left, left = frameStream todo → At maxSize s.reader none todo left := by
    rintro left rfl
    refine .boundary ?_ (Or.inl rfl)
    rcases hreader with hr | hr
    · exact Or.inl hr
    · rw [hr] at hposition
      exact Or.inr ⟨hr, hposition.todo_eq_nil⟩
  rcases readExact_frameStream es (h.encodable hframes) with
    ⟨bytes, frame, rest, hread, rfl, hlen⟩ | ⟨hread, rfl⟩ | hfailed
  · rw [hstdin, hread] at hlimit
    have hle : frame.payload.length ≤ capabilityLimit := by
      rw [← hlen]
      exact hlimit bytes rfl
    rw [hstdin, hread]
    refine h.move rfl ?_
    show At maxSize s.reader (if _ then _ else _) _ _
    rw [hlen, if_neg (Nat.not_lt_of_le hle)]
    rcases hreader with hr | hr
    · rw [hr]
      exact .callPayload hle
    · rw [hr] at hposition
      cases hposition.todo_eq_nil
  · rw [hstdin, hread]
    exact h.move rfl (hidle [] rfl)
  · rw [← hstdin] at hfailed
    have hleft := hfail hfailed
    generalize readExact es s.stdin 4 = r at hfailed hleft
    obtain ⟨result, left⟩ := r
    cases result with
    | ok bytes => cases hfailed
    | error e => exact h.move rfl (hidle left (hleft.trans hstdin))

/-- A capability call reads a payload. -/
theorem callReadPayload {len : ℕ} (hcall : s.call = some (.payload len))
    (hcalm : s.undisturbed (.callReads es) = true) :
    ∃ done' todo',
      Inv frames maxSize (s.callAfterPayload (readExact es s.stdin len)) done' todo' := by
  simp only [undisturbed, hcall, not_eq_true'] at hcalm
  have hposition := h.position
  rw [hcall] at hposition
  generalize hstdin : s.stdin = stdin at hposition hcalm ⊢
  generalize hreader : s.reader = reader at hposition
  cases hposition with
  | boundary hr hc | payload hle hc | drain hlt hc hpos => simp at hc
  | callPayload hle =>
    rw [readExact_append hcalm]
    refine ⟨_, _, h.take (Or.inr rfl) hle rfl ?_⟩
    show At maxSize s.reader none _ _
    rw [hreader]
    exact .boundary (Or.inl rfl) (Or.inl rfl)

/-- The step lemma. -/
theorem step (hframes : ∀ frame ∈ frames, frame.Encodable) (hcalm : s.undisturbed a = true)
    (hs : s.step maxSize a = some s') : ∃ done' todo', Inv frames maxSize s' done' todo' := by
  cases a with
  | reads es =>
    simp only [Runner.step] at hs
    cases hreader : s.reader with
    | length =>
      simp only [hreader, some.injEq] at hs
      subst hs
      exact ⟨done, todo, h.readLength hframes hreader hcalm⟩
    | payload len =>
      simp only [hreader, some.injEq] at hs
      subst hs
      exact h.readPayload hreader hcalm
    | drain remaining =>
      simp only [hreader, some.injEq] at hs
      subst hs
      exact h.readDrain hreader hcalm
    | exited => simp [hreader] at hs
  | invoke =>
    simp only [Runner.step] at hs
    cases hcall : s.call with
    | none =>
      simp only [hcall, some.injEq] at hs
      subst hs
      have hposition := h.position
      rw [hcall] at hposition
      refine ⟨done, todo, h.move rfl ?_⟩
      show At maxSize s.reader (some .length) todo s.stdin
      generalize s.reader = reader at hposition ⊢
      generalize s.stdin = stdin at hposition ⊢
      cases hposition with
      | boundary hr hc => exact .boundary hr (Or.inr rfl)
      | payload hle hc => exact .payload hle (Or.inr rfl)
      | drain hlt hc hpos => exact .drain hlt (Or.inr rfl) hpos
    | some pc => simp [hcall] at hs
  | callReads es =>
    simp only [Runner.step] at hs
    cases hcall : s.call with
    | none => simp [hcall] at hs
    | some pc =>
      cases pc with
      | length =>
        simp only [hcall, some.injEq] at hs
        subst hs
        exact ⟨done, todo, h.callReadLength hframes hcall hcalm⟩
      | payload len =>
        simp only [hcall, some.injEq] at hs
        subst hs
        exact h.callReadPayload hcall hcalm

/-- Where a length is read, a frame begins. -/
theorem boundary (hcalm : s.undisturbed a = true)
    (hreads : s.readsLength a = true) : ∃ todo ∈ frames.tails, s.stdin = frameStream todo := by
  refine ⟨todo, ?_, ?_⟩
  · rw [mem_tails, h.frames]
    exact suffix_append _ _
  · cases a with
    | reads es =>
      have hreader : s.reader = .length := of_decide_eq_true hreads
      simp only [undisturbed, hreader, and_eq_true, not_eq_true'] at hcalm
      exact h.position.stdin_eq (Or.inl hreader) (call_of_not_inCall hcalm.1)
    | invoke => cases hreads
    | callReads es =>
      have hcall : s.call = some .length := of_decide_eq_true hreads
      simp only [undisturbed, hcall, and_eq_true, not_eq_true'] at hcalm
      exact h.position.stdin_eq (reader_of_not_inReader hcalm.1.1) (Or.inr hcall)

end Inv

theorem Inv.new (frames : List IpcFrame) (maxSize : ℕ) :
    Inv frames maxSize (Runner.new frames) [] frames where
  frames := rfl
  limits _ hd := absurd hd not_mem_nil
  parsed := rfl
  position := .boundary (Or.inl rfl) (Or.inl rfl)

/-- However the frames arrive, and whoever reads them: as long as stdin fails between frames
only, and nobody reads in the middle of a frame of the other reader, exactly the frames up to
the limits are taken, in order. -/
theorem aligned_of_undisturbed (frames : List IpcFrame) (maxSize : ℕ)
    (tr : List (Runner × Label)) (s : Runner) (hframes : ∀ frame ∈ frames, frame.Encodable)
    (hrun : Run (Runner.step maxSize) (new frames) tr s)
    (hcalm : Within (fun s a => s.undisturbed a = true) tr) : Aligned frames maxSize tr s := by
  have hinv : (∃ done todo, Inv frames maxSize s done todo) ∧
      ∀ e ∈ tr, e.1.readsLength e.2 = true →
        ∃ todo ∈ frames.tails, e.1.stdin = frameStream todo := by
    refine hrun.traceInvariant (I := fun tr s => (∃ done todo, Inv frames maxSize s done todo) ∧
      ∀ e ∈ tr, e.1.readsLength e.2 = true →
        ∃ todo ∈ frames.tails, e.1.stdin = frameStream todo) hcalm ?_ ?_
    · exact ⟨⟨_, _, Inv.new frames maxSize⟩, fun e he => absurd he not_mem_nil⟩
    · rintro tr s a s' - ⟨⟨done, todo, h⟩, hbefore⟩ hcalm hs
      refine ⟨h.step hframes hcalm hs, fun e he hreads => ?_⟩
      rcases mem_cons.mp he with rfl | he
      · exact h.boundary hcalm hreads
      · exact hbefore e he hreads
  obtain ⟨⟨done, todo, h⟩, hboundary⟩ := hinv
  refine ⟨hboundary, done, todo, h.frames, h.limits, h.parsed, fun hexited => ?_⟩
  have hposition := h.position
  rw [hexited] at hposition
  exact hposition.todo_eq_nil

end Steps

end Runner

/-! ## What disturbs the readers -/

namespace Sample

/-- A frame with a payload that begins like a frame, an empty one, and a long one. -/
def nested : IpcFrame := ⟨[1, 0, 0, 0, 7]⟩

def empty : IpcFrame := ⟨[]⟩

def long : IpcFrame := ⟨[1, 2, 3, 4, 5, 6, 7]⟩

/-- The frames arrive in pieces, with interrupts, and an error before the second; a capability
call takes the third. -/
def pieces : List Runner.Label :=
  [.reads [.chunk 0, .interrupted, .chunk 1], .reads [.chunk 2], .reads [.failed "EIO"],
    .reads [], .reads [], .invoke, .callReads [.interrupted], .callReads [.chunk 0],
    .reads [], .reads [.chunk 3], .reads []]

/-- An error after two bytes of a length. -/
def lostLength : List Runner.Label := [.reads [.chunk 1, .failed "EIO"], .reads []]

/-- A capability call reads in the middle of a frame of the reader thread. -/
def capabilityCall : List Runner.Label := [.reads [], .invoke, .callReads [], .callReads []]

end Sample

namespace Runner

theorem aligned_in_pieces :
    ∃ tr s, Run (step 6) (new [Sample.nested, Sample.empty, Sample.nested, Sample.long]) tr s ∧
      s.parsed = [Sample.nested.payload, [], Sample.nested.payload] ∧ s.reader = .exited ∧
      Aligned [Sample.nested, Sample.empty, Sample.nested, Sample.long] 6 tr s := by
  obtain ⟨tr, s, hrun, hcalm, hparsed, hexited⟩ := exists_run (step 6)
    (new [Sample.nested, Sample.empty, Sample.nested, Sample.long]) Sample.pieces
    (fun tr s => Within (fun s a => undisturbed s a = true) tr ∧
      s.parsed = [Sample.nested.payload, [], Sample.nested.payload] ∧ s.reader = .exited)
    (by decide)
  refine ⟨tr, s, hrun, hparsed, hexited, ?_⟩
  refine aligned_of_undisturbed _ 6 tr s ?_ hrun hcalm
  simp only [forall_mem_cons, IpcFrame.Encodable]
  decide

/-- Some step of the trace reads a length where no frame begins. -/
def misread (frames : List IpcFrame) (tr : List (Runner × Label)) : Bool :=
  tr.any fun e => e.1.readsLength e.2 &&
    decide (∀ todo ∈ frames.tails, e.1.stdin ≠ frameStream todo)

theorem not_aligned_of_misread {frames : List IpcFrame} {maxSize : ℕ}
    {tr : List (Runner × Label)} {s : Runner} (h : misread frames tr = true) :
    ¬ Aligned frames maxSize tr s := by
  intro haligned
  obtain ⟨e, he, hreads⟩ := any_eq_true.mp h
  rw [and_eq_true, decide_eq_true_eq] at hreads
  obtain ⟨todo, htodo, hstdin⟩ := haligned.boundary e he hreads.1
  exact hreads.2 todo htodo hstdin

/-- A capability call that is made while the reader thread is between a length and its payload
takes the payload for a frame.  A read error in the middle of a length does as much. -/
theorem payload_read_as_length :
    (∃ tr s, Run (step capabilityLimit) (new [Sample.nested]) tr s ∧
      s.parsed = [[7]] ∧ ¬ Aligned [Sample.nested] capabilityLimit tr s) ∧
    ∃ tr s, Run (step capabilityLimit) (new [Sample.nested]) tr s ∧
      tr.map Prod.snd = Sample.lostLength.reverse ∧
      ¬ Aligned [Sample.nested] capabilityLimit tr s := by
  constructor
  · obtain ⟨tr, s, hrun, hmisread, hparsed⟩ := exists_run (step capabilityLimit)
      (new [Sample.nested])
      Sample.capabilityCall
      (fun tr s => misread [Sample.nested] tr = true ∧ s.parsed = [[7]])
      (by decide)
    exact ⟨tr, s, hrun, hparsed, not_aligned_of_misread hmisread⟩
  · obtain ⟨tr, s, hrun, hmisread, htrace⟩ := exists_run (step capabilityLimit)
      (new [Sample.nested])
      Sample.lostLength
      (fun tr s => misread [Sample.nested] tr = true ∧ tr.map Prod.snd = Sample.lostLength.reverse)
      (by decide)
    exact ⟨tr, s, hrun, htrace, not_aligned_of_misread hmisread⟩

end Runner

end HeraMind.Ipc
