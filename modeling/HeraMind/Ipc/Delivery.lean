/-
# Delivered once

How the host writes to the stdin of an extension
(`crates/heramind-core/src/extension/isolated/process.rs`): `send_message` encodes a message
into a buffered writer and flushes it, `send_message_with_retry` does it again after a failure.

A flush that fails leaves the frame in the buffer, where the next flush finds it, and a write
past the buffer that fails leaves the beginning of the frame in the pipe.  So the retry sends
the message twice, or sends it after a piece of itself.  `delivered_iff` says for which runs of
the writers this does not happen.
-/
import HeraMind.Lib.BufWriter
import HeraMind.Lib.Run
import HeraMind.Ipc.Frame
import HeraMind.Extension.IsolatedManager
import Mathlib.Data.List.TakeDrop

namespace HeraMind.Ipc

open List
open Transition BufIO
open Extension (IsolatedExtensionError)

/-! ## The writers -/

/-- The size of the buffer that `BufWriter::new` makes. -/
def stdinCapacity : ℕ := 8 * 1024

abbrev ChildStdin := BufWriter UInt8 stdinCapacity

/-- `send_message`, for a message as it was serialized. -/
def sendMessage (stdin : Option ChildStdin) (msg : Except String Payload)
    (rs : List WriteResult) : Except IsolatedExtensionError Unit × Option ChildStdin :=
  match stdin with
  | none => (.error .notInitialized, none)
  | some stdin =>
    match msg with
    | .error e => (.error (.ipcError ("Serialization error: " ++ e)), some stdin)
    | .ok payload =>
      let written := stdin.writeAll (IpcFrame.mk payload).encode rs
      match written.error with
      | some e => (.error (.ipcError e), some written.writer)
      | none =>
        let flushed := written.writer.flushBuf written.rest
        match flushed.error with
        | some e => (.error (.ipcError e), some flushed.writer)
        | none => (.ok (), some flushed.writer)

/-- A call of `send_message_with_retry`.  The other writers do not retry. -/
structure Sending where
  msg : Except String Payload
  maxRetries : ℕ
  retries : ℕ
  result : Option (Except IsolatedExtensionError Unit)

/-- The call after an attempt. -/
def Sending.attempted (call : Sending) : Except IsolatedExtensionError Unit → Sending
  | .ok () => { call with result := some (.ok ()) }
  | .error e =>
    if call.maxRetries ≤ call.retries then { call with result := some (.error e) }
    else { call with retries := call.retries + 1 }

/-- The stdin of one process of the extension, and all calls that write to it.  While it is not
`initialized`, the `Option` around the writer is `None`. -/
structure Stdin where
  writer : ChildStdin
  initialized : Bool
  calls : List Sending

namespace Stdin

/-- After the process was started. -/
def new : Stdin := ⟨.new UInt8 stdinCapacity, true, []⟩

def guard (s : Stdin) : Option ChildStdin :=
  if s.initialized then some s.writer else none

/-- What can happen next: a call, one attempt of a call with the answers of the pipe, or the
end of `stop`. -/
inductive Label : Type where
  | send (msg : Except String Payload) (maxRetries : ℕ)
  | attempt (k : ℕ) (rs : List WriteResult)
  | stop

/-- One step of the writers; the lock of the writer is held for a whole attempt. -/
def step (s : Stdin) : Label → Option Stdin
  | .send msg maxRetries => some { s with calls := s.calls ++ [⟨msg, maxRetries, 0, none⟩] }
  | .attempt k rs =>
    match s.calls[k]? with
    | none => none
    | some call =>
      match call.result with
      | some _ => none
      | none =>
        let sent := sendMessage s.guard call.msg rs
        some { s with
          writer := sent.2.getD s.writer
          calls := s.calls.set k (call.attempted sent.1) }
  | .stop => some { s with initialized := false }

end Stdin

/-! ## The claim -/

/-- The frame that a call is to write, if its message can be serialized. -/
def Sending.frame (call : Sending) : List UInt8 :=
  match call.msg with
  | .ok payload => (IpcFrame.mk payload).encode
  | .error _ => []

/-- The payload that the next attempt of a call encodes, if there is one. -/
def Sending.payload (call : Sending) : Option Payload :=
  match call.result, call.msg with
  | none, .ok payload => some payload
  | _, _ => none

namespace Stdin

/-- All bytes that were or will be written to the process. -/
def stream (s : Stdin) : List UInt8 := s.writer.stream

/-- The frame of a call. -/
def frame (s : Stdin) (k : ℕ) : List UInt8 :=
  (s.calls[k]?.map Sending.frame).getD []

/-- The call that makes the attempt. -/
def Label.sender : Label → Option ℕ
  | .attempt k _ => some k
  | _ => none

/-- The frame that a step is about. -/
def frameOf (e : Stdin × Label) : List UInt8 :=
  match e.2.sender with
  | some k => e.1.frame k
  | none => []

/-- The bytes by which the stream has grown in a step. -/
def grown (e : Stdin × Label) : List UInt8 :=
  match e.1.step e.2 with
  | some s => s.stream.drop e.1.stream.length
  | none => []

/-- Every message is in the stream at most once, and a piece of a frame is followed by nothing. -/
structure Delivered (tr : List (Stdin × Label)) (s : Stdin) : Prop where
  separate : tr.Pairwise fun later earlier => grown later ≠ [] → grown earlier ≠ [] →
    later.2.sender ≠ earlier.2.sender ∧ grown earlier = frameOf earlier
  whole : ∃ (ks : List ℕ) (piece : List UInt8), ks.Nodup ∧
    s.stream = (ks.map s.frame).flatten ++ piece ∧
    (piece = [] ∨ ∃ k ∉ ks, piece <+: s.frame k ∧ piece ≠ s.frame k)

/-- The payload that an attempt of a call encodes. -/
def payload (s : Stdin) (k : ℕ) : Option Payload :=
  s.calls[k]?.bind Sending.payload

/-- How many bytes of its frame an attempt leaves in the pipe or in the buffer, by the length of
the frame, the room in the buffer and the answers of the pipe. -/
def left (e : Stdin × Label) : ℕ :=
  match e.2 with
  | .attempt k rs =>
    match e.1.guard, e.1.payload k with
    | some writer, some payload => writer.leaves rs (4 + payload.length)
    | _, _ => 0
  | _ => 0

/-- Of each call at most one attempt leaves bytes, and an attempt that leaves only some bytes of
its frame is the last one that leaves any. -/
def Tidy (tr : List (Stdin × Label)) : Prop :=
  tr.Pairwise fun later earlier => 0 < left later → 0 < left earlier →
    later.2.sender ≠ earlier.2.sender ∧ left earlier = (frameOf earlier).length

/-! ## What an attempt leaves -/

section Attempt

variable {writer : ChildStdin} {msg : Except String Payload} {rs : List WriteResult}

/-- Of the frame, the beginning that `leaves` counts gets into the stream, whether the attempt
fails or not. -/
theorem stream_sendMessage (payload : Payload) :
    ((sendMessage (some writer) (.ok payload) rs).2.getD writer).stream =
      writer.stream ++
        (IpcFrame.mk payload).encode.take (writer.leaves rs (4 + payload.length)) := by
  have hlen : (IpcFrame.mk payload).encode.length = 4 + payload.length :=
    IpcFrame.length_encode _
  have hwritten : (writer.writeAll (IpcFrame.mk payload).encode rs).writer.stream =
      writer.stream ++
        (IpcFrame.mk payload).encode.take (writer.leaves rs (4 + payload.length)) := by
    rw [← hlen]
    exact BufWriter.stream_writeAll (by decide)
  unfold sendMessage
  simp only
  split
  · exact hwritten
  · split
    · exact BufWriter.stream_flushBuf.trans hwritten
    · exact BufWriter.stream_flushBuf.trans hwritten

variable {e : Stdin × Label} {s s' : Stdin}

theorem frame_of_payload {k : ℕ} {payload : Payload} (h : s.payload k = some payload) :
    s.frame k = (IpcFrame.mk payload).encode := by
  unfold Stdin.payload at h
  rw [Option.bind_eq_some_iff] at h
  obtain ⟨⟨msg, maxRetries, retries, result⟩, hcall, hpayload⟩ := h
  cases result with
  | some _ => cases hpayload
  | none =>
    cases msg with
    | error reason => cases hpayload
    | ok payload' =>
      cases hpayload
      simp [frame, hcall, Sending.frame]

theorem left_le (e : Stdin × Label) : left e ≤ (frameOf e).length := by
  unfold left
  split
  · rename_i k rs hlabel
    split
    · rename_i writer payload hguard hpayload
      have hframe : frameOf e = (IpcFrame.mk payload).encode := by
        simp only [frameOf, hlabel, Label.sender]
        exact frame_of_payload hpayload
      rw [hframe, IpcFrame.length_encode]
      exact BufWriter.leaves_le _
    · exact Nat.zero_le _
  · exact Nat.zero_le _

/-- The stream after a step. -/
theorem stream_step (h : step e.1 e.2 = some s') :
    s'.stream = e.1.stream ++ (frameOf e).take (left e) := by
  obtain ⟨s, a⟩ := e
  cases a with
  | send msg maxRetries | stop =>
    cases h
    simp [left, stream]
  | attempt k rs =>
    simp only [step] at h
    split at h
    · cases h
    · rename_i call hcall
      split at h
      · cases h
      · rename_i hresult
        cases h
        simp only [left, stream, frameOf, Label.sender]
        cases hguard : s.guard with
        | none => simp [sendMessage]
        | some writer =>
          have hwriter : writer = s.writer := by
            unfold guard at hguard
            split at hguard
            · exact (Option.some.inj hguard).symm
            · cases hguard
          subst hwriter
          obtain ⟨msg, maxRetries, retries, result⟩ := call
          cases hresult
          cases msg with
          | error reason => simp [sendMessage, Stdin.payload, Sending.payload, hcall]
          | ok payload =>
            have hpayload : s.payload k = some payload := by
              simp [Stdin.payload, Sending.payload, hcall]
            simp only [hpayload, frame_of_payload hpayload]
            exact stream_sendMessage payload

/-- What a step adds to the stream. -/
theorem grown_eq (h : step e.1 e.2 = some s') : grown e = (frameOf e).take (left e) := by
  unfold grown
  rw [h]
  show s'.stream.drop e.1.stream.length = _
  rw [stream_step h, drop_left]

theorem grown_ne_nil_iff (h : step e.1 e.2 = some s') : grown e ≠ [] ↔ 0 < left e := by
  have hle := left_le e
  rw [grown_eq h, ← length_pos_iff, length_take]
  omega

theorem grown_eq_frame_iff (h : step e.1 e.2 = some s') :
    grown e = frameOf e ↔ left e = (frameOf e).length := by
  have hle := left_le e
  rw [grown_eq h, take_eq_self_iff]
  omega

end Attempt

/-! ## Runs -/

section Runs

variable {tr : List (Stdin × Label)} {s s' : Stdin} {a : Label}

/-- Every step of a run leads somewhere. -/
theorem exists_step_of_mem (hrun : Run step new tr s) {e : Stdin × Label} (he : e ∈ tr) :
    ∃ t, step e.1 e.2 = some t := by
  obtain ⟨t, ht, -⟩ := hrun.next_of_mem he
  exact ⟨t, ht⟩

theorem separate_iff (hrun : Run step new tr s) :
    (tr.Pairwise fun later earlier => grown later ≠ [] → grown earlier ≠ [] →
      later.2.sender ≠ earlier.2.sender ∧ grown earlier = frameOf earlier) ↔ Tidy tr := by
  apply List.Pairwise.iff_of_mem
  intro later earlier hlater hearlier
  obtain ⟨t, ht⟩ := exists_step_of_mem hrun hlater
  obtain ⟨t', ht'⟩ := exists_step_of_mem hrun hearlier
  rw [grown_ne_nil_iff ht, grown_ne_nil_iff ht', grown_eq_frame_iff ht']

theorem msg_attempted (call : Sending) (result : Except IsolatedExtensionError Unit) :
    (call.attempted result).msg = call.msg := by
  cases result with
  | ok _ => rfl
  | error e =>
    unfold Sending.attempted
    simp only
    split <;> rfl

theorem frame_attempted (call : Sending) (result : Except IsolatedExtensionError Unit) :
    (call.attempted result).frame = call.frame := by
  unfold Sending.frame
  rw [msg_attempted]

/-- A frame stays what it is. -/
theorem frame_step (h : step s a = some s') {k : ℕ} (hk : s.frame k ≠ []) :
    s'.frame k = s.frame k := by
  cases a with
  | send msg maxRetries =>
    cases h
    have hlt : k < s.calls.length := by
      by_contra hge
      unfold frame at hk
      rw [getElem?_eq_none (Nat.le_of_not_lt hge)] at hk
      exact hk rfl
    unfold frame
    rw [getElem?_append_left hlt]
  | stop =>
    cases h
    rfl
  | attempt j rs =>
    simp only [step] at h
    split at h
    · cases h
    · rename_i call hcall
      split at h
      · cases h
      · cases h
        unfold frame
        rw [getElem?_set]
        by_cases hj : j = k
        · subst hj
          have hlt := (List.getElem?_eq_some_iff.mp hcall).1
          rw [if_pos rfl, if_pos hlt, hcall, Option.map_some, Option.map_some, frame_attempted]
        · rw [if_neg hj]

/-- What has been written so far: whole frames of some calls, then perhaps a piece of one more. -/
structure WrittenSo (tr : List (Stdin × Label)) (s : Stdin) (ks : List ℕ) (piece : List UInt8) :
    Prop where
  nodup : ks.Nodup
  stream : s.stream = (ks.map s.frame).flatten ++ piece
  whole : ∀ k ∈ ks, s.frame k ≠ [] ∧ ∃ e ∈ tr, e.2.sender = some k ∧ 0 < left e
  part : piece = [] ∨ ∃ k ∉ ks, piece <+: s.frame k ∧ piece ≠ s.frame k ∧
    ∃ e ∈ tr, 0 < left e ∧ left e ≠ (frameOf e).length

theorem WrittenSo.step {ks : List ℕ} {piece : List UInt8} (h : WrittenSo tr s ks piece)
    (htidy : Tidy ((s, a) :: tr)) (hs : step s a = some s') :
    ∃ ks' piece', WrittenSo ((s, a) :: tr) s' ks' piece' := by
  have hstream : s'.stream = s.stream ++ (frameOf (s, a)).take (left (s, a)) :=
    stream_step (e := (s, a)) hs
  have hframes : ks.map s'.frame = ks.map s.frame :=
    map_congr_left fun k hk => frame_step hs (h.whole k hk).1
  by_cases hleft : left (s, a) = 0
  · -- the step leaves nothing
    refine ⟨ks, piece, h.nodup, ?_, fun k hk => ?_, ?_⟩
    · rw [hstream, hleft, take_zero, append_nil, hframes, h.stream]
    · obtain ⟨hne, e, he, hsender⟩ := h.whole k hk
      exact ⟨by rw [frame_step hs hne]; exact hne, e, mem_cons_of_mem _ he, hsender⟩
    · rcases h.part with hnil | ⟨k, hk, hpre, hne, e, he, hcut⟩
      · exact Or.inl hnil
      · refine Or.inr ⟨k, hk, ?_⟩
        have hframe : s'.frame k = s.frame k := by
          apply frame_step hs
          intro hnil
          rw [hnil] at hpre hne
          exact hne (prefix_nil.mp hpre)
        rw [hframe]
        exact ⟨hpre, hne, e, mem_cons_of_mem _ he, hcut⟩
  · -- then nothing is left over from before, and the call has written nothing
    have hpos : 0 < left (s, a) := Nat.pos_of_ne_zero hleft
    have hearlier := (pairwise_cons.mp htidy).1
    have hpiece : piece = [] := by
      rcases h.part with hnil | ⟨k, hk, hpre, hne, e, he, hpos', hcut⟩
      · exact hnil
      · exact absurd (hearlier e he hpos hpos').2 hcut
    subst hpiece
    cases a with
    | send msg maxRetries | stop => cases hpos
    | attempt k rs =>
      have hk : k ∉ ks := by
        intro hmem
        obtain ⟨-, e, he, hsender, hpos'⟩ := h.whole k hmem
        exact (hearlier e he hpos hpos').1 hsender.symm
      have hle : left (s, .attempt k rs) ≤ (s.frame k).length := left_le (s, .attempt k rs)
      have hne : s.frame k ≠ [] := by
        intro hnil
        rw [hnil, length_nil] at hle
        omega
      have hframe : s'.frame k = s.frame k := frame_step hs hne
      have hmem : ((s, .attempt k rs) : Stdin × Label) ∈ (s, .attempt k rs) :: tr :=
        mem_cons_self
      by_cases hall : left (s, .attempt k rs) = (s.frame k).length
      · refine ⟨ks ++ [k], [], ?_, ?_, fun j hj => ?_, Or.inl rfl⟩
        · rw [nodup_append]
          refine ⟨h.nodup, nodup_singleton k, fun j hj j' hj' => ?_⟩
          rw [mem_singleton.mp hj']
          rintro rfl
          exact hk hj
        · have hwhole : (frameOf (s, .attempt k rs)).take (left (s, .attempt k rs)) =
              s'.frame k := by
            rw [hall, hframe]
            exact take_length
          rw [hstream, hwhole, h.stream, map_append, hframes]
          simp
        · rcases mem_append.mp hj with hj | hj
          · obtain ⟨hnil, e, he, hsender⟩ := h.whole j hj
            have hnil' : s'.frame j ≠ [] := by rwa [frame_step hs hnil]
            exact ⟨hnil', e, mem_cons_of_mem _ he, hsender⟩
          · rw [mem_singleton.mp hj, hframe]
            exact ⟨hne, _, hmem, rfl, hpos⟩
      · refine ⟨ks, (s.frame k).take (left (s, .attempt k rs)), h.nodup, ?_, fun j hj => ?_,
          Or.inr ⟨k, hk, ?_, ?_, _, hmem, hpos, hall⟩⟩
        · rw [hstream, h.stream, hframes, append_nil]
          rfl
        · obtain ⟨hnil, e, he, hsender⟩ := h.whole j hj
          exact ⟨by rw [frame_step hs hnil]; exact hnil, e, mem_cons_of_mem _ he, hsender⟩
        · rw [hframe]
          exact take_prefix _ _
        · rw [hframe]
          intro heq
          have hlen := congrArg List.length heq
          rw [length_take] at hlen
          omega

theorem exists_writtenSo (hrun : Run Stdin.step new tr s) (htidy : Tidy tr) :
    ∃ ks piece, WrittenSo tr s ks piece := by
  induction hrun with
  | nil =>
    exact ⟨[], [], nodup_nil, rfl, fun k hk => absurd hk not_mem_nil, Or.inl rfl⟩
  | snoc hrun hs ih =>
    obtain ⟨ks, piece, h⟩ := ih (pairwise_cons.mp htidy).2
    exact h.step htidy hs

/-- In a run of the writers, every message is in the stream at most once and no piece of a frame
is followed by other bytes, if and only if of each call at most one attempt leaves bytes in the
pipe or in the buffer, and an attempt that leaves only some bytes of its frame is the last one
that leaves any. -/
theorem delivered_iff (tr : List (Stdin × Label)) (s : Stdin) (hrun : Run Stdin.step new tr s) :
    Delivered tr s ↔ Tidy tr := by
  constructor
  · intro h
    exact (separate_iff hrun).mp h.separate
  · intro htidy
    obtain ⟨ks, piece, h⟩ := exists_writtenSo hrun htidy
    refine ⟨(separate_iff hrun).mpr htidy, ks, piece, h.nodup, h.stream, ?_⟩
    rcases h.part with hnil | ⟨k, hk, hpre, hne, -⟩
    · exact Or.inl hnil
    · exact Or.inr ⟨k, hk, hpre, hne⟩

end Runs

instance (tr : List (Stdin × Label)) : Decidable (Tidy tr) := by
  unfold Tidy
  infer_instance

end Stdin

/-! ## What a failed flush leads to -/

namespace Sample

/-- The bytes of a command, and of another one. -/
def ping : Payload := [112, 105, 110, 103]

def stats : Payload := [115, 116, 97, 116, 115]

/-- A message that goes through at once, and one whose first attempt finds the pipe interrupted
and takes it in two pieces. -/
def delivered : List Stdin.Label :=
  [.send (.ok ping) 2, .send (.ok stats) 2, .attempt 0 [], .attempt 1 [.interrupted, .accepted 3]]

/-- A message whose first flush fails, with the retry. -/
def failedFlush : List Stdin.Label :=
  [.send (.ok ping) 2, .attempt 0 [.failed "Resource temporarily unavailable"], .attempt 0 []]

end Sample

namespace Stdin

theorem delivered_two_messages :
    ∃ tr s, Run step new tr s ∧ Delivered tr s ∧
      s.stream = frameStream [⟨Sample.ping⟩, ⟨Sample.stats⟩] := by
  obtain ⟨tr, s, hrun, htidy, hstream⟩ := exists_run step new Sample.delivered
    (fun tr s => Tidy tr ∧ s.stream = frameStream [⟨Sample.ping⟩, ⟨Sample.stats⟩])
    (by decide)
  exact ⟨tr, s, hrun, (delivered_iff tr s hrun).mpr htidy, hstream⟩

/-- The flush fails before the pipe has taken a byte, so the whole frame is still in the buffer
when the retry adds it again: the extension gets the command twice. -/
theorem failed_flush_sends_twice :
    ∃ tr s, Run step new tr s ∧ ¬ Delivered tr s ∧
      s.writer.sunk = frameStream [⟨Sample.ping⟩, ⟨Sample.ping⟩] := by
  obtain ⟨tr, s, hrun, htidy, hsunk⟩ := exists_run step new Sample.failedFlush
    (fun tr s => ¬ Tidy tr ∧ s.writer.sunk = frameStream [⟨Sample.ping⟩, ⟨Sample.ping⟩])
    (by decide)
  exact ⟨tr, s, hrun, fun h => htidy ((separate_iff hrun).mp h.separate), hsunk⟩

end Stdin

end HeraMind.Ipc
