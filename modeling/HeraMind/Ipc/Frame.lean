/-
# Frames

The frames between the host and the runner of an extension
(`crates/heramind-extension-sdk/src/ipc_types.rs`): four bytes of length, little endian, then
the payload.  `encode` has no limit of its own, so the length of a payload of 4 GiB or more is
cut off to 32 bits; `decode` refuses a length over 16 MiB.

A stream of frames is their encodings one after the other.
-/
import Mathlib.Data.List.Basic
import Mathlib.Algebra.Group.Nat.Defs
import Mathlib.Algebra.Order.Sub.Basic

namespace HeraMind.Ipc

open List

/-- The bytes of a message. -/
abbrev Payload := List UInt8

/-! ## Lengths -/

/-- `(n as u32).to_le_bytes()`. -/
def toLeBytes (n : ℕ) : List UInt8 :=
  [UInt8.ofNat n, UInt8.ofNat (n / 2 ^ 8), UInt8.ofNat (n / 2 ^ 16), UInt8.ofNat (n / 2 ^ 24)]

/-- `u32::from_le_bytes`. -/
def fromLeBytes (bytes : List UInt8) : ℕ :=
  bytes.foldr (fun b n => b.toNat + 2 ^ 8 * n) 0

@[simp] theorem length_toLeBytes (n : ℕ) : (toLeBytes n).length = 4 := rfl

theorem fromLeBytes_toLeBytes (n : ℕ) : fromLeBytes (toLeBytes n) = n % 2 ^ 32 := by
  simp only [fromLeBytes, toLeBytes, foldr_cons, foldr_nil, UInt8.toNat_ofNat']
  omega

/-! ## Frames -/

/-- `IpcFrame`. -/
structure IpcFrame where
  payload : Payload
  deriving DecidableEq

def maxIpcFrameSize : ℕ := 16 * 1024 * 1024

namespace IpcFrame

/-- `IpcFrame::encode`. -/
def encode (frame : IpcFrame) : List UInt8 :=
  toLeBytes frame.payload.length ++ frame.payload

/-- `IpcFrame::decode`. -/
def decode (bytes : List UInt8) : Except String (IpcFrame × ℕ) :=
  if bytes.length < 4 then .error "Not enough bytes for length prefix"
  else
    let len := fromLeBytes (bytes.take 4)
    if maxIpcFrameSize < len then .error "Frame exceeds maximum allowed size (16 MB)"
    else if bytes.length < 4 + len then .error "Not enough bytes for payload"
    else .ok (⟨(bytes.take (4 + len)).drop 4⟩, 4 + len)

/-- A payload whose length fits into the prefix. -/
def Encodable (frame : IpcFrame) : Prop := frame.payload.length < 2 ^ 32

theorem length_encode (frame : IpcFrame) : frame.encode.length = 4 + frame.payload.length := by
  rw [encode, length_append, length_toLeBytes]

theorem take_four_encode (frame : IpcFrame) (rest : List UInt8) :
    (frame.encode ++ rest).take 4 = toLeBytes frame.payload.length := rfl

theorem drop_four_encode (frame : IpcFrame) (rest : List UInt8) :
    (frame.encode ++ rest).drop 4 = frame.payload ++ rest := rfl

variable {frame : IpcFrame}

/-- The length that a reader sees. -/
theorem fromLeBytes_encode (h : frame.Encodable) (rest : List UInt8) :
    fromLeBytes ((frame.encode ++ rest).take 4) = frame.payload.length := by
  rw [take_four_encode, fromLeBytes_toLeBytes]
  exact Nat.mod_eq_of_lt h

/-- `decode` reads back what `encode` has written, up to its limit. -/
theorem decode_encode (h : frame.payload.length ≤ maxIpcFrameSize) (rest : List UInt8) :
    decode (frame.encode ++ rest) = .ok (frame, 4 + frame.payload.length) := by
  have hlt : frame.payload.length < 2 ^ 32 := by
    unfold maxIpcFrameSize at h
    omega
  have hlen : (frame.encode ++ rest).length = 4 + frame.payload.length + rest.length := by
    rw [length_append, length_encode]
  have hpayload : ((frame.encode ++ rest).take (4 + frame.payload.length)).drop 4 =
      frame.payload := by
    rw [← length_encode, take_left]
    rfl
  unfold decode
  rw [if_neg (by omega), fromLeBytes_encode hlt]
  simp only
  rw [if_neg (by omega), if_neg (by omega), hpayload]

end IpcFrame

/-! ## Streams -/

/-- The frames one after the other. -/
def frameStream (frames : List IpcFrame) : List UInt8 :=
  (frames.map IpcFrame.encode).flatten

@[simp] theorem frameStream_nil : frameStream [] = [] := rfl

@[simp] theorem frameStream_cons (frame : IpcFrame) (frames : List IpcFrame) :
    frameStream (frame :: frames) = frame.encode ++ frameStream frames := rfl

theorem frameStream_append (frames frames' : List IpcFrame) :
    frameStream (frames ++ frames') = frameStream frames ++ frameStream frames' := by
  simp [frameStream]

/-- What a reader takes off a stream: a length, then as many bytes. -/
def readFrame (bytes : List UInt8) : Option (Payload × List UInt8) :=
  let len := fromLeBytes (bytes.take 4)
  if bytes.length < 4 + len then none
  else some ((bytes.drop 4).take len, bytes.drop (4 + len))

theorem readFrame_encode {frame : IpcFrame} (h : frame.Encodable) (rest : List UInt8) :
    readFrame (frame.encode ++ rest) = some (frame.payload, rest) := by
  have hlen : (frame.encode ++ rest).length = 4 + frame.payload.length + rest.length := by
    rw [length_append, IpcFrame.length_encode]
  unfold readFrame
  simp only [IpcFrame.fromLeBytes_encode h]
  rw [if_neg (by omega), IpcFrame.drop_four_encode, take_left, ← IpcFrame.length_encode, drop_left]

end HeraMind.Ipc
