/-
# The frames of the Feishu long connection

The codec of `crates/heramind-messages/src/im_bridge/feishu/pbbp2.rs`: frames and their headers as
protobuf messages, written by hand.  The decoder goes through the bytes by positions; what it reads
is recorded, and a read outside of the bytes would be a panic.
-/
import Mathlib.Algebra.Group.Nat.Defs
import HeraMind.Lib.ByteReader
import HeraMind.Lib.Utf8

namespace HeraMind.Im.Pbbp2

open ByteReader
open Utf8 (asBytes fromUtf8Lossy)

inductive DecodeError : Type where
  | truncated
  | varintOverflow
  | unsupportedWireType (wire : ℕ)
  | unknownFrameType (v : Int32)
  deriving DecidableEq

inductive FrameType : Type where
  | control
  | data
  deriving DecidableEq

def FrameType.asI32 : FrameType → Int32
  | .control => 0
  | .data => 1

def FrameType.fromI32 (v : Int32) : Option FrameType :=
  if v = 0 then some .control else if v = 1 then some .data else none

structure Header where
  key : String
  value : String
  deriving DecidableEq

structure Frame where
  seqId : UInt64
  logId : UInt64
  service : Int32
  frameType : FrameType
  headers : List Header
  payloadEncoding : Option String
  payloadType : Option String
  payload : Option (List UInt8)
  logIdNew : Option String
  deriving DecidableEq

/-- A data frame with one shard of an event. -/
def Frame.event (seqId logId : UInt64) (service : Int32) (messageId : String) (sum seq : ℕ)
    (payload : List UInt8) : Frame where
  seqId := seqId
  logId := logId
  service := service
  frameType := .data
  headers := [⟨"type", "event"⟩, ⟨"message_id", messageId⟩, ⟨"sum", toString sum⟩,
    ⟨"seq", toString seq⟩]
  payloadEncoding := some "json"
  payloadType := none
  payload := some payload
  logIdNew := none

/-! ## Encoding -/

theorem shiftRight_lt {value : UInt64} (h : 0x80 ≤ value) : (value >>> 7).toNat < value.toNat := by
  have hle : 0x80 ≤ value.toNat := UInt64.le_iff_toNat_le.mp h
  rw [UInt64.toNat_shiftRight]
  show value.toNat >>> 7 < value.toNat
  rw [Nat.shiftRight_eq_div_pow]
  omega

def writeVarint (value : UInt64) : List UInt8 :=
  if _h : 0x80 ≤ value then ((value &&& 0x7f).toUInt8 ||| 0x80) :: writeVarint (value >>> 7)
  else [value.toUInt8]
termination_by value.toNat
decreasing_by exact shiftRight_lt ‹_›

def writeVarintField (tag : UInt32) (value : UInt64) : List UInt8 :=
  writeVarint tag.toUInt64 ++ writeVarint value

def writeStringField (tag : UInt32) (data : List UInt8) : List UInt8 :=
  writeVarint tag.toUInt64 ++ (writeVarint (UInt64.ofNat data.length) ++ data)

/-- `Header::encode_into`. -/
def Header.encode (h : Header) : List UInt8 :=
  writeStringField 0x0a (asBytes h.key) ++ writeStringField 0x12 (asBytes h.value)

/-- A field that is written only when it is there. -/
def writeOptional (tag : UInt32) : Option (List UInt8) → List UInt8
  | some data => writeStringField tag data
  | none => []

def Frame.encode (f : Frame) : List UInt8 :=
  writeVarintField 0x08 f.seqId ++ writeVarintField 0x10 f.logId ++
    writeVarintField 0x18 f.service.toInt64.toUInt64 ++
    writeVarintField 0x20 f.frameType.asI32.toInt64.toUInt64 ++
    f.headers.flatMap (fun h => writeStringField 0x2a h.encode) ++
    writeOptional 0x32 (f.payloadEncoding.map asBytes) ++
    writeOptional 0x3a (f.payloadType.map asBytes) ++
    writeOptional 0x42 f.payload ++ writeOptional 0x4a (f.logIdNew.map asBytes)

/-! ## Decoding -/

/-- The loop of `read_varint`, in which `n` more bytes may be read. -/
def readVarintLoop (bytes : List UInt8) (base : ℕ) :
    ℕ → ℕ → UInt64 → ℕ → Read DecodeError (UInt64 × ℕ)
  | 0, _, _, _ => .fail .varintOverflow
  | n + 1, pos, result, shift =>
    if bytes.length ≤ pos then .fail .truncated
    else byteAt bytes base pos >>= fun b =>
      if b &&& 0x80 = 0 then
        pure (result ||| ((b &&& 0x7f).toUInt64 <<< UInt64.ofNat shift), pos + 1)
      else
        readVarintLoop bytes base n (pos + 1)
          (result ||| ((b &&& 0x7f).toUInt64 <<< UInt64.ofNat shift)) (shift + 7)

def readVarint (bytes : List UInt8) (base pos : ℕ) : Read DecodeError (UInt64 × ℕ) :=
  readVarintLoop bytes base 10 pos 0 0

def readLengthDelimited (bytes : List UInt8) (base pos : ℕ) :
    Read DecodeError (List UInt8 × ℕ) := do
  let (len, afterLen) ← readVarint bytes base pos
  let stop := afterLen + len.toNat
  -- `checked_add`
  if 2 ^ 64 ≤ stop then .fail .truncated
  else if bytes.length < stop then .fail .truncated
  else
    let data ← slice bytes afterLen stop
    pure (data, stop)

/-- The bytes of a length-delimited field that ends at `stop` are read as a string. -/
def readString (base : ℕ) (data : List UInt8) (stop : ℕ) : Read DecodeError String := do
  let data ← copy data (base + (stop - data.length))
  pure (fromUtf8Lossy data)

/-- A field that is not known is skipped. -/
def skipField {α : Type} (bytes : List UInt8) (base pos wire : ℕ) (fields : α) :
    Read DecodeError (α × ℕ) :=
  match wire with
  | 0 => do
    let (_, p) ← readVarint bytes base pos
    pure (fields, p)
  | 2 => do
    let (_, p) ← readLengthDelimited bytes base pos
    pure (fields, p)
  | w => .fail (.unsupportedWireType w)

/-- A field of a header is read after its tag. -/
def headerField (bytes : List UInt8) (base pos field wire : ℕ) (h : Header) :
    Read DecodeError (Header × ℕ) :=
  match field, wire with
  | 1, 2 => do
    let (s, p) ← readLengthDelimited bytes base pos
    let key ← readString base s p
    pure ({ h with key := key }, p)
  | 2, 2 => do
    let (s, p) ← readLengthDelimited bytes base pos
    let value ← readString base s p
    pure ({ h with value := value }, p)
  | _, w => skipField bytes base pos w h

/-- A field is read: its tag, and then what it holds. -/
def readField {α : Type} (bytes : List UInt8) (base : ℕ)
    (body : ℕ → ℕ → ℕ → α → Read DecodeError (α × ℕ)) (pos : ℕ) (fields : α) :
    Read DecodeError (α × ℕ) := do
  let (tag, pos) ← readVarint bytes base pos
  body pos (tag >>> 3).toUInt32.toNat (tag &&& 7).toUInt32.toNat fields

/-- The header in a part of the frame that begins at `base`. -/
def decodeHeader (bytes : List UInt8) (base : ℕ) : Read DecodeError Header :=
  loop bytes.length (readField bytes base (headerField bytes base)) (bytes.length + 1) 0 ⟨"", ""⟩

/-- What is known of a frame while it is read. -/
structure Fields where
  seqId : UInt64
  logId : UInt64
  service : Int32
  method : Option Int32
  headers : List Header
  payloadEncoding : Option String
  payloadType : Option String
  payload : Option (List UInt8)
  logIdNew : Option String

def Fields.empty : Fields where
  seqId := 0
  logId := 0
  service := 0
  method := none
  headers := []
  payloadEncoding := none
  payloadType := none
  payload := none
  logIdNew := none

/-- A field of a frame is read after its tag. -/
def frameField (bytes : List UInt8) (pos field wire : ℕ) (f : Fields) :
    Read DecodeError (Fields × ℕ) :=
  match field, wire with
  | 1, 0 => do
    let (v, p) ← readVarint bytes 0 pos
    pure ({ f with seqId := v }, p)
  | 2, 0 => do
    let (v, p) ← readVarint bytes 0 pos
    pure ({ f with logId := v }, p)
  | 3, 0 => do
    let (v, p) ← readVarint bytes 0 pos
    pure ({ f with service := v.toUInt32.toInt32 }, p)
  | 4, 0 => do
    let (v, p) ← readVarint bytes 0 pos
    pure ({ f with method := some v.toUInt32.toInt32 }, p)
  | 5, 2 => do
    let (s, p) ← readLengthDelimited bytes 0 pos
    let h ← decodeHeader s (p - s.length)
    pure ({ f with headers := f.headers ++ [h] }, p)
  | 6, 2 => do
    let (s, p) ← readLengthDelimited bytes 0 pos
    let s ← readString 0 s p
    pure ({ f with payloadEncoding := some s }, p)
  | 7, 2 => do
    let (s, p) ← readLengthDelimited bytes 0 pos
    let s ← readString 0 s p
    pure ({ f with payloadType := some s }, p)
  | 8, 2 => do
    let (s, p) ← readLengthDelimited bytes 0 pos
    let data ← copy s (p - s.length)
    pure ({ f with payload := some data }, p)
  | 9, 2 => do
    let (s, p) ← readLengthDelimited bytes 0 pos
    let s ← readString 0 s p
    pure ({ f with logIdNew := some s }, p)
  | _, w => skipField bytes 0 pos w f

/-- The frame, once all fields are read. -/
def Fields.frame (f : Fields) : Read DecodeError Frame :=
  match FrameType.fromI32 (f.method.getD 0) with
  | some frameType => pure {
      seqId := f.seqId
      logId := f.logId
      service := f.service
      frameType := frameType
      headers := f.headers
      payloadEncoding := f.payloadEncoding
      payloadType := f.payloadType
      payload := f.payload
      logIdNew := f.logIdNew }
  | none => .fail (.unknownFrameType (f.method.getD (-1)))

def Frame.decode (bytes : List UInt8) : Read DecodeError Frame := do
  let f ← loop bytes.length (readField bytes 0 (frameField bytes)) (bytes.length + 1) 0 .empty
  f.frame

end HeraMind.Im.Pbbp2
