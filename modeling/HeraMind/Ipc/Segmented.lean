/-
# Segmented payloads

The payloads from the runner of an extension to the host
(`crates/heramind-extension-sdk/src/ipc_types.rs`).  The output of a push goes as the length of a
JSON header, the header and the bytes of the output (`push_output_writer`,
`crates/heramind-extension-runner/src/main.rs`); all other responses are JSON.  The host tells them
apart by the first five bytes.
-/
import HeraMind.Devices.PayloadContract
import HeraMind.Ipc.Frame

open Serde JsonText

namespace HeraMind.Ipc.Segmented

open List Option
open Devices (Number Value)
open Utf8 (asBytes fromUtf8Lossy)

variable {F : Type}

/-! ## Responses -/

/-- `IpcResponse::PushOutput`. -/
structure PushOutput (F : Type) where
  sessionId : String
  sequence : UInt64
  data : List UInt8
  dataType : String
  timestamp : Int64
  metadata : Option (Value F)

/-- The other variants of `IpcResponse` that have fields. -/
inductive Variant : Type where
  | ready | success | error | metrics | descriptor | health | metadata | eventSubscriptions | stats
  | pong | streamSessionInit | streamSessionClosed | streamChunkResult | streamCapability
  | chunkResult | pushStarted | pushStopped | streamError | batchResults | capabilityResult
  | eventSubscriptionResult | eventPollResult | capabilityRequest | configUpdated

def Variant.name : Variant → String
  | ready => "Ready"
  | success => "Success"
  | error => "Error"
  | metrics => "Metrics"
  | descriptor => "Descriptor"
  | health => "Health"
  | metadata => "Metadata"
  | eventSubscriptions => "EventSubscriptions"
  | stats => "Stats"
  | pong => "Pong"
  | streamSessionInit => "StreamSessionInit"
  | streamSessionClosed => "StreamSessionClosed"
  | streamChunkResult => "StreamChunkResult"
  | streamCapability => "StreamCapability"
  | chunkResult => "ChunkResult"
  | pushStarted => "PushStarted"
  | pushStopped => "PushStopped"
  | streamError => "StreamError"
  | batchResults => "BatchResults"
  | capabilityResult => "CapabilityResult"
  | eventSubscriptionResult => "EventSubscriptionResult"
  | eventPollResult => "EventPollResult"
  | capabilityRequest => "CapabilityRequest"
  | configUpdated => "ConfigUpdated"

/-- `IpcResponse`; the other variants have the fields that they are written with. -/
inductive Response (F : Type) : Type where
  | pushOutput (output : PushOutput F)
  | other (variant : Variant) (fields : List (String × Value F))
  | shutdownAck

/-- What lies outside of the code modelled here. -/
structure Wire (F : Type) where
  num : NumberText (Number F)
  /-- `STANDARD.encode` -/
  encodeBase64 : List UInt8 → String
  /-- The derived reader of `IpcResponse` on bytes. -/
  fromBytes : List UInt8 → Option (Response F)

/-- The document that a response is written as. -/
def Response.document (w : Wire F) : Response F → Value F
  | .pushOutput o => .object [("PushOutput", .object [("session_id", .string o.sessionId),
      ("sequence", .number (.int o.sequence.toNat)), ("data", .string (w.encodeBase64 o.data)),
      ("data_type", .string o.dataType), ("timestamp", .number (.int o.timestamp.toInt)),
      ("metadata", o.metadata.getD .null)])]
  | .other variant fields => .object [(variant.name, .object fields)]
  | .shutdownAck => .string "ShutdownAck"

/-- `IpcResponse::to_bytes`. -/
def Response.toBytes (w : Wire F) (r : Response F) : Payload :=
  asBytes (String.ofList (write w.num (r.document w)))

/-! ## The codec -/

/-- `encode_segmented_payload`. -/
def encodeSegmentedPayload (header segment : List UInt8) : Payload :=
  toLeBytes header.length ++ (header ++ segment)

/-- `payload_is_segmented`. -/
def payloadIsSegmented (payload : Payload) : Bool :=
  if payload.length < 6 then false
  else
    let hlen := fromLeBytes (payload.take 4)
    2 ≤ hlen && 4 + hlen ≤ payload.length && payload[4]? = some 0x7B

/-- `Value::get`. -/
def get (key : String) : Value F → Option (Value F)
  | .object fields => fields.lookup key
  | _ => none

/-- `Value::as_str`. -/
def asStr : Value F → Option String
  | .string s => some s
  | _ => none

/-- `Value::as_u64`. -/
def asU64 : Value F → Option UInt64
  | .number (.int n) => if 0 ≤ n ∧ n < 2 ^ 64 then some (UInt64.ofNat n.toNat) else none
  | _ => none

/-- `Value::as_i64`. -/
def asI64 : Value F → Option Int64
  | .number (.int n) => if -2 ^ 63 ≤ n ∧ n < 2 ^ 63 then some (Int64.ofInt n) else none
  | _ => none

/-- How deeply the texts are nested that `serde_json` reads. -/
def maxNesting : ℕ := 127

/-- `serde_json::from_slice`; the bytes have to be those of a text. -/
def fromSlice (num : NumberText (Number F)) (bytes : List UInt8) : Option (Value F) :=
  let text := fromUtf8Lossy bytes
  if asBytes text = bytes then readText num maxNesting text.toList else none

/-- The output that a header is for. -/
def outputOf (v : Value F) (segment : List UInt8) : PushOutput F where
  sessionId := ((get "session_id" v).bind asStr).getD ""
  sequence := ((get "sequence" v).bind asU64).getD 0
  data := segment
  dataType := ((get "data_type" v).bind asStr).getD "application/octet-stream"
  timestamp := ((get "timestamp" v).bind asI64).getD 0
  metadata := (get "metadata" v).bind fun m => if m.isNull then none else some m

/-- `parse_response_payload`. -/
def parseResponsePayload (w : Wire F) (payload : Payload) : Option (Response F) :=
  if payloadIsSegmented payload then
    let hlen := fromLeBytes (payload.take 4)
    (fromSlice w.num ((payload.take (4 + hlen)).drop 4)).bind fun header =>
      match get "PushOutput" header with
      | none => w.fromBytes payload
      | some v => some (.pushOutput (outputOf v (payload.drop (4 + hlen))))
  else w.fromBytes payload

/-! ## Headers -/

/-- The fields of an output but its data; no metadata is the null document, or no field. -/
structure Describes (v : Value F) (o : PushOutput F) : Prop where
  sessionId : get "session_id" v = some (.string o.sessionId)
  sequence : get "sequence" v = some (.number (.int o.sequence.toNat))
  dataType : get "data_type" v = some (.string o.dataType)
  timestamp : get "timestamp" v = some (.number (.int o.timestamp.toInt))
  metadata : ((get "metadata" v).bind fun m => if m.isNull then none else some m) = o.metadata

/-- The text is a JSON header of the output, nested to `k` levels. -/
def IsHeader (num : NumberText (Number F)) (k : ℕ) (t : List Char) (o : PushOutput F) : Prop :=
  ∃ d v, IsText (IsLeaf num) IsString k t (.value d) ∧ get "PushOutput" d = some v ∧ Describes v o

/-- The header that the runner writes. -/
def headerOf (o : PushOutput F) : Value F :=
  .object [("PushOutput", .object [("session_id", .string o.sessionId),
    ("sequence", .number (.int o.sequence.toNat)), ("data_len", .number (.int o.data.length)),
    ("data_type", .string o.dataType), ("timestamp", .number (.int o.timestamp.toInt)),
    ("metadata", o.metadata.getD .null)])]

section

variable {w : Wire F} {k : ℕ} {t : List Char} {o : PushOutput F}

theorem outputOf_of_describes {v : Value F} (h : Describes v o) (segment : List UInt8) :
    outputOf v segment = { o with data := segment } := by
  have hsequence : asU64 (.number (.int o.sequence.toNat) : Value F) = some o.sequence := by
    have hlt := o.sequence.toNat_lt
    have hrange : (0 : ℤ) ≤ o.sequence.toNat ∧ (o.sequence.toNat : ℤ) < 2 ^ 64 := by
      constructor
      · exact Int.natCast_nonneg _
      · omega
    simp only [asU64, if_pos hrange]
    rw [Int.toNat_natCast, UInt64.ofNat_toNat]
  have htimestamp : asI64 (.number (.int o.timestamp.toInt) : Value F) = some o.timestamp := by
    simp only [asI64, if_pos (And.intro o.timestamp.le_toInt o.timestamp.toInt_lt)]
    rw [Int64.ofInt_toInt]
  unfold outputOf
  rw [h.sessionId, h.sequence, h.dataType, h.timestamp, h.metadata, bind_some,
    bind_some, bind_some, bind_some, hsequence, htimestamp]
  rfl

/-- A header begins with a brace. -/
theorem exists_of_isHeader (h : IsHeader w.num k t o) :
    ∃ t', t = '\x7b' :: (t' ++ ['\x7d']) := by
  obtain ⟨d, v, htext, hget, -⟩ := h
  cases d with
  | object fields =>
    cases htext with
    | leaf hleaf => cases hleaf
    | emptyObject | object => exact ⟨_, rfl⟩
  | _ => cases hget

theorem fromSlice_asBytes (num : NumberText (Number F)) (t : List Char) :
    fromSlice num (asBytes (String.ofList t)) = readText num maxNesting t := by
  unfold fromSlice
  dsimp only
  rw [Utf8.fromUtf8Lossy_asBytes, if_pos rfl, String.toList_ofList]

/-- The parts of a segmented payload. -/
theorem parts_encodeSegmentedPayload {header : List UInt8} (hlen : header.length < 2 ^ 32)
    (segment : List UInt8) :
    fromLeBytes ((encodeSegmentedPayload header segment).take 4) = header.length ∧
      ((encodeSegmentedPayload header segment).take (4 + header.length)).drop 4 = header ∧
      (encodeSegmentedPayload header segment).drop (4 + header.length) = segment := by
  have htake : (encodeSegmentedPayload header segment).take 4 = toLeBytes header.length := rfl
  have hdrop : (encodeSegmentedPayload header segment).drop 4 = header ++ segment := rfl
  refine ⟨?_, ?_, ?_⟩
  · rw [htake, fromLeBytes_toLeBytes]
    exact Nat.mod_eq_of_lt hlen
  · rw [drop_take, hdrop, Nat.add_sub_cancel_left, take_left]
  · rw [← drop_drop, hdrop, drop_left]

/-- What the runner writes is a header of its output, two levels deeper than the metadata. -/
theorem isHeader_headerOf (w : Wire F)
    (h : ∀ m, o.metadata = some m → m.isNull = false ∧ UniqueKeys m) :
    IsHeader w.num (((o.metadata.map Doc.depth).getD 0) + 2) (write w.num (headerOf o)) o := by
  have hmetadata : UniqueKeys (o.metadata.getD .null) := by
    cases hm : o.metadata with
    | none => exact .null
    | some m => exact (h m hm).2
  have hdepth : (headerOf o).depth = ((o.metadata.map Doc.depth).getD 0) + 2 := by
    cases hm : o.metadata with
    | none | some m => simp [headerOf, Doc.depth, depthFields, hm]
  have hheader : UniqueKeys (headerOf o) := by
    refine .object (nodup_cons.mpr ⟨not_mem_nil, nodup_nil⟩) ?_
    rintro f hf
    rw [mem_singleton.mp hf]
    have hkeys : ["session_id", "sequence", "data_len", "data_type", "timestamp",
        "metadata"].Nodup := by
      decide
    refine .object hkeys ?_
    intro f hf
    simp only [mem_cons, not_mem_nil, or_false] at hf
    rcases hf with rfl | rfl | rfl | rfl | rfl | rfl
    · exact .string _
    · exact .number _
    · exact .number _
    · exact .string _
    · exact .number _
    · exact hmetadata
  have htext := isText_write w.num hheader
  rw [hdepth] at htext
  refine ⟨_, _, htext, rfl, rfl, rfl, rfl, rfl, ?_⟩
  show (if (o.metadata.getD .null).isNull then none else some (o.metadata.getD .null)) = o.metadata
  cases hm : o.metadata with
  | none => rfl
  | some m =>
    rw [getD_some, (h m hm).1]
    rfl

/-- The output is read from its header and its segment, if the header is not nested too deeply. -/
theorem parse_encode (h : IsHeader w.num k t o) (segment : List UInt8)
    (hsize : (encodeSegmentedPayload (asBytes (String.ofList t)) segment).length ≤
      maxIpcFrameSize) :
    parseResponsePayload w (encodeSegmentedPayload (asBytes (String.ofList t)) segment) =
      if k ≤ maxNesting then some (.pushOutput { o with data := segment }) else none := by
  obtain ⟨t', ht⟩ := exists_of_isHeader h
  have hbytes : ∃ rest, asBytes (String.ofList t) = 0x7B :: rest ∧ 1 ≤ rest.length := by
    unfold asBytes
    rw [String.toList_ofList, ht, flatMap_cons, flatMap_append]
    refine ⟨t'.flatMap String.utf8EncodeChar ++ [0x7D], rfl, ?_⟩
    rw [length_append]
    exact Nat.le_add_left _ _
  obtain ⟨rest, hrest, hone⟩ := hbytes
  generalize hheader : asBytes (String.ofList t) = header at hsize hrest
  have hlength : (encodeSegmentedPayload header segment).length =
      4 + (header.length + segment.length) := by
    unfold encodeSegmentedPayload
    rw [length_append, length_append, length_toLeBytes]
  have htwo : 2 ≤ header.length := by
    rw [hrest, length_cons]
    omega
  have hlt : header.length < 2 ^ 32 := by
    rw [hlength] at hsize
    unfold maxIpcFrameSize at hsize
    omega
  obtain ⟨hlen, hpart, hsegment⟩ := parts_encodeSegmentedPayload hlt segment
  have hbrace : (encodeSegmentedPayload header segment)[4]? = some 0x7B := by
    unfold encodeSegmentedPayload
    rw [hrest]
    rfl
  have hsegmented : payloadIsSegmented (encodeSegmentedPayload header segment) = true := by
    unfold payloadIsSegmented
    rw [if_neg (by omega)]
    dsimp only
    rw [hlen, hbrace, decide_eq_true htwo, decide_eq_true (by omega)]
    rfl
  obtain ⟨d, v, htext, hget, hdescribes⟩ := h
  have hread : fromSlice w.num header = if k ≤ maxNesting then some d else none := by
    have hspaces : IsSpaces [] := fun c hc => nomatch hc
    have hread := readText_of_isText hspaces hspaces htext maxNesting
    rw [nil_append, append_nil] at hread
    rw [← hheader, fromSlice_asBytes, hread]
  unfold parseResponsePayload
  rw [if_pos hsegmented]
  dsimp only
  rw [hlen, hpart, hsegment, hread]
  by_cases hk : k ≤ maxNesting
  · rw [if_pos hk, if_pos hk, bind_some, hget]
    dsimp only
    rw [outputOf_of_describes hdescribes]
  · rw [if_neg hk, if_neg hk, bind_none]

/-! ## Whole JSON -/

theorem name_starts (variant : Variant) : ∃ c c' rest,
    variant.name.toList = c :: c' :: rest ∧ c.isAlpha = true ∧ c'.isAlpha = true := by
  cases variant <;> exact ⟨_, _, _, rfl, by decide, by decide⟩

/-- A payload whose fourth byte is at least 1 is not segmented, for its length would be too large. -/
theorem not_segmented {b₀ b₁ b₂ b₃ : UInt8} {rest : List UInt8} (hb : 1 ≤ b₃.toNat)
    (hsize : (b₀ :: b₁ :: b₂ :: b₃ :: rest).length ≤ maxIpcFrameSize) :
    payloadIsSegmented (b₀ :: b₁ :: b₂ :: b₃ :: rest) = false := by
  have hlen : 2 ^ 24 ≤ fromLeBytes ((b₀ :: b₁ :: b₂ :: b₃ :: rest).take 4) := by
    show 2 ^ 24 ≤ fromLeBytes [b₀, b₁, b₂, b₃]
    simp only [fromLeBytes, foldr_cons, foldr_nil]
    omega
  unfold maxIpcFrameSize at hsize
  unfold payloadIsSegmented
  split
  · rfl
  · dsimp only
    rw [decide_eq_false (p := 4 + _ ≤ _) (by omega), Bool.and_false, Bool.false_and]

/-- A letter is one byte, which is written as it is. -/
theorem exists_byte {c : Char} (h : c.isAlpha = true) :
    writeChar c = [c] ∧ ∃ b : UInt8, String.utf8EncodeChar c = [b] ∧ 1 ≤ b.toNat := by
  have hrange : (65 ≤ c.toNat ∧ c.toNat ≤ 90) ∨ (97 ≤ c.toNat ∧ c.toNat ≤ 122) := by
    unfold Char.isAlpha Char.isUpper Char.isLower at h
    simpa [UInt32.le_iff_toNat_le] using h
  have hne (d : Char) (hd : d.toNat < 65 ∨ d.toNat = 92) : c ≠ d := by
    rintro rfl
    omega
  constructor
  · unfold writeChar
    rw [if_neg (hne _ (by decide)), if_neg (hne _ (by decide)), if_neg (hne _ (by decide)),
      if_neg (hne _ (by decide)), if_neg (hne _ (by decide)), if_neg (hne _ (by decide)),
      if_neg (hne _ (by decide)), if_neg (by omega)]
  · refine ⟨UInt8.ofNat c.toNat, ?_, ?_⟩
    · exact if_pos (show c.toNat ≤ 0x7f by omega)
    · rw [Utf8.toNat_ofNat (by omega)]
      omega

/-- The fourth byte of a response as JSON is that of a letter. -/
theorem exists_bytes_toBytes (w : Wire F) (r : Response F) : ∃ b₀ b₁ b₂ b₃ rest,
    r.toBytes w = b₀ :: b₁ :: b₂ :: b₃ :: rest ∧ 1 ≤ b₃.toNat := by
  have hobject : ∀ (name : String) (d : Value F), (∃ c c' rest, name.toList = c :: c' :: rest ∧
      c.isAlpha = true ∧ c'.isAlpha = true) → ∃ b₀ b₁ b₂ b₃ rest,
      asBytes (String.ofList (write w.num (.object [(name, d)]))) = b₀ :: b₁ :: b₂ :: b₃ :: rest ∧
        1 ≤ b₃.toNat := by
    rintro name d ⟨c, c', rest, hname, hc, hc'⟩
    obtain ⟨hwrite, b, hb, -⟩ := exists_byte hc
    obtain ⟨hwrite', b', hb', hone⟩ := exists_byte hc'
    rw [write, writeFields, writeFields, writeCommas_singleton, writeString, hname,
      flatMap_cons, flatMap_cons, hwrite, hwrite']
    unfold asBytes
    rw [String.toList_ofList]
    simp only [cons_append, nil_append, flatMap_cons, hb, hb']
    exact ⟨_, _, _, _, _, rfl, hone⟩
  unfold Response.toBytes
  cases r with
  | pushOutput o =>
    exact hobject _ _ ⟨_, _, _, rfl, by decide, by decide⟩
  | other variant fields => exact hobject _ _ (name_starts variant)
  | shutdownAck =>
    rw [Response.document, write]
    exact ⟨_, _, _, _, _, rfl, by decide⟩

end

/-- The output of a push is read from every header that is nested to at most 127 levels, and only
from those; a response that is JSON as a whole is read as one. -/
theorem codec_spec (w : Wire F) :
    (∀ k t o segment, IsHeader w.num k t o →
      (encodeSegmentedPayload (asBytes (String.ofList t)) segment).length ≤ maxIpcFrameSize →
      parseResponsePayload w (encodeSegmentedPayload (asBytes (String.ofList t)) segment) =
        if k ≤ maxNesting then some (.pushOutput { o with data := segment }) else none) ∧
    ∀ r : Response F, (r.toBytes w).length ≤ maxIpcFrameSize →
      parseResponsePayload w (r.toBytes w) = w.fromBytes (r.toBytes w) := by
  constructor
  · intro k t o segment h hsize
    exact parse_encode h segment hsize
  · intro r hsize
    obtain ⟨b₀, b₁, b₂, b₃, rest, hbytes, hone⟩ := exists_bytes_toBytes w r
    rw [hbytes] at hsize ⊢
    unfold parseResponsePayload
    rw [not_segmented hone hsize]
    exact if_neg Bool.false_ne_true

/-- Integers only, and readers that find nothing. -/
def wire : Wire Empty where
  num := Devices.Payload.Sample.integers.text
  encodeBase64 := fun _ => ""
  fromBytes := fun _ => none

def frame : PushOutput Empty where
  sessionId := "s1"
  sequence := 7
  data := [0, 0, 0, 1, 0x67]
  dataType := "video/avc"
  timestamp := 123
  metadata := some (.array [.bool true])

theorem codec_frame :
    parseResponsePayload wire (encodeSegmentedPayload
      (asBytes (String.ofList (write wire.num (headerOf frame)))) frame.data) =
        some (.pushOutput frame) ∧
    parseResponsePayload wire (Response.shutdownAck.toBytes wire) =
      wire.fromBytes (Response.shutdownAck.toBytes wire) := by
  have hheader : IsHeader wire.num 3 (write wire.num (headerOf frame)) frame := by
    refine isHeader_headerOf (o := frame) wire fun m hm => ?_
    have hm : some (.array [.bool true]) = some m := hm
    rw [← some.inj hm]
    exact ⟨rfl, .array fun d hd => mem_singleton.mp hd ▸ .bool true⟩
  constructor
  · refine ((codec_spec wire).1 3 _ frame frame.data hheader ?_).trans (if_pos (by decide))
    rw [asBytes, String.toList_ofList]
    decide +kernel
  · exact (codec_spec wire).2 _ (by decide +kernel)

/-- Arrays in arrays. -/
def nested : ℕ → Value Empty
  | 0 => .bool true
  | n + 1 => .array [nested n]

/-- An output with metadata of 126 levels is lost. -/
theorem deep_metadata_lost :
    IsHeader wire.num 128 (write wire.num (headerOf { frame with metadata := some (nested 126) }))
      { frame with metadata := some (nested 126) } ∧
    parseResponsePayload wire (encodeSegmentedPayload (asBytes (String.ofList
      (write wire.num (headerOf { frame with metadata := some (nested 126) })))) frame.data) =
        none := by
  have hnested : ∀ n, UniqueKeys (nested n) ∧ (nested n).depth = n := by
    intro n
    induction n with
    | zero => exact ⟨.bool true, rfl⟩
    | succ n ih =>
      refine ⟨.array fun d hd => mem_singleton.mp hd ▸ ih.1, ?_⟩
      rw [nested, Doc.depth, depthItems, depthItems, ih.2, Nat.max_zero]
  have hheader := isHeader_headerOf (o := { frame with metadata := some (nested 126) }) wire
    fun m hm => by
      have hm : some (nested 126) = some m := hm
      rw [← some.inj hm]
      exact ⟨rfl, (hnested 126).1⟩
  rw [map_some, (hnested 126).2, getD_some] at hheader
  refine ⟨hheader, (parse_encode hheader frame.data ?_).trans (if_neg (by decide))⟩
  rw [asBytes, String.toList_ofList]
  decide +kernel

end HeraMind.Ipc.Segmented
