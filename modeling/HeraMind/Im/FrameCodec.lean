/-
# What the frame codec keeps

Every field that is written is read back, and every field that is not known is skipped, wherever it
stands.  So a frame is read back from its fields, also when unknown ones stand between them and
inside its headers.  The decoder goes forward through the bytes, so it reads none of them twice, and
it stops with its own errors only.

The decoder keeps the low 32 bits of a field number, so that a number from `2 ^ 32` on may be taken
for a known one.
-/
import HeraMind.Im.Pbbp2

namespace HeraMind.Im.Pbbp2

open List
open ByteReader
open Utf8 (asBytes fromUtf8Lossy fromUtf8Lossy_asBytes)

/-! ## Numbers -/

theorem toNat_shiftRight_seven (v : UInt64) : (v >>> 7).toNat = v.toNat / 128 := by
  rw [UInt64.toNat_shiftRight]
  show v.toNat >>> 7 = v.toNat / 128
  rw [Nat.shiftRight_eq_div_pow]

theorem toNat_low (v : UInt64) : ((v &&& 0x7f).toUInt8).toNat = v.toNat % 128 := by
  rw [UInt64.toNat_toUInt8, UInt64.toNat_and]
  show (v.toNat &&& 2 ^ 7 - 1) % 256 = _
  rw [Nat.and_two_pow_sub_one_eq_mod]
  omega

theorem toNat_or_high {b : UInt8} (h : b.toNat < 128) : (b ||| 0x80).toNat = b.toNat + 128 := by
  rw [UInt8.toNat_or, Nat.or_comm]
  show 2 ^ 7 * 1 ||| b.toNat = _
  rw [← Nat.two_pow_add_eq_or_of_lt h]
  omega

/-- The bits of a byte that a varint carries, and whether another byte follows. -/
theorem byte_cases (b : UInt8) : (b &&& 0x7f).toNat = b.toNat % 128 ∧
    (b &&& 0x80 = 0 ↔ b.toNat < 128) := by
  have hall : ∀ n : Fin 256, (UInt8.ofNat n &&& 0x7f).toNat = (UInt8.ofNat n).toNat % 128 ∧
      (UInt8.ofNat n &&& 0x80 = 0 ↔ (UInt8.ofNat n).toNat < 128) := by
    decide +kernel
  have h := hall ⟨b.toNat, b.toNat_lt⟩
  rwa [UInt8.ofNat_toNat] at h

theorem writeVarint_eq (v : UInt64) :
    writeVarint v = if v.toNat < 128 then [UInt8.ofNat v.toNat]
      else UInt8.ofNat (v.toNat % 128 + 128) :: writeVarint (v >>> 7) := by
  have hle : 0x80 ≤ v ↔ 128 ≤ v.toNat := UInt64.le_iff_toNat_le
  rw [writeVarint]
  by_cases h : v.toNat < 128
  · rw [if_pos h, dif_neg (by rw [hle]; omega)]
    rfl
  · rw [if_neg h, dif_pos (by rw [hle]; omega)]
    congr 1
    apply UInt8.toNat_inj.mp
    have hlow := toNat_low v
    rw [toNat_or_high (by omega), hlow, Utf8.toNat_ofNat (by omega)]

theorem writeVarint_ne_nil (v : UInt64) : writeVarint v ≠ [] := by
  rw [writeVarint_eq]
  split <;> exact cons_ne_nil _ _

/-! ## Positions -/

variable {pos : ℕ}

/-- A byte that is read where the rest of the bytes begins. -/
theorem getElem?_of_drop {bytes rest : List UInt8} {b : UInt8}
    (h : bytes.drop pos = b :: rest) : bytes[pos]? = some b ∧ bytes.drop (pos + 1) = rest := by
  constructor
  · have hget : (bytes.drop pos)[0]? = some b := by
      rw [h]
      rfl
    rwa [getElem?_drop] at hget
  · rw [← drop_drop, h]
    rfl

/-- Where the rest of the bytes begins after a part was read. -/
theorem drop_of_append {bytes xs rest : List UInt8} (h : bytes.drop pos = xs ++ rest) :
    bytes.drop (pos + xs.length) = rest := by
  rw [← drop_drop, h, drop_left]

theorem length_of_append {bytes xs rest : List UInt8}
    (h : bytes.drop pos = xs ++ rest) (hne : xs ≠ []) : pos + xs.length ≤ bytes.length := by
  have hlen := congrArg List.length h
  have hpos := length_pos_iff.mpr hne
  rw [length_drop, length_append] at hlen
  omega

/-! ## Varints -/

theorem toNat_accumulate {result : UInt64} {b : UInt8} {shift : ℕ} (hshift : shift < 64)
    (hresult : result.toNat < 2 ^ shift) (hfits : b.toNat % 128 * 2 ^ shift < 2 ^ 64) :
    (result ||| ((b &&& 0x7f).toUInt64 <<< UInt64.ofNat shift)).toNat =
      result.toNat + b.toNat % 128 * 2 ^ shift := by
  rw [UInt64.toNat_or, UInt64.toNat_shiftLeft, UInt8.toNat_toUInt64, (byte_cases b).1,
    UInt64.toNat_ofNat', Nat.mod_eq_of_lt (by omega : shift < 2 ^ 64), Nat.mod_eq_of_lt hshift,
    Nat.shiftLeft_eq, Nat.mod_eq_of_lt hfits, Nat.or_comm, Nat.mul_comm,
    ← Nat.two_pow_add_eq_or_of_lt hresult, Nat.add_comm]

theorem readVarintLoop_write {bytes rest : List UInt8} (base n : ℕ) :
    ∀ (k pos : ℕ) (v result value : UInt64), n + k = 10 → 0 < n → v.toNat < 2 ^ (64 - 7 * k) →
      result.toNat < 2 ^ (7 * k) → value.toNat = result.toNat + v.toNat * 2 ^ (7 * k) →
      bytes.drop pos = writeVarint v ++ rest →
      (readVarintLoop bytes base n pos result (7 * k)).result =
        .ok (value, pos + (writeVarint v).length) := by
  induction n with
  | zero =>
    intro k pos v result value hn hpos
    omega
  | succ n ih =>
    intro k pos v result value hn _ hv hresult hvalue hdrop
    have hin := length_of_append hdrop (writeVarint_ne_nil v)
    have hlen := length_pos_iff.mpr (writeVarint_ne_nil v)
    have hmod : v.toNat % 128 * 2 ^ (7 * k) ≤ v.toNat * 2 ^ (7 * k) :=
      Nat.mul_le_mul_right _ (Nat.mod_le _ _)
    have hbound := value.toNat_lt
    -- The byte that is read, whatever it is.
    have hread : ∀ (b : UInt8) (bs : List UInt8), bytes.drop pos = b :: bs →
        (byteAt bytes base pos : Read DecodeError UInt8).result = .ok b := by
      intro b bs hb
      unfold byteAt
      rw [(getElem?_of_drop hb).1]
    rw [writeVarint_eq] at hdrop ⊢
    unfold readVarintLoop
    rw [if_neg (by omega)]
    by_cases hlast : v.toNat < 128
    · rw [if_pos hlast] at hdrop ⊢
      have hb : (UInt8.ofNat v.toNat).toNat = v.toNat := Utf8.toNat_ofNat (by omega)
      have hmod' : v.toNat % 128 = v.toNat := Nat.mod_eq_of_lt hlast
      have hacc := toNat_accumulate (b := UInt8.ofNat v.toNat) (by omega : 7 * k < 64) hresult
        (by rw [hb]; omega)
      rw [Read.result_bind_of_ok (hread _ _ hdrop), if_pos ((byte_cases _).2.mpr (by omega))]
      rw [hb, hmod', ← hvalue] at hacc
      rw [UInt64.toNat_inj.mp hacc]
      rfl
    · rw [if_neg hlast] at hdrop ⊢
      have hb : (UInt8.ofNat (v.toNat % 128 + 128)).toNat = v.toNat % 128 + 128 :=
        Utf8.toNat_ofNat (by omega)
      have hmod' : (v.toNat % 128 + 128) % 128 = v.toNat % 128 := by omega
      have hk : k ≤ 8 := by
        by_contra hk
        have hpow : 2 ^ (64 - 7 * k) ≤ 2 ^ 7 := Nat.pow_le_pow_right (by omega) (by omega)
        omega
      have hacc := toNat_accumulate (b := UInt8.ofNat (v.toNat % 128 + 128))
        (by omega : 7 * k < 64) hresult (by rw [hb, hmod']; omega)
      rw [hb, hmod'] at hacc
      have hnext : 2 ^ (7 * (k + 1)) = 128 * 2 ^ (7 * k) := by
        rw [show 7 * (k + 1) = 7 + 7 * k by omega, Nat.pow_add]
      have hleft : 2 ^ (64 - 7 * k) = 2 ^ (64 - 7 * (k + 1)) * 128 := by
        rw [show 64 - 7 * k = 64 - 7 * (k + 1) + 7 by omega, Nat.pow_add]
      rw [Read.result_bind_of_ok (hread _ _ hdrop), if_neg (by rw [(byte_cases _).2]; omega)]
      have hshift := toNat_shiftRight_seven v
      rw [show 7 * k + 7 = 7 * (k + 1) by omega,
        ih (k + 1) (pos + 1) (v >>> 7) _ value (by omega) (by omega) ?_ ?_ ?_
          (getElem?_of_drop hdrop).2]
      · rw [length_cons, Nat.add_assoc, Nat.add_comm 1]
      · rw [hshift]
        omega
      · rw [hacc, hnext]
        have hlt : v.toNat % 128 * 2 ^ (7 * k) ≤ 127 * 2 ^ (7 * k) :=
          Nat.mul_le_mul_right _ (by omega)
        omega
      · have hsplit : v.toNat * 2 ^ (7 * k) =
            v.toNat / 128 * (128 * 2 ^ (7 * k)) + v.toNat % 128 * 2 ^ (7 * k) := by
          rw [← Nat.mul_assoc, ← Nat.add_mul, Nat.mul_comm (v.toNat / 128), Nat.div_add_mod]
        rw [hvalue, hacc, hshift, hnext, hsplit]
        omega

/-- A number is read back. -/
theorem readVarint_write {bytes rest : List UInt8} (base : ℕ) {v : UInt64}
    (hdrop : bytes.drop pos = writeVarint v ++ rest) :
    (readVarint bytes base pos).result = .ok (v, pos + (writeVarint v).length) := by
  have hv := v.toNat_lt
  exact readVarintLoop_write base 10 0 pos v 0 v rfl (by omega) hv (by decide)
    (by rw [UInt64.toNat_zero]; omega) hdrop

/-- The bytes of a length-delimited field are read back. -/
theorem readLengthDelimited_write {bytes data rest : List UInt8} (base : ℕ)
    (hlen : bytes.length < 2 ^ 63)
    (hdrop : bytes.drop pos = writeVarint (UInt64.ofNat data.length) ++ (data ++ rest)) :
    (readLengthDelimited bytes base pos).result =
      .ok (data, pos + (writeVarint (UInt64.ofNat data.length)).length + data.length) := by
  have hin := length_of_append hdrop (writeVarint_ne_nil _)
  have hrest := drop_of_append hdrop
  have hlength := congrArg List.length hrest
  rw [length_drop, length_append] at hlength
  have hlen' : (UInt64.ofNat data.length).toNat = data.length := by
    rw [UInt64.toNat_ofNat', Nat.mod_eq_of_lt (by omega)]
  unfold readLengthDelimited
  rw [Read.result_bind_of_ok (readVarint_write base hdrop)]
  generalize pos + (writeVarint (UInt64.ofNat data.length)).length = start at hin hrest hlength ⊢
  show (if 2 ^ 64 ≤ start + (UInt64.ofNat data.length).toNat then _
    else if bytes.length < start + (UInt64.ofNat data.length).toNat then _ else _ :
      Read DecodeError (List UInt8 × ℕ)).result = _
  rw [hlen', if_neg (by omega), if_neg (by omega)]
  have hslice : (slice bytes start (start + data.length) : Read DecodeError _).result = .ok data := by
    unfold slice
    rw [if_pos (by omega), hrest, Nat.add_sub_cancel_left, take_left]
  rw [Read.result_bind_of_ok hslice]
  rfl

/-! ## Fields -/

/-- A field of a message: its number, and a value or bytes. -/
inductive Field : Type where
  | varint (number : ℕ) (value : UInt64)
  | bytes (number : ℕ) (data : List UInt8)

namespace Field

def number : Field → ℕ
  | varint n _ | bytes n _ => n

def wire : Field → ℕ
  | varint _ _ => 0
  | bytes _ _ => 2

def tag (f : Field) : UInt64 := UInt64.ofNat (f.number * 8 + f.wire)

/-- What follows the tag. -/
def contents : Field → List UInt8
  | varint _ v => writeVarint v
  | bytes _ data => writeVarint (UInt64.ofNat data.length) ++ data

def encode (f : Field) : List UInt8 := writeVarint f.tag ++ f.contents

theorem encode_ne_nil (f : Field) : f.encode ≠ [] := by
  intro h
  exact writeVarint_ne_nil _ (append_eq_nil_iff.mp h).1

/-- The number and the wire type that the decoder takes from a tag. -/
theorem tag_parts (f : Field) (h : f.number < 2 ^ 61) :
    (f.tag >>> 3).toUInt32.toNat = f.number % 2 ^ 32 ∧ (f.tag &&& 7).toUInt32.toNat = f.wire := by
  have hwire : f.wire < 8 := by
    cases f with
    | varint n v => exact (by decide : 0 < 8)
    | bytes n data => exact (by decide : 2 < 8)
  have htag : f.tag.toNat = f.number * 8 + f.wire := by
    unfold tag
    rw [UInt64.toNat_ofNat', Nat.mod_eq_of_lt (by omega)]
  constructor
  · rw [UInt64.toNat_toUInt32, UInt64.toNat_shiftRight]
    show (f.tag.toNat >>> 3) % 2 ^ 32 = _
    rw [Nat.shiftRight_eq_div_pow, htag]
    omega
  · rw [UInt64.toNat_toUInt32, UInt64.toNat_and]
    show (f.tag.toNat &&& 2 ^ 3 - 1) % 2 ^ 32 = _
    rw [Nat.and_two_pow_sub_one_eq_mod, htag]
    omega

end Field

/-- The contents of a field are read as the change `g` of what is known so far. -/
def ReadAs {α : Type} (body : List UInt8 → ℕ → ℕ → ℕ → α → Read DecodeError (α × ℕ))
    (f : Field) (g : α → α) : Prop :=
  f.number < 2 ^ 61 ∧ ∀ (bytes : List UInt8) (pos : ℕ) (s : α) (rest : List UInt8),
    bytes.length < 2 ^ 63 → bytes.drop pos = f.contents ++ rest →
      (body bytes pos (f.number % 2 ^ 32) f.wire s).result = .ok (g s, pos + f.contents.length)

/-- A list of fields that was written for a list of items, with unknown fields between them. -/
inductive Extended {ι : Type} (unknown : Field → Prop) (writes : ι → Field → Prop) :
    List ι → List Field → Prop
  | nil : Extended unknown writes [] []
  | keep {x : ι} {y : Field} {xs : List ι} {ys : List Field} (h : writes x y)
      (hs : Extended unknown writes xs ys) : Extended unknown writes (x :: xs) (y :: ys)
  | insert {y : Field} {xs : List ι} {ys : List Field} (h : unknown y)
      (hs : Extended unknown writes xs ys) : Extended unknown writes xs (y :: ys)

section Fields

variable {α ι : Type} (body : List UInt8 → ℕ → ℕ → ℕ → α → Read DecodeError (α × ℕ))

theorem readField_of_readAs {f : Field} {g : α → α} (h : ReadAs body f g)
    {bytes rest : List UInt8} (base : ℕ) {pos : ℕ} (s : α) (hlen : bytes.length < 2 ^ 63)
    (hdrop : bytes.drop pos = f.encode ++ rest) :
    (readField bytes base (body bytes) pos s).result = .ok (g s, pos + f.encode.length) := by
  have hdrop' : bytes.drop pos = writeVarint f.tag ++ (f.contents ++ rest) := by
    rw [hdrop, Field.encode, append_assoc]
  obtain ⟨hnumber, hwire⟩ := f.tag_parts h.1
  unfold readField
  rw [Read.result_bind_of_ok (readVarint_write base hdrop')]
  show (body bytes _ (f.tag >>> 3).toUInt32.toNat (f.tag &&& 7).toUInt32.toNat s).result = _
  rw [hnumber, hwire, h.2 bytes _ s rest hlen (drop_of_append hdrop'), Field.encode,
    length_append, Nat.add_assoc]

/-- A message is read back from the fields that were written for its items. -/
theorem loop_of_extended {unknown : Field → Prop} {writes : ι → Field → Prop}
    (effect : ι → α → α) (base : ℕ) {items : List ι} {fields : List Field}
    (hwrites : ∀ x ∈ items, ∀ y, writes x y → ReadAs body y (effect x))
    (hunknown : ∀ y, unknown y → ReadAs body y id)
    (h : Extended unknown writes items fields) (s : α) {bytes : List UInt8}
    (hbytes : bytes = fields.flatMap Field.encode) (hlen : bytes.length < 2 ^ 63) :
    (loop bytes.length (readField bytes base (body bytes)) (bytes.length + 1) 0 s).result =
      .ok (items.foldl (fun s x => effect x s) s) := by
  obtain ⟨pieces, hpieces, hread, hfold⟩ : ∃ pieces : List (Field × (α → α)),
      pieces.map Prod.fst = fields ∧ (∀ p ∈ pieces, ReadAs body p.1 p.2) ∧
        ∀ s, pieces.foldl (fun s p => p.2 s) s = items.foldl (fun s x => effect x s) s := by
    clear hbytes
    induction h with
    | nil => exact ⟨[], rfl, fun p hp => absurd hp not_mem_nil, fun s => rfl⟩
    | @keep x y xs ys hxy hs ih =>
      obtain ⟨pieces, rfl, hread, hfold⟩ :=
        ih fun x hx => hwrites x (mem_cons_of_mem _ hx)
      refine ⟨(y, effect x) :: pieces, rfl, fun p hp => ?_, fun s => hfold _⟩
      rcases mem_cons.mp hp with rfl | hp
      · exact hwrites x mem_cons_self y hxy
      · exact hread p hp
    | @insert y xs ys hy hs ih =>
      obtain ⟨pieces, rfl, hread, hfold⟩ := ih hwrites
      refine ⟨(y, id) :: pieces, rfl, fun p hp => ?_, fun s => hfold s⟩
      rcases mem_cons.mp hp with rfl | hp
      · exact hunknown y hy
      · exact hread p hp
  rw [← hfold]
  refine loop_of_pieces (fun p : Field × (α → α) => p.1.encode) (fun s p => p.2 s) pieces
    (fun p _ => p.1.encode_ne_nil) (fun p hp pos s rest hdrop => ?_) _ 0 s ?_
    (Nat.zero_le _) (by omega)
  · exact readField_of_readAs body (hread p hp) base s hlen hdrop
  · rw [drop_zero, hbytes, ← hpieces, flatMap_map]

end Fields

/-! ## Headers -/

theorem skipField_contents {α : Type} {f : Field} {bytes rest : List UInt8} (base : ℕ)
    (s : α) (hlen : bytes.length < 2 ^ 63) (hdrop : bytes.drop pos = f.contents ++ rest) :
    (skipField bytes base pos f.wire s).result = .ok (s, pos + f.contents.length) := by
  cases f with
  | varint n v =>
    show (readVarint bytes base pos >>= _).result = _
    rw [Read.result_bind_of_ok (readVarint_write base hdrop)]
    rfl
  | bytes n data =>
    have hdrop' : bytes.drop pos = writeVarint (UInt64.ofNat data.length) ++ (data ++ rest) := by
      rw [hdrop, Field.contents, append_assoc]
    show (readLengthDelimited bytes base pos >>= _).result = _
    rw [Read.result_bind_of_ok (readLengthDelimited_write base hlen hdrop'), Field.contents,
      length_append, ← Nat.add_assoc]
    rfl

/-- The contents of a field with bytes, when they are read. -/
theorem readLengthDelimited_contents {n : ℕ} {data bytes rest : List UInt8} (base : ℕ)
    (hlen : bytes.length < 2 ^ 63) (hdrop : bytes.drop pos = (Field.bytes n data).contents ++ rest) :
    (readLengthDelimited bytes base pos).result =
      .ok (data, pos + (Field.bytes n data).contents.length) := by
  have hdrop' : bytes.drop pos = writeVarint (UInt64.ofNat data.length) ++ (data ++ rest) := by
    rw [hdrop, Field.contents, append_assoc]
  rw [readLengthDelimited_write base hlen hdrop', Field.contents, length_append, ← Nat.add_assoc]

/-- The fields that are written for a header. -/
def Header.fields (h : Header) : List Field :=
  [.bytes 1 (asBytes h.key), .bytes 2 (asBytes h.value)]

/-- A field that a header does not have: the low 32 bits of its number are not those of one. -/
def UnknownInHeader (f : Field) : Prop :=
  f.number < 2 ^ 61 ∧ (f.number % 2 ^ 32 = 0 ∨ 2 < f.number % 2 ^ 32)

/-- What a field of a header changes. -/
def headerEffect (f : Field) (h : Header) : Header :=
  match f with
  | .bytes 1 data => { h with key := fromUtf8Lossy data }
  | .bytes 2 data => { h with value := fromUtf8Lossy data }
  | _ => h

variable {h : Header}

theorem headerField_unknown {bytes : List UInt8} {base pos n w : ℕ} (hn : n = 0 ∨ 2 < n) :
    headerField bytes base pos n w h = skipField bytes base pos w h := by
  unfold headerField
  split
  · omega
  · omega
  · rfl

theorem readAs_header (base : ℕ) {f : Field} (hf : f ∈ h.fields) :
    ReadAs (fun bytes => headerField bytes base) f (headerEffect f) := by
  rcases mem_cons.mp hf with rfl | hf
  · refine ⟨(by decide : 1 < 2 ^ 61), fun bytes pos s rest hlen hdrop => ?_⟩
    show (readLengthDelimited bytes base pos >>= _).result = _
    rw [Read.result_bind_of_ok (readLengthDelimited_contents base hlen hdrop)]
    rfl
  · obtain rfl := mem_singleton.mp hf
    refine ⟨(by decide : 2 < 2 ^ 61), fun bytes pos s rest hlen hdrop => ?_⟩
    show (readLengthDelimited bytes base pos >>= _).result = _
    rw [Read.result_bind_of_ok (readLengthDelimited_contents base hlen hdrop)]
    rfl

variable {fields : List Field}

/-- A header is read back from its fields, with unknown ones between them. -/
theorem decodeHeader_of_extended (hfields : Extended UnknownInHeader Eq h.fields fields) (base : ℕ)
    (hlen : (fields.flatMap Field.encode).length < 2 ^ 63) :
    (decodeHeader (fields.flatMap Field.encode) base).result = .ok h := by
  have hloop := loop_of_extended (fun bytes => headerField bytes base) headerEffect base
    (fun x hx y hxy => by cases hxy; exact readAs_header base hx) ?_ hfields ⟨"", ""⟩ rfl hlen
  · unfold decodeHeader
    rw [hloop]
    show Except.ok (Header.mk (fromUtf8Lossy (asBytes h.key)) (fromUtf8Lossy (asBytes h.value))) = _
    rw [fromUtf8Lossy_asBytes, fromUtf8Lossy_asBytes]
  · intro y hy
    refine ⟨hy.1, fun bytes pos s rest hlen hdrop => ?_⟩
    show (headerField bytes base pos (y.number % 2 ^ 32) y.wire s).result = _
    rw [headerField_unknown hy.2]
    exact skipField_contents base s hlen hdrop

/-! ## Frames -/

/-- What a frame consists of, in the order in which it is written. -/
inductive Item : Type where
  | seqId (v : UInt64)
  | logId (v : UInt64)
  | service (v : Int32)
  | method (t : FrameType)
  | header (h : Header)
  | payloadEncoding (s : String)
  | payloadType (s : String)
  | payload (data : List UInt8)
  | logIdNew (s : String)

namespace Item

/-- The field that is written for an item. -/
def field : Item → Field
  | seqId v => .varint 1 v
  | logId v => .varint 2 v
  | service v => .varint 3 v.toInt64.toUInt64
  | method t => .varint 4 t.asI32.toInt64.toUInt64
  | header h => .bytes 5 (h.fields.flatMap Field.encode)
  | payloadEncoding s => .bytes 6 (asBytes s)
  | payloadType s => .bytes 7 (asBytes s)
  | payload data => .bytes 8 data
  | logIdNew s => .bytes 9 (asBytes s)

/-- What an item changes when it is read. -/
def effect : Item → Fields → Fields
  | seqId v, f => { f with seqId := v }
  | logId v, f => { f with logId := v }
  | service v, f => { f with service := v }
  | method t, f => { f with method := some t.asI32 }
  | header h, f => { f with headers := f.headers ++ [h] }
  | payloadEncoding s, f => { f with payloadEncoding := some s }
  | payloadType s, f => { f with payloadType := some s }
  | payload data, f => { f with payload := some data }
  | logIdNew s, f => { f with logIdNew := some s }

/-- The fields that an item may be written as: its own, or for a header one with unknown fields
inside. -/
inductive Writes : Item → Field → Prop
  | field (x : Item) : Writes x x.field
  | header {h : Header} {fields : List Field} (hs : Extended UnknownInHeader Eq h.fields fields) :
      Writes (.header h) (.bytes 5 (fields.flatMap Field.encode))

end Item

def Frame.items (f : Frame) : List Item :=
  [.seqId f.seqId, .logId f.logId, .service f.service, .method f.frameType] ++
    f.headers.map .header ++ (f.payloadEncoding.map Item.payloadEncoding).toList ++
    (f.payloadType.map Item.payloadType).toList ++ (f.payload.map Item.payload).toList ++
    (f.logIdNew.map Item.logIdNew).toList

/-- A field that a frame does not have: the low 32 bits of its number are not those of one. -/
def UnknownInFrame (f : Field) : Prop :=
  f.number < 2 ^ 61 ∧ (f.number % 2 ^ 32 = 0 ∨ 9 < f.number % 2 ^ 32)

theorem frameField_unknown {bytes : List UInt8} {pos n w : ℕ} {f : Fields} (hn : n = 0 ∨ 9 < n) :
    frameField bytes pos n w f = skipField bytes 0 pos w f := by
  unfold frameField
  split <;> first | omega | rfl

/-- A number is kept through its encoding as an `int32`. -/
theorem toInt32_wire (v : Int32) : v.toInt64.toUInt64.toUInt32.toInt32 = v := by
  apply Int32.toBitVec_inj.mp
  show BitVec.setWidth 32 (BitVec.signExtend 64 v.toBitVec) = v.toBitVec
  apply BitVec.eq_of_getLsbD_eq
  intro i hi
  rw [BitVec.getLsbD_setWidth, BitVec.getLsbD_signExtend, if_pos hi, decide_eq_true hi,
    decide_eq_true (by omega : i < 64)]
  rfl

theorem Extended.refl {ι : Type} (unknown : Field → Prop) {writes : ι → Field → Prop} {f : ι → Field}
    (h : ∀ x, writes x (f x)) (xs : List ι) : Extended unknown writes xs (xs.map f) := by
  induction xs with
  | nil => exact .nil
  | cons x xs ih => exact .keep (h x) ih

theorem readAs_headerItem (hfields : Extended UnknownInHeader Eq h.fields fields) :
    ReadAs frameField (.bytes 5 (fields.flatMap Field.encode)) (Item.header h).effect := by
  refine ⟨(by decide : 5 < 2 ^ 61), fun bytes pos s rest hlen hdrop => ?_⟩
  show (readLengthDelimited bytes 0 pos >>= _).result = _
  rw [Read.result_bind_of_ok (readLengthDelimited_contents 0 hlen hdrop)]
  show (decodeHeader (fields.flatMap Field.encode) _ >>= _).result = _
  have hlen' : (fields.flatMap Field.encode).length < 2 ^ 63 := by
    have hlength := congrArg List.length hdrop
    rw [length_drop, length_append, Field.contents, length_append] at hlength
    omega
  rw [Read.result_bind_of_ok (decodeHeader_of_extended hfields _ hlen')]
  rfl

theorem readAs_varint {n : ℕ} {v : UInt64} {g : Fields → Fields} (hn : n < 2 ^ 61)
    (hbody : ∀ (bytes : List UInt8) (pos p : ℕ) (s : Fields),
      (readVarint bytes 0 pos).result = .ok (v, p) →
        (frameField bytes pos (n % 2 ^ 32) 0 s).result = .ok (g s, p)) :
    ReadAs frameField (.varint n v) g :=
  ⟨hn, fun bytes pos s _ _ hdrop => hbody bytes pos _ s (readVarint_write 0 hdrop)⟩

theorem readAs_bytes {n : ℕ} {data : List UInt8} {g : Fields → Fields} (hn : n < 2 ^ 61)
    (hbody : ∀ (bytes : List UInt8) (pos p : ℕ) (s : Fields),
      (readLengthDelimited bytes 0 pos).result = .ok (data, p) →
        (frameField bytes pos (n % 2 ^ 32) 2 s).result = .ok (g s, p)) :
    ReadAs frameField (.bytes n data) g :=
  ⟨hn, fun bytes pos s _ hlen hdrop =>
    hbody bytes pos _ s (readLengthDelimited_contents 0 hlen hdrop)⟩

/-- A string is read back. -/
theorem readString_asBytes (s : String) (base stop : ℕ) :
    (readString base (asBytes s) stop).result = .ok s := by
  show Except.ok (fromUtf8Lossy (asBytes s)) = _
  rw [fromUtf8Lossy_asBytes]

theorem readAs_item (x : Item) (hx : ∀ h, x ≠ .header h) : ReadAs frameField x.field x.effect := by
  cases x with
  | seqId v | logId v =>
    refine readAs_varint (by decide) fun bytes pos p s h => ?_
    show (readVarint bytes 0 pos >>= _).result = _
    rw [Read.result_bind_of_ok h]
    rfl
  | service v =>
    refine readAs_varint (by decide) fun bytes pos p s h => ?_
    show (readVarint bytes 0 pos >>= _).result = _
    rw [Read.result_bind_of_ok h]
    show Except.ok ({ s with service := v.toInt64.toUInt64.toUInt32.toInt32 }, p) = _
    rw [toInt32_wire]
    rfl
  | method t =>
    refine readAs_varint (by decide) fun bytes pos p s h => ?_
    show (readVarint bytes 0 pos >>= _).result = _
    rw [Read.result_bind_of_ok h]
    show Except.ok ({ s with method := some t.asI32.toInt64.toUInt64.toUInt32.toInt32 }, p) = _
    rw [toInt32_wire]
    rfl
  | header h => exact absurd rfl (hx h)
  | payloadEncoding str | payloadType str | logIdNew str =>
    refine readAs_bytes (by decide) fun bytes pos p s h => ?_
    show (readLengthDelimited bytes 0 pos >>= _).result = _
    rw [Read.result_bind_of_ok h]
    show (readString 0 (asBytes str) p >>= _).result = _
    rw [Read.result_bind_of_ok (readString_asBytes str 0 p)]
    rfl
  | payload data =>
    refine readAs_bytes (by decide) fun bytes pos p s h => ?_
    show (readLengthDelimited bytes 0 pos >>= _).result = _
    rw [Read.result_bind_of_ok h]
    rfl

theorem readAs_of_writes {x : Item} {y : Field} (h : x.Writes y) :
    ReadAs frameField y x.effect := by
  cases h with
  | field =>
    by_cases hx : ∃ h, x = .header h
    · obtain ⟨h, rfl⟩ := hx
      have hfields := Extended.refl UnknownInHeader (fun f : Field => Eq.refl f) h.fields
      rw [map_id'] at hfields
      exact readAs_headerItem hfields
    · exact readAs_item x fun h heq => hx ⟨h, heq⟩
  | header hs => exact readAs_headerItem hs

theorem readAs_unknown {y : Field} (h : UnknownInFrame y) : ReadAs frameField y id := by
  refine ⟨h.1, fun bytes pos s rest hlen hdrop => ?_⟩
  rw [frameField_unknown h.2]
  exact skipField_contents 0 s hlen hdrop

theorem foldl_headers (hs : List Header) (s : Fields) :
    (hs.map Item.header).foldl (fun s x => x.effect s) s =
      { s with headers := s.headers ++ hs } := by
  induction hs generalizing s with
  | nil =>
    rw [append_nil]
    rfl
  | cons h hs ih =>
    rw [map_cons, foldl_cons, ih]
    show ({ s with headers := s.headers ++ [h] ++ hs } : Fields) = _
    rw [append_assoc]
    rfl

/-- What is known once all items of a frame are read. -/
theorem foldl_items (f : Frame) :
    f.items.foldl (fun s x => x.effect s) .empty =
      { seqId := f.seqId, logId := f.logId, service := f.service, method := some f.frameType.asI32,
        headers := f.headers, payloadEncoding := f.payloadEncoding, payloadType := f.payloadType,
        payload := f.payload, logIdNew := f.logIdNew } := by
  obtain ⟨seqId, logId, service, frameType, headers, payloadEncoding, payloadType, payload,
    logIdNew⟩ := f
  unfold Frame.items
  simp only [foldl_append, foldl_headers]
  cases payloadEncoding <;> cases payloadType <;> cases payload <;> cases logIdNew <;> rfl

/-- A frame is read back from its fields, with unknown ones between them and in its headers. -/
theorem decode_of_extended {f : Frame}
    (hfields : Extended UnknownInFrame Item.Writes f.items fields)
    (hlen : (fields.flatMap Field.encode).length < 2 ^ 63) :
    (Frame.decode (fields.flatMap Field.encode)).result = .ok f := by
  have hloop := loop_of_extended frameField Item.effect 0
    (fun x _ y hxy => readAs_of_writes hxy) (fun y hy => readAs_unknown hy) hfields .empty rfl hlen
  unfold Frame.decode
  rw [Read.result_bind_of_ok hloop, foldl_items]
  unfold Fields.frame
  obtain ⟨seqId, logId, service, frameType, headers, payloadEncoding, payloadType, payload,
    logIdNew⟩ := f
  cases frameType <;> rfl

/-! ## What is written -/

theorem writeVarintField_eq (tag : UInt32) (n : ℕ) (v : UInt64)
    (h : tag.toUInt64 = UInt64.ofNat (n * 8)) :
    writeVarintField tag v = (Field.varint n v).encode := by
  unfold writeVarintField
  rw [h]
  rfl

theorem writeStringField_eq (tag : UInt32) (n : ℕ) (data : List UInt8)
    (h : tag.toUInt64 = UInt64.ofNat (n * 8 + 2)) :
    writeStringField tag data = (Field.bytes n data).encode := by
  unfold writeStringField
  rw [h]
  rfl

theorem Header.encode_eq (h : Header) : h.encode = h.fields.flatMap Field.encode := by
  unfold Header.encode
  rw [writeStringField_eq 0x0a 1 _ rfl, writeStringField_eq 0x12 2 _ rfl]
  show _ = _ ++ (_ ++ [])
  rw [append_nil]

theorem writeOptional_eq {β : Type} (tag : UInt32) (n : ℕ) (data : β → List UInt8) (o : Option β)
    (h : tag.toUInt64 = UInt64.ofNat (n * 8 + 2)) : writeOptional tag (o.map data) =
      (o.map fun x => Field.bytes n (data x)).toList.flatMap Field.encode := by
  cases o with
  | none => rfl
  | some x =>
    show writeStringField tag (data x) = _ ++ []
    rw [append_nil, writeStringField_eq tag n _ h]

/-- A frame is written as the fields of its items. -/
theorem Frame.encode_eq (f : Frame) :
    f.encode = (f.items.map Item.field).flatMap Field.encode := by
  have hheaders : f.headers.flatMap (fun h => writeStringField 0x2a h.encode) =
      ((f.headers.map Item.header).map Item.field).flatMap Field.encode := by
    rw [map_map, flatMap_map]
    congr 1
    funext h
    rw [Header.encode_eq, writeStringField_eq 0x2a 5 _ rfl]
    rfl
  have hoption : ∀ {β : Type} (item : β → Item) (o : Option β),
      ((o.map item).toList.map Item.field) = (o.map fun x => (item x).field).toList := by
    intro β item o
    cases o <;> rfl
  have hpayload := writeOptional_eq 0x42 8 (fun data : List UInt8 => data) f.payload rfl
  rw [Option.map_id'] at hpayload
  unfold Frame.encode Frame.items
  rw [writeVarintField_eq 0x08 1 _ rfl, writeVarintField_eq 0x10 2 _ rfl,
    writeVarintField_eq 0x18 3 _ rfl, writeVarintField_eq 0x20 4 _ rfl, hheaders,
    writeOptional_eq 0x32 6 asBytes _ rfl, writeOptional_eq 0x3a 7 asBytes _ rfl, hpayload,
    writeOptional_eq 0x4a 9 asBytes _ rfl]
  simp only [map_append, flatMap_append, hoption]
  simp only [append_assoc, map_cons, map_nil, flatMap_cons, flatMap_nil, nil_append]
  rfl

/-- A frame is read back from its bytes. -/
theorem decode_encode {f : Frame} (hlen : f.encode.length < 2 ^ 63) :
    (Frame.decode f.encode).result = .ok f := by
  rw [Frame.encode_eq] at hlen ⊢
  exact decode_of_extended (Extended.refl _ Item.Writes.field f.items) hlen

/-! ## The decoder goes forward -/

section Forward

variable {bytes : List UInt8}

theorem readVarintLoop_forward (base n : ℕ) : ∀ (pos : ℕ) (result : UInt64) (shift : ℕ),
    Forward (base + pos) (fun r => base + r.2) (readVarintLoop bytes base n pos result shift) ∧
      ∀ r, (readVarintLoop bytes base n pos result shift).result = .ok r →
        pos < r.2 ∧ r.2 ≤ bytes.length := by
  induction n with
  | zero => exact fun pos result shift => ⟨.fail _, nofun⟩
  | succ n ih =>
    intro pos result shift
    unfold readVarintLoop
    by_cases hpos : bytes.length ≤ pos
    · rw [if_pos hpos]
      exact ⟨.fail _, nofun⟩
    · rw [if_neg hpos]
      have hlt : pos < bytes.length := by omega
      constructor
      · refine (Forward.byteAt base hlt).bind fun b _ => ?_
        by_cases hb : b &&& 0x80 = 0
        · rw [if_pos hb]
          exact .pure (Nat.le_refl _)
        · rw [if_neg hb]
          exact (ih (pos + 1) _ _).1
      · intro r hr
        obtain ⟨b, -, hr⟩ := Read.exists_of_bind hr
        by_cases hb : b &&& 0x80 = 0
        · rw [if_pos hb] at hr
          cases hr
          exact ⟨Nat.lt_succ_self pos, hlt⟩
        · rw [if_neg hb] at hr
          obtain ⟨hlt', hle⟩ := (ih (pos + 1) _ _).2 r hr
          omega

theorem readVarint_forward (bytes : List UInt8) (base pos : ℕ) :
    Forward (base + pos) (fun r => base + r.2) (readVarint bytes base pos) :=
  (readVarintLoop_forward base 10 pos 0 0).1

theorem readVarint_next {base pos : ℕ} {r : UInt64 × ℕ}
    (h : (readVarint bytes base pos).result = .ok r) : pos < r.2 ∧ r.2 ≤ bytes.length :=
  (readVarintLoop_forward base 10 pos 0 0).2 r h

/-- A reader of a field goes forward, reads something, and stays in the bytes. -/
def Advances {β : Type} (bytes : List UInt8) (base pos : ℕ) (m : Read DecodeError (β × ℕ)) : Prop :=
  Forward (base + pos) (fun r => base + r.2) m ∧
    ∀ r, m.result = .ok r → pos < r.2 ∧ r.2 ≤ bytes.length

variable {β γ : Type} {base pos : ℕ}

/-- The bytes of a field begin after its length, and are not read yet. -/
theorem readLengthDelimited_forward (bytes : List UInt8) (base pos : ℕ) :
    Forward (base + pos) (fun r => base + (r.2 - r.1.length))
        (readLengthDelimited bytes base pos) ∧
      ∀ r, (readLengthDelimited bytes base pos).result = .ok r →
        pos < r.2 - r.1.length ∧ r.1.length ≤ r.2 ∧ r.2 ≤ bytes.length := by
  -- What remains after the length was read.
  have hrest : ∀ len afterLen : ℕ,
      Forward (base + afterLen) (fun r => base + (r.2 - r.1.length))
          (if 2 ^ 64 ≤ afterLen + len then .fail .truncated
            else if bytes.length < afterLen + len then .fail .truncated
            else slice bytes afterLen (afterLen + len) >>= fun data =>
              pure (data, afterLen + len) : Read DecodeError (List UInt8 × ℕ)) ∧
        ∀ r, (if 2 ^ 64 ≤ afterLen + len then .fail .truncated
            else if bytes.length < afterLen + len then .fail .truncated
            else slice bytes afterLen (afterLen + len) >>= fun data =>
              pure (data, afterLen + len) : Read DecodeError (List UInt8 × ℕ)).result = .ok r →
          r.2 - r.1.length = afterLen ∧ r.1.length ≤ r.2 ∧ r.2 ≤ bytes.length := by
    intro len afterLen
    by_cases hbig : 2 ^ 64 ≤ afterLen + len
    · rw [if_pos hbig]
      exact ⟨.fail _, nofun⟩
    · rw [if_neg hbig]
      by_cases hout : bytes.length < afterLen + len
      · rw [if_pos hout]
        exact ⟨.fail _, nofun⟩
      · rw [if_neg hout]
        unfold slice
        rw [if_pos (by omega), Nat.add_sub_cancel_left]
        have hlen : ((bytes.drop afterLen).take len).length = len := by
          rw [length_take, length_drop]
          omega
        refine ⟨.pure ?_, fun r hr => ?_⟩
        · show base + afterLen ≤ base + (afterLen + len - ((bytes.drop afterLen).take len).length)
          omega
        · cases hr
          show afterLen + len - ((bytes.drop afterLen).take len).length = afterLen ∧
            ((bytes.drop afterLen).take len).length ≤ afterLen + len ∧ _
          omega
  constructor
  · exact (readVarint_forward bytes base pos).bind fun r _ => (hrest r.1.toNat r.2).1
  · intro r hr
    obtain ⟨a, ha, hr⟩ := Read.exists_of_bind hr
    obtain ⟨hstart, hle, hin⟩ := (hrest a.1.toNat a.2).2 r hr
    have hnext := (readVarint_next ha).1
    omega

theorem advances_varint (f : UInt64 → β) :
    Advances bytes base pos (readVarint bytes base pos >>= fun r => pure (f r.1, r.2)) := by
  constructor
  · exact (readVarint_forward bytes base pos).bind fun r _ => .pure (Nat.le_refl _)
  · intro r hr
    obtain ⟨a, ha, hr⟩ := Read.exists_of_bind hr
    cases hr
    exact readVarint_next ha

theorem advances_bytes (g : List UInt8 → ℕ → Read DecodeError γ) (f : γ → β)
    (hg : ∀ s p, s.length ≤ p → Forward (base + (p - s.length)) (fun _ => base + p) (g s p)) :
    Advances bytes base pos (readLengthDelimited bytes base pos >>= fun r =>
      g r.1 r.2 >>= fun x => pure (f x, r.2)) := by
  obtain ⟨hforward, hnext⟩ := readLengthDelimited_forward bytes base pos
  constructor
  · refine hforward.bind fun r hr => ?_
    exact (hg r.1 r.2 (hnext r hr).2.1).bind fun x _ => .pure (Nat.le_refl _)
  · intro r hr
    obtain ⟨a, ha, hr⟩ := Read.exists_of_bind hr
    obtain ⟨x, -, hr⟩ := Read.exists_of_bind hr
    cases hr
    obtain ⟨hstart, -, hin⟩ := hnext a ha
    exact ⟨by omega, hin⟩

theorem readString_forward (base : ℕ) (s : List UInt8) (p : ℕ) (h : s.length ≤ p) :
    Forward (base + (p - s.length)) (fun _ => base + p) (readString base s p) := by
  have hcopy : Forward (base + (p - s.length)) (fun _ => base + p)
      (copy s (base + (p - s.length)) : Read DecodeError (List UInt8)) := by
    refine (Forward.copy s (base + (p - s.length))).mono fun data _ => ?_
    omega
  exact hcopy.bind fun data _ => .pure (Nat.le_refl _)

theorem advances_skip (wire : ℕ) (s : β) :
    Advances bytes base pos (skipField bytes base pos wire s) := by
  unfold skipField
  split
  · exact advances_varint fun _ => s
  · refine advances_bytes (fun _ _ => pure ()) (fun _ => s) fun data p h => .pure ?_
    omega
  · exact ⟨.fail _, nofun⟩

theorem advances_readField {α : Type}
    {body : ℕ → ℕ → ℕ → α → Read DecodeError (α × ℕ)} (s : α)
    (hbody : ∀ pos field wire s, Advances bytes base pos (body pos field wire s)) :
    Advances bytes base pos (readField bytes base body pos s) := by
  constructor
  · exact (readVarint_forward bytes base pos).bind fun r _ => (hbody r.2 _ _ s).1
  · intro r hr
    obtain ⟨a, ha, hr⟩ := Read.exists_of_bind hr
    obtain ⟨hlt, hin⟩ := (hbody a.2 _ _ s).2 r hr
    have hnext := (readVarint_next ha).1
    exact ⟨by omega, hin⟩

theorem advances_headerField (field wire : ℕ) (h : Header) :
    Advances bytes base pos (headerField bytes base pos field wire h) := by
  unfold headerField
  split
  · exact advances_bytes (readString base) (fun key => { h with key := key })
      (readString_forward base)
  · exact advances_bytes (readString base) (fun value => { h with value := value })
      (readString_forward base)
  · exact advances_skip wire h

theorem decodeHeader_forward (s : List UInt8) (p : ℕ) (h : s.length ≤ p) :
    Forward (0 + (p - s.length)) (fun _ => 0 + p) (decodeHeader s (p - s.length)) := by
  have hloop := Forward.loop s.length (p - s.length)
    (readField s (p - s.length) (headerField s (p - s.length)))
    (fun pos hd _ => (advances_readField hd fun _ field wire => advances_headerField field wire).1)
    (fun pos hd => (advances_readField hd fun _ field wire => advances_headerField field wire).2)
    (s.length + 1) 0 ⟨"", ""⟩ (Nat.zero_le _) (by omega)
  rw [Nat.zero_add, Nat.zero_add]
  rw [Nat.add_zero, Nat.sub_add_cancel h] at hloop
  exact hloop

theorem advances_frameField (field wire : ℕ) (f : Fields) :
    Advances bytes 0 pos (frameField bytes pos field wire f) := by
  unfold frameField
  split
  · exact advances_varint fun v => { f with seqId := v }
  · exact advances_varint fun v => { f with logId := v }
  · exact advances_varint fun v => { f with service := v.toUInt32.toInt32 }
  · exact advances_varint fun v => { f with method := some v.toUInt32.toInt32 }
  · exact advances_bytes (fun s p => decodeHeader s (p - s.length))
      (fun h => { f with headers := f.headers ++ [h] }) decodeHeader_forward
  · exact advances_bytes (readString 0) (fun s => { f with payloadEncoding := some s })
      (readString_forward 0)
  · exact advances_bytes (readString 0) (fun s => { f with payloadType := some s })
      (readString_forward 0)
  · refine advances_bytes (fun s p => copy s (p - s.length))
      (fun data => { f with payload := some data }) fun s p h => ?_
    rw [Nat.zero_add, Nat.zero_add]
    refine (Forward.copy s (p - s.length)).mono fun data _ => ?_
    omega
  · exact advances_bytes (readString 0) (fun s => { f with logIdNew := some s })
      (readString_forward 0)
  · exact advances_skip wire f

/-- The decoder goes forward through the bytes. -/
theorem decode_forward (bytes : List UInt8) :
    Forward 0 (fun _ => bytes.length) (Frame.decode bytes) := by
  have hloop := Forward.loop bytes.length 0 (readField bytes 0 (frameField bytes))
    (fun pos f _ => (advances_readField f fun _ field wire => advances_frameField field wire).1)
    (fun pos f => (advances_readField f fun _ field wire => advances_frameField field wire).2)
    (bytes.length + 1) 0 .empty (Nat.zero_le _) (by omega)
  rw [Nat.zero_add, Nat.zero_add] at hloop
  refine hloop.bind fun f _ => ?_
  unfold Fields.frame
  split
  · exact .pure (Nat.le_refl _)
  · exact .fail _

end Forward

/-! ## The codec -/

/-- A frame is read back from its bytes, and from the bytes of its fields with unknown ones between
them and inside its headers; and whatever the bytes are, the decoder reads each of them at most once
and ends with a frame or one of its errors. -/
theorem codec :
    (∀ f : Frame, f.encode.length < 2 ^ 63 → (Frame.decode f.encode).result = .ok f) ∧
    (∀ (f : Frame) (fields : List Field), Extended UnknownInFrame Item.Writes f.items fields →
      (fields.flatMap Field.encode).length < 2 ^ 63 →
        (Frame.decode (fields.flatMap Field.encode)).result = .ok f) ∧
    ∀ bytes : List UInt8, (Frame.decode bytes).trace.Pairwise (· < ·) ∧
      ((∃ f, (Frame.decode bytes).result = .ok f) ∨
        ∃ e, (Frame.decode bytes).result = .error (.error e)) := by
  refine ⟨fun f hlen => decode_encode hlen, fun f fields hfields hlen =>
    decode_of_extended hfields hlen, fun bytes => ⟨(decode_forward bytes).sorted, ?_⟩⟩
  cases h : (Frame.decode bytes).result with
  | ok f => exact Or.inl ⟨f, rfl⟩
  | error e =>
    obtain ⟨d, rfl⟩ := (decode_forward bytes).stops e h
    exact Or.inr ⟨d, rfl⟩

namespace Sample

/-- A frame without headers. -/
def plain : Frame where
  seqId := 7
  logId := 0
  service := -1
  frameType := .data
  headers := []
  payloadEncoding := none
  payloadType := none
  payload := some [1, 2]
  logIdNew := none

/-- Its fields, with one between them. -/
def plainWith (y : Field) : List Field :=
  y :: plain.items.map Item.field

/-- Its fields, with one after them. -/
def plainThen (y : Field) : List Field :=
  plain.items.map Item.field ++ [y]

end Sample

/-- An unknown field before the others is skipped. -/
theorem codec_plain :
    (Frame.decode ((Sample.plainWith (.bytes 20 [1, 2, 3])).flatMap Field.encode)).result =
      .ok Sample.plain :=
  codec.2.1 Sample.plain (Sample.plainWith (.bytes 20 [1, 2, 3]))
    (.insert (by decide : 20 < 2 ^ 61 ∧ (20 % 2 ^ 32 = 0 ∨ 9 < 20 % 2 ^ 32))
      (Extended.refl _ Item.Writes.field _))
    (by decide +kernel)

/-- A field whose number is `2 ^ 32 + 1` is taken for the sequence id. -/
theorem misreads_number : ∃ fields : List Field,
    Extended (fun y => y.number < 2 ^ 61 ∧ (y.number = 0 ∨ 9 < y.number)) Item.Writes
      Sample.plain.items fields ∧ (fields.flatMap Field.encode).length < 2 ^ 63 ∧
      (Frame.decode (fields.flatMap Field.encode)).result ≠ .ok Sample.plain := by
  refine ⟨Sample.plainThen (.varint (2 ^ 32 + 1) 5), ?_, by decide +kernel, ?_⟩
  · refine .keep (.field _) (.keep (.field _) (.keep (.field _) (.keep (.field _)
      (.keep (.field _) (.insert ?_ .nil)))))
    exact ⟨(by decide : 2 ^ 32 + 1 < 2 ^ 61), Or.inr (by decide : 9 < 2 ^ 32 + 1)⟩
  · intro h
    have hseq : ((Frame.decode ((Sample.plainThen (.varint (2 ^ 32 + 1) 5)).flatMap
        Field.encode)).result.toOption.map Frame.seqId) = some 5 := by
      decide +kernel
    rw [h] at hseq
    cases hseq

end HeraMind.Im.Pbbp2
