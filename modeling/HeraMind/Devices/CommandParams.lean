/-
# Parameters of a command

The check of the parameters a command is sent with (`crates/heramind-devices/src/service.rs`):
each is converted from JSON to the declared data type, or takes its default, and a number is
compared with the declared bounds.
-/
import HeraMind.Lib.Binary64
import HeraMind.Devices.Registry

namespace HeraMind.Devices

open Option List
open Serde

/-- What the standard library and `serde_json` make of texts and numbers. -/
structure CommandText where
  /-- `trim` and `parse::<i64>`. -/
  parseI64 : String → Option Int64
  /-- `trim` and `parse::<f64>`. -/
  parseF64 : String → Option Binary64
  toLowercase : String → String
  /-- `to_string` of a JSON value. -/
  toText : Value Binary64 → String
  showF64 : Binary64 → String

/-! ## Numbers -/

namespace Number

/-- `as_i64`. -/
def asI64 : Number Binary64 → Option Int64
  | .int n => if -2 ^ 63 ≤ n ∧ n < 2 ^ 63 then some (.ofInt n) else none
  | .float _ => none

/-- `as_f64`, which every number has. -/
def asF64 : Number Binary64 → Binary64
  | .int n => .ofInt n
  | .float x => x

/-- The number, if it is finite. -/
def value : Number Binary64 → Option ℚ
  | .int n => some n
  | .float x => Binary64.value x

end Number

/-! ## The check -/

namespace DeviceService

/-- The texts that stand for a truth value. -/
def parseBool (text : CommandText) (s : String) : Option Bool :=
  let lower := text.toLowercase s
  if lower ∈ ["true", "1", "yes", "on"] then some true
  else if lower ∈ ["false", "0", "no", "off"] then some false
  else none

/-- `json_to_metric_value`. -/
def jsonToMetricValue (text : CommandText) (json : Value Binary64) (expectedType : MetricDataType) :
    Except DeviceError (MetricValue Binary64) :=
  match json, expectedType with
  | .number n, .integer =>
    match n.asI64 with
    | some i => .ok (.integer i)
    | none => .ok (.integer n.asF64.toInt64)
  | .number n, .float => .ok (.float n.asF64)
  | .bool b, .boolean => .ok (.boolean b)
  | .string s, .string => .ok (.string s)
  | .null, _ => .ok .null
  | .string s, .integer =>
    match text.parseI64 s with
    | some i => .ok (.integer i)
    | none => .error (.invalidParameter ("Cannot convert '" ++ s ++ "' to Integer"))
  | .string s, .float =>
    match text.parseF64 s with
    | some x => .ok (.float x)
    | none => .error (.invalidParameter ("Cannot convert '" ++ s ++ "' to Float"))
  | .string s, .boolean =>
    match parseBool text s with
    | some b => .ok (.boolean b)
    | none => .error (.invalidParameter ("Cannot convert '" ++ s ++ "' to Boolean"))
  | json, _ => .ok (.string (text.toText json))

/-- The value given for a parameter, or its default. -/
def paramValue (text : CommandText) (params : HashMap String (Value Binary64))
    (paramDef : ParameterDefinition Binary64) : Except DeviceError (MetricValue Binary64) :=
  match params.lookup paramDef.name with
  | some json => jsonToMetricValue text json paramDef.dataType
  | none =>
    match paramDef.defaultValue with
    | some value => .ok value
    | none => .error (.invalidParameter
        ("Required parameter '" ++ paramDef.name ++ "' not provided and has no default"))

/-- The error for a number out of range. -/
def outOfRange (text : CommandText) (name number : String) (min max : Binary64) : DeviceError :=
  .invalidParameter ("Parameter '" ++ name ++ "' value " ++ number ++ " out of range [" ++
    text.showF64 min ++ ", " ++ text.showF64 max ++ "]")

/-- The check of the bounds, which is only made if both are declared. -/
def checkRange (text : CommandText) (paramDef : ParameterDefinition Binary64)
    (value : MetricValue Binary64) : Except DeviceError Unit :=
  match paramDef.min, paramDef.max with
  | some min, some max =>
    match value with
    | .integer i =>
      let x := Float.Model.ofInt i.toInt
      if x.lt min || max.lt x then
        .error (outOfRange text paramDef.name (toString i.toInt) min max)
      else .ok ()
    | .float x =>
      if x.lt min || max.lt x then
        .error (outOfRange text paramDef.name (text.showF64 x) min max)
      else .ok ()
    | _ => .ok ()
  | _, _ => .ok ()

/-- The checked value of a parameter. -/
def validatedValue (text : CommandText) (params : HashMap String (Value Binary64))
    (paramDef : ParameterDefinition Binary64) : Except DeviceError (MetricValue Binary64) :=
  (paramValue text params paramDef).bind fun value =>
    (checkRange text paramDef value).map fun _ => value

/-- `validate_command_params`. -/
def validateCommandParams (text : CommandText) (commandDef : CommandDefinition Binary64)
    (params : HashMap String (Value Binary64)) :
    Except DeviceError (HashMap String (MetricValue Binary64)) :=
  commandDef.parameters.foldlM
    (fun validated paramDef => (validatedValue text params paramDef).map fun value =>
      validated.insert paramDef.name value) ∅

end DeviceService

/-! ## The contract -/

/-- The value has the data type. -/
def MetricValue.HasType : MetricDataType → MetricValue Binary64 → Prop
  | .integer, .integer _ | .float, .float _ | .string, .string _ | .boolean, .boolean _
  | .array none, .array _ => True
  | .array (some elementType), .array items => ∀ item ∈ items, HasType elementType item
  | .binary, .binary _ => True
  | .enum options, .string s => s ∈ options
  | _, _ => False

/-- A number is at least the bound. -/
def MetricValue.AtLeast (min : Binary64) : MetricValue Binary64 → Prop
  | .integer i => Binary64.leInt min i.toInt
  | .float x => min.le x = true
  | _ => True

/-- A number is at most the bound. -/
def MetricValue.AtMost (max : Binary64) : MetricValue Binary64 → Prop
  | .integer i => Binary64.geInt max i.toInt
  | .float x => x.le max = true
  | _ => True

/-- A number is the one that was given. -/
def MetricValue.Equals (n : Number Binary64) : MetricValue Binary64 → Prop
  | .integer i => n.value = some (i.toInt : ℚ)
  | .float x => n.value = Binary64.value x
  | _ => True

/-- The value is a number at all. -/
def MetricValue.IsNumber : MetricValue Binary64 → Prop
  | .float x => x.isNaN = false
  | _ => True

/-- What the definition of a parameter promises of its value. -/
structure ParameterDefinition.InContract (p : ParameterDefinition Binary64)
    (given : Option (Value Binary64)) (value : MetricValue Binary64) : Prop where
  type : value = .null ∨ value.HasType p.dataType
  isNumber : value.IsNumber
  min : ∀ min, p.min = some min → value.AtLeast min
  max : ∀ max, p.max = some max → value.AtMost max
  allowed : p.allowedValues ≠ [] → value ∈ p.allowedValues
  exact : ∀ n, given = some (.number n) → value.Equals n

/-- The definition a parameter of that name has: the last one. -/
def CommandDefinition.declared (c : CommandDefinition Binary64) (name : String) :
    Option (ParameterDefinition Binary64) :=
  c.parameters.reverse.find? fun p => p.name = name

/-! ## What fits the contract -/

/-- The check of both bounds rounds an integer to a floating-point number, and lets everything pass
a bound that is not a number. -/
def MetricValue.IsInside (min max : Binary64) : MetricValue Binary64 → Prop
  | .integer i =>
    (Float.Model.ofInt i.toInt).lt min = false → max.lt (Float.Model.ofInt i.toInt) = false →
      Binary64.leInt min i.toInt ∧ Binary64.geInt max i.toInt
  | .float _ => min.isNaN = false ∧ max.isNaN = false
  | _ => True

namespace ParameterDefinition

variable (text : CommandText) (p : ParameterDefinition Binary64)

/-- A value that keeps to the bounds and the allowed values where the code does not look. -/
structure Fitting (value : MetricValue Binary64) : Prop where
  isNumber : value.IsNumber
  min : p.max = none → ∀ min, p.min = some min → value.AtLeast min
  max : p.min = none → ∀ max, p.max = some max → value.AtMost max
  both : ∀ min max, p.min = some min → p.max = some max → value.IsInside min max
  allowed : p.allowedValues ≠ [] → value ∈ p.allowedValues

/-- A value that is passed on as text. -/
def FitsAsText (json : Value Binary64) : Prop :=
  match p.dataType with
  | .string => p.Fitting (.string (text.toText json))
  | .enum options => text.toText json ∈ options ∧ p.Fitting (.string (text.toText json))
  | _ => False

/-- A given number fits. -/
def FitsNumber (n : Number Binary64) : Prop :=
  match p.dataType with
  | .integer => ∃ i : ℤ, n.value = some (i : ℚ) ∧ (-2 ^ 63 ≤ i ∧ i < 2 ^ 63) ∧
      p.Fitting (.integer (.ofInt i))
  | .float => n.value = Binary64.value n.asF64 ∧ p.Fitting (.float n.asF64)
  | _ => p.FitsAsText text (.number n)

/-- A given text fits. -/
def FitsString (s : String) : Prop :=
  match p.dataType with
  | .string => p.Fitting (.string s)
  | .integer => ∀ i, text.parseI64 s = some i → p.Fitting (.integer i)
  | .float => ∀ x, text.parseF64 s = some x → p.Fitting (.float x)
  | .boolean => ∀ b, DeviceService.parseBool text s = some b → p.Fitting (.boolean b)
  | _ => p.FitsAsText text (.string s)

/-- What is given for the parameter, or its default, fits. -/
def Fits : Option (Value Binary64) → Prop
  | none => ∀ d, p.defaultValue = some d → (d = .null ∨ d.HasType p.dataType) ∧ p.Fitting d
  | some .null => p.Fitting .null
  | some (.number n) => p.FitsNumber text n
  | some (.string s) => p.FitsString text s
  | some (.bool b) =>
    match p.dataType with
    | .boolean => p.Fitting (.boolean b)
    | _ => p.FitsAsText text (.bool b)
  | some json => p.FitsAsText text json

/-- The parameter is left out although it has no default; it is declared optional. -/
def IsLeftOut (params : HashMap String (Value Binary64)) : Prop :=
  p.required = false ∧ p.defaultValue = none ∧ params.lookup p.name = none

/-- The value of the parameter is taken: there is one, it is converted, and it is not outside of
the bounds if both are declared. -/
def IsTaken (text : CommandText) (params : HashMap String (Value Binary64))
    (p : ParameterDefinition Binary64) : Prop :=
  ∃ value, DeviceService.validatedValue text params p = .ok value

variable {text p} {value : MetricValue Binary64}

/-- A number that passed the check of both bounds. -/
theorem inside_of_checkRange {min max : Binary64} (hmin : p.min = some min)
    (hmax : p.max = some max) (hrange : DeviceService.checkRange text p value = .ok ()) :
    (∀ i, value = .integer i →
      (Float.Model.ofInt i.toInt).lt min = false ∧ max.lt (Float.Model.ofInt i.toInt) = false) ∧
    ∀ x, value = .float x → x.lt min = false ∧ max.lt x = false := by
  rw [DeviceService.checkRange, hmin, hmax] at hrange
  constructor
  · rintro i rfl
    by_contra hout
    have hor : ((Float.Model.ofInt i.toInt).lt min || max.lt (Float.Model.ofInt i.toInt)) =
        true := by
      by_contra hnot
      rw [Bool.not_eq_true, Bool.or_eq_false_iff] at hnot
      exact hout hnot
    simp only [hor, if_true] at hrange
    cases hrange
  · rintro x rfl
    by_contra hout
    have hor : (x.lt min || max.lt x) = true := by
      by_contra hnot
      rw [Bool.not_eq_true, Bool.or_eq_false_iff] at hnot
      exact hout hnot
    simp only [hor, if_true] at hrange
    cases hrange

/-- A value in the bounds that were checked is in the contract as far as it fits. -/
theorem fitting_iff (hrange : DeviceService.checkRange text p value = .ok ()) :
    p.Fitting value ↔
      value.IsNumber ∧ (∀ min, p.min = some min → value.AtLeast min) ∧
        (∀ max, p.max = some max → value.AtMost max) ∧
        (p.allowedValues ≠ [] → value ∈ p.allowedValues) := by
  constructor
  · intro h
    have hboth : ∀ min max, p.min = some min → p.max = some max →
        value.AtLeast min ∧ value.AtMost max := by
      intro min max hmin hmax
      obtain ⟨hinteger, hfloat⟩ := inside_of_checkRange hmin hmax hrange
      have hinside := h.both min max hmin hmax
      cases value with
      | integer i => exact hinside (hinteger i rfl).1 (hinteger i rfl).2
      | float x =>
        obtain ⟨hlow, hhigh⟩ := hfloat x rfl
        exact ⟨Binary64.le_of_not_lt h.isNumber hinside.1 hlow,
          Binary64.le_of_not_lt hinside.2 h.isNumber hhigh⟩
      | _ => exact ⟨trivial, trivial⟩
    refine ⟨h.isNumber, ?_, ?_, h.allowed⟩
    · intro min hmin
      cases hmax : p.max with
      | none => exact h.min hmax min hmin
      | some max => exact (hboth min max hmin hmax).1
    · intro max hmax
      cases hmin : p.min with
      | none => exact h.max hmin max hmax
      | some min => exact (hboth min max hmin hmax).2
  · rintro ⟨hnumber, hmin, hmax, hallowed⟩
    refine ⟨hnumber, fun _ => hmin, fun _ => hmax, ?_, hallowed⟩
    intro min max hmin' hmax'
    have hlow := hmin min hmin'
    have hhigh := hmax max hmax'
    cases value with
    | integer i => exact fun _ _ => ⟨hlow, hhigh⟩
    | float x => exact ⟨(Binary64.isNaN_of_le hlow).1, (Binary64.isNaN_of_le hhigh).2⟩
    | _ => trivial

/-- A value in the contract, in terms of what fits. -/
theorem inContract_iff_fitting (hrange : DeviceService.checkRange text p value = .ok ())
    (given : Option (Value Binary64)) :
    p.InContract given value ↔
      (value = .null ∨ value.HasType p.dataType) ∧
        (∀ n, given = some (.number n) → value.Equals n) ∧ p.Fitting value := by
  rw [fitting_iff hrange]
  constructor
  · intro h
    exact ⟨h.type, h.exact, h.isNumber, h.min, h.max, h.allowed⟩
  · rintro ⟨htype, hexact, hnumber, hmin, hmax, hallowed⟩
    exact ⟨htype, hnumber, hmin, hmax, hallowed, hexact⟩

/-- A text that is passed on is in the contract exactly if it fits as text. -/
theorem fitsAsText_iff {json : Value Binary64}
    (hvalue : value = .string (text.toText json)) :
    ((value = .null ∨ value.HasType p.dataType) ∧ p.Fitting value) ↔ p.FitsAsText text json := by
  subst hvalue
  unfold FitsAsText
  cases p.dataType with
  | string | enum options => simp [MetricValue.HasType]
  | array elementType => cases elementType <;> simp [MetricValue.HasType]
  | _ => simp [MetricValue.HasType]

theorem validatedValue_eq_ok {params : HashMap String (Value Binary64)}
    (h : DeviceService.validatedValue text params p = .ok value) :
    DeviceService.paramValue text params p = .ok value ∧
      DeviceService.checkRange text p value = .ok () := by
  unfold DeviceService.validatedValue at h
  cases hvalue : DeviceService.paramValue text params p with
  | error e =>
    rw [hvalue] at h
    cases h
  | ok v =>
    rw [hvalue] at h
    cases hrange : DeviceService.checkRange text p v with
    | error e =>
      have herror : (DeviceService.checkRange text p v).map (fun _ => v) = .ok value := h
      rw [hrange] at herror
      cases herror
    | ok u =>
      have hok : (DeviceService.checkRange text p v).map (fun _ => v) = .ok value := h
      rw [hrange] at hok
      obtain rfl : v = value := Except.ok.inj hok
      exact ⟨rfl, hrange⟩

/-- An integer that was converted is in the contract exactly if nothing was lost. -/
theorem integer_iff {n : Number Binary64} (htype : p.dataType = .integer) {i : Int64}
    (hi : DeviceService.jsonToMetricValue text (.number n) p.dataType = .ok (.integer i)) :
    ((MetricValue.integer i : MetricValue Binary64).Equals n ∧ p.Fitting (.integer i)) ↔
      p.FitsNumber text n := by
  have hfits : p.FitsNumber text n ↔ ∃ k : ℤ, n.value = some (k : ℚ) ∧
      (-2 ^ 63 ≤ k ∧ k < 2 ^ 63) ∧ p.Fitting (.integer (.ofInt k)) := by
    unfold FitsNumber
    rw [htype]
  have hkept : ∀ k : ℤ, n.value = some (k : ℚ) → -2 ^ 63 ≤ k → k < 2 ^ 63 → i = .ofInt k := by
    intro k hk hmin hmax
    rw [htype] at hi
    have hround : (Int64.ofInt k).toInt = k := Int64.toInt_ofInt_of_le hmin hmax
    apply Int64.toInt.inj
    rw [hround]
    cases n with
    | int m =>
      obtain rfl : m = k := by exact_mod_cast some.inj hk
      have hsome : Number.asI64 (.int m) = some (.ofInt m) := if_pos ⟨hmin, hmax⟩
      rw [DeviceService.jsonToMetricValue, hsome] at hi
      have heq : Int64.ofInt m = i := (MetricValue.integer.inj (Except.ok.inj hi))
      rw [← heq, hround]
    | float x =>
      rw [DeviceService.jsonToMetricValue] at hi
      have heq : x.toInt64 = i := (MetricValue.integer.inj (Except.ok.inj hi))
      rw [← heq]
      exact Binary64.toInt_toInt64 hk hmin hmax
  rw [hfits]
  constructor
  · rintro ⟨hequal, hfitting⟩
    have hrange := i.le_toInt
    have hlt := i.toInt_lt
    refine ⟨i.toInt, hequal, ⟨hrange, hlt⟩, ?_⟩
    rw [← hkept i.toInt hequal hrange hlt]
    exact hfitting
  · rintro ⟨k, hk, ⟨hmin, hmax⟩, hfitting⟩
    have hi := hkept k hk hmin hmax
    rw [← hi] at hfitting
    refine ⟨?_, hfitting⟩
    show n.value = some (i.toInt : ℚ)
    have hround : (Int64.ofInt k).toInt = k := Int64.toInt_ofInt_of_le hmin hmax
    rw [hi, hround]
    exact hk

/-- A number is passed on as text where none is declared. -/
theorem number_as_text (text : CommandText) (n : Number Binary64) (hinteger : p.dataType ≠ .integer)
    (hfloat : p.dataType ≠ .float) :
    DeviceService.jsonToMetricValue text (.number n) p.dataType =
        .ok (.string (text.toText (.number n))) ∧
      (p.FitsNumber text n ↔ p.FitsAsText text (.number n)) := by
  unfold FitsNumber
  cases htype : p.dataType with
  | integer => exact absurd htype hinteger
  | float => exact absurd htype hfloat
  | _ => exact ⟨rfl, Iff.rfl⟩

/-- A number that was given is in the contract exactly if it fits. -/
theorem fitsNumber_iff {n : Number Binary64}
    (hvalue : DeviceService.jsonToMetricValue text (.number n) p.dataType = .ok value) :
    ((value = .null ∨ value.HasType p.dataType) ∧ value.Equals n ∧ p.Fitting value) ↔
      p.FitsNumber text n := by
  by_cases hinteger : p.dataType = .integer
  · obtain ⟨i, rfl⟩ : ∃ i, value = .integer i := by
      rw [hinteger] at hvalue
      cases hn : n.asI64 with
      | some i =>
        rw [DeviceService.jsonToMetricValue, hn] at hvalue
        exact ⟨i, (Except.ok.inj hvalue).symm⟩
      | none =>
        rw [DeviceService.jsonToMetricValue, hn] at hvalue
        exact ⟨_, (Except.ok.inj hvalue).symm⟩
    rw [← integer_iff hinteger hvalue]
    refine and_iff_right (Or.inr ?_)
    rw [hinteger]
    trivial
  · by_cases hfloat : p.dataType = .float
    · have hfits : p.FitsNumber text n ↔
          n.value = Binary64.value n.asF64 ∧ p.Fitting (.float n.asF64) := by
        unfold FitsNumber
        rw [hfloat]
      rw [hfloat] at hvalue
      obtain rfl : MetricValue.float n.asF64 = value := Except.ok.inj hvalue
      rw [hfits, hfloat]
      exact and_iff_right (Or.inr trivial)
    · obtain ⟨hstring, hfits⟩ := number_as_text text n hinteger hfloat
      obtain rfl : MetricValue.string (text.toText (.number n)) = value :=
        Except.ok.inj (hstring.symm.trans hvalue)
      rw [hfits, ← fitsAsText_iff rfl]
      exact and_congr_right fun _ => and_iff_right trivial

/-- A text that was given is in the contract exactly if it fits. -/
theorem fitsString_iff {s : String}
    (hvalue : DeviceService.jsonToMetricValue text (.string s) p.dataType = .ok value) :
    ((value = .null ∨ value.HasType p.dataType) ∧ p.Fitting value) ↔ p.FitsString text s := by
  have htext (hstring : DeviceService.jsonToMetricValue text (.string s) p.dataType =
      .ok (.string (text.toText (.string s)))) :
      ((value = .null ∨ value.HasType p.dataType) ∧ p.Fitting value) ↔
        p.FitsAsText text (.string s) :=
    fitsAsText_iff (Except.ok.inj (hvalue.symm.trans hstring))
  unfold FitsString
  cases htype : p.dataType with
  | string =>
    rw [htype] at hvalue
    obtain rfl : MetricValue.string s = value := Except.ok.inj hvalue
    exact and_iff_right (Or.inr trivial)
  | integer =>
    rw [htype] at hvalue
    cases hparse : text.parseI64 s with
    | none =>
      rw [DeviceService.jsonToMetricValue, hparse] at hvalue
      cases hvalue
    | some i =>
      rw [DeviceService.jsonToMetricValue, hparse] at hvalue
      obtain rfl : MetricValue.integer i = value := Except.ok.inj hvalue
      constructor
      · rintro ⟨-, hfitting⟩ j hj
        rw [← some.inj hj]
        exact hfitting
      · intro h
        exact ⟨Or.inr trivial, h i rfl⟩
  | float =>
    rw [htype] at hvalue
    cases hparse : text.parseF64 s with
    | none =>
      rw [DeviceService.jsonToMetricValue, hparse] at hvalue
      cases hvalue
    | some x =>
      rw [DeviceService.jsonToMetricValue, hparse] at hvalue
      obtain rfl : MetricValue.float x = value := Except.ok.inj hvalue
      constructor
      · rintro ⟨-, hfitting⟩ y hy
        rw [← some.inj hy]
        exact hfitting
      · intro h
        exact ⟨Or.inr trivial, h x rfl⟩
  | boolean =>
    rw [htype] at hvalue
    cases hparse : DeviceService.parseBool text s with
    | none =>
      rw [DeviceService.jsonToMetricValue, hparse] at hvalue
      cases hvalue
    | some b =>
      rw [DeviceService.jsonToMetricValue, hparse] at hvalue
      obtain rfl : MetricValue.boolean b = value := Except.ok.inj hvalue
      constructor
      · rintro ⟨-, hfitting⟩ c hc
        rw [← some.inj hc]
        exact hfitting
      · intro h
        exact ⟨Or.inr trivial, h b rfl⟩
  | _ =>
    rw [htype] at htext
    exact htext rfl

/-- A value that was taken is in the contract exactly if what was given fits. -/
theorem inContract_iff_fits {params : HashMap String (Value Binary64)}
    (h : DeviceService.validatedValue text params p = .ok value) :
    p.InContract (params.lookup p.name) value ↔ p.Fits text (params.lookup p.name) := by
  obtain ⟨hvalue, hrange⟩ := validatedValue_eq_ok h
  rw [inContract_iff_fitting hrange]
  unfold DeviceService.paramValue at hvalue
  cases hgiven : params.lookup p.name with
  | none =>
    rw [hgiven] at hvalue
    cases hdefault : p.defaultValue with
    | none =>
      rw [hdefault] at hvalue
      cases hvalue
    | some d =>
      rw [hdefault] at hvalue
      obtain rfl : d = value := Except.ok.inj hvalue
      constructor
      · rintro ⟨htype, -, hfitting⟩ d' hd'
        rw [hdefault] at hd'
        rw [← some.inj hd']
        exact ⟨htype, hfitting⟩
      · intro hfits
        obtain ⟨htype, hfitting⟩ := hfits d hdefault
        exact ⟨htype, (fun n hn => nomatch hn), hfitting⟩
  | some json =>
    rw [hgiven] at hvalue
    have hother (hnumber : ∀ n, json ≠ .number n) :
        ((value = .null ∨ value.HasType p.dataType) ∧
          (∀ n, some json = some (Doc.number n) → value.Equals n) ∧ p.Fitting value) ↔
        (value = .null ∨ value.HasType p.dataType) ∧ p.Fitting value :=
      and_congr_right fun _ => and_iff_right fun n hn => absurd (some.inj hn) (hnumber n)
    cases json with
    | null =>
      rw [hother (fun n hn => nomatch hn)]
      have hnull : DeviceService.jsonToMetricValue text .null p.dataType = .ok .null := by
        cases p.dataType with
        | _ => rfl
      obtain rfl : MetricValue.null = value := Except.ok.inj (hnull.symm.trans hvalue)
      exact and_iff_right (Or.inl rfl)
    | bool b =>
      rw [hother (fun n hn => nomatch hn)]
      by_cases htype : p.dataType = .boolean
      · have hfits : p.Fits text (some (.bool b)) ↔ p.Fitting (.boolean b) := by
          unfold Fits
          rw [htype]
        rw [htype] at hvalue
        obtain rfl : MetricValue.boolean b = value := Except.ok.inj hvalue
        rw [hfits, htype]
        exact and_iff_right (Or.inr trivial)
      · have hstring : DeviceService.jsonToMetricValue text (.bool b) p.dataType =
              .ok (.string (text.toText (.bool b))) ∧
            (p.Fits text (some (.bool b)) ↔ p.FitsAsText text (.bool b)) := by
          unfold Fits
          cases hbool : p.dataType with
          | boolean => exact absurd hbool htype
          | _ => exact ⟨rfl, Iff.rfl⟩
        rw [hstring.2]
        exact fitsAsText_iff (Except.ok.inj (hvalue.symm.trans hstring.1))
    | number n =>
      have hn : (∀ m, some (Doc.number n) = some (Doc.number m) → value.Equals m) ↔
          value.Equals n := by
        constructor
        · intro h
          exact h n rfl
        · rintro h m hm
          rw [← Doc.number.inj (some.inj hm)]
          exact h
      rw [hn]
      exact fitsNumber_iff hvalue
    | string s =>
      rw [hother (fun n hn => nomatch hn)]
      exact fitsString_iff hvalue
    | array items =>
      rw [hother (fun n hn => nomatch hn)]
      have hstring : DeviceService.jsonToMetricValue text (.array items) p.dataType =
          .ok (.string (text.toText (.array items))) := by
        cases p.dataType with
        | _ => rfl
      exact fitsAsText_iff (Except.ok.inj (hvalue.symm.trans hstring))
    | object fields =>
      rw [hother (fun n hn => nomatch hn)]
      have hstring : DeviceService.jsonToMetricValue text (.object fields) p.dataType =
          .ok (.string (text.toText (.object fields))) := by
        cases p.dataType with
        | _ => rfl
      exact fitsAsText_iff (Except.ok.inj (hvalue.symm.trans hstring))

end ParameterDefinition

/-! ## The whole command -/

namespace CommandDefinition

variable {text : CommandText} {params : HashMap String (Value Binary64)}

/-- The definition among some that counts for a name: the last one. -/
def lastNamed (ps : List (ParameterDefinition Binary64)) (name : String) :
    Option (ParameterDefinition Binary64) :=
  ps.reverse.find? fun p => p.name = name

theorem lastNamed_cons (p : ParameterDefinition Binary64)
    (ps : List (ParameterDefinition Binary64)) (name : String) :
    lastNamed (p :: ps) name = (lastNamed ps name).or (if p.name = name then some p else none) := by
  unfold lastNamed
  rw [reverse_cons, find?_append, find?_singleton]
  simp only [decide_eq_true_eq]

/-- One parameter of the check. -/
def validate (text : CommandText) (params : HashMap String (Value Binary64))
    (validated : HashMap String (MetricValue Binary64)) (p : ParameterDefinition Binary64) :
    Except DeviceError (HashMap String (MetricValue Binary64)) :=
  (DeviceService.validatedValue text params p).map fun value => validated.insert p.name value

variable {p : ParameterDefinition Binary64}

theorem validate_of_ok {validated : HashMap String (MetricValue Binary64)}
    {value : MetricValue Binary64} (h : DeviceService.validatedValue text params p = .ok value) :
    validate text params validated p = .ok (validated.insert p.name value) := by
  rw [validate, h]
  rfl

/-- The check goes through if every parameter is taken. -/
theorem exists_foldlM {ps : List (ParameterDefinition Binary64)}
    (h : ∀ p ∈ ps, p.IsTaken text params) (validated : HashMap String (MetricValue Binary64)) :
    ∃ validated', ps.foldlM (validate text params) validated = .ok validated' := by
  induction ps generalizing validated with
  | nil => exact ⟨validated, rfl⟩
  | cons p ps ih =>
    obtain ⟨value, hvalue⟩ := h p mem_cons_self
    rw [foldlM_cons, validate_of_ok hvalue]
    exact ih (fun q hq => h q (mem_cons_of_mem _ hq)) _

/-- If the check goes through, every parameter is taken, and the value of a name is that of its
definition. -/
theorem of_foldlM {ps : List (ParameterDefinition Binary64)}
    {validated validated' : HashMap String (MetricValue Binary64)}
    (h : ps.foldlM (validate text params) validated = .ok validated') :
    (∀ p ∈ ps, p.IsTaken text params) ∧
      ∀ name, (∀ p, lastNamed ps name = some p → ∃ value, validated'.lookup name = some value ∧
        DeviceService.validatedValue text params p = .ok value) ∧
        (lastNamed ps name = none → validated'.lookup name = validated.lookup name) := by
  induction ps generalizing validated with
  | nil =>
    obtain rfl : validated = validated' := Except.ok.inj h
    exact ⟨(fun p hp => nomatch hp), fun name => ⟨(fun p hp => nomatch hp), fun _ => rfl⟩⟩
  | cons p ps ih =>
    rw [foldlM_cons] at h
    cases hvalue : DeviceService.validatedValue text params p with
    | error e =>
      have herror : validate text params validated p = .error e := by
        rw [validate, hvalue]
        rfl
      rw [herror] at h
      cases h
    | ok value =>
      rw [validate_of_ok hvalue] at h
      obtain ⟨htaken, hlookup⟩ := ih h
      refine ⟨?_, ?_⟩
      · intro q hq
        rcases mem_cons.mp hq with rfl | hq
        · exact ⟨value, hvalue⟩
        · exact htaken q hq
      · intro name
        rw [lastNamed_cons]
        cases hlast : lastNamed ps name with
        | some q =>
          refine ⟨?_, fun hnone => nomatch hnone⟩
          intro q' hq'
          obtain rfl : q = q' := some.inj hq'
          exact (hlookup name).1 q hlast
        | none =>
          have hkept := (hlookup name).2 hlast
          rw [none_or]
          by_cases hname : p.name = name
          · rw [if_pos hname]
            refine ⟨?_, fun hnone => nomatch hnone⟩
            intro q hq
            obtain rfl : p = q := some.inj hq
            refine ⟨value, ?_, hvalue⟩
            rw [hkept, ← hname]
            exact AList.lookup_insert _
          · rw [if_neg hname]
            refine ⟨(fun q hq => nomatch hq), fun _ => ?_⟩
            rw [hkept]
            exact AList.lookup_insert_ne (Ne.symm hname)

variable (text : CommandText) (c : CommandDefinition Binary64)
  (params : HashMap String (Value Binary64))

/-- What the check promises: the values it lets through are in their contract, and a parameter that
is declared optional may be left out. -/
structure KeepsContract : Prop where
  sound : ∀ validated, DeviceService.validateCommandParams text c params = .ok validated →
    ∀ name value, validated.lookup name = some value →
      ∃ p, c.declared name = some p ∧ p.InContract (params.lookup name) value
  optional : (∀ p ∈ c.parameters, p.IsTaken text params ∨ p.IsLeftOut params) →
    ∃ validated, DeviceService.validateCommandParams text c params = .ok validated

/-- What is given fits where the check does not look, and no optional parameter is left out. -/
structure IsFitting : Prop where
  fits : (∀ p ∈ c.parameters, p.IsTaken text params) →
    ∀ name p, c.declared name = some p → p.Fits text (params.lookup name)
  optional : (∀ p ∈ c.parameters, p.IsTaken text params ∨ p.IsLeftOut params) →
    ∀ p ∈ c.parameters, ¬p.IsLeftOut params

theorem name_of_declared {c : CommandDefinition Binary64} {name : String}
    (h : c.declared name = some p) : p.name = name := by
  simpa using find?_some h

theorem not_isTaken_of_isLeftOut (h : p.IsLeftOut params) : ¬p.IsTaken text params := by
  rintro ⟨value, hvalue⟩
  have hparam := (ParameterDefinition.validatedValue_eq_ok hvalue).1
  rw [DeviceService.paramValue, h.2.2, h.2.1] at hparam
  cases hparam

/-- The check keeps the contract exactly if what is given fits. -/
theorem keepsContract_iff : c.KeepsContract text params ↔ c.IsFitting text params := by
  have hfold : DeviceService.validateCommandParams text c params =
      c.parameters.foldlM (validate text params) ∅ := rfl
  constructor
  · intro h
    refine ⟨?_, ?_⟩
    · intro htaken name p hp
      obtain ⟨validated, hok⟩ := exists_foldlM htaken ∅
      obtain ⟨value, hlookup, hvalue⟩ := ((of_foldlM hok).2 name).1 p hp
      obtain ⟨q, hq, hcontract⟩ := h.sound validated (hfold.trans hok) name value hlookup
      obtain rfl : p = q := some.inj (hp.symm.trans hq)
      have hname := name_of_declared hp
      subst hname
      exact (ParameterDefinition.inContract_iff_fits hvalue).mp hcontract
    · intro hall p hp hleft
      obtain ⟨validated, hok⟩ := h.optional hall
      exact not_isTaken_of_isLeftOut text params hleft ((of_foldlM (hfold.symm.trans hok)).1 p hp)
  · intro h
    refine ⟨?_, ?_⟩
    · intro validated hok name value hlookup
      obtain ⟨htaken, hvalues⟩ := of_foldlM (hfold.symm.trans hok)
      cases hp : c.declared name with
      | none =>
        rw [(hvalues name).2 hp] at hlookup
        cases hlookup
      | some p =>
        obtain ⟨value', hlookup', hvalue⟩ := (hvalues name).1 p hp
        obtain rfl : value' = value := some.inj (hlookup'.symm.trans hlookup)
        have hname := name_of_declared hp
        subst hname
        exact ⟨p, rfl, (ParameterDefinition.inContract_iff_fits hvalue).mpr
          (h.fits htaken p.name p hp)⟩
    · intro hall
      refine exists_foldlM ?_ ∅
      intro p hp
      rcases hall p hp with htaken | hleft
      · exact htaken
      · exact absurd hleft (h.optional hall p hp)

namespace Sample

/-- No text stands for a number. -/
def noNumbers : CommandText where
  parseI64 _ := none
  parseF64 _ := none
  toLowercase s := s
  toText _ := ""
  showF64 _ := ""

/-- A level that is at least zero. -/
def level : ParameterDefinition Binary64 :=
  ⟨"level", "Level", .integer, none, some (Float.Model.ofInt 0), none, "", [], true, none, none,
    "", []⟩

/-- A command with a level. -/
def setLevel : CommandDefinition Binary64 :=
  ⟨"set_level", "Set level", "", "", [level], [], [], []⟩

end Sample

/-- A level below its only bound is passed on. -/
theorem level_below_bound :
    ¬Sample.setLevel.KeepsContract Sample.noNumbers
      ((∅ : HashMap String (Value Binary64)).insert "level" (.number (.int (-5)))) := by
  intro h
  have hok : DeviceService.validateCommandParams Sample.noNumbers Sample.setLevel
      ((∅ : HashMap String (Value Binary64)).insert "level" (.number (.int (-5)))) =
        .ok ((∅ : HashMap String (MetricValue Binary64)).insert "level" (.integer (-5))) := rfl
  obtain ⟨p, hp, hcontract⟩ := h.sound _ hok "level" (.integer (-5)) rfl
  obtain rfl : Sample.level = p := some.inj hp
  rcases hcontract.min (Float.Model.ofInt 0) rfl with hinf | ⟨q, hq, hle⟩
  · cases hinf
  · have hzero : Binary64.value (Float.Model.ofInt 0) = some 0 := rfl
    obtain rfl : (0 : ℚ) = q := some.inj (hzero.symm.trans hq)
    have hneg : (-5 : Int64).toInt = -5 := rfl
    rw [hneg] at hle
    exact absurd hle (by decide)

end CommandDefinition

end HeraMind.Devices
