/-
# Device types after a restart

What `load_from_storage` reads of the row of a template
(`crates/heramind-devices/src/registry.rs`).

The store has no array types, and no arrays or binary data among the defaults and allowed values;
JSON has no infinite numbers and no NaN.  A template without these is read as it was registered.
-/
import HeraMind.Devices.Registry

namespace HeraMind.Devices

open Serde

variable {F : Type}

/-! ## Numbers and values -/

theorem back_integer {I : Type} {lo hi : ℤ} {toInt : I → ℤ} {ofInt : ℤ → I} (sj : SerdeJson F)
    {n : I} (hlo : lo ≤ toInt n) (hhi : toInt n ≤ hi) (hof : ofInt (toInt n) = n) :
    (integer lo hi toInt ofInt : Codec (Number F) I).back sj.readNumber n = some n := by
  show (integer lo hi toInt ofInt).read ((Doc.number (.int (toInt n))).reread _) = _
  rw [reread_number]
  show (if lo ≤ toInt n ∧ toInt n ≤ hi then some (ofInt (toInt n)) else none) = _
  rw [if_pos ⟨hlo, hhi⟩, hof]

@[simp] theorem back_i64 (sj : SerdeJson F) (n : Int64) :
    i64.back sj.readNumber n = some n := by
  have hlo := Int64.le_toInt n
  have hhi := Int64.toInt_lt n
  exact back_integer sj (by omega) (by omega) (Int64.ofInt_toInt n)

@[simp] theorem back_i32 (sj : SerdeJson F) (n : Int32) :
    i32.back sj.readNumber n = some n := by
  have hlo := Int32.le_toInt n
  have hhi := Int32.toInt_lt n
  exact back_integer sj (by omega) (by omega) (Int32.ofInt_toInt n)

@[simp] theorem back_u64 (sj : SerdeJson F) (n : UInt64) :
    u64.back sj.readNumber n = some n := by
  have hhi := UInt64.toNat_lt n
  refine back_integer sj (by omega) (by omega) ?_
  show UInt64.ofNat n.toNat = n
  exact UInt64.ofNat_toNat

theorem isNull_f64 (sj : SerdeJson F) (x : F) :
    ((f64 sj).write x).isNull = !sj.isFinite x := by
  show (if sj.isFinite x then Doc.number (Number.float x) else Doc.null).isNull = _
  cases sj.isFinite x with
  | true | false => rfl

/-- The number read where one was written, if there is one. -/
def SerdeJson.readFloat (sj : SerdeJson F) (x : F) : Option F :=
  if sj.isFinite x then some (sj.readBack x) else none

@[simp] theorem back_f64 (sj : SerdeJson F) (x : F) :
    (f64 sj).back sj.readNumber x = sj.readFloat x := by
  show (f64 sj).read ((if sj.isFinite x then Doc.number (.float x) else Doc.null).reread _) = _
  unfold SerdeJson.readFloat
  cases sj.isFinite x with
  | true => rw [if_pos rfl, if_pos rfl, reread_number]; rfl
  | false => rw [if_neg (by decide), if_neg (by decide), reread_null]; rfl

/-- A bound JSON has no number for is lost. -/
@[simp] theorem back_bound (sj : SerdeJson F) (bound : Option F) :
    (f64 sj).option.back sj.readNumber bound = some (bound.bind sj.readFloat) := by
  cases bound with
  | none => exact Codec.back_option_none ..
  | some x =>
    cases hx : sj.isFinite x with
    | true =>
      rw [Codec.back_option_some _ _ (by rw [isNull_f64, hx]; rfl), back_f64]
      simp [SerdeJson.readFloat, hx]
    | false =>
      rw [Codec.back_option_null _ _ (by rw [isNull_f64, hx]; rfl)]
      simp [SerdeJson.readFloat, hx]

@[simp] theorem back_optional_string (f : Number F → Number F) (s : Option String) :
    Codec.string.option.back f s = some s := by
  cases s with
  | none => exact Codec.back_option_none ..
  | some s => rw [Codec.back_option_some _ _ rfl, Codec.back_string]; rfl

@[simp] theorem back_optional_bool (f : Number F → Number F) (b : Option Bool) :
    Codec.bool.option.back f b = some b := by
  cases b with
  | none => exact Codec.back_option_none ..
  | some b => rw [Codec.back_option_some _ _ rfl, Codec.back_bool]; rfl

@[simp] theorem back_optional_u64 (sj : SerdeJson F) (n : Option UInt64) :
    u64.option.back sj.readNumber n = some n := by
  cases n with
  | none => exact Codec.back_option_none ..
  | some n => rw [Codec.back_option_some _ _ rfl, back_u64]; rfl

@[simp] theorem back_strings (f : Number F → Number F) (ss : List String) :
    ss.mapM (Codec.string.back f) = some ss := by
  rw [mapM_eq_some_map fun s _ => Codec.back_string f s, List.map_id']

namespace Storage

@[simp] theorem MetricDataType.back (f : Number F → Number F) (dt : MetricDataType) :
    MetricDataType.codec.back f dt = some dt := by
  cases dt with
  | float | integer | boolean | string | binary => simp [Codec.back, codec, ofName]
  | enum names =>
    have hoptions : (options : Codec (Number F) (List String)).back f names = some names := by
      simp [options]
    show MetricDataType.codec.read ((Doc.object [("enum", options.write names)]).reread f) = _
    rw [reread_object]
    show (options.back f names).map MetricDataType.enum = _
    rw [hoptions]
    rfl

/-- The value read where one was written, if there is one. -/
def ParamMetricValue.readBack (sj : SerdeJson F) : ParamMetricValue F → Option (ParamMetricValue F)
  | .float x => (sj.readFloat x).map .float
  | v => some v

@[simp] theorem ParamMetricValue.back (sj : SerdeJson F) (v : ParamMetricValue F) :
    (ParamMetricValue.codec sj).back sj.readNumber v = v.readBack sj := by
  cases v with
  | integer n =>
    show (codec sj).read ((Doc.object [("integer", i64.write n)]).reread _) = _
    rw [reread_object]
    show (i64.back sj.readNumber n).map ParamMetricValue.integer = _
    rw [back_i64]
    rfl
  | float x =>
    show (codec sj).read ((Doc.object [("float", (f64 sj).write x)]).reread _) = _
    rw [reread_object]
    show ((f64 sj).back sj.readNumber x).map ParamMetricValue.float = _
    rw [back_f64]
    rfl
  | string s =>
    show (codec sj).read ((Doc.object [("string", Codec.string.write s)]).reread _) = _
    rw [reread_object]
    show (Codec.string.back sj.readNumber s).map ParamMetricValue.string = _
    rw [Codec.back_string]
    rfl
  | boolean b =>
    show (codec sj).read ((Doc.object [("boolean", Codec.bool.write b)]).reread _) = _
    rw [reread_object]
    show (Codec.bool.back sj.readNumber b).map ParamMetricValue.boolean = _
    rw [Codec.back_bool]
    rfl
  | null =>
    show (codec sj).read ((Doc.string "null").reread _) = _
    rw [reread_string]
    rfl

theorem isNull_paramMetricValue (sj : SerdeJson F) (v : ParamMetricValue F) :
    ((ParamMetricValue.codec sj).write v).isNull = false := by
  cases v with
  | integer n | float x | string s | boolean b | null => rfl

theorem deserializeDefaultValue_of_some {sj : SerdeJson F} {d : Value F} {v : ParamMetricValue F}
    (hnull : d.isNull = false) (h : (ParamMetricValue.codec sj).read d = some v) :
    deserializeDefaultValue sj d = some (some v) := by
  unfold deserializeDefaultValue
  rw [hnull, if_neg Bool.false_ne_true, h]

theorem deserializeDefaultValue_of_none {sj : SerdeJson F} {d : Value F}
    (hnull : d.isNull = false) (h : (ParamMetricValue.codec sj).read d = none) :
    deserializeDefaultValue sj d = some (ParamMetricValue.ofBare sj d) := by
  unfold deserializeDefaultValue
  rw [hnull, if_neg Bool.false_ne_true, h]

/-- A default value JSON has no number for is lost. -/
@[simp] theorem back_defaultValue (sj : SerdeJson F) (value : Option (ParamMetricValue F)) :
    (defaultValueCodec sj).back sj.readNumber value =
      some (value.bind (ParamMetricValue.readBack sj)) := by
  cases value with
  | none =>
    show deserializeDefaultValue sj ((Doc.null : Value F).reread sj.readNumber) = _
    rw [reread_null]
    rfl
  | some v =>
    have hnull : (((ParamMetricValue.codec sj).write v).reread sj.readNumber).isNull = false := by
      rw [isNull_reread, isNull_paramMetricValue]
    show deserializeDefaultValue sj (((ParamMetricValue.codec sj).write v).reread _) = _
    rw [Option.bind_some]
    cases hread : v.readBack sj with
    | some w => exact deserializeDefaultValue_of_some hnull ((ParamMetricValue.back sj v).trans hread)
    | none =>
      rw [deserializeDefaultValue_of_none hnull ((ParamMetricValue.back sj v).trans hread)]
      cases v with
      | float x =>
        show some (ParamMetricValue.ofBare sj
          ((Doc.object [("float", (f64 sj).write x)]).reread _)) = _
        rw [reread_object]
        rfl
      | integer n | string s | boolean b | null => cases hread

/-- The rule read where one was written, if there is one. -/
def ValidationRule.readBack (sj : SerdeJson F) : ValidationRule F → Option (ValidationRule F)
  | .range min max errorMessage =>
    (sj.readFloat min).bind fun min => (sj.readFloat max).map fun max =>
      .range min max errorMessage
  | .custom validator params => some (.custom validator (params.reread sj.readNumber))
  | rule => some rule

/-- The fields of a variant are read as its tag says. -/
theorem ValidationRule.read_tagged {ρ : Type} (sj : SerdeJson F)
    (fs : Fields (Number F) ρ (ValidationRule F)) (r : ρ) (tag : String) (h : "type" ∉ fs.keys)
    (hread : ∀ fields, readVariant sj fields tag = fs.read fields) :
    (ValidationRule.codec sj).read
        ((Doc.object (("type", .string tag) :: fs.write r)).reread sj.readNumber) =
      fs.back sj.readNumber r := by
  have htag : rereadField sj.readNumber ("type", .string tag) = ("type", .string tag) := by
    simp [rereadField]
  rw [reread_object, List.map_cons, htag]
  show (readField Codec.string none "type" _).bind _ = _
  unfold readField
  rw [fs.takeField_cons sj.readNumber r _ h]
  show readVariant sj _ tag = _
  rw [hread, fs.read_cons sj.readNumber r _ h]

@[simp] theorem ValidationRule.back (sj : SerdeJson F) (rule : ValidationRule F) :
    (ValidationRule.codec sj).back sj.readNumber rule = rule.readBack sj := by
  cases rule with
  | pattern regex errorMessage =>
    refine (read_tagged sj patternFields _ "pattern" (by simp [patternFields]) fun _ => rfl).trans ?_
    simp [patternFields, readBack]
  | range min max errorMessage =>
    refine (read_tagged sj (rangeFields sj) _ "range" (by simp [rangeFields]) fun _ => rfl).trans ?_
    cases hmin : sj.readFloat min with
    | none => simp [rangeFields, readBack, hmin]
    | some x =>
      cases hmax : sj.readFloat max with
      | none | some y => simp [rangeFields, readBack, hmin, hmax]
  | length min max errorMessage =>
    refine (read_tagged sj lengthFields _ "length" (by simp [lengthFields]) fun _ => rfl).trans ?_
    simp [lengthFields, readBack]
  | custom validator params =>
    refine (read_tagged sj customFields _ "custom" (by simp [customFields]) fun _ => rfl).trans ?_
    simp [customFields, readBack]

/-! ## Rows -/

/-- The metric read where one was written. -/
def MetricDefinition.readBack (sj : SerdeJson F) (m : MetricDefinition F) :
    MetricDefinition F :=
  { m with min := m.min.bind sj.readFloat, max := m.max.bind sj.readFloat }

/-- The parameter read where one was written, with the values and rules that were read. -/
def ParameterDefinition.readBack (sj : SerdeJson F) (p : ParameterDefinition F)
    (values : List (ParamMetricValue F)) (rules : List (ValidationRule F)) :
    ParameterDefinition F :=
  { p with
    defaultValue := p.defaultValue.bind (ParamMetricValue.readBack sj)
    min := p.min.bind sj.readFloat
    max := p.max.bind sj.readFloat
    allowedValues := values
    validation := rules }

/-- The command read where one was written, with the parameters that were read. -/
def CommandDefinition.readBack (sj : SerdeJson F) (c : CommandDefinition F)
    (params : List (ParameterDefinition F)) : CommandDefinition F :=
  { c with
    parameters := params
    fixedValues := c.fixedValues.map (rereadField sj.readNumber)
    samples := c.samples.map (Doc.reread sj.readNumber) }

/-- The template read where one was written, with the commands that were read. -/
def DeviceTypeTemplate.readBack (sj : SerdeJson F) (row : DeviceTypeTemplate F)
    (commands : List (CommandDefinition F)) : DeviceTypeTemplate F :=
  { row with
    metrics := row.metrics.map (MetricDefinition.readBack sj)
    uplinkSamples := row.uplinkSamples.map (Doc.reread sj.readNumber)
    commands := commands }

@[simp] theorem MetricDefinition.back (sj : SerdeJson F) (m : MetricDefinition F) :
    (MetricDefinition.codec sj).back sj.readNumber m = some (m.readBack sj) := by
  simp [codec, readBack]

@[simp] theorem ParameterGroup.back (sj : SerdeJson F) (pg : ParameterGroup) :
    ParameterGroup.codec.back sj.readNumber pg = some pg := by
  simp [codec]

theorem ParameterDefinition.back (sj : SerdeJson F) (p : ParameterDefinition F) :
    (ParameterDefinition.codec sj).back sj.readNumber p =
      (p.allowedValues.mapM (ParamMetricValue.readBack sj)).bind fun values =>
        (p.validation.mapM (ValidationRule.readBack sj)).map fun rules =>
          p.readBack sj values rules := by
  have hvalues : (ParamMetricValue.codec sj).back sj.readNumber = ParamMetricValue.readBack sj :=
    funext (ParamMetricValue.back sj)
  have hrules : (ValidationRule.codec sj).back sj.readNumber = ValidationRule.readBack sj :=
    funext (ValidationRule.back sj)
  cases h : p.allowedValues.mapM (ParamMetricValue.readBack sj) with
  | none => simp [codec, hvalues, h]
  | some values =>
    cases h' : p.validation.mapM (ValidationRule.readBack sj) with
    | none => simp [codec, hvalues, hrules, h, h']
    | some rules => simp [codec, readBack, hvalues, hrules, h, h']

theorem CommandDefinition.back (sj : SerdeJson F) (c : CommandDefinition F) :
    (CommandDefinition.codec sj).back sj.readNumber c =
      (c.parameters.mapM ((ParameterDefinition.codec sj).back sj.readNumber)).map
        (c.readBack sj) := by
  have hfixed : (c.fixedValues.mapM fun kv => some (kv.1, kv.2.reread sj.readNumber)) =
      some (c.fixedValues.map (rereadField sj.readNumber)) :=
    mapM_eq_some_map fun kv _ => rfl
  have hsamples : c.samples.mapM (Codec.value.back sj.readNumber) =
      some (c.samples.map (Doc.reread sj.readNumber)) :=
    mapM_eq_some_map fun d _ => rfl
  have hgroups : c.parameterGroups.mapM (ParameterGroup.codec.back sj.readNumber) =
      some c.parameterGroups := by
    rw [mapM_eq_some_map fun pg _ => ParameterGroup.back sj pg, List.map_id']
  cases h : c.parameters.mapM ((ParameterDefinition.codec sj).back sj.readNumber) with
  | none => simp [codec, h]
  | some params => simp [codec, readBack, h, hfixed, hsamples, hgroups]

@[simp] theorem DeviceTypeMode.back (f : Number F → Number F) (mode : DeviceTypeMode) :
    DeviceTypeMode.codec.back f mode = some mode := by
  cases mode with
  | simple | full => simp [Codec.back, codec]

theorem DeviceTypeTemplate.back (sj : SerdeJson F) (row : DeviceTypeTemplate F) :
    (DeviceTypeTemplate.codec sj).back sj.readNumber row =
      (row.commands.mapM ((CommandDefinition.codec sj).back sj.readNumber)).map
        (row.readBack sj) := by
  have hmetrics : row.metrics.mapM ((MetricDefinition.codec sj).back sj.readNumber) =
      some (row.metrics.map (MetricDefinition.readBack sj)) :=
    mapM_eq_some_map fun m _ => MetricDefinition.back sj m
  have hsamples : row.uplinkSamples.mapM (Codec.value.back sj.readNumber) =
      some (row.uplinkSamples.map (Doc.reread sj.readNumber)) :=
    mapM_eq_some_map fun d _ => rfl
  cases h : row.commands.mapM ((CommandDefinition.codec sj).back sj.readNumber) with
  | none => simp [codec, hmetrics, hsamples, h]
  | some commands => simp [codec, readBack, hmetrics, hsamples, h]

end Storage

/-! ## What is stored -/

/-- Whether the store has the type. -/
def MetricDataType.isStored : MetricDataType → Bool
  | .array _ => false
  | _ => true

/-- Whether the store has values of the kind. -/
def MetricValue.isStored : MetricValue F → Bool
  | .array _ | .binary _ => false
  | _ => true

/-- Whether the type of a metric is stored. -/
def MetricDefinition.IsStored (m : MetricDefinition F) : Prop :=
  m.dataType.isStored = true

/-- Whether the type of a parameter, its default and its allowed values are stored. -/
def ParameterDefinition.IsStored (p : ParameterDefinition F) : Prop :=
  p.dataType.isStored = true ∧ (∀ v ∈ p.defaultValue, v.isStored = true) ∧
    ∀ v ∈ p.allowedValues, v.isStored = true

/-- Whether the types and values of a template are stored. -/
def DeviceTypeTemplate.IsStored (template : DeviceTypeTemplate F) : Prop :=
  (∀ m ∈ template.metrics, m.IsStored) ∧ ∀ c ∈ template.commands, ∀ p ∈ c.parameters, p.IsStored

/-! ## What JSON carries -/

/-- Whether a number is read as it was written. -/
def SerdeJson.Carries (sj : SerdeJson F) (x : F) : Prop :=
  sj.readFloat x = some x

/-- Whether a value that is stored is read as it was written. -/
def MetricValue.IsCarried (sj : SerdeJson F) : MetricValue F → Prop
  | .float x => sj.Carries x
  | _ => True

/-- Whether the numbers of a rule are read as they were written. -/
def ValidationRule.IsCarried (sj : SerdeJson F) : ValidationRule F → Prop
  | .range min max _ => sj.Carries min ∧ sj.Carries max
  | .custom _ params => params.reread sj.readNumber = params
  | _ => True

/-- Whether the numbers of a metric are read as they were written. -/
def MetricDefinition.IsCarried (sj : SerdeJson F) (m : MetricDefinition F) : Prop :=
  (∀ x ∈ m.min, sj.Carries x) ∧ ∀ x ∈ m.max, sj.Carries x

/-- Whether the numbers of a parameter are read as they were written. -/
def ParameterDefinition.IsCarried (sj : SerdeJson F) (p : ParameterDefinition F) : Prop :=
  (∀ v ∈ p.defaultValue, v.IsCarried sj) ∧ (∀ x ∈ p.min, sj.Carries x) ∧
    (∀ x ∈ p.max, sj.Carries x) ∧ (∀ v ∈ p.allowedValues, v.IsCarried sj) ∧
    ∀ rule ∈ p.validation, rule.IsCarried sj

/-- Whether the numbers of a command are read as they were written. -/
def CommandDefinition.IsCarried (sj : SerdeJson F) (c : CommandDefinition F) : Prop :=
  (∀ p ∈ c.parameters, p.IsCarried sj) ∧
    (∀ kv ∈ c.fixedValues, kv.2.reread sj.readNumber = kv.2) ∧
    ∀ d ∈ c.samples, d.reread sj.readNumber = d

/-- Whether the numbers of a template are read as they were written. -/
def DeviceTypeTemplate.IsCarried (sj : SerdeJson F) (template : DeviceTypeTemplate F) : Prop :=
  (∀ m ∈ template.metrics, m.IsCarried sj) ∧
    (∀ d ∈ template.uplinkSamples, d.reread sj.readNumber = d) ∧
    ∀ c ∈ template.commands, c.IsCarried sj

/-! ## Fields after a restart -/

theorem bind_readFloat_eq {sj : SerdeJson F} {bound : Option F} :
    bound.bind sj.readFloat = bound ↔ ∀ x ∈ bound, sj.Carries x := by
  cases bound with
  | none => simp
  | some x => simp [SerdeJson.Carries]

theorem convertMetricDataType_toStorage_eq {dt : MetricDataType} :
    convertMetricDataType (convertMetricDataTypeToStorage dt) = dt ↔ dt.isStored = true := by
  cases dt <;> simp [convertMetricDataTypeToStorage, convertMetricDataType, MetricDataType.isStored]

/-- A value is recovered exactly if it is stored and carried. -/
theorem MetricValue.recovered_iff (sj : SerdeJson F) (v : MetricValue F) :
    (∃ w, convertMetricValueToStorage v = some w ∧
      ∃ w', w.readBack sj = some w' ∧ convertMetricValue w' = v) ↔
      v.isStored = true ∧ v.IsCarried sj := by
  cases v with
  | float x =>
    simp [convertMetricValueToStorage, Storage.ParamMetricValue.readBack, convertMetricValue,
      isStored, IsCarried, SerdeJson.Carries]
  | array items | binary data => simp [convertMetricValueToStorage, isStored]
  | integer n | string s | boolean b | null =>
    simp [convertMetricValueToStorage, Storage.ParamMetricValue.readBack, convertMetricValue,
      isStored, IsCarried]

/-- A rule is recovered exactly if its numbers are carried. -/
theorem ValidationRule.recovered_iff (sj : SerdeJson F) (rule : ValidationRule F) :
    (∃ rule', (convertValidationRuleToStorage rule).readBack sj = some rule' ∧
      convertValidationRuleFromStorage rule' = rule) ↔ rule.IsCarried sj := by
  cases rule with
  | pattern regex errorMessage | length min max errorMessage | custom validator params =>
    simp [convertValidationRuleToStorage, Storage.ValidationRule.readBack,
      convertValidationRuleFromStorage, IsCarried]
  | range min max errorMessage =>
    constructor
    · rintro ⟨rule', hread, hlocal⟩
      obtain ⟨x, hmin, hread⟩ := Option.bind_eq_some_iff.mp hread
      obtain ⟨y, hmax, rfl⟩ := Option.map_eq_some_iff.mp hread
      injection hlocal with hx hy
      exact ⟨hx ▸ hmin, hy ▸ hmax⟩
    · rintro ⟨hmin, hmax⟩
      refine ⟨.range min max errorMessage, ?_, rfl⟩
      show (sj.readFloat min).bind _ = _
      rw [hmin, Option.bind_some, hmax]
      rfl

/-- A default value is recovered exactly if it is stored and carried. -/
theorem defaultValue_recovered_iff (sj : SerdeJson F) (value : Option (MetricValue F)) :
    ((value.bind convertMetricValueToStorage).bind
        (Storage.ParamMetricValue.readBack sj)).map convertMetricValue = value ↔
      ∀ v ∈ value, v.isStored = true ∧ v.IsCarried sj := by
  cases value with
  | none => simp
  | some v =>
    have hiff := MetricValue.recovered_iff sj v
    constructor
    · intro h w hw
      rw [Option.mem_some_iff] at hw
      subst hw
      obtain ⟨w', hw', hlocal⟩ := Option.map_eq_some_iff.mp h
      obtain ⟨w, hstored, hback⟩ := Option.bind_eq_some_iff.mp hw'
      exact hiff.mp ⟨w, hstored, w', hback, hlocal⟩
    · intro h
      obtain ⟨w, hstored, w', hback, hlocal⟩ := hiff.mpr (h v rfl)
      rw [Option.bind_some, hstored, Option.bind_some, hback, Option.map_some, hlocal]

/-! ## Records after a restart -/

/-- A metric is recovered exactly if it is stored and carried. -/
theorem MetricDefinition.recovered_iff (sj : SerdeJson F) (m : MetricDefinition F) :
    (m.toStorage.readBack sj).toLocal = m ↔ m.IsStored ∧ m.IsCarried sj := by
  constructor
  · intro h
    have htype := congrArg dataType h
    have hmin := congrArg min h
    have hmax := congrArg max h
    exact ⟨convertMetricDataType_toStorage_eq.mp htype, bind_readFloat_eq.mp hmin,
      bind_readFloat_eq.mp hmax⟩
  · rintro ⟨htype, hmin, hmax⟩
    have htype' := convertMetricDataType_toStorage_eq.mpr htype
    have hmin' := bind_readFloat_eq.mpr hmin
    have hmax' := bind_readFloat_eq.mpr hmax
    cases m
    simp only [toStorage, Storage.MetricDefinition.readBack,
      Storage.MetricDefinition.toLocal] at htype' hmin' hmax' ⊢
    rw [htype', hmin', hmax']

/-- A parameter is recovered exactly if it is stored and carried. -/
theorem ParameterDefinition.recovered_iff (sj : SerdeJson F) (p : ParameterDefinition F) :
    (∃ row, (Storage.ParameterDefinition.codec sj).back sj.readNumber p.toStorage = some row ∧
      row.toLocal = p) ↔ p.IsStored ∧ p.IsCarried sj := by
  have hvalues := exists_mapM_filterMap_iff convertMetricValueToStorage
    (Storage.ParamMetricValue.readBack sj) convertMetricValue p.allowedValues
  have hrules := exists_mapM_map_iff convertValidationRuleToStorage
    (Storage.ValidationRule.readBack sj) convertValidationRuleFromStorage p.validation
  rw [Storage.ParameterDefinition.back]
  constructor
  · rintro ⟨row, hback, hlocal⟩
    obtain ⟨values, hread, hback⟩ := Option.bind_eq_some_iff.mp hback
    obtain ⟨rules, hread', rfl⟩ := Option.map_eq_some_iff.mp hback
    have htype := convertMetricDataType_toStorage_eq.mp (congrArg dataType hlocal)
    have hdefault := (defaultValue_recovered_iff sj _).mp (congrArg defaultValue hlocal)
    have hmin := bind_readFloat_eq.mp (congrArg min hlocal)
    have hmax := bind_readFloat_eq.mp (congrArg max hlocal)
    have hallowed := hvalues.mp ⟨values, hread, congrArg allowedValues hlocal⟩
    have hvalid := hrules.mp ⟨rules, hread', congrArg validation hlocal⟩
    refine ⟨⟨htype, fun v hv => (hdefault v hv).1, ?_⟩, fun v hv => (hdefault v hv).2, hmin, hmax,
      ?_, ?_⟩
    · intro v hv
      exact ((MetricValue.recovered_iff sj v).mp (hallowed v hv)).1
    · intro v hv
      exact ((MetricValue.recovered_iff sj v).mp (hallowed v hv)).2
    · intro rule hrule
      exact (ValidationRule.recovered_iff sj rule).mp (hvalid rule hrule)
  · rintro ⟨⟨htype, hdefault, hallowed⟩, hdefault', hmin, hmax, hallowed', hvalid⟩
    obtain ⟨values, hread, hlocal⟩ := hvalues.mpr fun v hv =>
      (MetricValue.recovered_iff sj v).mpr ⟨hallowed v hv, hallowed' v hv⟩
    obtain ⟨rules, hread', hlocal'⟩ := hrules.mpr fun rule hrule =>
      (ValidationRule.recovered_iff sj rule).mpr (hvalid rule hrule)
    have htype' := convertMetricDataType_toStorage_eq.mpr htype
    have hdefault'' := (defaultValue_recovered_iff sj p.defaultValue).mpr fun v hv =>
      ⟨hdefault v hv, hdefault' v hv⟩
    have hmin' := bind_readFloat_eq.mpr hmin
    have hmax' := bind_readFloat_eq.mpr hmax
    refine ⟨p.toStorage.readBack sj values rules, ?_, ?_⟩
    · show Option.bind (List.mapM (Storage.ParamMetricValue.readBack sj)
        (p.allowedValues.filterMap convertMetricValueToStorage)) _ = some _
      rw [hread, Option.bind_some]
      show Option.map _ (List.mapM (Storage.ValidationRule.readBack sj)
        (p.validation.map convertValidationRuleToStorage)) = some _
      rw [hread', Option.map_some]
    · cases p
      simp only [toStorage, Storage.ParameterDefinition.readBack,
        Storage.ParameterDefinition.toLocal] at *
      rw [htype', hdefault'', hmin', hmax', hlocal, hlocal']

theorem map_reread_eq {f : Number F → Number F} {ds : List (Value F)} :
    ds.map (Doc.reread f) = ds ↔ ∀ d ∈ ds, d.reread f = d := by
  conv_lhs => rhs; rw [← List.map_id ds]
  exact List.map_inj_left

theorem map_rereadField_eq {f : Number F → Number F} {kvs : List (String × Value F)} :
    kvs.map (rereadField f) = kvs ↔ ∀ kv ∈ kvs, kv.2.reread f = kv.2 := by
  conv_lhs => rhs; rw [← List.map_id kvs]
  rw [List.map_inj_left]
  constructor
  · intro h kv hkv
    exact congrArg Prod.snd (h kv hkv)
  · intro h kv hkv
    exact Prod.ext rfl (h kv hkv)

/-- A command is recovered exactly if it is stored and carried. -/
theorem CommandDefinition.recovered_iff (sj : SerdeJson F) (c : CommandDefinition F) :
    (∃ row, (Storage.CommandDefinition.codec sj).back sj.readNumber c.toStorage = some row ∧
      row.toLocal = c) ↔ (∀ p ∈ c.parameters, p.IsStored) ∧ c.IsCarried sj := by
  have hparams := exists_mapM_map_iff ParameterDefinition.toStorage
    ((Storage.ParameterDefinition.codec sj).back sj.readNumber)
    Storage.ParameterDefinition.toLocal c.parameters
  have hgroups : (c.parameterGroups.map convertParameterGroupToStorage).map
      convertParameterGroupFromStorage = c.parameterGroups := by
    rw [List.map_map]
    exact List.map_id' _
  rw [Storage.CommandDefinition.back]
  constructor
  · rintro ⟨row, hback, hlocal⟩
    obtain ⟨params, hread, rfl⟩ := Option.map_eq_some_iff.mp hback
    have hall := hparams.mp ⟨params, hread, congrArg parameters hlocal⟩
    have hfixed := map_rereadField_eq.mp (congrArg fixedValues hlocal)
    have hsamples := map_reread_eq.mp (congrArg samples hlocal)
    refine ⟨?_, ?_, hfixed, hsamples⟩
    · intro p hp
      exact ((ParameterDefinition.recovered_iff sj p).mp (hall p hp)).1
    · intro p hp
      exact ((ParameterDefinition.recovered_iff sj p).mp (hall p hp)).2
  · rintro ⟨hstored, hcarried, hfixed, hsamples⟩
    obtain ⟨params, hread, hlocal⟩ := hparams.mpr fun p hp =>
      (ParameterDefinition.recovered_iff sj p).mpr ⟨hstored p hp, hcarried p hp⟩
    have hfixed' := map_rereadField_eq.mpr hfixed
    have hsamples' := map_reread_eq.mpr hsamples
    refine ⟨c.toStorage.readBack sj params, ?_, ?_⟩
    · show Option.map _ (List.mapM ((Storage.ParameterDefinition.codec sj).back sj.readNumber)
        (c.parameters.map ParameterDefinition.toStorage)) = some _
      rw [hread, Option.map_some]
    · cases c
      simp only [toStorage, Storage.CommandDefinition.readBack,
        Storage.CommandDefinition.toLocal] at *
      rw [hlocal, hfixed', hsamples', hgroups]

/-- A template is recovered exactly if it is stored and carried. -/
theorem DeviceTypeTemplate.recovered_iff (sj : SerdeJson F) (template : DeviceTypeTemplate F) :
    (∃ row, (Storage.DeviceTypeTemplate.codec sj).back sj.readNumber template.toStorage = some row ∧
      row.toLocal = template) ↔ template.IsStored ∧ template.IsCarried sj := by
  have hcommands := exists_mapM_map_iff CommandDefinition.toStorage
    ((Storage.CommandDefinition.codec sj).back sj.readNumber)
    Storage.CommandDefinition.toLocal template.commands
  have hmetrics : ((template.metrics.map MetricDefinition.toStorage).map
      (Storage.MetricDefinition.readBack sj)).map Storage.MetricDefinition.toLocal =
      template.metrics ↔ ∀ m ∈ template.metrics, m.IsStored ∧ m.IsCarried sj := by
    rw [List.map_map, List.map_map]
    conv_lhs => rhs; rw [← List.map_id template.metrics]
    rw [List.map_inj_left]
    exact forall₂_congr fun m _ => MetricDefinition.recovered_iff sj m
  have hmode : template.mode.toStorage.toLocal = template.mode := by
    cases template.mode with
    | simple | full => rfl
  rw [Storage.DeviceTypeTemplate.back]
  constructor
  · rintro ⟨row, hback, hlocal⟩
    obtain ⟨commands, hread, rfl⟩ := Option.map_eq_some_iff.mp hback
    have hall := hcommands.mp ⟨commands, hread, congrArg DeviceTypeTemplate.commands hlocal⟩
    have hall' := hmetrics.mp (congrArg metrics hlocal)
    have hsamples := map_reread_eq.mp (congrArg uplinkSamples hlocal)
    refine ⟨⟨fun m hm => (hall' m hm).1, ?_⟩, fun m hm => (hall' m hm).2, hsamples, ?_⟩
    · intro c hc
      exact ((CommandDefinition.recovered_iff sj c).mp (hall c hc)).1
    · intro c hc
      exact ((CommandDefinition.recovered_iff sj c).mp (hall c hc)).2
  · rintro ⟨⟨hstored, hstored'⟩, hcarried, hsamples, hcarried'⟩
    obtain ⟨commands, hread, hlocal⟩ := hcommands.mpr fun c hc =>
      (CommandDefinition.recovered_iff sj c).mpr ⟨hstored' c hc, hcarried' c hc⟩
    have hmetrics' := hmetrics.mpr fun m hm => ⟨hstored m hm, hcarried m hm⟩
    have hsamples' := map_reread_eq.mpr hsamples
    refine ⟨template.toStorage.readBack sj commands, ?_, ?_⟩
    · show Option.map _ (List.mapM ((Storage.CommandDefinition.codec sj).back sj.readNumber)
        (template.commands.map CommandDefinition.toStorage)) = some _
      rw [hread, Option.map_some]
    · cases template
      simp only [toStorage, Storage.DeviceTypeTemplate.readBack,
        Storage.DeviceTypeTemplate.toLocal] at *
      rw [hmode, hmetrics', hsamples', hlocal]

/-! ## What is stored of a template -/

/-- The type a type is stored as. -/
def MetricDataType.narrowed (dt : MetricDataType) : MetricDataType :=
  if dt.isStored then dt else .string

/-- What is stored of a metric. -/
def MetricDefinition.narrowed (m : MetricDefinition F) : MetricDefinition F :=
  { m with dataType := m.dataType.narrowed }

/-- What is stored of a parameter. -/
def ParameterDefinition.narrowed (p : ParameterDefinition F) : ParameterDefinition F :=
  { p with
    dataType := p.dataType.narrowed
    defaultValue := p.defaultValue.filter MetricValue.isStored
    allowedValues := p.allowedValues.filter MetricValue.isStored }

/-- What is stored of a command. -/
def CommandDefinition.narrowed (c : CommandDefinition F) : CommandDefinition F :=
  { c with parameters := c.parameters.map ParameterDefinition.narrowed }

/-- What is stored of a template. -/
def DeviceTypeTemplate.narrowed (template : DeviceTypeTemplate F) : DeviceTypeTemplate F :=
  { template with
    metrics := template.metrics.map MetricDefinition.narrowed
    commands := template.commands.map CommandDefinition.narrowed }

theorem MetricDataType.isStored_narrowed (dt : MetricDataType) : dt.narrowed.isStored = true := by
  unfold narrowed
  split
  · assumption
  · rfl

theorem convertMetricDataTypeToStorage_narrowed (dt : MetricDataType) :
    convertMetricDataTypeToStorage dt.narrowed = convertMetricDataTypeToStorage dt := by
  cases dt <;> rfl

theorem convertMetricValueToStorage_eq_none {v : MetricValue F} (h : v.isStored = false) :
    convertMetricValueToStorage v = none := by
  cases v with
  | array items | binary data => rfl
  | integer n | float x | string s | boolean b | null => cases h

/-- Only the values that are stored are converted. -/
theorem filterMap_narrowed (vs : List (MetricValue F)) :
    (vs.filter MetricValue.isStored).filterMap convertMetricValueToStorage =
      vs.filterMap convertMetricValueToStorage := by
  induction vs with
  | nil => rfl
  | cons v vs ih =>
    cases h : v.isStored with
    | true =>
      rw [List.filter_cons_of_pos h, List.filterMap_cons, List.filterMap_cons, ih]
    | false =>
      rw [List.filter_cons_of_neg (by rw [h]; decide),
        List.filterMap_cons_none (convertMetricValueToStorage_eq_none h), ih]

theorem bind_narrowed (value : Option (MetricValue F)) :
    (value.filter MetricValue.isStored).bind convertMetricValueToStorage =
      value.bind convertMetricValueToStorage := by
  cases value with
  | none => rfl
  | some v =>
    cases h : v.isStored with
    | true => rw [Option.filter_some, if_pos h]
    | false =>
      rw [Option.filter_some, if_neg (by rw [h]; decide), Option.bind_some,
        convertMetricValueToStorage_eq_none h]
      rfl

theorem ParameterDefinition.toStorage_narrowed (p : ParameterDefinition F) :
    p.narrowed.toStorage = p.toStorage := by
  unfold toStorage narrowed
  dsimp only
  rw [convertMetricDataTypeToStorage_narrowed, bind_narrowed, filterMap_narrowed]

/-- What is stored of a template has the row of the template. -/
theorem DeviceTypeTemplate.toStorage_narrowed (template : DeviceTypeTemplate F) :
    template.narrowed.toStorage = template.toStorage := by
  have hmetric : MetricDefinition.toStorage ∘ MetricDefinition.narrowed =
      (MetricDefinition.toStorage : MetricDefinition F → _) := by
    funext m
    show m.narrowed.toStorage = m.toStorage
    unfold MetricDefinition.toStorage MetricDefinition.narrowed
    dsimp only
    rw [convertMetricDataTypeToStorage_narrowed]
  have hparam : ParameterDefinition.toStorage ∘ ParameterDefinition.narrowed =
      (ParameterDefinition.toStorage : ParameterDefinition F → _) :=
    funext ParameterDefinition.toStorage_narrowed
  have hcommand : CommandDefinition.toStorage ∘ CommandDefinition.narrowed =
      (CommandDefinition.toStorage : CommandDefinition F → _) := by
    funext c
    show c.narrowed.toStorage = c.toStorage
    unfold CommandDefinition.toStorage CommandDefinition.narrowed
    dsimp only
    rw [List.map_map, hparam]
  unfold toStorage narrowed
  dsimp only
  rw [List.map_map, List.map_map, hmetric, hcommand]

theorem DeviceTypeTemplate.isStored_narrowed (template : DeviceTypeTemplate F) :
    template.narrowed.IsStored := by
  constructor
  · intro m hm
    obtain ⟨m, -, rfl⟩ := List.mem_map.mp hm
    exact MetricDataType.isStored_narrowed _
  · intro c hc p hp
    obtain ⟨c, -, rfl⟩ := List.mem_map.mp hc
    obtain ⟨p, -, rfl⟩ := List.mem_map.mp hp
    refine ⟨MetricDataType.isStored_narrowed _, ?_, ?_⟩
    · intro v hv
      exact (Option.mem_filter_iff.mp hv).2
    · intro v hv
      exact (List.mem_filter.mp hv).2

theorem DeviceTypeTemplate.isCarried_narrowed {sj : SerdeJson F} {template : DeviceTypeTemplate F}
    (h : template.IsCarried sj) : template.narrowed.IsCarried sj := by
  obtain ⟨hmetrics, hsamples, hcommands⟩ := h
  refine ⟨?_, hsamples, ?_⟩
  · intro m hm
    obtain ⟨m, hmem, rfl⟩ := List.mem_map.mp hm
    exact hmetrics m hmem
  · intro c hc
    obtain ⟨c, hmem, rfl⟩ := List.mem_map.mp hc
    obtain ⟨hparams, hfixed, hsamples'⟩ := hcommands c hmem
    refine ⟨?_, hfixed, hsamples'⟩
    intro p hp
    obtain ⟨p, hmem', rfl⟩ := List.mem_map.mp hp
    obtain ⟨hdefault, hmin, hmax, hallowed, hvalid⟩ := hparams p hmem'
    refine ⟨?_, hmin, hmax, ?_, hvalid⟩
    · intro v hv
      exact hdefault v (Option.mem_filter_iff.mp hv).1
    · intro v hv
      exact hallowed v (List.mem_filter.mp hv).1

/-! ## Restarts -/

namespace DeviceTypeTemplate

/-- Whether the JSON of a template is not nested too deeply to be read. -/
def Fits (sj : SerdeJson F) (template : DeviceTypeTemplate F) : Prop :=
  ((Storage.DeviceTypeTemplate.codec sj).write template.toStorage).depth < sj.recursionLimit

/-- What `load_from_storage` makes of the row of a template. -/
def reload (sj : SerdeJson F) (template : DeviceTypeTemplate F) : Option (DeviceTypeTemplate F) :=
  (template.toStorage.reread sj).map Storage.DeviceTypeTemplate.toLocal

variable {template : DeviceTypeTemplate F} {sj : SerdeJson F}

theorem reread_of_fits (h : template.Fits sj) : template.toStorage.reread sj =
      (Storage.DeviceTypeTemplate.codec sj).back sj.readNumber template.toStorage := by
  unfold Fits at h
  unfold Storage.DeviceTypeTemplate.reread SerdeJson.readText
  rw [if_pos h]
  rfl

theorem reread_of_not_fits (h : ¬template.Fits sj) : template.toStorage.reread sj = none := by
  unfold Fits at h
  unfold Storage.DeviceTypeTemplate.reread SerdeJson.readText
  rw [if_neg h]
  rfl

/-- A template is loaded as it was exactly if it is stored, carried and not nested too deeply. -/
theorem reload_eq_iff (sj : SerdeJson F) (template : DeviceTypeTemplate F) :
    template.reload sj = some template ↔
      template.IsStored ∧ template.IsCarried sj ∧ template.Fits sj := by
  unfold reload
  rw [Option.map_eq_some_iff]
  by_cases hfits : template.Fits sj
  · rw [reread_of_fits hfits, recovered_iff]
    constructor
    · rintro ⟨hstored, hcarried⟩
      exact ⟨hstored, hcarried, hfits⟩
    · rintro ⟨hstored, hcarried, -⟩
      exact ⟨hstored, hcarried⟩
  · rw [reread_of_not_fits hfits]
    constructor
    · rintro ⟨row, hrow, -⟩
      cases hrow
    · rintro ⟨-, -, h⟩
      exact absurd h hfits

/-- A template that is carried and not nested too deeply is loaded as what is stored of it. -/
theorem reload_eq_narrowed (h : template.IsCarried sj) (hfits : template.Fits sj) :
    template.reload sj = some template.narrowed := by
  have hself := (reload_eq_iff sj template.narrowed).mpr
    ⟨isStored_narrowed template, isCarried_narrowed h, by
      unfold Fits
      rw [toStorage_narrowed]
      exact hfits⟩
  unfold reload at hself ⊢
  rwa [toStorage_narrowed] at hself

theorem deviceType_of_reread {row row' : Storage.DeviceTypeTemplate F}
    (h : row.reread sj = some row') : row'.deviceType = row.deviceType := by
  obtain ⟨d, hd, hread⟩ := Option.bind_eq_some_iff.mp h
  unfold SerdeJson.readText at hd
  split at hd
  · obtain rfl := Option.some.inj hd
    have hback : (Storage.DeviceTypeTemplate.codec sj).back sj.readNumber row = some row' := hread
    rw [Storage.DeviceTypeTemplate.back] at hback
    obtain ⟨commands, -, rfl⟩ := Option.map_eq_some_iff.mp hback
    rfl
  · cases hd

end DeviceTypeTemplate

namespace DeviceRegistry

theorem templates_foldl_insert (rows : List (Storage.DeviceTypeTemplate F)) :
    ∀ r : DeviceRegistry F,
      (rows.foldl (fun r row => r.insertTemplate row.toLocal) r).templates =
        (rows.map Storage.DeviceTypeTemplate.toLocal).foldl KeyedMap.put r.templates := by
  induction rows with
  | nil =>
    intro r
    rfl
  | cons row rows ih =>
    intro r
    rw [List.foldl_cons, ih, List.map_cons, List.foldl_cons]
    rfl

/-- The templates of the next start are those whose row can be read. -/
theorem getTemplate_restarted (sj : SerdeJson F) (r : DeviceRegistry F) (deviceType : String) :
    (r.restarted sj).getTemplate deviceType =
      (r.storage.templates.lookup deviceType).bind fun row =>
        (row.reread sj).map Storage.DeviceTypeTemplate.toLocal := by
  show ((r.storage.listTemplates sj).foldl _ (empty r.storage)).templates.lookup deviceType = _
  rw [templates_foldl_insert]
  unfold DeviceRegistryStore.listTemplates
  rw [List.map_filterMap]
  apply KeyedMap.lookup_foldl_put_filterMap
  intro row template h
  obtain ⟨row', hrow, rfl⟩ := Option.map_eq_some_iff.mp h
  exact DeviceTypeTemplate.deviceType_of_reread hrow

theorem templates_foldl_save (templates : List (DeviceTypeTemplate F)) :
    ∀ r : DeviceRegistry F, (templates.foldl saveTemplate r).storage.templates =
      (templates.map DeviceTypeTemplate.toStorage).foldl KeyedMap.put r.storage.templates := by
  induction templates with
  | nil =>
    intro r
    rfl
  | cons template templates ih =>
    intro r
    rw [List.foldl_cons, ih, List.map_cons, List.foldl_cons]
    rfl

/-- After `register_template` the next start loads what the row of the template gives. -/
theorem getTemplate_registerTemplate (sj : SerdeJson F) {isAlphanumeric : Char → Bool}
    {r r' : DeviceRegistry F} {template : DeviceTypeTemplate F}
    (h : r.registerTemplate isAlphanumeric template = .ok r') :
    (r'.restarted sj).getTemplate template.deviceType = template.reload sj := by
  unfold registerTemplate at h
  cases hvalid : validateTemplate isAlphanumeric template with
  | error e =>
    rw [hvalid] at h
    cases h
  | ok u =>
    rw [hvalid] at h
    obtain rfl := Except.ok.inj h
    have hrow : ((r.insertTemplate template).saveTemplate template).storage.templates.lookup
        template.deviceType = some template.toStorage :=
      KeyedMap.lookup_put_self r.storage.templates template.toStorage
    rw [getTemplate_restarted, hrow]
    rfl

/-- After `save_to_storage` the next start loads what the rows of the templates give. -/
theorem getTemplate_saveTemplates (sj : SerdeJson F) {r : DeviceRegistry F}
    {template : DeviceTypeTemplate F} (h : r.getTemplate template.deviceType = some template) :
    (r.saveTemplates.restarted sj).getTemplate template.deviceType = template.reload sj := by
  have hmem : template ∈ r.templates.values := KeyedMap.mem_values.mpr h
  have hnodup : ((r.templates.values.map DeviceTypeTemplate.toStorage).map
      Storage.DeviceTypeTemplate.deviceType).Nodup := by
    rw [List.map_map]
    exact r.templates.nodup_keys_values
  have hrow : r.saveTemplates.storage.templates.lookup template.deviceType =
      some template.toStorage := by
    unfold saveTemplates
    rw [templates_foldl_save]
    exact KeyedMap.lookup_foldl_put hnodup (List.mem_map_of_mem hmem) _
  rw [getTemplate_restarted, hrow]
  rfl

/-- A template that was registered, or saved with all others, is loaded at the next start as it
was exactly if it has no array types, no arrays or binary data among its defaults and allowed
values, numbers that JSON carries, and JSON that is not nested too deeply.  Where only types and
values are in the way, an array type is loaded as text, and the arrays and binary data are left
out. -/
theorem template_restarted (sj : SerdeJson F) (isAlphanumeric : Char → Bool)
    (r r' : DeviceRegistry F) (template : DeviceTypeTemplate F)
    (h : r.registerTemplate isAlphanumeric template = .ok r' ∨
      r' = r.saveTemplates ∧ r.getTemplate template.deviceType = some template) :
    ((r'.restarted sj).getTemplate template.deviceType = some template ↔
        template.IsStored ∧ template.IsCarried sj ∧ template.Fits sj) ∧
      (template.IsCarried sj → template.Fits sj →
        (r'.restarted sj).getTemplate template.deviceType = some template.narrowed) := by
  have hload : (r'.restarted sj).getTemplate template.deviceType = template.reload sj := by
    rcases h with h | ⟨rfl, h⟩
    · exact getTemplate_registerTemplate sj h
    · exact getTemplate_saveTemplates sj h
  rw [hload]
  exact ⟨DeviceTypeTemplate.reload_eq_iff sj template, DeviceTypeTemplate.reload_eq_narrowed⟩

/-! ## Two device types -/

namespace Sample

/-- Numbers in thousandths. -/
def serdeJson : SerdeJson ℤ where
  isFinite _ := true
  readBack := id
  ofInt n := 1000 * n
  recursionLimit := 128

/-- A parameter without bounds. -/
def parameter (name : String) (dataType : MetricDataType) (defaultValue : MetricValue ℤ) :
    ParameterDefinition ℤ :=
  ⟨name, name, dataType, some defaultValue, none, none, "", [], false, none, none, "", []⟩

/-- A type with one metric, and a command with one parameter. -/
def deviceType (name : String) (metric : MetricDefinition ℤ) (command : String)
    (parameter : ParameterDefinition ℤ) : DeviceTypeTemplate ℤ :=
  ⟨name, name, "", [], .full, [metric], [],
    [⟨command, command, "", "", [parameter], [], [], []⟩], some 600, none⟩

/-- A thermometer; its mode is one of two. -/
def thermometer : DeviceTypeTemplate ℤ :=
  deviceType "thermometer" ⟨"temperature", "Temperature", .float, "°C", some (-40000), some 80000, true⟩
    "set_mode" (parameter "mode" (.enum ["fast", "slow"]) (.string "fast"))

/-- A light with a colour of three numbers. -/
def light : DeviceTypeTemplate ℤ :=
  deviceType "light" ⟨"on", "On", .boolean, "", none, none, true⟩
    "set_color" (parameter "rgb" (.array (some .integer))
      (.array [.integer 255, .integer 255, .integer 255]))

/-- The registry after `register_template`. -/
def registered (template : DeviceTypeTemplate ℤ) : DeviceRegistry ℤ :=
  ((empty .new).insertTemplate template).saveTemplate template

end Sample

theorem template_restarted_thermometer :
    ((Sample.registered Sample.thermometer).restarted Sample.serdeJson).getTemplate "thermometer" =
      some Sample.thermometer := by
  have hok : (empty .new).registerTemplate Char.isAlphanum Sample.thermometer =
      .ok (Sample.registered Sample.thermometer) := by
    rfl
  refine (template_restarted Sample.serdeJson Char.isAlphanum (empty .new) _ Sample.thermometer
    (Or.inl hok)).1.mpr ⟨?_, ?_, ?_⟩
  · simp [DeviceTypeTemplate.IsStored, Sample.thermometer, Sample.deviceType, Sample.parameter,
      MetricDefinition.IsStored, ParameterDefinition.IsStored, MetricDataType.isStored,
      MetricValue.isStored]
  · simp [DeviceTypeTemplate.IsCarried, Sample.thermometer, Sample.deviceType, Sample.parameter,
      MetricDefinition.IsCarried, CommandDefinition.IsCarried, ParameterDefinition.IsCarried,
      MetricValue.IsCarried, SerdeJson.Carries, SerdeJson.readFloat, Sample.serdeJson]
  · show Doc.depth _ < 128
    decide

/-- A parameter with an array type is loaded as one with a text type, and without its default. -/
theorem array_type_lost :
    ∃ r' : DeviceRegistry ℤ,
      (empty .new).registerTemplate Char.isAlphanum Sample.light = .ok r' ∧
        (r'.restarted Sample.serdeJson).getTemplate "light" ≠ some Sample.light := by
  have hok : (empty .new).registerTemplate Char.isAlphanum Sample.light =
      .ok (Sample.registered Sample.light) := by
    rfl
  refine ⟨Sample.registered Sample.light, hok, ?_⟩
  have hload := getTemplate_registerTemplate Sample.serdeJson hok
  intro h
  have hstored := ((DeviceTypeTemplate.reload_eq_iff Sample.serdeJson Sample.light).mp
    (hload.symm.trans h)).1
  simp [DeviceTypeTemplate.IsStored, Sample.light, Sample.deviceType, Sample.parameter,
    ParameterDefinition.IsStored, MetricDataType.isStored] at hstored

end DeviceRegistry

end HeraMind.Devices
