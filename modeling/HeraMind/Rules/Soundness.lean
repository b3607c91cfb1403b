/-
# What a valid rule is sure of

`RuleValidator::validate_rule` (`crates/heramind-rules/src/validator.rs`) finds a rule valid when
none of its checks fails.  The checks differ from leaf to leaf: the source of a comparison is looked
up among the devices, the source of a range is not, and the bounds of a range pass when the one is
not greater than the other, which holds of a NaN.  The parameters of a command are looked at only
if they are an object.
-/
import HeraMind.Rules.Validator

namespace HeraMind.Rules

open List

variable {F : Type}

/-! ## The leaves of a condition -/

mutual

/-- The comparisons and ranges of a condition, at any depth. -/
def RuleCondition.leaves : RuleCondition F → List (RuleCondition F)
  | .comparison source operator threshold thresholdValue =>
    [.comparison source operator threshold thresholdValue]
  | .range source min max => [.range source min max]
  | .logical _ conditions => leavesAll conditions

/-- The leaves of several conditions. -/
def leavesAll : List (RuleCondition F) → List (RuleCondition F)
  | [] => []
  | c :: cs => c.leaves ++ leavesAll cs

end

variable [F64 F]

/-! ## What a rule should be sure of -/

section Sound

variable (context : ValidationContext F)

/-- A source that is a device is one of the context, with one of its metrics or a virtual one. -/
def KnownSource (source : DataSourceId) : Prop :=
  source.sourceType = .device →
    ∃ device, context.devices.lookup source.sourceId = some device ∧
      (source.fieldPath ∈ virtualMetrics ∨
        ∃ metric ∈ device.metrics, metric.name = source.fieldPath)

/-- The parameters have a value for a name. -/
def Supplies (params : Json F) (name : String) : Prop :=
  ∃ fields, params.asObject = some fields ∧ Json.hasKey fields name = true

def SoundLeaf : RuleCondition F → Prop
  | .comparison source _ _ _ => KnownSource context source
  | .range source min max => KnownSource context source ∧ min ≤ max
  | .logical _ _ => True

def SoundAction : RuleAction F → Prop
  | .execute target .device command params =>
    ∃ device cmdInfo, context.devices.lookup target = some device ∧
      device.commands.find? (·.name = command) = some cmdInfo ∧
      ∀ p ∈ cmdInfo.parameters, p.required = true → Supplies params p.name
  | _ => True

/-- Every leaf and every action of a rule is sound. -/
structure SoundRule (condition : Option (RuleCondition F)) (actions : List (RuleAction F))
    (context : ValidationContext F) : Prop where
  leaves : ∀ c ∈ condition, ∀ leaf ∈ c.leaves, SoundLeaf context leaf
  actions : ∀ a ∈ actions, SoundAction context a

/-! ## What the validator looks at -/

def CheckedLeaf : RuleCondition F → Prop
  | .comparison source _ _ _ =>
    KnownSource context source ∧ (source.sourceType = .transform → source.sourceId ≠ "")
  | .range source min max => ¬ max < min ∧ source.sourceId ≠ ""
  | .logical _ _ => True

def CheckedAction : RuleAction F → Prop
  | .notify message _ => message ≠ ""
  | .execute target .device command params =>
    ∃ device cmdInfo, context.devices.lookup target = some device ∧
      device.commands.find? (·.name = command) = some cmdInfo ∧
      ∀ fields, params.asObject = some fields →
        ∀ p ∈ cmdInfo.parameters, p.required = true → Json.hasKey fields p.name = true
  | .execute target .extension _ _ => target ≠ ""
  | .triggerAgent agentId _ _ => agentId ≠ ""

/-- Every check of the validator passes. -/
structure CheckedRule (condition : Option (RuleCondition F)) (actions : List (RuleAction F))
    (context : ValidationContext F) : Prop where
  leaves : ∀ c ∈ condition, ∀ leaf ∈ c.leaves, CheckedLeaf context leaf
  actions : ∀ a ∈ actions, CheckedAction context a

/-! ## What it does not look at -/

/-- A range has a source that is known, and bounds that can be compared. -/
def OpenLeaf : RuleCondition F → Prop
  | .range source min max => KnownSource context source ∧ (max < min ∨ min ≤ max)
  | _ => True

/-- A command without an object of parameters has no required parameter. -/
def OpenAction : RuleAction F → Prop
  | .execute target .device command params => params.asObject = none →
    ∀ device cmdInfo, context.devices.lookup target = some device →
      device.commands.find? (·.name = command) = some cmdInfo →
      ∀ p ∈ cmdInfo.parameters, p.required = false
  | _ => True

structure OpenRule (condition : Option (RuleCondition F)) (actions : List (RuleAction F))
    (context : ValidationContext F) : Prop where
  leaves : ∀ c ∈ condition, ∀ leaf ∈ c.leaves, OpenLeaf context leaf
  actions : ∀ a ∈ actions, OpenAction context a

end Sound

namespace RuleValidator

/-! ## The issues of a part of a rule -/

/-- No issue of a part of a rule is an error. -/
def NoError (r : Except ValidationError (List ValidationIssue)) : Prop :=
  ∃ issues, r = .ok issues ∧ ∀ issue ∈ issues, issue.severity ≠ .error

theorem noError_ok {issues : List ValidationIssue} :
    NoError (.ok issues) ↔ ∀ issue ∈ issues, issue.severity ≠ .error := by
  constructor
  · rintro ⟨_, heq, h⟩
    cases heq
    exact h
  · exact fun h => ⟨issues, rfl, h⟩

theorem not_noError_error {e : ValidationError} : ¬ NoError (.error e) := by
  rintro ⟨_, heq, -⟩
  cases heq

theorem noError_nil : NoError (.ok []) :=
  noError_ok.mpr fun _ hmem => nomatch hmem

variable {issue : ValidationIssue}

theorem noError_singleton :
    NoError (.ok [issue]) ↔ issue.severity ≠ .error := by
  rw [noError_ok]
  exact forall_mem_singleton

/-- A warning may be given or not. -/
theorem noError_warning {p : Prop} [Decidable p]
    (h : issue.severity = .warning) : NoError (.ok (if p then [issue] else [])) := by
  split
  · rw [noError_singleton, h]
    decide
  · exact noError_nil

/-- An error that is raised by a test is absent where the test fails. -/
theorem noError_ite {p : Prop} [Decidable p] (h : issue.severity = .error) :
    NoError (.ok (if p then [issue] else [])) ↔ ¬ p := by
  by_cases hp : p
  · rw [if_pos hp, noError_singleton]
    exact ⟨fun hno => absurd h hno, fun hno => absurd hp hno⟩
  · rw [if_neg hp]
    exact ⟨fun _ => hp, fun _ => noError_nil⟩

theorem noError_append {xs ys : List ValidationIssue} :
    NoError (.ok (xs ++ ys)) ↔ NoError (.ok xs) ∧ NoError (.ok ys) := by
  rw [noError_ok, noError_ok, noError_ok]
  exact forall_mem_append

/-- The errors that are reported for a part of a rule. -/
theorem filter_issuesOf (field : String) (r : Except ValidationError (List ValidationIssue)) :
    (issuesOf field r).filter (·.severity = .error) = [] ↔ NoError r := by
  rw [filter_eq_nil_iff]
  cases r with
  | ok issues =>
    rw [noError_ok]
    exact forall₂_congr fun issue _ => by rw [decide_eq_true_iff]
  | error e =>
    refine ⟨fun h => ?_, fun h => absurd h not_noError_error⟩
    exact absurd rfl (of_decide_eq_false (Bool.eq_false_iff.mpr
      (h (e.toIssue field) (mem_singleton_self _))))

/-! ## The checks of a condition -/

omit [F64 F] in
theorem noError_validateVirtualMetricCondition (deviceId : String) (operator : ComparisonOperator)
    (context : ValidationContext F) :
    NoError (validateVirtualMetricCondition deviceId operator context) ↔
      ∃ device, context.devices.lookup deviceId = some device := by
  unfold validateVirtualMetricCondition
  cases hdevice : context.devices.lookup deviceId with
  | none => exact ⟨fun h => absurd h not_noError_error, fun ⟨_, h⟩ => nomatch h⟩
  | some device =>
    refine ⟨fun _ => ⟨device, rfl⟩, fun _ => ?_⟩
    cases operator <;>
      first
        | exact noError_nil
        | exact noError_singleton.mpr fun h => nomatch h

/-- A device comparison passes when its source is known: what it says of the threshold is only a
warning. -/
theorem noError_validateSimpleCondition (source : DataSourceId) (operator : ComparisonOperator)
    (threshold : F) (context : ValidationContext F) (hdevice : source.sourceType = .device) :
    NoError (validateSimpleCondition source.sourceId source.fieldPath operator threshold context) ↔
      KnownSource context source := by
  unfold validateSimpleCondition
  by_cases hvirtual : source.fieldPath ∈ virtualMetrics
  · rw [if_pos hvirtual, noError_validateVirtualMetricCondition]
    constructor
    · rintro ⟨device, hlookup⟩ -
      exact ⟨device, hlookup, Or.inl hvirtual⟩
    · intro hknown
      obtain ⟨device, hlookup, -⟩ := hknown hdevice
      exact ⟨device, hlookup⟩
  · rw [if_neg hvirtual]
    cases hlookup : context.devices.lookup source.sourceId with
    | none =>
      refine ⟨fun h => absurd h not_noError_error, fun hknown => ?_⟩
      obtain ⟨device, hsome, -⟩ := hknown hdevice
      rw [hlookup] at hsome
      cases hsome
    | some device =>
      dsimp only
      cases hfind : device.metrics.find? (·.name = source.fieldPath) with
      | none =>
        refine ⟨fun h => absurd h not_noError_error, fun hknown => ?_⟩
        obtain ⟨device', hsome, hfield | ⟨metric, hmem, hname⟩⟩ := hknown hdevice
        · exact absurd hfield hvirtual
        · rw [hlookup] at hsome
          cases hsome
          exact absurd (decide_eq_true hname) (find?_eq_none.mp hfind metric hmem)
      | some metricInfo =>
        dsimp only
        refine ⟨fun _ _ => ⟨device, hlookup, Or.inr ⟨metricInfo, ?_, ?_⟩⟩, fun _ => ?_⟩
        · exact mem_of_find?_eq_some hfind
        · have hname := find?_some hfind
          exact of_decide_eq_true hname
        · rw [noError_append]
          constructor
          · cases metricInfo.minValue with
            | none => exact noError_nil
            | some min => exact noError_warning rfl
          · cases metricInfo.maxValue with
            | none => exact noError_nil
            | some max => exact noError_warning rfl

mutual

/-- A condition passes when each of its leaves does. -/
theorem noError_validateCondition (context : ValidationContext F) (c : RuleCondition F) :
    NoError (validateCondition context c) ↔ ∀ leaf ∈ c.leaves, CheckedLeaf context leaf := by
  cases c with
  | comparison source operator threshold thresholdValue =>
    rw [RuleCondition.leaves, forall_mem_singleton, validateCondition]
    cases htype : source.sourceType with
    | device =>
      dsimp only
      rw [noError_validateSimpleCondition source operator threshold context htype]
      refine ⟨fun hknown => ⟨hknown, fun h => ?_⟩, And.left⟩
      rw [htype] at h
      cases h
    | extension =>
      refine ⟨fun _ => ⟨fun h => ?_, fun h => ?_⟩, fun _ => ?_⟩
      · rw [htype] at h
        cases h
      · rw [htype] at h
        cases h
      · dsimp only
        split
        · exact noError_nil
        · exact noError_singleton.mpr fun h => nomatch h
    | transform =>
      dsimp only
      rw [noError_ite rfl]
      refine ⟨fun hid => ⟨fun h => ?_, fun _ => hid⟩, fun h => h.2 htype⟩
      rw [htype] at h
      cases h
  | range source min max =>
    rw [RuleCondition.leaves, forall_mem_singleton, validateCondition, noError_append,
      noError_ite rfl, noError_ite rfl]
    exact Iff.rfl
  | logical operator conditions =>
    rw [RuleCondition.leaves, ← noError_validateConditions context conditions, validateCondition]
    cases validateConditions context conditions with
    | error e => exact ⟨fun h => absurd h not_noError_error, fun h => absurd h not_noError_error⟩
    | ok issues =>
      dsimp only
      rw [noError_append]
      exact ⟨And.right, fun h => ⟨noError_warning rfl, h⟩⟩

theorem noError_validateConditions (context : ValidationContext F) (cs : List (RuleCondition F)) :
    NoError (validateConditions context cs) ↔ ∀ leaf ∈ leavesAll cs, CheckedLeaf context leaf := by
  cases cs with
  | nil => exact ⟨fun _ => forall_mem_nil _, fun _ => noError_nil⟩
  | cons c cs =>
    rw [leavesAll, forall_mem_append, ← noError_validateCondition context c,
      ← noError_validateConditions context cs, validateConditions]
    cases validateCondition context c with
    | error e => exact ⟨fun h => absurd h not_noError_error, And.left⟩
    | ok issues =>
      cases validateConditions context cs with
      | error e => exact ⟨fun h => absurd h not_noError_error, And.right⟩
      | ok rest => exact noError_append

end

/-! ## The checks of an action -/

omit [F64 F] in
theorem noError_validateAction (context : ValidationContext F) (a : RuleAction F) :
    NoError (validateAction context a) ↔ CheckedAction context a := by
  cases a with
  | notify message severity | triggerAgent agentId input data =>
    rw [validateAction, noError_ite rfl]
    exact Iff.rfl
  | execute target targetType command params =>
    cases targetType with
    | extension =>
      rw [validateAction, noError_ite rfl]
      exact Iff.rfl
    | device =>
      rw [validateAction, CheckedAction]
      cases hlookup : context.devices.lookup target with
      | none =>
        refine ⟨fun h => absurd h not_noError_error, ?_⟩
        rintro ⟨_, _, hdevice, _⟩
        cases hdevice
      | some device =>
        dsimp only
        cases hfind : device.commands.find? (·.name = command) with
        | none =>
          refine ⟨fun h => absurd h not_noError_error, ?_⟩
          rintro ⟨_, _, hdevice, hcmd, _⟩
          cases hdevice
          rw [hfind] at hcmd
          cases hcmd
        | some cmdInfo =>
          dsimp only
          cases hparams : params.asObject with
          | none =>
            refine ⟨fun _ => ⟨device, cmdInfo, rfl, hfind, ?_⟩, fun _ => noError_nil⟩
            intro fields hfields
            cases hfields
          | some fields =>
            dsimp only
            rw [noError_ok]
            constructor
            · intro h
              refine ⟨device, cmdInfo, rfl, hfind, fun _ heq p hp hrequired => ?_⟩
              cases heq
              by_contra hmissing
              refine h _ (mem_map_of_mem (mem_filter.mpr ⟨hp, ?_⟩)) rfl
              rw [hrequired, Bool.eq_false_iff.mpr hmissing]
              rfl
            · rintro ⟨device', cmdInfo', hdevice, hcmd, hall⟩ issue hmem
              cases hdevice
              rw [hfind] at hcmd
              cases hcmd
              obtain ⟨p, hp, rfl⟩ := mem_map.mp hmem
              obtain ⟨hp, hmissing⟩ := mem_filter.mp hp
              rw [Bool.and_eq_true, Bool.not_eq_true'] at hmissing
              rw [hall fields rfl p hp hmissing.1] at hmissing
              cases hmissing.2

/-! ## Valid rules -/

/-- A rule is valid when every check passes. -/
theorem isValid_iff (condition : Option (RuleCondition F)) (actions : List (RuleAction F))
    (context : ValidationContext F) :
    (validateRule condition actions context).isValid = true ↔
      CheckedRule condition actions context := by
  have hactions : (actions.flatMap fun a => issuesOf "actions" (validateAction context a)).filter
      (·.severity = .error) = [] ↔ ∀ a ∈ actions, CheckedAction context a := by
    rw [filter_flatMap, flatMap_eq_nil_iff]
    exact forall₂_congr fun a _ => by rw [filter_issuesOf, noError_validateAction]
  unfold validateRule
  dsimp only
  rw [List.isEmpty_iff, filter_append, append_eq_nil_iff]
  refine (and_congr ?_ hactions).trans ⟨fun h => ⟨h.1, h.2⟩, fun h => ⟨h.leaves, h.actions⟩⟩
  cases condition with
  | none =>
    refine ⟨fun _ c hc => ?_, fun _ => rfl⟩
    cases hc
  | some cond =>
    rw [filter_issuesOf, noError_validateCondition]
    constructor
    · rintro h c hc
      cases hc
      exact h
    · exact fun h => h cond rfl

variable {context : ValidationContext F}

theorem openLeaf_of_sound {leaf : RuleCondition F}
    (h : SoundLeaf context leaf) : OpenLeaf context leaf := by
  cases leaf with
  | comparison source operator threshold thresholdValue => trivial
  | range source min max => exact ⟨h.1, Or.inr h.2⟩
  | logical operator conditions => trivial

theorem soundLeaf_of_checked {leaf : RuleCondition F}
    (hchecked : CheckedLeaf context leaf) (hopen : OpenLeaf context leaf) :
    SoundLeaf context leaf := by
  cases leaf with
  | comparison source operator threshold thresholdValue => exact hchecked.1
  | range source min max => exact ⟨hopen.1, hopen.2.resolve_left hchecked.1⟩
  | logical operator conditions => trivial

omit [F64 F] in
theorem openAction_of_sound {a : RuleAction F}
    (h : SoundAction context a) : OpenAction context a := by
  cases a with
  | notify message severity | triggerAgent agentId input data => trivial
  | execute target targetType command params =>
    cases targetType with
    | extension => trivial
    | device =>
      obtain ⟨device, cmdInfo, hlookup, hfind, hsupplies⟩ := h
      intro hparams device' cmdInfo' hlookup' hfind' p hp
      rw [hlookup] at hlookup'
      cases hlookup'
      rw [hfind] at hfind'
      cases hfind'
      -- no parameter is supplied where there is no object
      refine Bool.eq_false_iff.mpr fun hrequired => ?_
      obtain ⟨fields, hfields, -⟩ := hsupplies p hp hrequired
      rw [hparams] at hfields
      cases hfields

omit [F64 F] in
theorem soundAction_of_checked {a : RuleAction F}
    (hchecked : CheckedAction context a) (hopen : OpenAction context a) :
    SoundAction context a := by
  cases a with
  | notify message severity | triggerAgent agentId input data => trivial
  | execute target targetType command params =>
    cases targetType with
    | extension => trivial
    | device =>
      obtain ⟨device, cmdInfo, hlookup, hfind, hchecks⟩ := hchecked
      refine ⟨device, cmdInfo, hlookup, hfind, fun p hp hrequired => ?_⟩
      cases hparams : params.asObject with
      | none =>
        rw [hopen hparams device cmdInfo hlookup hfind p hp] at hrequired
        cases hrequired
      | some fields => exact ⟨fields, hparams, hchecks fields hparams p hp hrequired⟩

/-- Where the checks pass, a rule is sound if what they leave open is in order. -/
theorem soundRule_iff {condition : Option (RuleCondition F)} {actions : List (RuleAction F)}
    (h : CheckedRule condition actions context) :
    SoundRule condition actions context ↔ OpenRule condition actions context := by
  constructor
  · intro hsound
    exact ⟨fun c hc leaf hleaf => openLeaf_of_sound (hsound.leaves c hc leaf hleaf),
      fun a ha => openAction_of_sound (hsound.actions a ha)⟩
  · intro hopen
    refine ⟨fun c hc leaf hleaf => ?_, fun a ha => ?_⟩
    · exact soundLeaf_of_checked (h.leaves c hc leaf hleaf) (hopen.leaves c hc leaf hleaf)
    · exact soundAction_of_checked (h.actions a ha) (hopen.actions a ha)

/-- A valid rule is sound exactly if one of the checks fails or what they leave open is in order. -/
theorem sound_of_valid_iff (condition : Option (RuleCondition F)) (actions : List (RuleAction F))
    (context : ValidationContext F) :
    ((validateRule condition actions context).isValid = true →
        SoundRule condition actions context) ↔
      (¬ CheckedRule condition actions context ∨ OpenRule condition actions context) := by
  rw [isValid_iff, ← imp_iff_not_or]
  exact forall_congr' fun h => soundRule_iff h

/-- A fan whose command has a required parameter. -/
def fan : DeviceInfo ℤ := ⟨"fan", [], [⟨"turn_on", [⟨"speed", true⟩]⟩]⟩

/-- A range over a device that is not there is valid, and so is a command that is given `null` for
its parameters. -/
theorem range_of_ghost_valid :
    (∃ condition : RuleCondition ℤ,
      (validateRule (some condition) [] ⟨.empty, []⟩).isValid = true ∧
      ¬ SoundRule (some condition) [] ⟨.empty, []⟩) ∧
    (validateRule none [.execute "fan" .device "turn_on" .null]
        ⟨KeyedMap.empty.put fan, []⟩).isValid = true ∧
      ¬ SoundRule none [.execute "fan" .device "turn_on" .null] ⟨KeyedMap.empty.put fan, []⟩ := by
  refine ⟨⟨.range (.ofDevice "ghost" "temp") 0 10, by decide, fun h => ?_⟩, by decide, fun h => ?_⟩
  · have hleaf := h.leaves _ rfl _ (mem_singleton_self _)
    obtain ⟨device, hdevice, -⟩ := hleaf.1 rfl
    cases hdevice
  · obtain ⟨device, cmdInfo, hdevice, hfind, hsupplies⟩ := h.actions _ (mem_singleton_self _)
    obtain rfl : fan = device := Option.some.inj hdevice
    obtain rfl : (⟨"turn_on", [⟨"speed", true⟩]⟩ : CommandInfo) = cmdInfo := Option.some.inj hfind
    obtain ⟨fields, hfields, -⟩ := hsupplies ⟨"speed", true⟩ (mem_singleton_self _) rfl
    cases hfields

end RuleValidator

end HeraMind.Rules
