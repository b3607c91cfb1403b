/-
# The request handlers' checks

The parts of `crates/heramind-api/src/handlers/rules.rs` that only compute: reading the
fields of a request, the field checks of `crates/heramind-api/src/validator.rs`, and the
rule a request defines.  The steps in which the handlers touch the engine and the store
are in `HeraMind.Rules.Tasks`.
-/
import Mathlib.Algebra.GroupWithZero.Nat
import HeraMind.Rules.Engine

namespace HeraMind.Rules

/-! ## Error responses -/

/-- `crates/heramind-api/src/models/error.rs`. -/
structure ErrorResponse where
  code : String
  message : String
  status : ℕ
  hint : Option String
  deriving DecidableEq

namespace ErrorResponse

/-- Bad request (400). -/
def badRequest (message : String) : ErrorResponse := ⟨"BAD_REQUEST", message, 400, none⟩

/-- Not found (404). -/
def notFound (resource : String) : ErrorResponse :=
  ⟨"NOT_FOUND", resource ++ " not found", 404, none⟩

/-- Validation error (422). -/
def validation (message : String) : ErrorResponse := ⟨"VALIDATION_ERROR", message, 422, none⟩

/-- Internal server error (500). -/
def internal (message : String) : ErrorResponse := ⟨"INTERNAL_ERROR", message, 500, none⟩

/-- Add a hint for how to fix the error. -/
def withHint (e : ErrorResponse) (hint : String) : ErrorResponse := { e with hint := some hint }

end ErrorResponse

/-! ## Field checks -/

/-- The Unicode white space that `str::trim` removes. -/
def isWhitespace (c : Char) : Bool :=
  (0x9 ≤ c.toNat && c.toNat ≤ 0xD) || c.toNat = 0x20 || c.toNat = 0x85 || c.toNat = 0xA0
    || c.toNat = 0x1680 || (0x2000 ≤ c.toNat && c.toNat ≤ 0x200A) || c.toNat = 0x2028
    || c.toNat = 0x2029 || c.toNat = 0x202F || c.toNat = 0x205F || c.toNat = 0x3000

/-- `str::trim`. -/
def trim (s : String) : List Char :=
  ((s.toList.dropWhile isWhitespace).reverse.dropWhile isWhitespace).reverse

/-- The length of a text in UTF-8 bytes. -/
def byteLength (cs : List Char) : ℕ := (cs.map Char.utf8Size).sum

/-- Validate that a string field is not empty. -/
def validateRequiredString (value field : String) : Except ErrorResponse Unit :=
  if (trim value).isEmpty then .error (.validation (field ++ " is required")) else .ok ()

/-- Validate string length constraints. -/
def validateStringLength (value field : String) (min max : ℕ) : Except ErrorResponse Unit :=
  let len := byteLength (trim value)
  if len < min then
    .error (.validation (field ++ " must be at least " ++ toString min ++ " characters"))
  else if max < len then
    .error (.validation (field ++ " must be at most " ++ toString max ++ " characters"))
  else .ok ()

/-- The checks of the `name` field. -/
def validateName (name : String) : Except ErrorResponse Unit := do
  validateRequiredString name "name"
  validateStringLength name "name" 1 100

/-- The check of the `description` field. -/
def validateDescription (description : String) : Except ErrorResponse Unit :=
  validateStringLength description "description" 0 500

/-- A check of a field that the request may leave out. -/
def validateIfSome (check : String → Except ErrorResponse Unit) :
    Option String → Except ErrorResponse Unit
  | some value => check value
  | none => pure ()

variable {F : Type} [F64 F]

/-! ## Admission -/

/-- Validate the cron expression of a schedule-type rule. -/
def validateRuleCron (env : Env F) (rule : CompiledRule F) : Except ErrorResponse Unit :=
  match rule.trigger with
  | .schedule cron =>
    match env.parseCron cron with
    | .ok () => .ok ()
    | .error e => .error (.badRequest ("Invalid cron expression '" ++ cron ++ "': " ++ e
        ++ ". Use standard 5-field cron (min hour day month weekday), e.g. '0 */5 * * *'."))
  | _ => .ok ()

/-- One line of the list of validation errors. -/
def issueLine (issue : ValidationIssue) : String :=
  "- " ++ issue.message ++ (match issue.field with
    | some f => " (" ++ f ++ ")"
    | none => "")

/-- Validate the rule against the available resources. -/
def validateRuleResources (context : ValidationContext F) (rule : CompiledRule F) :
    Except ErrorResponse Unit :=
  let result := RuleValidator.validateRule rule.condition rule.actions context
  if result.isValid then .ok ()
  else .error (.badRequest ("Rule references unavailable resources:\n"
    ++ "\n".intercalate (result.errors.map issueLine)))

/-- Enforce minimum cooldown for virtual-metric rules. -/
def validateVirtualMetricPolicy (rule : CompiledRule F) : Except ErrorResponse Unit :=
  match RuleValidator.validateVirtualMetricCooldown rule with
  | .ok () => .ok ()
  | .error msg => .error ((ErrorResponse.badRequest msg).withHint
      ("Set 'cooldown' to at least 60000 ms (60 seconds) when using __last_seen_age_secs in the "
        ++ "condition. Production deployments typically use 5 min – 1 h to avoid alert fatigue."))

/-- The three checks that creation and full update make before they store a rule. -/
def admitRule (env : Env F) (context : ValidationContext F) (rule : CompiledRule F) :
    Except ErrorResponse Unit := do
  validateRuleCron env rule
  validateRuleResources context rule
  validateVirtualMetricPolicy rule

/-! ## Creation -/

/-- Default the trigger of a request to a data-change trigger. -/
def withDefaultTrigger (req : Json F) : Json F :=
  match req.get "trigger", req with
  | none, .object fields =>
    .object (fields ++ [("trigger", .object [("trigger_type", .string "data_change")])])
  | _, _ => req

/-- The hint for a body that is no rule. -/
def createRuleHint (errMsg : String) : String :=
  "Provide a valid JSON rule object. Required fields: 'name'. `trigger` defaults to "
    ++ "\x7b\"trigger_type\":\"data_change\"\x7d when omitted. Condition types: 'comparison', "
    ++ "'range', 'logical'. Action types: 'notify', 'execute', 'trigger_agent'. Trigger shape "
    ++ "(internally tagged, field is 'trigger_type'): "
    ++ "\x7b\"trigger\":\x7b\"trigger_type\":\"data_change\"\x7d\x7d | "
    ++ "\x7b\"trigger\":\x7b\"trigger_type\":\"schedule\",\"cron\":\"* * * * *\"\x7d\x7d | "
    ++ "\x7b\"trigger\":\x7b\"trigger_type\":\"manual\"\x7d\x7d. Minimal working example: "
    ++ "\x7b\"name\":\"x\",\"trigger\":\x7b\"trigger_type\":\"data_change\"\x7d,"
    ++ "\"condition\":\x7b\"condition_type\":\"comparison\","
    ++ "\"source\":\"device:sensor-001:values.battery\","
    ++ "\"operator\":\"less_than\",\"threshold\":20.0\x7d,"
    ++ "\"actions\":[\x7b\"type\":\"notify\",\"message\":\"low\",\"severity\":\"warning\"\x7d]\x7d. "
    ++ "Error detail: " ++ errMsg

/-- Fresh timestamps for a new rule: the epoch stands for a missing creation time. -/
def CompiledRule.stamped (now : Instant) (rule : CompiledRule F) : CompiledRule F :=
  { rule with
    createdAt := if rule.createdAt / Duration.fromSecs 1 = 0 then now else rule.createdAt
    updatedAt := now }

/-- The rule that `create_rule_handler` stores, or the error it answers. -/
def prepareCreate (env : Env F) (service : DeviceService F) (now : Instant) (fresh : RuleId)
    (req : Json F) : Except ErrorResponse (CompiledRule F) :=
  match (req.get "name").bind Json.asStr with
  | none => .error (.badRequest "Missing 'name' field")
  | some name => do
    validateName name
    validateIfSome validateDescription ((req.get "description").bind Json.asStr)
    match env.parseRule fresh (withDefaultTrigger req) with
    | .error e =>
      .error ((ErrorResponse.badRequest ("Invalid rule data: " ++ e)).withHint (createRuleHint e))
    | .ok parsed =>
      let rule := (parsed.stamped now).finalize env now
      admitRule env (buildValidationContext service) rule
      pure rule

/-! ## Update -/

/-- The fields `update_rule_handler` reads off a request before anything else. -/
structure UpdateFields (F : Type) where
  name : Option String
  description : Option String
  enabled : Option Bool
  source : Option (Json F)

def UpdateFields.ofRequest (req : Json F) : UpdateFields F where
  name := (req.get "name").bind Json.asStr
  description := (req.get "description").bind Json.asStr
  enabled := (req.get "enabled").bind Json.asBool
  source := req.get "source"

/-- The checks of the name and the description, where the request has them. -/
def UpdateFields.validate (fields : UpdateFields F) : Except ErrorResponse Unit := do
  validateIfSome validateName fields.name
  validateIfSome validateDescription fields.description

/-- The request contains a full rule definition. -/
def hasFullDefinition (req : Json F) : Bool :=
  (req.get "condition").isSome || (req.get "trigger").isSome || (req.get "actions").isSome

/-- The rule a full update defines, from the parsed body and the existing rule. -/
def fullUpdate (env : Env F) (now : Instant) (id : RuleId) (fields : UpdateFields F)
    (parsed : CompiledRule F) (existing : Option (CompiledRule F)) : CompiledRule F :=
  let rule := { parsed with
    id := id
    name := fields.name.getD parsed.name
    description := fields.description.orElse fun _ => parsed.description
    source := fields.source
    state := (existing.map CompiledRule.state).getD parsed.state
    createdAt := (existing.map CompiledRule.createdAt).getD parsed.createdAt
    enabled := fields.enabled.getD ((existing.map CompiledRule.enabled).getD true)
    updatedAt := now }
  rule.finalize env now

/-- The full update with its checks. -/
def prepareFullUpdate (env : Env F) (service : DeviceService F) (now : Instant) (id : RuleId)
    (fields : UpdateFields F) (parsed : CompiledRule F) (existing : Option (CompiledRule F)) :
    Except ErrorResponse (CompiledRule F) := do
  let rule := fullUpdate env now id fields parsed existing
  admitRule env (buildValidationContext service) rule
  pure rule

/-- The rule after a partial update: only the provided fields change. -/
def partialUpdate (env : Env F) (now : Instant) (fields : UpdateFields F)
    (rule : CompiledRule F) : CompiledRule F :=
  let rule := { rule with
    name := fields.name.getD rule.name
    description := fields.description.orElse fun _ => rule.description
    source := fields.source.orElse fun _ => rule.source
    enabled := fields.enabled.getD rule.enabled }
  rule.finalize env now

/-- The text of a failed import, with the name of the rule where it has one. -/
def importError (value : Json F) (e : String) : String :=
  "Rule " ++ (((value.get "name").bind Json.asStr).getD "unknown") ++ ": invalid format - " ++ e

/-! ## What the checks say -/

/-- A computation that binds to a value went through its first part. -/
theorem exists_of_bind_eq_ok {ε α β : Type} {x : Except ε α} {f : α → Except ε β} {b : β}
    (h : (x >>= f) = .ok b) : ∃ a, x = .ok a ∧ f a = .ok b := by
  cases x with
  | error e => cases h
  | ok a => exact ⟨a, rfl, h⟩

/-- A rule passes the admission checks: its cron expression parses, its validation finds
no error, and its cooldown is long enough for the virtual metrics it reads. -/
structure Admitted (env : Env F) (context : ValidationContext F) (rule : CompiledRule F) :
    Prop where
  cron : ∀ cron, rule.trigger = .schedule cron → env.parseCron cron = .ok ()
  resources : (RuleValidator.validateRule rule.condition rule.actions context).isValid = true
  cooldown : RuleValidator.usesVirtual rule.condition = true →
    RuleValidator.minVirtualMetricCooldown ≤ rule.cooldown

section Lemmas

variable {env : Env F} {service : DeviceService F} {now : Instant} {rule : CompiledRule F}

omit [F64 F] in
theorem validateRuleCron_ok (h : validateRuleCron env rule = .ok ())
    (cron : String) (ht : rule.trigger = .schedule cron) : env.parseCron cron = .ok () := by
  rw [validateRuleCron, ht] at h
  cases hc : env.parseCron cron with
  | ok u => rfl
  | error e => simp [hc] at h

theorem validateRuleResources_ok {context : ValidationContext F}
    (h : validateRuleResources context rule = .ok ()) :
    (RuleValidator.validateRule rule.condition rule.actions context).isValid = true := by
  simp only [validateRuleResources] at h
  split at h
  · assumption
  · cases h

omit [F64 F] in
theorem validateVirtualMetricPolicy_ok (h : validateVirtualMetricPolicy rule = .ok ())
    (hv : RuleValidator.usesVirtual rule.condition = true) :
    RuleValidator.minVirtualMetricCooldown ≤ rule.cooldown := by
  by_contra hlt
  push Not at hlt
  simp [validateVirtualMetricPolicy, RuleValidator.validateVirtualMetricCooldown, hv, hlt] at h

/-- What `admitRule` accepts is admitted. -/
theorem admitted_of_admitRule {context : ValidationContext F}
    (h : admitRule env context rule = .ok ()) : Admitted env context rule := by
  obtain ⟨_, hcron, h⟩ := exists_of_bind_eq_ok h
  obtain ⟨_, hres, hvirt⟩ := exists_of_bind_eq_ok h
  exact ⟨validateRuleCron_ok hcron, validateRuleResources_ok hres,
    validateVirtualMetricPolicy_ok hvirt⟩

/-- A created rule passed the checks for the devices registered at that moment. -/
theorem admitted_of_prepareCreate {fresh : RuleId} {req : Json F}
    (h : prepareCreate env service now fresh req = .ok rule) :
    Admitted env (buildValidationContext service) rule := by
  unfold prepareCreate at h
  split at h
  · cases h
  · obtain ⟨_, -, h⟩ := exists_of_bind_eq_ok h
    obtain ⟨_, -, h⟩ := exists_of_bind_eq_ok h
    split at h
    · cases h
    · obtain ⟨_, hadmit, h⟩ := exists_of_bind_eq_ok h
      cases h
      exact admitted_of_admitRule hadmit

/-- A fully updated rule passed the checks for the devices registered at that moment. -/
theorem admitted_of_prepareFullUpdate {id : RuleId} {fields : UpdateFields F}
    {parsed : CompiledRule F} {existing : Option (CompiledRule F)}
    (h : prepareFullUpdate env service now id fields parsed existing = .ok rule) :
    Admitted env (buildValidationContext service) rule := by
  obtain ⟨_, hadmit, h⟩ := exists_of_bind_eq_ok h
  cases h
  exact admitted_of_admitRule hadmit

theorem prepareFullUpdate_ok {id : RuleId} {fields : UpdateFields F}
    {parsed : CompiledRule F} {existing : Option (CompiledRule F)}
    (h : prepareFullUpdate env service now id fields parsed existing = .ok rule) :
    rule = fullUpdate env now id fields parsed existing := by
  obtain ⟨_, -, h⟩ := exists_of_bind_eq_ok h
  cases h
  rfl

end Lemmas

@[simp] theorem fullUpdate_id (env : Env F) (now : Instant) (id : RuleId)
    (fields : UpdateFields F) (parsed : CompiledRule F) (existing : Option (CompiledRule F)) :
    (fullUpdate env now id fields parsed existing).id = id := rfl

@[simp] theorem partialUpdate_id (env : Env F) (now : Instant) (fields : UpdateFields F)
    (rule : CompiledRule F) : (partialUpdate env now fields rule).id = rule.id := rfl

end HeraMind.Rules
