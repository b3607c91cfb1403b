/-
# The text preview of a rule

`crates/heramind-rules/src/preview.rs`: the one-way rendering that `finalize` stores
in the rule.
-/
import HeraMind.Rules.Models

namespace HeraMind.Rules

variable {F : Type} [F64 F]

/-- Wrap a rendered sub-condition in parentheses unless it is one word or starts with
a parenthesis already. -/
def parenthesise (r : String) : String :=
  if r.toList.contains ' ' && r.toList.head? ≠ some '(' then "(" ++ r ++ ")" else r

/-- The rendering of AND and OR, which differ in the word between the parts. -/
def renderJoined (word : String) (rendered : List String) : String :=
  match rendered with
  | [r] => r
  | _ => word.intercalate (rendered.map parenthesise)

mutual

def renderCondition : RuleCondition F → String
  | .comparison source operator threshold thresholdValue =>
    if operator.isStringOp || thresholdValue.isSome then
      source.storageKey ++ " " ++ operator.symbol ++ " '"
        ++ thresholdValue.getD (toString threshold) ++ "'"
    else
      source.storageKey ++ " " ++ operator.symbol ++ " " ++ toString threshold
  | .range source min max =>
    source.storageKey ++ " BETWEEN " ++ toString min ++ " AND " ++ toString max
  | .logical .and conditions => renderJoined " AND " (renderConditions conditions)
  | .logical .or conditions => renderJoined " OR " (renderConditions conditions)
  -- only the first sub-condition of a NOT is shown
  | .logical .not conditions =>
    match renderConditions conditions with
    | first :: _ => "NOT (" ++ first ++ ")"
    | [] => "NOT ()"

def renderConditions : List (RuleCondition F) → List String
  | [] => []
  | c :: cs => renderCondition c :: renderConditions cs

end

def renderSeverity : NotifySeverity → String
  | .info => "INFO"
  | .warning => "WARNING"
  | .critical => "CRITICAL"
  | .emergency => "EMERGENCY"

def renderAction (env : Env F) : RuleAction F → String
  | .notify message severity => "NOTIFY [" ++ renderSeverity severity ++ "] \"" ++ message ++ "\""
  | .execute target targetType command params =>
    let kind := match targetType with
      | .device => "device"
      | .extension => "extension"
    let paramsText := match params.asObject with
      | some (f :: fs) =>
        "(" ++ ", ".intercalate ((f :: fs).map fun kv => kv.1 ++ "=" ++ env.jsonText kv.2) ++ ")"
      | _ => ""
    "EXECUTE " ++ kind ++ "." ++ target ++ " " ++ command ++ paramsText
  | .triggerAgent agentId input data =>
    " ".intercalate
      (["TRIGGER AGENT " ++ agentId]
        ++ (input.map fun inp => "INPUT \"" ++ inp ++ "\"").toList
        ++ (data.map fun d => "DATA " ++ env.jsonText d).toList)

def renderDuration (dur : Duration) : String :=
  let secs := dur / Duration.fromSecs 1
  if 60 ≤ secs ∧ secs % 60 = 0 then toString (secs / 60) ++ "min" else toString secs ++ "s"

/-- Generate a human-readable preview string for a rule. -/
def toDslPreview (env : Env F) (rule : CompiledRule F) : String :=
  let trigger := match rule.trigger with
    | .dataChange _ => []
    | .schedule cron => ["ON SCHEDULE \"" ++ cron ++ "\""]
    | .manual => ["ON MANUAL"]
  let condition := (rule.condition.map fun c => "WHEN " ++ renderCondition c).toList
  let duration := (rule.forDuration.map fun d => "FOR " ++ renderDuration d).toList
  let actions := if rule.actions.isEmpty then [] else
    "DO" :: rule.actions.map fun a => "    " ++ renderAction env a
  "\n".intercalate
    (["RULE \"" ++ rule.name ++ "\""] ++ trigger ++ condition ++ duration ++ actions ++ ["END"])

/-- The sources a rule is subscribed to after `finalize`: those of its condition, for a
data-change trigger. -/
def RuleTrigger.refreshed (trigger : RuleTrigger) (condition : Option (RuleCondition F)) :
    RuleTrigger :=
  match trigger with
  | .dataChange _ =>
    .dataChange (match condition with
      | some c => c.extractSources
      | none => [])
  | t => t

/-- Finalize a rule: extract the trigger sources, generate the preview. -/
def CompiledRule.finalize (env : Env F) (now : Instant) (rule : CompiledRule F) :
    CompiledRule F :=
  let rule := { rule with trigger := rule.trigger.refreshed rule.condition }
  { rule with dslPreview := toDslPreview env rule, updatedAt := now }

section Finalize

variable (env : Env F) (now : Instant) (rule : CompiledRule F)

end Finalize

/-- A data-change rule reads exactly the sources of its condition. -/
def CompiledRule.Finalized (rule : CompiledRule F) : Prop :=
  rule.trigger.refreshed rule.condition = rule.trigger

end HeraMind.Rules
