import Mathlib.Data.Finset.Dedup
import Mathlib.Data.Finset.Insert
import Remo.ForStd.AssocMap
import Remo.ForStd.Maximum
import Remo.Native.Pattern.Parser
import Remo.Native.State.Mutation

/-!
# Permissions of tools

Rules about tools, where they are configured, and how they are kept in the state.
-/

/-! ## Permission rules

Rules about tools, the rule set they are kept in, and the evaluation of a tool call.
The rules stand in a hash map, so its entries are in any order.
-/

namespace Remo

/-- Tool permission behavior. -/
inductive ToolPermissionBehavior where
  | allow
  | ask
  | deny
deriving Repr, DecidableEq

/-- Permission rule subject. -/
inductive PermissionSubject (engine : PatternEngine) where
  | tool (toolId : String)
  | pattern (pattern : ToolCallPattern engine)

variable {engine : PatternEngine}

/-- The key a rule about the subject is stored under. -/
def PermissionSubject.key : PermissionSubject engine → String
  | .tool toolId => "tool:" ++ toolId
  | .pattern p => "pattern:" ++ p.display

/-- Match against a tool without arguments. -/
def PermissionSubject.matchesTool (self : PermissionSubject engine) (toolId : String) : Bool :=
  match self with
  | .tool id => id == toolId
  | .pattern p => (patternMatches p toolId .null).isMatch

/-- Match against a tool call with arguments, with the specificity of the match. -/
def PermissionSubject.matchesToolCall (self : PermissionSubject engine) (toolId : String)
    (toolArgs : Value) : Option Specificity :=
  match self with
  | .tool id => if id = toolId then some ⟨3, false, 0, 0⟩ else none
  | .pattern p =>
    match patternMatches p toolId toolArgs with
    | .matched specificity => some specificity
    | .noMatch => none

/-- Lifetime of a permission rule. -/
inductive PermissionRuleScope where
  | once
  | session
  | thread
  | project
  | user
deriving Repr, DecidableEq

/-- Origin of a permission rule. -/
inductive PermissionRuleSource where
  | system
  | definition
  | skill
  | session
  | user
  | cli
  | runtime
deriving Repr, DecidableEq

/-- Declarative permission rule. -/
structure PermissionRule (engine : PatternEngine) where
  subject : PermissionSubject engine
  behavior : ToolPermissionBehavior
  scope : PermissionRuleScope
  source : PermissionRuleSource

/-- `PermissionRule::new_tool`. -/
def PermissionRule.newTool (toolId : String) (behavior : ToolPermissionBehavior) :
    PermissionRule engine :=
  ⟨.tool toolId, behavior, .thread, .runtime⟩

/-- `PermissionRule::new_pattern`. -/
def PermissionRule.newPattern (pattern : ToolCallPattern engine)
    (behavior : ToolPermissionBehavior) : PermissionRule engine :=
  ⟨.pattern pattern, behavior, .thread, .runtime⟩

/-- Resolved rule set fed into permission evaluation. -/
structure PermissionRuleset (engine : PatternEngine) where
  defaultBehavior : ToolPermissionBehavior
  rules : AssocMap String (PermissionRule engine)

/-- Evaluation priority: Deny > Allow > Ask. -/
def behaviorPriority : ToolPermissionBehavior → Nat
  | .deny => 2
  | .allow => 1
  | .ask => 0

/-- The comparison of matching rules: by behavior, then by specificity. -/
def compareMatches (a b : PermissionRule engine × Specificity) : Ordering :=
  (compare (behaviorPriority a.1.behavior) (behaviorPriority b.1.behavior)).then
    (compare a.2 b.2)

/-- The rules that match a call, with their specificity. -/
def PermissionRuleset.matching (self : PermissionRuleset engine) (toolId : String)
    (toolArgs : Value) : List (PermissionRule engine × Specificity) :=
  self.rules.values.filterMap fun rule =>
    (rule.subject.matchesToolCall toolId toolArgs).map fun specificity => (rule, specificity)

/-- Find the highest-priority matching rule considering tool args. -/
def PermissionRuleset.ruleForToolCall (self : PermissionRuleset engine) (toolId : String)
    (toolArgs : Value) : Option (PermissionRule engine) :=
  (maxBy? compareMatches (self.matching toolId toolArgs)).map Prod.fst

/-- The tool that a subject names exactly and without a condition on the arguments. -/
def PermissionSubject.exactTool? : PermissionSubject engine → Option String
  | .tool toolId => some toolId
  | .pattern p => if p.args.isAny then p.tool.exactName? else none

/-- Collect tool ids that are unconditionally denied. -/
def PermissionRuleset.unconditionallyDeniedTools (self : PermissionRuleset engine) :
    List String :=
  (self.rules.values.filter fun rule => rule.behavior = .deny).filterMap fun rule =>
    rule.subject.exactTool?

/-- The tools of the registry that a Deny rule about a glob or an expression hides. -/
def PermissionRule.expandAgainst (rule : PermissionRule engine) (toolIds : List String)
    (denied : Finset String) : Finset String :=
  if rule.behavior ≠ .deny then denied
  else
    match rule.subject with
    | .tool _ => denied
    | .pattern pattern =>
      if !pattern.args.isAny then denied
      else if pattern.tool.exactName?.isSome then denied
      else
        toolIds.foldl (fun denied toolId =>
          if rule.subject.matchesTool toolId then insert toolId denied else denied) denied

/-- Full set of tool ids stripped before the model sees the list. -/
def PermissionRuleset.unconditionallyDeniedAgainst (self : PermissionRuleset engine)
    (registryToolIds : List String) : Finset String :=
  let denied := self.unconditionallyDeniedTools.toFinset
  if registryToolIds.isEmpty then denied
  else
    self.rules.values.foldl (fun denied rule => rule.expandAgainst registryToolIds denied) denied

/-- Strategy evaluation output. -/
structure PermissionEvaluation (engine : PatternEngine) where
  subject : PermissionSubject engine
  behavior : ToolPermissionBehavior
  matchedRule : Option (PermissionRule engine)

/-- Evaluate permission rules for a tool call with arguments. -/
def evaluateToolPermission (ruleset : PermissionRuleset engine) (toolId : String)
    (toolArgs : Value) : PermissionEvaluation engine :=
  let matchedRule := ruleset.ruleForToolCall toolId toolArgs
  { subject := .tool toolId
    behavior :=
      match matchedRule with
      | some rule => rule.behavior
      | none => ruleset.defaultBehavior
    matchedRule }

end Remo

/-! ## Permission configuration

The rules of an agent's configuration and the rule set made of them.
-/

namespace Remo

/-- A single permission rule entry. -/
structure PermissionRuleEntry where
  tool : String
  behavior : ToolPermissionBehavior
  scope : PermissionRuleScope
deriving Repr, DecidableEq

structure PermissionRulesConfig where
  defaultBehavior : ToolPermissionBehavior
  rules : List PermissionRuleEntry
deriving Repr, DecidableEq

/-- Error of a configuration that has been loaded. -/
inductive PermissionConfigError where
  | invalidPattern (pattern reason : String)
deriving Repr, DecidableEq

/-- How the conversion fails: with an error, or with a panic of the parser. -/
inductive ConfigFailure where
  | error (e : PermissionConfigError)
  | panicked
deriving Repr, DecidableEq

/-- `ToolCallPattern::tool_glob`. -/
def ToolCallPattern.toolGlob {engine : PatternEngine} (pattern : String) :
    ToolCallPattern engine :=
  ⟨.glob pattern, .any⟩

/-- Convert a single config entry into a rule. -/
def ruleFromEntry (engine : PatternEngine) (entry : PermissionRuleEntry) :
    Except ConfigFailure (PermissionRule engine) :=
  match parsePattern engine entry.tool with
  | .ok pattern => .ok ⟨.pattern pattern, entry.behavior, entry.scope, .definition⟩
  | .error .panicked => .error .panicked
  | .error (.error _) =>
    -- no full pattern: a glob over tool ids, or an exact tool name
    if hasGlobChars entry.tool.toList then
      .ok ⟨.pattern (.toolGlob entry.tool), entry.behavior, entry.scope, .definition⟩
    else .ok ⟨.tool entry.tool, entry.behavior, entry.scope, .definition⟩

/-- Put a rule in the place of its subject's key. -/
def PermissionRuleset.put {engine : PatternEngine} (ruleset : PermissionRuleset engine)
    (rule : PermissionRule engine) : PermissionRuleset engine :=
  { ruleset with rules := ruleset.rules.insert rule.subject.key rule }

/-- Convert the configuration into a rule set for evaluation. -/
def PermissionRulesConfig.intoRuleset (engine : PatternEngine) (config : PermissionRulesConfig) :
    Except ConfigFailure (PermissionRuleset engine) :=
  config.rules.foldlM (fun ruleset entry => (ruleFromEntry engine entry).map ruleset.put)
    ⟨config.defaultBehavior, AssocMap.empty⟩

end Remo

/-! ## Permission policy

The permission rules kept in the state: the policy of a thread, the overrides of a run, and
the actions that change them.
-/

namespace Remo

/-- Permission-domain action, used for both the policy and the overrides. -/
inductive PermissionAction where
  | setDefault (behavior : ToolPermissionBehavior)
  | setTool (toolId : String) (behavior : ToolPermissionBehavior)
  | setRule (pattern : String) (behavior : ToolPermissionBehavior)
  | removeTool (toolId : String)
  | removeRule (pattern : String)
  | clearTools
  | allowTool (toolId : String)
  | denyTool (toolId : String)
deriving Repr, DecidableEq

variable {engine : PatternEngine}

def PermissionRule.withScope (self : PermissionRule engine) (scope : PermissionRuleScope) :
    PermissionRule engine :=
  { self with scope }

def PermissionRule.withSource (self : PermissionRule engine) (source : PermissionRuleSource) :
    PermissionRule engine :=
  { self with source }

def upsertToolRule (rules : AssocMap String (PermissionRule engine)) (toolId : String)
    (behavior : ToolPermissionBehavior) (source : PermissionRuleSource) :
    AssocMap String (PermissionRule engine) :=
  let rule := ((PermissionRule.newTool toolId behavior).withScope .thread).withSource source
  rules.insert rule.subject.key rule

def upsertPatternRule (rules : AssocMap String (PermissionRule engine)) (patternStr : String)
    (behavior : ToolPermissionBehavior) (source : PermissionRuleSource) :
    AssocMap String (PermissionRule engine) :=
  match parsePattern engine patternStr with
  | .ok pattern =>
    let rule := ((PermissionRule.newPattern pattern behavior).withScope .thread).withSource source
    rules.insert rule.subject.key rule
  | .error _ => rules

/-- `HashMap::remove`. -/
def removeRuleAt (rules : AssocMap String (PermissionRule engine)) (key : String) :
    AssocMap String (PermissionRule engine) :=
  rules.retain fun k _ => k != key

/-- Shared reducer, in which `SetDefault` does nothing. -/
def reducePermissionAction (rules : AssocMap String (PermissionRule engine))
    (action : PermissionAction) (source : PermissionRuleSource) :
    AssocMap String (PermissionRule engine) :=
  match action with
  | .setTool toolId behavior => upsertToolRule rules toolId behavior source
  | .setRule pattern behavior => upsertPatternRule rules pattern behavior source
  | .allowTool toolId => upsertToolRule rules toolId .allow source
  | .denyTool toolId => upsertToolRule rules toolId .deny source
  | .removeTool toolId =>
    removeRuleAt rules (PermissionRule.newTool toolId .ask : PermissionRule engine).subject.key
  | .removeRule pattern =>
    match parsePattern engine pattern with
    | .ok parsed => removeRuleAt rules (PermissionSubject.pattern parsed).key
    | .error _ => rules
  | .clearTools => .empty
  | .setDefault _ => rules

/-- Persisted permission rules. -/
structure PermissionPolicy (engine : PatternEngine) where
  defaultBehavior : ToolPermissionBehavior
  rules : AssocMap String (PermissionRule engine)

def PermissionPolicy.default : PermissionPolicy engine := ⟨.ask, .empty⟩

/-- `PermissionPolicyKey::apply`. -/
def PermissionPolicy.reduce (self : PermissionPolicy engine) (action : PermissionAction) :
    PermissionPolicy engine :=
  match action with
  | .setDefault behavior => { self with defaultBehavior := behavior }
  | action => { self with rules := reducePermissionAction self.rules action .runtime }

/-- Run-scoped permission overrides applied on top of the policy. -/
structure PermissionOverrides (engine : PatternEngine) where
  rules : AssocMap String (PermissionRule engine)

def PermissionOverrides.default : PermissionOverrides engine := ⟨.empty⟩

/-- `PermissionOverridesKey::apply`. -/
def PermissionOverrides.reduce (self : PermissionOverrides engine) (action : PermissionAction) :
    PermissionOverrides engine :=
  ⟨reducePermissionAction self.rules action .skill⟩

/-! ## Loading from a snapshot -/

/-- Load resolved permission rules: the policy, with the overrides applied last. -/
def permissionRulesFromState (policy : Option (PermissionPolicy engine))
    (overrides : Option (PermissionOverrides engine)) : PermissionRuleset engine :=
  let ruleset : PermissionRuleset engine := ⟨.ask, .empty⟩
  let ruleset :=
    match policy with
    | none => ruleset
    | some policy =>
      { defaultBehavior := policy.defaultBehavior, rules := ruleset.rules.extend policy.rules }
  match overrides with
  | none => ruleset
  | some overrides => { ruleset with rules := ruleset.rules.extend overrides.rules }

end Remo
