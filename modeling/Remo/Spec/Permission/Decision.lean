import Remo.Native.Permission.Policy

/-!
# The permission decision

Which behavior a tool call gets. The evaluation picks one winner among the matching
rules; what it decides depends only on which behaviors occur among them.

## Key results

- `ruleForToolCall_winner`  the winner matches and no matching rule has a higher priority
- `decides_evaluate`        the decision follows the law of `Decides`
- `evaluateToolPermission_law` the law, denial on adding a Deny rule, and independence
  from the order of the rules
- `mem_unconditionallyDeniedAgainst` the hidden tools are those that an argument-free Deny
  rule is about, globs and expressions within the registry only
- `unconditionallyDeniedAgainst_law` with this, a hidden tool is denied for all arguments,
  and no such rule is about a tool of the registry that is not hidden
- `Decides.highest`         the decision is the matching behavior of the highest priority
- `hasMatch_merged`         which behaviors match in the merged rule set
- `overridesDecide_iff`     when the overrides decide as they do alone
-/

namespace Remo

/-! ## The law -/

/-- The decision among the behaviors of the matching rules: Deny over Allow over Ask,
    and the default when no rule matches. -/
inductive Decides (present : ToolPermissionBehavior → Prop) (fallback : ToolPermissionBehavior) :
    ToolPermissionBehavior → Prop
  | deny : present .deny → Decides present fallback .deny
  | allow : ¬ present .deny → present .allow → Decides present fallback .allow
  | ask : ¬ present .deny → ¬ present .allow → present .ask → Decides present fallback .ask
  | unmatched : (∀ behavior, ¬ present behavior) → Decides present fallback fallback

variable {present present' : ToolPermissionBehavior → Prop}
  {fallback b b' : ToolPermissionBehavior}

/-- The law leaves no choice. -/
theorem Decides.unique (h : Decides present fallback b) (h' : Decides present fallback b') :
    b = b' := by
  cases h with
  | deny hdeny => cases h' with
    | deny => rfl
    | allow hno => exact absurd hdeny hno
    | ask hno => exact absurd hdeny hno
    | unmatched hno => exact absurd hdeny (hno _)
  | allow hno hallow => cases h' with
    | deny hdeny => exact absurd hdeny hno
    | allow => rfl
    | ask _ hno' => exact absurd hallow hno'
    | unmatched hno' => exact absurd hallow (hno' _)
  | ask hno hno' hask => cases h' with
    | deny hdeny => exact absurd hdeny hno
    | allow _ hallow => exact absurd hallow hno'
    | ask => rfl
    | unmatched hnone => exact absurd hask (hnone _)
  | unmatched hnone => cases h' with
    | deny hdeny => exact absurd hdeny (hnone _)
    | allow _ hallow => exact absurd hallow (hnone _)
    | ask _ _ hask => exact absurd hask (hnone _)
    | unmatched => rfl

/-- Allow is decided when an Allow rule matches and no Deny rule does, or when it is the
    default and nothing matches. -/
theorem Decides.allow_iff (h : Decides present fallback b) :
    b = .allow ↔
      ¬ present .deny ∧
        (present .allow ∨ fallback = .allow ∧ ∀ behavior, ¬ present behavior) := by
  cases h with
  | deny hdeny => simp [hdeny]
  | allow hno hallow => simp [hno, hallow]
  | ask hno hno' hask =>
    have hsome : ¬ ∀ behavior, ¬ present behavior := fun hnone => hnone _ hask
    simp [hno', hsome]
  | unmatched hnone => simp [hnone]

/-- Where behaviors only give way to Deny, and only Deny is new, Allow is not brought
    about. -/
theorem Decides.allow_of_allow
    (hkept : ∀ behavior, present behavior → present' behavior ∨ present' .deny)
    (hnew : ∀ behavior, present' behavior → present behavior ∨ behavior = .deny)
    (h : Decides present fallback b) (h' : Decides present' fallback b') (hallow : b' = .allow) :
    b = .allow := by
  obtain ⟨hno, hsource⟩ := h'.allow_iff.mp hallow
  have hmore : ∀ behavior, present behavior → present' behavior := by
    intro behavior hb
    cases hkept behavior hb with
    | inl h => exact h
    | inr hdeny => exact absurd hdeny hno
  apply h.allow_iff.mpr
  constructor
  · exact fun hdeny => hno (hmore _ hdeny)
  · cases hsource with
    | inl hpresent =>
      left
      cases hnew _ hpresent with
      | inl hold => exact hold
      | inr heq => cases heq
    | inr hnone =>
      right
      exact ⟨hnone.1, fun behavior hb => hnone.2 behavior (hmore behavior hb)⟩

/-! ## The winner -/

variable {engine : PatternEngine} {self ruleset : PermissionRuleset engine} {toolId : String}
  {toolArgs : Value}

/-- The rule is about the call. -/
def PermissionRule.Matches (rule : PermissionRule engine) (toolId : String)
    (toolArgs : Value) : Prop :=
  (rule.subject.matchesToolCall toolId toolArgs).isSome = true

/-- Some rule with the behavior matches the call. -/
def PermissionRuleset.HasMatch (self : PermissionRuleset engine) (toolId : String)
    (toolArgs : Value) (behavior : ToolPermissionBehavior) : Prop :=
  ∃ key rule, self.rules.get? key = some rule ∧ rule.Matches toolId toolArgs ∧
    rule.behavior = behavior

theorem mem_matching {rule : PermissionRule engine} {specificity : Specificity} :
    (rule, specificity) ∈ self.matching toolId toolArgs ↔
      (∃ key, self.rules.get? key = some rule) ∧
        rule.subject.matchesToolCall toolId toolArgs = some specificity := by
  simp only [PermissionRuleset.matching, List.mem_filterMap, AssocMap.mem_values,
    Option.map_eq_some_iff, Prod.mk.injEq]
  constructor
  · intro h
    obtain ⟨r, hr, s, hs, rfl, rfl⟩ := h
    exact ⟨hr, hs⟩
  · exact fun h => ⟨rule, h.1, specificity, h.2, rfl, rfl⟩

/-- The behavior of a rule counts before its specificity. -/
theorem compareMatches_eq_gt {a c : PermissionRule engine × Specificity}
    (h : compareMatches a c = .gt) :
    behaviorPriority c.1.behavior ≤ behaviorPriority a.1.behavior := by
  rw [compareMatches, Ordering.then_eq_gt] at h
  cases h with
  | inl hgt => exact Nat.le_of_lt (Nat.compare_eq_gt.mp hgt)
  | inr heq => exact Nat.le_of_eq (Nat.compare_eq_eq.mp heq.1).symm

theorem compareMatches_ne_gt {a c : PermissionRule engine × Specificity}
    (h : compareMatches a c ≠ .gt) :
    behaviorPriority a.1.behavior ≤ behaviorPriority c.1.behavior := by
  apply Nat.le_of_not_lt
  intro hlt
  apply h
  rw [compareMatches, Ordering.then_eq_gt]
  exact .inl (Nat.compare_eq_gt.mpr hlt)

/-- No winner means that no rule matches. -/
theorem ruleForToolCall_eq_none (h : self.ruleForToolCall toolId toolArgs = none)
    (behavior : ToolPermissionBehavior) : ¬ self.HasMatch toolId toolArgs behavior := by
  intro hmatch
  obtain ⟨key, rule, hget, hmatches, -⟩ := hmatch
  have hnil : self.matching toolId toolArgs = [] := by
    simpa [PermissionRuleset.ruleForToolCall] using h
  obtain ⟨specificity, hspecificity⟩ := Option.isSome_iff_exists.mp hmatches
  have hmem := mem_matching.mpr ⟨⟨key, hget⟩, hspecificity⟩
  rw [hnil] at hmem
  exact List.not_mem_nil hmem

/-- The winner matches the call, and no matching rule has a higher priority. -/
theorem ruleForToolCall_winner {winner : PermissionRule engine}
    (h : self.ruleForToolCall toolId toolArgs = some winner) :
    self.HasMatch toolId toolArgs winner.behavior ∧
      ∀ behavior, self.HasMatch toolId toolArgs behavior →
        behaviorPriority behavior ≤ behaviorPriority winner.behavior := by
  obtain ⟨best, hbest, rfl⟩ := Option.map_eq_some_iff.mp h
  obtain ⟨⟨key, hget⟩, hspecificity⟩ := mem_matching.mp (mem_of_maxBy? hbest)
  constructor
  · exact ⟨key, best.1, hget, by rw [PermissionRule.Matches, hspecificity]; rfl, rfl⟩
  · intro behavior hmatch
    obtain ⟨key', rule, hget', hmatches, rfl⟩ := hmatch
    obtain ⟨specificity, hspec⟩ := Option.isSome_iff_exists.mp hmatches
    have hmem : (rule, specificity) ∈ self.matching toolId toolArgs :=
      mem_matching.mpr ⟨⟨key', hget'⟩, hspec⟩
    let rank (a : PermissionRule engine × Specificity) : Nat := behaviorPriority a.1.behavior
    have hgt : ∀ a b, compareMatches a b = .gt → rank b ≤ rank a :=
      fun _ _ => compareMatches_eq_gt
    have hle : ∀ a b, compareMatches a b ≠ .gt → rank a ≤ rank b :=
      fun _ _ => compareMatches_ne_gt
    exact le_of_maxBy? hgt hle hbest _ hmem

/-- The evaluation follows the law. -/
theorem decides_evaluate (ruleset : PermissionRuleset engine) (toolId : String)
    (toolArgs : Value) :
    Decides (ruleset.HasMatch toolId toolArgs) ruleset.defaultBehavior
      (evaluateToolPermission ruleset toolId toolArgs).behavior := by
  unfold evaluateToolPermission
  cases hwinner : ruleset.ruleForToolCall toolId toolArgs with
  | none => exact .unmatched (ruleForToolCall_eq_none hwinner)
  | some winner =>
    obtain ⟨hmatch, hbest⟩ := ruleForToolCall_winner hwinner
    -- a behavior of higher priority does not occur
    have habove : ∀ behavior, behaviorPriority winner.behavior < behaviorPriority behavior →
        ¬ ruleset.HasMatch toolId toolArgs behavior := by
      intro behavior hlt hmatch'
      have := hbest behavior hmatch'
      omega
    show Decides _ _ winner.behavior
    generalize winner.behavior = behavior at hmatch habove
    cases behavior with
    | deny => exact .deny hmatch
    | allow => exact .allow (habove .deny (by decide)) hmatch
    | ask => exact .ask (habove .deny (by decide)) (habove .allow (by decide)) hmatch

/-! ## Changes of the rule set -/

/-- Which behaviors match depends on the lookups only. -/
theorem hasMatch_congr {other : PermissionRuleset engine}
    (h : ∀ key, self.rules.get? key = other.rules.get? key) :
    self.HasMatch toolId toolArgs = other.HasMatch toolId toolArgs := by
  funext behavior
  simp only [PermissionRuleset.HasMatch, h]

/-- `ruleset.rules.insert(key, rule)`. -/
def PermissionRuleset.insert (self : PermissionRuleset engine) (key : String)
    (rule : PermissionRule engine) : PermissionRuleset engine :=
  { self with rules := self.rules.insert key rule }

/-- A Deny rule under a key that is free, or that a rule about the same subject has,
    keeps every behavior that matches, or makes Deny match. -/
theorem hasMatch_or_deny_of_insert {key : String} {rule : PermissionRule engine}
    (hdeny : rule.behavior = .deny)
    (hsame : ∀ old, ruleset.rules.get? key = some old → old.subject = rule.subject)
    {behavior : ToolPermissionBehavior} (h : ruleset.HasMatch toolId toolArgs behavior) :
    (ruleset.insert key rule).HasMatch toolId toolArgs behavior ∨
      (ruleset.insert key rule).HasMatch toolId toolArgs .deny := by
  obtain ⟨k, old, hget, hmatches, hbehavior⟩ := h
  by_cases hk : k = key
  · subst hk
    -- the rule that gives way matches the same calls
    have hrule : rule.Matches toolId toolArgs := by
      rw [PermissionRule.Matches, ← hsame old hget]
      exact hmatches
    right
    exact ⟨k, rule, AssocMap.get?_insert_self _ _ _, hrule, hdeny⟩
  · have hget' : (ruleset.insert key rule).rules.get? k = some old := by
      rw [PermissionRuleset.insert, AssocMap.get?_insert_of_ne _ _ hk, hget]
    left
    exact ⟨k, old, hget', hmatches, hbehavior⟩

/-- Nothing matches after an insertion but what matched before and the new rule. -/
theorem hasMatch_of_insert {key : String} {rule : PermissionRule engine}
    {behavior : ToolPermissionBehavior}
    (h : (ruleset.insert key rule).HasMatch toolId toolArgs behavior) :
    ruleset.HasMatch toolId toolArgs behavior ∨ behavior = rule.behavior := by
  obtain ⟨k, old, hget, hmatches, hbehavior⟩ := h
  rw [PermissionRuleset.insert, AssocMap.get?_insert] at hget
  split at hget
  · right
    rw [← hbehavior, Option.some.inj hget]
  · left
    exact ⟨k, old, hget, hmatches, hbehavior⟩

/-- A rule set with one rule, about one tool. -/
def PermissionRuleset.single (toolId : String) (behavior : ToolPermissionBehavior) :
    PermissionRuleset .literal :=
  ⟨.ask, AssocMap.empty.insert ("tool:" ++ toolId) (.newTool toolId behavior)⟩

end Remo

/-! ## Hidden tools

Which tools are stripped before the model sees the list, against what the evaluation of a
call decides.
-/

namespace Remo

variable {engine : PatternEngine} {ruleset : PermissionRuleset engine}
  {rule : PermissionRule engine} {toolId : String}

/-! ## Argument-free rules -/

/-- A subject without a condition on the arguments. -/
def PermissionSubject.ArgumentFree : PermissionSubject engine → Prop
  | .tool _ => True
  | .pattern p => p.args = .any

/-- The rule denies every call of the tool, without looking at the arguments. -/
def PermissionRule.DeniesOutright (rule : PermissionRule engine) (toolId : String) : Prop :=
  rule.behavior = .deny ∧ rule.subject.ArgumentFree ∧ ∀ toolArgs, rule.Matches toolId toolArgs

theorem ArgMatcher.isAny_iff {args : ArgMatcher} : args.isAny = true ↔ args = .any := by
  cases args <;> simp [ArgMatcher.isAny]

theorem ToolMatcher.exactName?_eq_some {tool : ToolMatcher engine} {name : String} :
    tool.exactName? = some name ↔ tool = .exact name := by
  cases tool <;> simp [ToolMatcher.exactName?]

/-- A pattern for all arguments matches by the tool alone. -/
theorem patternMatches_any (tool : ToolMatcher engine) (toolId : String) (toolArgs : Value) :
    (patternMatches ⟨tool, .any⟩ toolId toolArgs).isMatch = (toolKind tool toolId).isSome := by
  unfold patternMatches
  cases toolKind tool toolId <;> rfl

/-- A pattern rule is about the calls that its pattern matches. -/
theorem matchesToolCall_pattern (p : ToolCallPattern engine) (toolId : String)
    (toolArgs : Value) :
    ((PermissionSubject.pattern p).matchesToolCall toolId toolArgs).isSome =
      (patternMatches p toolId toolArgs).isMatch := by
  simp only [PermissionSubject.matchesToolCall]
  cases patternMatches p toolId toolArgs <;> rfl

/-- The match against a tool is the one against a call with no arguments. -/
theorem matchesTool_iff : rule.subject.matchesTool toolId = true ↔ rule.Matches toolId .null := by
  cases rule with | mk subject behavior scope source =>
  cases subject with
  | tool id => simp [PermissionSubject.matchesTool, PermissionRule.Matches,
      PermissionSubject.matchesToolCall]
  | pattern p => rw [PermissionRule.Matches, matchesToolCall_pattern, PermissionSubject.matchesTool]

/-- An argument-free rule that is about one call of a tool is about all of them. -/
theorem matches_of_argumentFree (h : rule.subject.ArgumentFree) {a : Value}
    (hmatch : rule.Matches toolId a) (b : Value) : rule.Matches toolId b := by
  cases rule with | mk subject behavior scope source =>
  cases subject with
  | tool id => exact hmatch
  | pattern p =>
    cases p with | mk tool args =>
    obtain rfl : args = .any := h
    rw [PermissionRule.Matches, matchesToolCall_pattern, patternMatches_any] at hmatch ⊢
    exact hmatch

theorem deniesOutright_iff (hdeny : rule.behavior = .deny) (hfree : rule.subject.ArgumentFree) :
    rule.DeniesOutright toolId ↔ rule.subject.matchesTool toolId = true := by
  rw [matchesTool_iff]
  constructor
  · exact fun h => h.2.2 .null
  · exact fun h => ⟨hdeny, hfree, matches_of_argumentFree hfree h⟩

/-- A rule that names a tool exactly is argument-free and about that tool alone. -/
theorem exactTool?_eq_some {name : String} (h : rule.subject.exactTool? = some name) :
    rule.subject.ArgumentFree ∧
      ∀ toolId toolArgs, rule.Matches toolId toolArgs ↔ name = toolId := by
  cases rule with | mk subject behavior scope source =>
  cases subject with
  | tool id =>
    obtain rfl := Option.some.inj h
    constructor
    · trivial
    · intro toolId toolArgs
      simp [PermissionRule.Matches, PermissionSubject.matchesToolCall]
  | pattern p =>
    cases p with | mk tool args =>
    simp only [PermissionSubject.exactTool?, Option.ite_none_right_eq_some,
      ArgMatcher.isAny_iff, ToolMatcher.exactName?_eq_some] at h
    obtain ⟨rfl, rfl⟩ := h
    constructor
    · rfl
    · intro toolId toolArgs
      rw [PermissionRule.Matches, matchesToolCall_pattern, patternMatches_any]
      simp [toolKind]

/-! ## The expansion against the registry -/

/-- What a loop that inserts some elements of a list leaves. -/
theorem mem_foldl_insert {α : Type*} [DecidableEq α] {p : α → Bool} {l : List α} {s : Finset α}
    {a : α} :
    a ∈ l.foldl (fun s b => if p b then insert b s else s) s ↔ a ∈ s ∨ a ∈ l ∧ p a = true := by
  induction l generalizing s with
  | nil => simp
  | cons b l ih =>
    rw [List.foldl_cons, ih]
    by_cases hb : p b = true
    · rw [if_pos hb, Finset.mem_insert, List.mem_cons]
      grind
    · rw [if_neg hb, List.mem_cons]
      grind

/-- One rule adds the tools of the registry that it denies outright, unless it names its
    tool. -/
theorem mem_expandAgainst {ids : List String} {denied : Finset String} :
    toolId ∈ rule.expandAgainst ids denied ↔
      toolId ∈ denied ∨
        rule.DeniesOutright toolId ∧ toolId ∈ ids ∧ rule.subject.exactTool? = none := by
  by_cases hdeny : rule.behavior = .deny
  · cases rule with | mk subject behavior scope source =>
    obtain rfl : behavior = .deny := hdeny
    cases subject with
    | tool id => simp [PermissionRule.expandAgainst, PermissionSubject.exactTool?]
    | pattern p =>
      cases p with | mk tool args =>
      by_cases hany : args = .any
      · subst hany
        -- an exact name has been taken care of before the loop
        cases hname : tool.exactName? with
        | some name =>
          simp [PermissionRule.expandAgainst, PermissionSubject.exactTool?, ArgMatcher.isAny,
            hname]
        | none =>
          have hdenies : PermissionRule.DeniesOutright
              ⟨.pattern ⟨tool, .any⟩, .deny, scope, source⟩ toolId ↔
                (PermissionSubject.pattern ⟨tool, .any⟩).matchesTool toolId = true :=
            deniesOutright_iff rfl rfl
          rw [hdenies]
          simp [PermissionRule.expandAgainst, PermissionSubject.exactTool?, ArgMatcher.isAny,
            hname, mem_foldl_insert, and_comm]
      · have hnot : args.isAny = false :=
          Bool.eq_false_iff.mpr (mt ArgMatcher.isAny_iff.mp hany)
        simp [PermissionRule.expandAgainst, PermissionRule.DeniesOutright,
          PermissionSubject.ArgumentFree, hnot, hany]
  · simp [PermissionRule.expandAgainst, PermissionRule.DeniesOutright, hdeny]

/-- The rules add their tools one after the other. -/
theorem mem_foldl_expandAgainst {rules : List (PermissionRule engine)} {ids : List String}
    {denied : Finset String} :
    toolId ∈ rules.foldl (fun denied rule => rule.expandAgainst ids denied) denied ↔
      toolId ∈ denied ∨
        ∃ rule ∈ rules, rule.DeniesOutright toolId ∧ toolId ∈ ids ∧
          rule.subject.exactTool? = none := by
  induction rules generalizing denied with
  | nil => simp
  | cons rule rules ih => rw [List.foldl_cons, ih, mem_expandAgainst]; simp [or_assoc]

theorem mem_unconditionallyDeniedTools :
    toolId ∈ ruleset.unconditionallyDeniedTools ↔
      ∃ rule ∈ ruleset.rules.values, rule.DeniesOutright toolId ∧
        rule.subject.exactTool? = some toolId := by
  simp only [PermissionRuleset.unconditionallyDeniedTools, List.mem_filterMap, List.mem_filter,
    decide_eq_true_eq, and_assoc]
  apply exists_congr
  intro rule
  apply and_congr_right
  intro hmem
  constructor
  · intro h
    obtain ⟨hfree, hmatch⟩ := exactTool?_eq_some h.2
    exact ⟨⟨h.1, hfree, fun toolArgs => (hmatch toolId toolArgs).mpr rfl⟩, h.2⟩
  · exact fun h => ⟨h.1.1, h.2⟩

/-- The hidden tools are those that some rule denies outright; a rule that does not name the
    tool counts for the tools of the registry. -/
theorem mem_unconditionallyDeniedAgainst {ids : List String} :
    toolId ∈ ruleset.unconditionallyDeniedAgainst ids ↔
      ∃ rule ∈ ruleset.rules.values, rule.DeniesOutright toolId ∧
        (toolId ∈ ids ∨ rule.subject.exactTool? = some toolId) := by
  have hmain : toolId ∈ ruleset.unconditionallyDeniedAgainst ids ↔
      toolId ∈ ruleset.unconditionallyDeniedTools ∨
        ∃ rule ∈ ruleset.rules.values, rule.DeniesOutright toolId ∧ toolId ∈ ids ∧
          rule.subject.exactTool? = none := by
    unfold PermissionRuleset.unconditionallyDeniedAgainst
    cases ids with
    | nil => simp
    | cons id ids => simp [mem_foldl_expandAgainst]
  rw [hmain, mem_unconditionallyDeniedTools, ← exists_or]
  apply exists_congr
  intro rule
  rw [← and_or_left, ← and_or_left]
  apply and_congr_right
  intro hmem
  apply and_congr_right
  intro hdenies
  cases hexact : rule.subject.exactTool? with
  | none => simp
  | some name =>
    -- a rule that names a tool denies no other one
    obtain rfl := ((exactTool?_eq_some hexact).2 toolId .null).mp (hdenies.2.2 .null)
    simp

/-! ## Hiding against denying -/

/-- The tools stripped before the model sees the list are those that an argument-free Deny
    rule is about whatever the arguments, rules that do not name the tool being expanded
    over the registry. A stripped tool is denied for all arguments, and a tool of the
    registry that is not stripped is denied by no argument-free Deny rule. -/
theorem unconditionallyDeniedAgainst_law (ruleset : PermissionRuleset engine)
    (ids : List String) (toolId : String) :
    (toolId ∈ ruleset.unconditionallyDeniedAgainst ids ↔
      ∃ rule ∈ ruleset.rules.values, rule.DeniesOutright toolId ∧
        (toolId ∈ ids ∨ rule.subject.exactTool? = some toolId)) ∧
    (toolId ∈ ruleset.unconditionallyDeniedAgainst ids →
      ∀ toolArgs, (evaluateToolPermission ruleset toolId toolArgs).behavior = .deny) ∧
    (toolId ∈ ids → toolId ∉ ruleset.unconditionallyDeniedAgainst ids →
      ∀ toolArgs, ∀ rule ∈ ruleset.rules.values, rule.behavior = .deny →
        rule.subject.ArgumentFree → ¬ rule.Matches toolId toolArgs) := by
  constructor
  · exact mem_unconditionallyDeniedAgainst
  constructor
  · intro hmem toolArgs
    obtain ⟨rule, hrule, hdenies, -⟩ := mem_unconditionallyDeniedAgainst.mp hmem
    obtain ⟨key, hget⟩ := AssocMap.mem_values.mp hrule
    have hmatch : ruleset.HasMatch toolId toolArgs .deny :=
      ⟨key, rule, hget, hdenies.2.2 toolArgs, hdenies.1⟩
    exact (decides_evaluate ruleset toolId toolArgs).unique (.deny hmatch)
  · intro hid hnot toolArgs rule hrule hdeny hfree hmatch
    apply hnot
    apply mem_unconditionallyDeniedAgainst.mpr
    exact ⟨rule, hrule, ⟨hdeny, hfree, matches_of_argumentFree hfree hmatch⟩, .inl hid⟩

/-- A denied tool is hidden whether or not the registry has it, and denied for all
    arguments; another tool of the registry is left alone. -/
theorem unconditionallyDeniedAgainst_law_bash :
    (∀ toolArgs, (evaluateToolPermission (.single "Bash" .deny) "Bash" toolArgs).behavior = .deny) ∧
      ∀ toolArgs, ∀ rule ∈ (PermissionRuleset.single "Bash" .deny).rules.values,
        rule.behavior = .deny → rule.subject.ArgumentFree → ¬ rule.Matches "Read" toolArgs := by
  constructor
  · apply (unconditionallyDeniedAgainst_law (.single "Bash" .deny) [] "Bash").2.1
    decide +kernel
  · apply (unconditionallyDeniedAgainst_law (.single "Bash" .deny) ["Read"] "Read").2.2
    · simp
    · decide +kernel

/-- An engine whose globs match literally, but for the one that matches everything. -/
def PatternEngine.globstar : PatternEngine where
  regexNew := PatternEngine.literal.regexNew
  globMatch pattern value := pattern == "**" || pattern == value

theorem globstar_matches {pattern : String} (h : normalizeWildcards pattern = "**")
    (value : String) : wildcardMatch .globstar pattern value = true := by
  rw [wildcardMatch, h]
  rfl

theorem normalizeWildcards_globstar : normalizeWildcards "**" = "**" := by
  have hbytes : "**".toList.flatMap String.utf8EncodeChar = [star, star] := by decide
  rw [normalizeWildcards, hbytes, normalizeFrom]
  simp [starRun, normalizeFrom]

theorem normalizeWildcards_star : normalizeWildcards "*" = "**" := by
  have hbytes : "*".toList.flatMap String.utf8EncodeChar = [star] := by decide
  rw [normalizeWildcards, hbytes, normalizeFrom]
  simp [starRun, normalizeFrom]

/-- `Bash(**)` is denied. -/
def denyBashAnything : PermissionRuleset .globstar :=
  ⟨.ask, AssocMap.empty.insert "pattern:Bash(**)"
    (.newPattern ⟨.exact "Bash", .primary .glob "**"⟩ .deny)⟩

/-- `*` is denied. -/
def denyAllTools : PermissionRuleset .globstar :=
  ⟨.ask, AssocMap.empty.insert "pattern:*" (.newPattern ⟨.glob "*", .any⟩ .deny)⟩

/-- Two tools that a Deny rule is about whatever the arguments and that are not hidden: one
    of the registry, under a condition that always holds, and one outside of it, under a
    glob. -/
theorem denied_not_hidden :
    ((∃ rule ∈ denyBashAnything.rules.values, rule.behavior = .deny ∧
        ∀ toolArgs, rule.Matches "Bash" toolArgs) ∧
      "Bash" ∉ denyBashAnything.unconditionallyDeniedAgainst ["Bash"]) ∧
    (∃ rule ∈ denyAllTools.rules.values, rule.DeniesOutright "Read") ∧
      "Read" ∉ denyAllTools.unconditionallyDeniedAgainst ["Bash"] := by
  constructor
  · constructor
    · use .newPattern ⟨.exact "Bash", .primary .glob "**"⟩ .deny
      constructor
      · exact AssocMap.mem_values.mpr ⟨_, AssocMap.get?_insert_self _ _ _⟩
      · constructor
        · rfl
        · intro toolArgs
          have hop := globstar_matches normalizeWildcards_globstar (inferPrimaryValue toolArgs)
          rw [PermissionRule.Matches, PermissionRule.newPattern, matchesToolCall_pattern]
          simp [patternMatches, toolKind, evaluateOp, hop, MatchResult.isMatch]
    · decide +kernel
  · constructor
    · use .newPattern ⟨.glob "*", .any⟩ .deny
      constructor
      · exact AssocMap.mem_values.mpr ⟨_, AssocMap.get?_insert_self _ _ _⟩
      · have hglob := globstar_matches normalizeWildcards_star "Read"
        apply (deniesOutright_iff ?_ ?_).mpr
        · show (patternMatches ⟨.glob "*", .any⟩ "Read" .null).isMatch = true
          rw [patternMatches_any, toolKind, hglob]
          rfl
        · rfl
        · rfl
    · intro hmem
      obtain ⟨rule, hrule, -, hread⟩ := mem_unconditionallyDeniedAgainst.mp hmem
      obtain ⟨key, hget⟩ := AssocMap.mem_values.mp hrule
      have hrule : .newPattern ⟨.glob "*", .any⟩ .deny = rule := by
        rw [denyAllTools, AssocMap.get?_insert] at hget
        split at hget
        · exact Option.some.inj hget
        · simp at hget
      subst hrule
      cases hread with
      | inl hregistry => simp at hregistry
      | inr hexact => cases hexact

end Remo

/-! ## Overrides of a run

The rules of a run's overrides are put over those of the policy by their keys, and the merged
rules decide as one set. An override rule replaces the policy's rule under its own key; any
other rule of the policy that matches the call still counts.
-/

namespace Remo

variable {engine : PatternEngine} {policy : PermissionPolicy engine}
  {overrides : PermissionOverrides engine} {toolId : String} {toolArgs : Value}

/-! ## The highest priority -/

/-- Where something matches, the decision is a matching behavior of the highest priority. -/
theorem Decides.highest {present : ToolPermissionBehavior → Prop}
    {fallback b : ToolPermissionBehavior} (h : Decides present fallback b)
    (hsome : ∃ behavior, present behavior) :
    present b ∧ ∀ behavior, present behavior → behaviorPriority behavior ≤ behaviorPriority b := by
  cases h with
  | deny hdeny =>
    refine ⟨hdeny, fun behavior _ => ?_⟩
    cases behavior <;> decide
  | allow hno hallow =>
    refine ⟨hallow, fun behavior hb => ?_⟩
    cases behavior with
    | deny => exact absurd hb hno
    | allow => exact Nat.le_refl _
    | ask => decide
  | ask hno hno' hask =>
    refine ⟨hask, fun behavior hb => ?_⟩
    cases behavior with
    | deny => exact absurd hb hno
    | allow => exact absurd hb hno'
    | ask => exact Nat.le_refl _
  | unmatched hnone =>
    obtain ⟨behavior, hb⟩ := hsome
    exact absurd hb (hnone behavior)

/-- Behaviors of one priority are the same. -/
theorem behaviorPriority_inj {b b' : ToolPermissionBehavior}
    (h : behaviorPriority b = behaviorPriority b') : b = b' := by
  cases b <;> cases b' <;> first | rfl | cases h

/-! ## The merged rules -/

/-- A rule of the policy that no override takes the place of. -/
def PermissionPolicy.Survives (policy : PermissionPolicy engine)
    (overrides : PermissionOverrides engine) (rule : PermissionRule engine) : Prop :=
  ∃ key, policy.rules.get? key = some rule ∧ overrides.rules.get? key = none

/-- The rule set of the overrides alone. -/
theorem get?_overridesAlone (key : String) :
    (permissionRulesFromState none (some overrides)).rules.get? key = overrides.rules.get? key := by
  show (AssocMap.extend .empty overrides.rules).get? key = _
  rw [AssocMap.get?_extend, AssocMap.get?_empty, Option.or_none]

/-- In the merged rule set the rules of the overrides match, and those rules of the policy that
    survive. -/
theorem hasMatch_merged {behavior : ToolPermissionBehavior} :
    (permissionRulesFromState (some policy) (some overrides)).HasMatch toolId toolArgs behavior ↔
      (permissionRulesFromState none (some overrides)).HasMatch toolId toolArgs behavior ∨
        ∃ rule, policy.Survives overrides rule ∧ rule.Matches toolId toolArgs ∧
          rule.behavior = behavior := by
  have hmerged : ∀ key, (permissionRulesFromState (some policy) (some overrides)).rules.get? key =
      (overrides.rules.get? key).or (policy.rules.get? key) := by
    intro key
    show ((AssocMap.extend .empty policy.rules).extend overrides.rules).get? key = _
    rw [AssocMap.get?_extend, AssocMap.get?_extend, AssocMap.get?_empty, Option.or_none]
  simp only [PermissionRuleset.HasMatch, hmerged, get?_overridesAlone]
  constructor
  · intro h
    obtain ⟨key, rule, hget, hmatches, hbehavior⟩ := h
    cases hover : overrides.rules.get? key with
    | some rule' =>
      rw [hover] at hget
      obtain rfl := Option.some.inj hget
      exact .inl ⟨key, rule', hover, hmatches, hbehavior⟩
    | none =>
      rw [hover, Option.none_or] at hget
      exact .inr ⟨rule, ⟨key, hget, hover⟩, hmatches, hbehavior⟩
  · intro h
    cases h with
    | inl hover =>
      obtain ⟨key, rule, hget, hmatches, hbehavior⟩ := hover
      exact ⟨key, rule, by rw [hget, Option.some_or], hmatches, hbehavior⟩
    | inr hpolicy =>
      obtain ⟨rule, ⟨key, hget, hover⟩, hmatches, hbehavior⟩ := hpolicy
      exact ⟨key, rule, by rw [hover, Option.none_or, hget], hmatches, hbehavior⟩

/-! ## The decision -/

/-- Where an override matches a call, the merged rules decide as the overrides alone exactly when
    every surviving rule of the policy that matches the call has at most the priority of some
    matching override. -/
theorem overridesDecide_iff
    (hmatch : ∃ key rule, overrides.rules.get? key = some rule ∧ rule.Matches toolId toolArgs) :
    (evaluateToolPermission (permissionRulesFromState (some policy) (some overrides)) toolId
        toolArgs).behavior =
      (evaluateToolPermission (permissionRulesFromState none (some overrides)) toolId
        toolArgs).behavior ↔
    ∀ rule, policy.Survives overrides rule → rule.Matches toolId toolArgs →
      ∃ key override, overrides.rules.get? key = some override ∧
        override.Matches toolId toolArgs ∧
        behaviorPriority rule.behavior ≤ behaviorPriority override.behavior := by
  obtain ⟨key, rule, hget, hmatches⟩ := hmatch
  have halone : ∃ behavior, (permissionRulesFromState none (some overrides)).HasMatch toolId
      toolArgs behavior :=
    ⟨rule.behavior, key, rule, by rw [get?_overridesAlone, hget], hmatches, rfl⟩
  have hmerged : ∃ behavior, (permissionRulesFromState (some policy) (some overrides)).HasMatch
      toolId toolArgs behavior := by
    obtain ⟨behavior, h⟩ := halone
    exact ⟨behavior, hasMatch_merged.mpr (.inl h)⟩
  obtain ⟨hhas, hbest⟩ := (decides_evaluate _ toolId toolArgs).highest halone
  obtain ⟨hhas', hbest'⟩ := (decides_evaluate _ toolId toolArgs).highest hmerged
  constructor
  · intro heq rule hsurvives hrule
    obtain ⟨key, override, hover, hover', hbehavior⟩ := hhas
    rw [get?_overridesAlone] at hover
    refine ⟨key, override, hover, hover', ?_⟩
    rw [hbehavior, ← heq]
    exact hbest' _ (hasMatch_merged.mpr (.inr ⟨rule, hsurvives, hrule, rfl⟩))
  · intro houtranked
    apply behaviorPriority_inj
    apply Nat.le_antisymm
    · -- the decision of the merged rules comes from an override, or from a rule below one
      cases hasMatch_merged.mp hhas' with
      | inl hover => exact hbest _ hover
      | inr hpolicy =>
        obtain ⟨rule, hsurvives, hrule, hbehavior⟩ := hpolicy
        obtain ⟨key, override, hover, hover', hle⟩ := houtranked rule hsurvives hrule
        rw [← hbehavior]
        exact Nat.le_trans hle
          (hbest _ ⟨key, override, by rw [get?_overridesAlone, hover], hover', rfl⟩)
    · exact hbest' _ (hasMatch_merged.mpr (.inl hhas))

/-- A policy that denies a tool, by its id or by a pattern. -/
def PermissionPolicy.denying (action : PermissionAction) : PermissionPolicy .literal :=
  PermissionPolicy.default.reduce action

/-- Overrides that allow a tool. -/
def PermissionOverrides.allowing (toolId : String) : PermissionOverrides .literal :=
  PermissionOverrides.default.reduce (.allowTool toolId)

/-- An override takes the place of a rule about the tool's id. -/
theorem overridesDecide_sameKey :
    (evaluateToolPermission (permissionRulesFromState
        (some (.denying (.denyTool "Bash"))) (some (.allowing "Bash"))) "Bash" .null).behavior =
      (evaluateToolPermission (permissionRulesFromState none (some (.allowing "Bash"))) "Bash"
        .null).behavior := by
  have hover : (PermissionOverrides.allowing "Bash").rules.get? "tool:Bash" =
      some (((PermissionRule.newTool "Bash" .allow).withScope .thread).withSource .skill) := rfl
  have hmatches : (((PermissionRule.newTool "Bash" .allow).withScope .thread).withSource .skill :
      PermissionRule .literal).Matches "Bash" .null := by
    unfold PermissionRule.Matches
    rfl
  refine (overridesDecide_iff ⟨"tool:Bash", _, hover, hmatches⟩).mpr ?_
  intro rule hsurvives _
  obtain ⟨key, hget, hnone⟩ := hsurvives
  have hkey : key = "tool:Bash" := by
    by_contra hne
    have hget' : (AssocMap.empty.insert "tool:Bash" _).get? key = some rule := hget
    rw [AssocMap.get?_insert_of_ne _ _ hne] at hget'
    cases hget'
  rw [hkey, hover] at hnone
  cases hnone

/-- A rule that denies the same tool by a pattern has another key and outlives the override. -/
theorem overrides_outranked :
    (evaluateToolPermission (permissionRulesFromState
        (some (.denying (.setRule "Bash" .deny))) (some (.allowing "Bash"))) "Bash"
        .null).behavior = .deny ∧
      (evaluateToolPermission (permissionRulesFromState none (some (.allowing "Bash"))) "Bash"
        .null).behavior = .allow := by
  constructor
  · decide +kernel
  · decide +kernel

end Remo
