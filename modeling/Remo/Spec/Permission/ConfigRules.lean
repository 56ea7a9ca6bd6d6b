import Remo.Native.Permission.Policy

/-!
# Configured rules

A rule is in force when the rule set has it under its key and it matches the calls that its
text denotes. Texts the parser rejects denote nothing, but they are made into rules.

## Key results

- `ruleOfPattern`: an entry whose text is a pattern becomes the rule about it
- `configInForce_iff`: when a configuration is rejected or all its rules are in force
-/

namespace Remo

/-! ## The condition -/

/-- The text is a pattern that matches the call. -/
def Denotes (engine : PatternEngine) (text toolId : String) (toolArgs : Value) : Prop :=
  ∃ pattern, parsePattern engine text = .ok pattern ∧
    (patternMatches pattern toolId toolArgs).isMatch = true

/-- Both texts are patterns, and their rules have one key. -/
def SameKey (engine : PatternEngine) (text text' : String) : Prop :=
  ∃ pattern pattern', parsePattern engine text = .ok pattern ∧
    parsePattern engine text' = .ok pattern' ∧ pattern.display = pattern'.display

/-- The rule of the entry, or one that cannot be told from it, is in the rule set. It matches a
    call, and exactly the calls that the entry's text denotes. -/
def InForce (engine : PatternEngine) (ruleset : PermissionRuleset engine)
    (entry : PermissionRuleEntry) : Prop :=
  ∃ rule stored, ruleFromEntry engine entry = .ok rule ∧
    ruleset.rules.get? rule.subject.key = some stored ∧
      stored.behavior = entry.behavior ∧ stored.scope = entry.scope ∧
        (∃ toolId toolArgs, (stored.subject.matchesToolCall toolId toolArgs).isSome = true) ∧
          ∀ toolId toolArgs, (stored.subject.matchesToolCall toolId toolArgs).isSome = true ↔
            Denotes engine entry.tool toolId toolArgs

/-- The conversion reports an entry that is no pattern, or all rules are in force. -/
def ConfigInForce (engine : PatternEngine) (config : PermissionRulesConfig) : Prop :=
  (∃ entry reason, entry ∈ config.rules ∧
      config.intoRuleset engine = .error (.error (.invalidPattern entry.tool reason)) ∧
        ∃ e, parsePattern engine entry.tool = .error (.error e)) ∨
    ∃ ruleset, config.intoRuleset engine = .ok ruleset ∧
      ∀ entry ∈ config.rules, InForce engine ruleset entry

/-- Every text is a pattern that matches a call, and entries with one key do not differ. -/
structure PatternsAgree (engine : PatternEngine) (config : PermissionRulesConfig) : Prop where
  denotes : ∀ entry ∈ config.rules, ∃ toolId toolArgs, Denotes engine entry.tool toolId toolArgs
  agree : ∀ entry ∈ config.rules, ∀ other ∈ config.rules, SameKey engine entry.tool other.tool →
    entry.behavior = other.behavior ∧ entry.scope = other.scope ∧
      ∀ toolId toolArgs, Denotes engine entry.tool toolId toolArgs ↔
        Denotes engine other.tool toolId toolArgs

variable {engine : PatternEngine} {entry : PermissionRuleEntry}

/-! ## One entry -/

/-- The rule about a pattern. -/
def PermissionRuleEntry.about (entry : PermissionRuleEntry) (pattern : ToolCallPattern engine) :
    PermissionRule engine :=
  ⟨.pattern pattern, entry.behavior, entry.scope, .definition⟩

/-- An entry whose text is a pattern becomes the rule about it. -/
theorem ruleOfPattern {pattern : ToolCallPattern engine}
    (h : parsePattern engine entry.tool = .ok pattern) :
    ruleFromEntry engine entry = .ok (entry.about pattern) := by
  unfold ruleFromEntry
  rw [h]
  rfl

/-- A rule about a pattern matches the calls that the pattern matches. -/
theorem matchesToolCall_about (pattern : ToolCallPattern engine) (toolId : String)
    (toolArgs : Value) :
    ((entry.about pattern).subject.matchesToolCall toolId toolArgs).isSome = true ↔
      (patternMatches pattern toolId toolArgs).isMatch = true := by
  show (PermissionSubject.matchesToolCall (.pattern pattern) toolId toolArgs).isSome = true ↔ _
  unfold PermissionSubject.matchesToolCall
  dsimp only
  cases patternMatches pattern toolId toolArgs with
  | matched specificity => simp [MatchResult.isMatch]
  | noMatch => simp [MatchResult.isMatch]

theorem denotes_iff {text : String} {pattern : ToolCallPattern engine}
    (h : parsePattern engine text = .ok pattern) (toolId : String) (toolArgs : Value) :
    Denotes engine text toolId toolArgs ↔
      (patternMatches pattern toolId toolArgs).isMatch = true := by
  constructor
  · intro hdenotes
    obtain ⟨pattern', hpattern', hmatch⟩ := hdenotes
    rw [h] at hpattern'
    cases hpattern'
    exact hmatch
  · intro hmatch
    exact ⟨pattern, h, hmatch⟩

/-- No entry is reported as an error. -/
theorem ruleFromEntry_ne_error (entry : PermissionRuleEntry) (e : PermissionConfigError) :
    ruleFromEntry engine entry ≠ .error (.error e) := by
  unfold ruleFromEntry
  split
  · simp
  · simp
  · split <;> simp

theorem key_about_eq_iff {entry entry' : PermissionRuleEntry}
    {pattern pattern' : ToolCallPattern engine} :
    (entry.about pattern).subject.key = (entry'.about pattern').subject.key ↔
      pattern.display = pattern'.display := by
  show "pattern:" ++ pattern.display = "pattern:" ++ pattern'.display ↔ _
  exact String.append_right_inj _

/-! ## All entries -/

/-- The fold of the conversion. -/
def putRule (ruleset : PermissionRuleset engine) (entry : PermissionRuleEntry) :
    Except ConfigFailure (PermissionRuleset engine) :=
  (ruleFromEntry engine entry).map ruleset.put

theorem foldlM_putRule_ne_error (entries : List PermissionRuleEntry)
    (ruleset : PermissionRuleset engine) (e : PermissionConfigError) :
    entries.foldlM putRule ruleset ≠ .error (.error e) := by
  induction entries generalizing ruleset with
  | nil =>
    intro h
    cases h
  | cons entry entries ih =>
    intro h
    rw [List.foldlM_cons] at h
    unfold putRule at h
    cases hrule : ruleFromEntry engine entry with
    | error failure =>
      rw [hrule] at h
      cases h
      exact ruleFromEntry_ne_error entry e hrule
    | ok rule =>
      rw [hrule] at h
      exact ih (ruleset.put rule) h

/-- Where every text is a pattern, the conversion succeeds, and every key of an entry has the
    rule of an entry with this key. -/
theorem foldlM_putRule_ok {entries : List PermissionRuleEntry}
    (h : ∀ entry ∈ entries, ∃ pattern, parsePattern engine entry.tool = .ok pattern)
    (ruleset : PermissionRuleset engine) :
    ∃ result, entries.foldlM putRule ruleset = .ok result ∧
      ∀ key, (result.rules.get? key = ruleset.rules.get? key ∧
          ∀ entry ∈ entries, ∀ pattern, parsePattern engine entry.tool = .ok pattern →
            (entry.about pattern).subject.key ≠ key) ∨
        ∃ entry ∈ entries, ∃ pattern, parsePattern engine entry.tool = .ok pattern ∧
          (entry.about pattern).subject.key = key ∧
            result.rules.get? key = some (entry.about pattern) := by
  induction entries generalizing ruleset with
  | nil =>
    refine ⟨ruleset, rfl, ?_⟩
    intro key
    apply Or.inl
    refine ⟨rfl, ?_⟩
    intro entry hentry
    cases hentry
  | cons entry entries ih =>
    obtain ⟨pattern, hpattern⟩ := h entry List.mem_cons_self
    obtain ⟨result, hresult, hkeys⟩ := ih (fun e he => h e (List.mem_cons_of_mem _ he))
      (ruleset.put (entry.about pattern))
    refine ⟨result, ?_, ?_⟩
    · rw [List.foldlM_cons]
      unfold putRule
      rw [ruleOfPattern hpattern]
      exact hresult
    · intro key
      cases hkeys key with
      | inr hlater =>
        obtain ⟨other, hother, rest⟩ := hlater
        exact Or.inr ⟨other, List.mem_cons_of_mem _ hother, rest⟩
      | inl hkept =>
        obtain ⟨hget, hnone⟩ := hkept
        have hput : (ruleset.put (entry.about pattern)).rules.get? key =
            if key = (entry.about pattern).subject.key then some (entry.about pattern)
            else ruleset.rules.get? key := AssocMap.get?_insert _ _ _ _
        rw [hput] at hget
        by_cases hkey : key = (entry.about pattern).subject.key
        · rw [if_pos hkey] at hget
          exact Or.inr ⟨entry, List.mem_cons_self, pattern, hpattern, hkey.symm, hget⟩
        · rw [if_neg hkey] at hget
          apply Or.inl
          refine ⟨hget, ?_⟩
          intro other hother pattern' hpattern'
          cases List.mem_cons.mp hother with
          | inr hmem => exact hnone other hmem pattern' hpattern'
          | inl heq =>
            rw [heq] at hpattern' ⊢
            rw [hpattern] at hpattern'
            cases hpattern'
            exact fun hsame => hkey hsame.symm

/-- An entry in force has a text that denotes a call. -/
theorem InForce.denotes {ruleset : PermissionRuleset engine} (h : InForce engine ruleset entry) :
    ∃ toolId toolArgs, Denotes engine entry.tool toolId toolArgs := by
  obtain ⟨rule, stored, -, -, -, -, hcall, hexact⟩ := h
  obtain ⟨toolId, toolArgs, hmatch⟩ := hcall
  exact ⟨toolId, toolArgs, (hexact toolId toolArgs).mp hmatch⟩

/-- Two entries in force under one key do not differ. -/
theorem InForce.agree {ruleset : PermissionRuleset engine} {other : PermissionRuleEntry}
    (h : InForce engine ruleset entry) (hother : InForce engine ruleset other)
    (hkey : SameKey engine entry.tool other.tool) :
    entry.behavior = other.behavior ∧ entry.scope = other.scope ∧
      ∀ toolId toolArgs, Denotes engine entry.tool toolId toolArgs ↔
        Denotes engine other.tool toolId toolArgs := by
  obtain ⟨pattern, pattern', hpattern, hpattern', hdisplay⟩ := hkey
  obtain ⟨rule, stored, hrule, hget, hbehavior, hscope, -, hexact⟩ := h
  obtain ⟨rule', stored', hrule', hget', hbehavior', hscope', -, hexact'⟩ := hother
  rw [ruleOfPattern hpattern] at hrule
  rw [ruleOfPattern hpattern'] at hrule'
  cases hrule
  cases hrule'
  have hsame : stored = stored' := by
    rw [key_about_eq_iff.mpr hdisplay, hget'] at hget
    exact (Option.some.inj hget).symm
  subst hsame
  refine ⟨by rw [← hbehavior, hbehavior'], by rw [← hscope, hscope'], ?_⟩
  intro toolId toolArgs
  rw [← hexact, hexact']

/-- When a configuration is rejected or all its rules are in force. -/
theorem configInForce_iff (engine : PatternEngine) (config : PermissionRulesConfig) :
    ConfigInForce engine config ↔ PatternsAgree engine config := by
  constructor
  · intro h
    cases h with
    | inl herror =>
      obtain ⟨entry, reason, -, hresult, -⟩ := herror
      exact absurd hresult (foldlM_putRule_ne_error _ _ _)
    | inr hruleset =>
      obtain ⟨ruleset, -, hforce⟩ := hruleset
      constructor
      · intro entry hentry
        exact (hforce entry hentry).denotes
      · intro entry hentry other hother hkey
        exact (hforce entry hentry).agree (hforce other hother) hkey
  · intro h
    have hparses : ∀ entry ∈ config.rules, ∃ pattern,
        parsePattern engine entry.tool = .ok pattern := by
      intro entry hentry
      obtain ⟨toolId, toolArgs, pattern, hpattern, -⟩ := h.denotes entry hentry
      exact ⟨pattern, hpattern⟩
    obtain ⟨ruleset, hresult, hkeys⟩ :=
      foldlM_putRule_ok hparses ⟨config.defaultBehavior, AssocMap.empty⟩
    apply Or.inr
    refine ⟨ruleset, hresult, ?_⟩
    intro entry hentry
    obtain ⟨pattern, hpattern⟩ := hparses entry hentry
    cases hkeys (entry.about pattern).subject.key with
    | inl hnone => exact absurd rfl (hnone.2 entry hentry pattern hpattern)
    | inr hstored =>
      obtain ⟨other, hother, pattern', hpattern', hkey, hget⟩ := hstored
      have hsame : SameKey engine entry.tool other.tool :=
        ⟨pattern, pattern', hpattern, hpattern', (key_about_eq_iff.mp hkey).symm⟩
      obtain ⟨hbehavior, hscope, hdenotes⟩ := h.agree entry hentry other hother hsame
      have hexact : ∀ toolId toolArgs,
          ((other.about pattern').subject.matchesToolCall toolId toolArgs).isSome = true ↔
            Denotes engine entry.tool toolId toolArgs := by
        intro toolId toolArgs
        rw [matchesToolCall_about, hdenotes, denotes_iff hpattern']
      obtain ⟨toolId, toolArgs, hcall⟩ := h.denotes entry hentry
      exact ⟨entry.about pattern, other.about pattern', ruleOfPattern hpattern, hget,
        hbehavior.symm, hscope.symm, ⟨toolId, toolArgs, (hexact toolId toolArgs).mpr hcall⟩,
        hexact⟩

/-- A Deny rule with an open parenthesis becomes a rule about a tool of this name. -/
theorem configInForce_fails_openParenthesis :
    ¬ ConfigInForce .literal ⟨.allow, [⟨"Bash(npm", .deny, .project⟩]⟩ := by
  intro h
  cases h with
  | inl herror =>
    obtain ⟨entry, reason, -, hresult, -⟩ := herror
    exact absurd hresult (foldlM_putRule_ne_error _ _ _)
  | inr hruleset =>
    obtain ⟨ruleset, -, hforce⟩ := hruleset
    obtain ⟨toolId, toolArgs, pattern, hpattern, -⟩ :=
      (hforce ⟨"Bash(npm", .deny, .project⟩ List.mem_cons_self).denotes
    have hrejected : (parsePattern .literal "Bash(npm").isOk = false := by decide +kernel
    rw [hpattern] at hrejected
    cases hrejected

end Remo
