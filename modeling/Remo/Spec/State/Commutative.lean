import Remo.ForStd.Commuting
import Remo.Native.State.Keys

/-!
# Which updates commute

The keys declared with `MergeStrategy::Commutative` promise that their updates can be
applied in any order. For each of them this file says which pairs of updates keep the
promise.

Key results:
* `policy_commute_iff`, `overrides_commute_iff` permission actions
* `toolCalls_commute_iff`  transitions of tool calls
* `contextMessages_commute_iff`, `toolFilter_commute_iff`, `inference_commute_iff`
* `commute_iff`            the six keys together
-/

namespace Remo

variable {engine : PatternEngine}

/-! ## Permission rules -/

/-- The edit of the rules that an action makes. -/
def PermissionAction.edit (source : PermissionRuleSource) :
    PermissionAction → MapEdit String (PermissionRule engine)
  | setTool toolId behavior => toolRule toolId behavior
  | allowTool toolId => toolRule toolId .allow
  | denyTool toolId => toolRule toolId .deny
  | setRule pattern behavior =>
    match parsePattern engine pattern with
    | .ok parsed =>
      .put (PermissionSubject.pattern parsed).key ⟨.pattern parsed, behavior, .thread, source⟩
    | .error _ => .drop fun _ _ => false
  | removeTool toolId => .drop fun key _ => key == (PermissionSubject.tool toolId : PermissionSubject engine).key
  | removeRule pattern =>
    match parsePattern engine pattern with
    | .ok parsed => .drop fun key _ => key == (PermissionSubject.pattern parsed).key
    | .error _ => .drop fun _ _ => false
  | clearTools => .drop fun _ _ => true
  | setDefault _ => .drop fun _ _ => false
where
  toolRule (toolId : String) (behavior : ToolPermissionBehavior) :
      MapEdit String (PermissionRule engine) :=
    .put (PermissionSubject.tool toolId : PermissionSubject engine).key
      ⟨.tool toolId, behavior, .thread, source⟩

/-- The reducer makes the edit of the action. -/
theorem reducePermissionAction_same (rules : AssocMap String (PermissionRule engine))
    (action : PermissionAction) (source : PermissionRuleSource) :
    (reducePermissionAction rules action source).Same ((action.edit source).apply rules) := by
  intro k
  rw [MapEdit.get?_apply]
  cases action with
  | setDefault _ => simp [reducePermissionAction, PermissionAction.edit]
  | setTool toolId behavior => exact AssocMap.get?_insert _ _ _ _
  | setRule pattern behavior =>
    simp only [reducePermissionAction, upsertPatternRule, PermissionAction.edit]
    cases parsePattern engine pattern with
    | ok parsed => exact AssocMap.get?_insert _ _ _ _
    | error _ => simp
  | removeTool toolId => exact AssocMap.get?_retain _ _ _
  | removeRule pattern =>
    simp only [reducePermissionAction, PermissionAction.edit]
    cases parsePattern engine pattern with
    | ok parsed => exact AssocMap.get?_retain _ _ _
    | error _ => simp
  | clearTools => simp [reducePermissionAction, PermissionAction.edit]
  | allowTool toolId => exact AssocMap.get?_insert _ _ _ _
  | denyTool toolId => exact AssocMap.get?_insert _ _ _ _

/-- Two actions in a row make their edits in a row. -/
theorem reduce_reduce_same (rules : AssocMap String (PermissionRule engine))
    (a b : PermissionAction) (source : PermissionRuleSource) (k : String) :
    (reducePermissionAction (reducePermissionAction rules a source) b source).get? k =
      ((b.edit source).apply ((a.edit source).apply rules)).get? k := by
  rw [reducePermissionAction_same, MapEdit.get?_apply, MapEdit.get?_apply,
    reducePermissionAction_same]

/-- The rules are the same in both orders when the edits are independent. -/
theorem rules_commute_iff (rules : AssocMap String (PermissionRule engine))
    (a b : PermissionAction) (source : PermissionRuleSource) :
    (reducePermissionAction (reducePermissionAction rules a source) b source).Same
        (reducePermissionAction (reducePermissionAction rules b source) a source) ↔
      (a.edit source : MapEdit String (PermissionRule engine)).Independent (b.edit source) := by
  rw [← MapEdit.commute_iff rules]
  simp only [AssocMap.Same, reduce_reduce_same]

/-- The default behavior that an action sets. -/
def PermissionAction.default? : PermissionAction → Option ToolPermissionBehavior
  | setDefault behavior => some behavior
  | setTool _ _ | setRule _ _ | removeTool _ | removeRule _ => none
  | clearTools | allowTool _ | denyTool _ => none

/-- Policies with the same default and the same rules. -/
def PermissionPolicy.Same (p q : PermissionPolicy engine) : Prop :=
  p.defaultBehavior = q.defaultBehavior ∧ p.rules.Same q.rules

theorem PermissionPolicy.reduce_default (p : PermissionPolicy engine) (a : PermissionAction) :
    (p.reduce a).defaultBehavior = a.default?.getD p.defaultBehavior := by
  cases a <;> simp only [PermissionPolicy.reduce, PermissionAction.default?, Option.getD]

theorem PermissionPolicy.reduce_rules (p : PermissionPolicy engine) (a : PermissionAction) :
    (p.reduce a).rules = reducePermissionAction p.rules a .runtime := by
  cases a <;> simp only [PermissionPolicy.reduce, reducePermissionAction]

/-- Two values that are both set, if any, agree. -/
def Agree {α : Type*} (x y : Option α) : Prop := ∀ a ∈ x, ∀ b ∈ y, a = b

theorem agree_some {α : Type*} {a b : α} : Agree (some a) (some b) ↔ b = a := by
  simp only [Agree, Option.mem_some_iff, forall_eq']
  exact eq_comm

theorem or_comm_iff {α : Type*} {x y : Option α} : y.or x = x.or y ↔ Agree x y := by
  cases x with
  | none => simp [Agree]
  | some a => cases y with
    | none => simp [Agree]
    | some b => simp [agree_some]

theorem or_or_comm_iff {α : Type*} {x y old : Option α} :
    y.or (x.or old) = x.or (y.or old) ↔ Agree x y := by
  cases x with
  | none => simp [Agree]
  | some a => cases y with
    | none => simp [Agree]
    | some b => simp [agree_some]

theorem policy_commute_iff (p : PermissionPolicy engine) (a b : PermissionAction) :
    ((p.reduce a).reduce b).Same ((p.reduce b).reduce a) ↔
      Agree a.default? b.default? ∧
        (a.edit .runtime : MapEdit String (PermissionRule engine)).Independent
          (b.edit .runtime) := by
  simp only [PermissionPolicy.Same, PermissionPolicy.reduce_default,
    PermissionPolicy.reduce_rules, rules_commute_iff]
  apply and_congr_left
  intro _
  cases a.default? with
  | none => simp [Agree]
  | some x => cases b.default? with
    | none => simp [Agree]
    | some y => simp [agree_some]

/-- Overrides with the same rules. -/
def PermissionOverrides.Same (p q : PermissionOverrides engine) : Prop := p.rules.Same q.rules

theorem overrides_commute_iff (p : PermissionOverrides engine) (a b : PermissionAction) :
    ((p.reduce a).reduce b).Same ((p.reduce b).reduce a) ↔
      (a.edit .skill : MapEdit String (PermissionRule engine)).Independent (b.edit .skill) := by
  simp only [PermissionOverrides.Same, PermissionOverrides.reduce, rules_commute_iff]

/-! ## Context messages -/

/-- The edit of the messages that an action makes. -/
def ContextMessageAction.edit : ContextMessageAction → MapEdit String ContextMessage
  | upsert msg => .put msg.key msg
  | remove key => .drop fun k _ => k == key
  | removeByPrefix pre => .drop fun k _ => pre.toList.isPrefixOf k.toList
  | removeEphemeral => .drop fun _ m => !m.persistent
  | .consumeAfterEmit => .drop fun _ m => m.consumeAfterEmit
  | clear => .drop fun _ _ => true

def ContextMessageStoreValue.Same (v w : ContextMessageStoreValue) : Prop :=
  v.messages.Same w.messages

theorem ContextMessageStoreValue.apply_same (v : ContextMessageStoreValue)
    (action : ContextMessageAction) :
    (v.apply action).messages.Same (action.edit.apply v.messages) := by
  intro k
  rw [MapEdit.get?_apply]
  cases action with
  | upsert msg => exact AssocMap.get?_insert _ _ _ _
  | remove key => exact AssocMap.get?_retain _ _ _
  | removeByPrefix pre => exact AssocMap.get?_retain _ _ _
  | removeEphemeral =>
    simp [ContextMessageStoreValue.apply, ContextMessageAction.edit, AssocMap.get?_retain,
      MapEdit.entry]
  | consumeAfterEmit => exact AssocMap.get?_retain _ _ _
  | clear => simp [ContextMessageStoreValue.apply, ContextMessageAction.edit]

theorem contextMessages_commute_iff (v : ContextMessageStoreValue)
    (a b : ContextMessageAction) :
    ((v.apply a).apply b).Same ((v.apply b).apply a) ↔ a.edit.Independent b.edit := by
  rw [← MapEdit.commute_iff v.messages]
  simp only [ContextMessageStoreValue.Same, AssocMap.Same,
    ContextMessageStoreValue.apply_same _ _ _, MapEdit.get?_apply]

/-! ## Tool filter -/

/-- Filters with the same exclusions and the same inclusion lists, in any order. -/
def ToolFilterStateValue.Same (v w : ToolFilterStateValue) : Prop :=
  v.excluded.Perm w.excluded ∧ v.includeOnly.Perm w.includeOnly

/-- Two updates that clear the filter, or two that do not. -/
def ToolFilterStateAction.Independent (a b : ToolFilterStateAction) : Prop :=
  a = .clear ↔ b = .clear

theorem append_swap {α : Type*} (l : List α) (a b : α) :
    ((l ++ [a]) ++ [b]).Perm ((l ++ [b]) ++ [a]) := by
  rw [List.append_assoc, List.append_assoc]
  exact (List.Perm.swap b a []).append_left l

theorem toolFilter_commute_iff (v : ToolFilterStateValue) (a b : ToolFilterStateAction) :
    ((v.apply a).apply b).Same ((v.apply b).apply a) ↔ a.Independent b := by
  unfold ToolFilterStateValue.Same ToolFilterStateAction.Independent
  cases a with
  | exclude x => cases b with
    | exclude y => simpa [ToolFilterStateValue.apply] using append_swap v.excluded x y
    | includeOnly ys => simp [ToolFilterStateValue.apply]
    | clear => simp [ToolFilterStateValue.apply]
  | includeOnly xs => cases b with
    | exclude y => simp [ToolFilterStateValue.apply]
    | includeOnly ys => simpa [ToolFilterStateValue.apply] using append_swap v.includeOnly xs ys
    | clear => simp [ToolFilterStateValue.apply]
  | clear => cases b <;> simp [ToolFilterStateValue.apply]

/-! ## Tool call states -/

def ToolCallStateMap.Same (v w : ToolCallStateMap) : Prop := v.calls.Same w.calls

/-- From the status `c` the transitions to `a` and to `b` end in one state, whichever is
    tried first: the second one is skipped in one order only, or what is skipped from `c` is
    skipped after the other as well. -/
def ToolCallStatus.OneOutcome (c a b : ToolCallStatus) : Prop :=
  match c.canTransitionTo a, c.canTransitionTo b with
  | true, true => a.canTransitionTo b ≠ b.canTransitionTo a
  | true, false => a.canTransitionTo b = false
  | false, true => b.canTransitionTo a = false
  | false, false => True

/-- Two updates of different calls, of one call to one state, or with one outcome from the
    status the call has; or two clears. -/
def ToolCallStatesUpdate.Independent (v : ToolCallStateMap) :
    ToolCallStatesUpdate → ToolCallStatesUpdate → Prop
  | put s, put t =>
    s.callId ≠ t.callId ∨ s.normalized = t.normalized ∨
      (v.currentStatus s.callId).OneOutcome s.status t.status
  | clear, clear => True
  | put _, clear => False
  | clear, put _ => False

/-- The status of a call with the given state. -/
def statusOf (old : Option ToolCallState) : ToolCallStatus :=
  (old.map ToolCallState.status).getD .new

/-- A state put in place of the old one, where the transition is valid. -/
def ToolCallState.replace (state : ToolCallState) (old : Option ToolCallState) :
    Option ToolCallState :=
  if (statusOf old).canTransitionTo state.status then some state.normalized else old

theorem replace_of_valid {state : ToolCallState} {old : Option ToolCallState}
    (h : (statusOf old).canTransitionTo state.status = true) :
    state.replace old = some state.normalized := if_pos h

theorem replace_of_invalid {state : ToolCallState} {old : Option ToolCallState}
    (h : (statusOf old).canTransitionTo state.status = false) : state.replace old = old :=
  if_neg (by simp [h])

/-- What is replaced in turn goes by the status of the state put last. -/
theorem replace_normalized (s t : ToolCallState) :
    t.replace (some s.normalized) =
      if s.status.canTransitionTo t.status then some t.normalized else some s.normalized := rfl

/-- An update, call by call. -/
theorem ToolCallStateMap.get?_put (v : ToolCallStateMap) (state : ToolCallState) (k : String) :
    (v.apply (.put state)).calls.get? k =
      if k = state.callId then state.replace (v.calls.get? k) else v.calls.get? k := by
  have hstatus : v.currentStatus state.callId = statusOf (v.calls.get? state.callId) := rfl
  simp only [ToolCallStateMap.apply, hstatus]
  by_cases hk : k = state.callId
  · subst hk
    cases hvalid : (statusOf (v.calls.get? state.callId)).canTransitionTo state.status with
    | true => simp [replace_of_valid hvalid]
    | false => simp [replace_of_invalid hvalid]
  · cases (statusOf (v.calls.get? state.callId)).canTransitionTo state.status with
    | true => simp [hk, AssocMap.get?_insert_of_ne _ _ hk]
    | false => simp [hk]

/-- Two states for one call end in one state when they are the same or have one outcome. -/
theorem replace_comm_iff (s t : ToolCallState) (old : Option ToolCallState) :
    t.replace (s.replace old) = s.replace (t.replace old) ↔
      s.normalized = t.normalized ∨ (statusOf old).OneOutcome s.status t.status := by
  by_cases hsame : s.normalized = t.normalized
  · have hst : s.status = t.status := by
      have := congrArg ToolCallState.status hsame
      exact this
    simp [ToolCallState.replace, hsame, hst]
  · have hsame' : t.normalized ≠ s.normalized := Ne.symm hsame
    unfold ToolCallStatus.OneOutcome
    cases hs : (statusOf old).canTransitionTo s.status with
    | true =>
      rw [replace_of_valid hs]
      cases ht : (statusOf old).canTransitionTo t.status with
      | true =>
        rw [replace_of_valid ht, replace_normalized, replace_normalized]
        cases s.status.canTransitionTo t.status <;> cases t.status.canTransitionTo s.status <;>
          simp [hsame, hsame']
      | false =>
        rw [replace_of_invalid ht, replace_of_valid hs, replace_normalized]
        cases s.status.canTransitionTo t.status <;> simp [hsame, hsame']
    | false =>
      rw [replace_of_invalid hs]
      cases ht : (statusOf old).canTransitionTo t.status with
      | true =>
        rw [replace_of_valid ht, replace_normalized]
        cases t.status.canTransitionTo s.status <;> simp [hsame, hsame']
      | false => simp [replace_of_invalid hs, replace_of_invalid ht]

/-- Anything can follow a new call. -/
theorem canTransitionTo_of_new (status : ToolCallStatus) :
    ToolCallStatus.new.canTransitionTo status = true := by
  cases status <;> rfl

/-- A put before a clear is lost, and one after it is kept. -/
theorem put_clear_not_same (v : ToolCallStateMap) (s : ToolCallState) :
    ((v.apply .clear).apply (.put s)).calls.get? s.callId ≠
      ((v.apply (.put s)).apply .clear).calls.get? s.callId := by
  rw [ToolCallStateMap.get?_put, if_pos rfl]
  have hput : s.replace ((v.apply .clear).calls.get? s.callId) = some s.normalized :=
    replace_of_valid (canTransitionTo_of_new s.status)
  rw [hput]
  exact Option.some_ne_none _

theorem toolCalls_commute_iff (v : ToolCallStateMap) (a b : ToolCallStatesUpdate) :
    ((v.apply a).apply b).Same ((v.apply b).apply a) ↔ a.Independent v b := by
  cases a with
  | put s => cases b with
    | put t =>
      simp only [ToolCallStateMap.Same, AssocMap.Same, ToolCallStateMap.get?_put,
        ToolCallStatesUpdate.Independent]
      by_cases hid : s.callId = t.callId
      · -- only the entry of the one call is at stake
        rw [← hid]
        have hentry := replace_comm_iff s t (v.calls.get? s.callId)
        constructor
        · intro h
          right
          exact hentry.mp (by simpa using h s.callId)
        · intro h k
          by_cases hk : k = s.callId
          · subst hk
            simpa using hentry.mpr (h.resolve_left fun hne => hne rfl)
          · simp [hk]
      · constructor
        · exact fun _ => .inl hid
        · intro _ k
          by_cases hs : k = s.callId
          · simp [hs, hid]
          · simp [hs]
    | clear =>
      constructor
      · exact fun h => put_clear_not_same v s (h s.callId).symm
      · exact False.elim
  | clear => cases b with
    | put t =>
      constructor
      · exact fun h => put_clear_not_same v t (h t.callId)
      · exact False.elim
    | clear => exact ⟨fun _ => trivial, fun _ _ => rfl⟩

/-! ## Inference overrides -/

/-- No field is set to two values. -/
def InferenceOverride.Agree (a b : InferenceOverride) : Prop :=
  Remo.Agree a.upstreamModel b.upstreamModel ∧ Remo.Agree a.temperature b.temperature ∧
    Remo.Agree a.maxTokens b.maxTokens ∧ Remo.Agree a.topP b.topP ∧
    Remo.Agree a.reasoningEffort b.reasoningEffort

/-- Two merges that agree, or two clears. -/
def InferenceOverrideStateAction.Independent :
    InferenceOverrideStateAction → InferenceOverrideStateAction → Prop
  | merge a, merge b => a.Agree b
  | clear, clear => True
  | merge _, clear => False
  | clear, merge _ => False

theorem inference_commute_iff (v : InferenceOverrideStateValue)
    (a b : InferenceOverrideStateAction) :
    (v.apply a).apply b = (v.apply b).apply a ↔ a.Independent b := by
  cases a with
  | merge x => cases b with
    | merge y =>
      cases hold : v.overrides with
      | none =>
        simp [InferenceOverrideStateValue.apply, InferenceOverrideStateAction.Independent,
          InferenceOverride.Agree, InferenceOverride.merge, hold, or_comm_iff]
      | some old =>
        simp [InferenceOverrideStateValue.apply, InferenceOverrideStateAction.Independent,
          InferenceOverride.Agree, InferenceOverride.merge, hold, or_or_comm_iff]
    | clear =>
      simp [InferenceOverrideStateValue.apply, InferenceOverrideStateAction.Independent]
  | clear => cases b with
    | merge y =>
      simp [InferenceOverrideStateValue.apply, InferenceOverrideStateAction.Independent]
    | clear =>
      simp [InferenceOverrideStateValue.apply, InferenceOverrideStateAction.Independent]

/-! ## The six keys -/

namespace CommutativeKey

/-- Equal values, hash maps and the lists of the tool filter in any order. -/
def Same : (K : CommutativeKey) → K.Value engine → K.Value engine → Prop
  | permissionPolicyKey, v, w => PermissionPolicy.Same v w
  | permissionOverridesKey, v, w => PermissionOverrides.Same v w
  | toolCallStates, v, w => ToolCallStateMap.Same v w
  | contextMessageStore, v, w => ContextMessageStoreValue.Same v w
  | toolFilterState, v, w => ToolFilterStateValue.Same v w
  | inferenceOverrideState, v, w => v = w

/-- The pairs of updates that commute on the value. -/
def Independent : (K : CommutativeKey) → K.Value engine → K.Update → K.Update → Prop
  | permissionPolicyKey, _, a, b =>
    Agree (PermissionAction.default? a) (PermissionAction.default? b) ∧
      (PermissionAction.edit .runtime a : MapEdit String (PermissionRule engine)).Independent
        (PermissionAction.edit .runtime b)
  | permissionOverridesKey, _, a, b =>
    (PermissionAction.edit .skill a : MapEdit String (PermissionRule engine)).Independent
      (PermissionAction.edit .skill b)
  | toolCallStates, v, a, b => ToolCallStatesUpdate.Independent v a b
  | contextMessageStore, _, a, b =>
    (ContextMessageAction.edit a).Independent (ContextMessageAction.edit b)
  | toolFilterState, _, a, b => ToolFilterStateAction.Independent a b
  | inferenceOverrideState, _, a, b => InferenceOverrideStateAction.Independent a b

/-- Two updates of a key give the same value in both orders exactly when they are
    independent. -/
theorem commute_iff (K : CommutativeKey) (v : K.Value engine) (a b : K.Update) :
    K.Same (K.apply (K.apply v a) b) (K.apply (K.apply v b) a) ↔ K.Independent v a b := by
  cases K with
  | permissionPolicyKey => exact policy_commute_iff v a b
  | permissionOverridesKey => exact overrides_commute_iff v a b
  | toolCallStates => exact toolCalls_commute_iff v a b
  | contextMessageStore => exact contextMessages_commute_iff v a b
  | toolFilterState => exact toolFilter_commute_iff v a b
  | inferenceOverrideState => exact inference_commute_iff v a b

end CommutativeKey

end Remo
