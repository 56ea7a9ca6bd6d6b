import Mathlib.Data.List.TakeWhile
import Remo.Native.Background.Manager
import Remo.Native.Loop.Resume
import Remo.Spec.State.Merge

/-!
# Resuming all calls or none

The loop commits one decision after another. When a decision names no call, the decisions in
front of it have been committed, unless the calls they name refuse them or already have the
state that they put.

## Key results

- `rewrite_eq_self_iff`: when a series of decisions leaves a call as it was
- `preparesAtomically_iff`: when a failure leaves all calls as they were
-/

namespace Remo

/-! ## The condition -/

/-- The decision names a call. -/
def ToolCallStateMap.resolves (states : ToolCallStateMap) (request : ResumeRequest) : Bool :=
  (resolveCallTarget states request.targetId).isSome

/-- The decision names this call. -/
def ToolCallStateMap.names (states : ToolCallStateMap) (callId : String)
    (request : ResumeRequest) : Bool :=
  (resolveCallTarget states request.targetId).map Prod.fst == some callId

/-- The status lets the decision through. -/
def ToolCallStatus.accepts (status : ToolCallStatus) (request : ResumeRequest) : Bool :=
  status.canTransitionTo request.decision.action.status

/-- The decisions about a call that its status lets through. -/
def acceptedFor (states : ToolCallStateMap) (callId : String) (st : ToolCallState)
    (requests : List ResumeRequest) : List ResumeRequest :=
  (requests.filter (states.names callId)).filter st.status.accepts

/-- What a decision about a call in the given state leaves. -/
def ResumeRequest.written (request : ResumeRequest)
    (resumeModeOverride : Option ToolCallResumeMode) (callId : String) (st : ToolCallState) :
    ToolCallState :=
  (request.resumed resumeModeOverride callId st).normalized

/-- The accepted decisions do not move the call to another status, and the last of them writes
    the state that the call has. -/
def RewritesOnly (states : ToolCallStateMap) (resumeModeOverride : Option ToolCallResumeMode)
    (requests : List ResumeRequest) (callId : String) (st : ToolCallState) : Prop :=
  (∀ request ∈ acceptedFor states callId st requests,
      request.decision.action.status = st.status) ∧
    ∀ request, (acceptedFor states callId st requests).getLast? = some request →
      request.written resumeModeOverride callId st = st

variable {keys : StateKeys}

/-- The key of the tool call states is registered. -/
def StateStore.HoldsToolCalls (store : StateStore (loopKeys keys)) : Prop :=
  (store.registry.keysByName.get? "__runtime.tool_call_states").isSome = true

/-- Where a decision names no call, the decisions in front of the first such one change no
    call. -/
def EarlierChangeNothing (decisions : List ResumeRequest)
    (resumeModeOverride : Option ToolCallResumeMode) (store : StateStore (loopKeys keys)) : Prop :=
  store.HoldsToolCalls → (∃ request ∈ decisions, store.toolCalls.resolves request = false) →
    ∀ callId st, store.toolCalls.calls.get? callId = some st →
      RewritesOnly store.toolCalls resumeModeOverride
        (decisions.takeWhile store.toolCalls.resolves) callId st

/-- A failure over a decision that names no call changes no call, and a success only the calls
    that are named. -/
structure PreparesAtomically (decisions : List ResumeRequest)
    (resumeModeOverride : Option ToolCallResumeMode) (store : StateStore (loopKeys keys)) :
    Prop where
  onError : ∀ e, (∃ request ∈ decisions, store.toolCalls.resolves request = false) →
    (prepareResume decisions resumeModeOverride store).1 = .error e →
      ∀ callId, (prepareResume decisions resumeModeOverride store).2.toolCalls.calls.get? callId =
        store.toolCalls.calls.get? callId
  onOk : (prepareResume decisions resumeModeOverride store).1 = .ok () →
    ∀ callId, (∀ request ∈ decisions, store.toolCalls.names callId request = false) →
      (prepareResume decisions resumeModeOverride store).2.toolCalls.calls.get? callId =
        store.toolCalls.calls.get? callId

/-! ## One call -/

/-- The state a decision leaves, where the call's status lets it through. -/
def rewrite (written : ResumeRequest → ToolCallState) (current : ToolCallState)
    (request : ResumeRequest) : ToolCallState :=
  if current.status.accepts request then written request else current

/-- The call has left the status and does not come back to it. -/
def Gone (origin status : ToolCallStatus) : Prop :=
  status ≠ origin ∧ origin.canTransitionTo status = true ∧
    (status = .resuming ∨ status = .cancelled)

instance decidableGone (origin status : ToolCallStatus) : Decidable (Gone origin status) :=
  inferInstanceAs (Decidable (_ ∧ _ ∧ (_ ∨ _)))

theorem gone_of_accepted {origin : ToolCallStatus} {action : ResumeDecisionAction}
    (hne : action.status ≠ origin) (h : origin.canTransitionTo action.status = true) :
    Gone origin action.status := by
  cases action with
  | resume => exact ⟨hne, h, Or.inl rfl⟩
  | cancel => exact ⟨hne, h, Or.inr rfl⟩

/-- Every decision keeps a call away from the status it left. -/
theorem gone_step {origin status : ToolCallStatus} {action : ResumeDecisionAction}
    (h : Gone origin status) (haccept : status.canTransitionTo action.status = true) :
    Gone origin action.status := by
  revert h haccept
  cases origin <;> cases status <;> cases action <;> decide

variable {written : ResumeRequest → ToolCallState}

theorem gone_foldl {origin : ToolCallStatus}
    (hwritten : ∀ request, (written request).status = request.decision.action.status)
    {current : ToolCallState} (h : Gone origin current.status) (requests : List ResumeRequest) :
    Gone origin (requests.foldl (rewrite written) current).status := by
  induction requests generalizing current with
  | nil => exact h
  | cons request requests ih =>
    apply ih
    unfold rewrite
    split
    · rename_i haccept
      rw [hwritten]
      exact gone_step h haccept
    · exact h

/-- The call leaves its status with the first accepted decision for another one. -/
theorem foldl_leaves {origin : ToolCallStatus}
    (hwritten : ∀ request, (written request).status = request.decision.action.status)
    {current : ToolCallState} (hcurrent : current.status = origin)
    {requests : List ResumeRequest} {request : ResumeRequest} (hmem : request ∈ requests)
    (haccept : origin.accepts request = true)
    (hne : request.decision.action.status ≠ origin) :
    (requests.foldl (rewrite written) current).status ≠ origin := by
  induction requests generalizing current with
  | nil => cases hmem
  | cons first requests ih =>
    rw [List.foldl_cons]
    by_cases hfirst : origin.accepts first = true
    · have hstep : rewrite written current first = written first := by
        unfold rewrite
        rw [hcurrent, if_pos hfirst]
      rw [hstep]
      by_cases hsame : first.decision.action.status = origin
      · -- the first decision does not count, it is not the one that leaves
        cases List.mem_cons.mp hmem with
        | inl heq =>
          rw [heq] at hne
          exact absurd hsame hne
        | inr hmem => exact ih (by rw [hwritten, hsame]) hmem
      · have hgone : Gone origin (written first).status := by
          rw [hwritten]
          exact gone_of_accepted hsame hfirst
        exact (gone_foldl hwritten hgone requests).1
    · have hstep : rewrite written current first = current := by
        unfold rewrite
        rw [hcurrent, if_neg hfirst]
      rw [hstep]
      cases List.mem_cons.mp hmem with
      | inl heq =>
        rw [heq] at haccept
        exact absurd haccept hfirst
      | inr hmem => exact ih hcurrent hmem

/-- A call that stays in its status has what the last accepted decision wrote. -/
theorem foldl_stays {origin : ToolCallStatus}
    (hwritten : ∀ request, (written request).status = request.decision.action.status)
    {current : ToolCallState} (hcurrent : current.status = origin)
    {requests : List ResumeRequest}
    (h : ∀ request ∈ requests, origin.accepts request = true →
      request.decision.action.status = origin) :
    requests.foldl (rewrite written) current =
      (((requests.filter origin.accepts).getLast?).map written).getD current := by
  induction requests generalizing current with
  | nil => rfl
  | cons first requests ih =>
    have hrest := fun request hmem => h request (List.mem_cons_of_mem first hmem)
    rw [List.foldl_cons]
    by_cases hfirst : origin.accepts first = true
    · have hstep : rewrite written current first = written first := by
        unfold rewrite
        rw [hcurrent, if_pos hfirst]
      have hstatus : (written first).status = origin := by
        rw [hwritten]
        exact h first List.mem_cons_self hfirst
      rw [hstep, ih hstatus hrest, List.filter_cons_of_pos hfirst, List.getLast?_cons]
      cases (requests.filter origin.accepts).getLast? <;> rfl
    · have hstep : rewrite written current first = current := by
        unfold rewrite
        rw [hcurrent, if_neg hfirst]
      rw [hstep, ih hcurrent hrest, List.filter_cons_of_neg hfirst]

/-- When a series of decisions leaves a call as it was. -/
theorem rewrite_eq_self_iff
    (hwritten : ∀ request, (written request).status = request.decision.action.status)
    (st : ToolCallState) (requests : List ResumeRequest) :
    requests.foldl (rewrite written) st = st ↔
      (∀ request ∈ requests.filter st.status.accepts,
        request.decision.action.status = st.status) ∧
      ∀ request, (requests.filter st.status.accepts).getLast? = some request →
        written request = st := by
  constructor
  · intro h
    have hsame : ∀ request ∈ requests, st.status.accepts request = true →
        request.decision.action.status = st.status := by
      intro request hmem haccept
      by_contra hne
      have hleft := foldl_leaves hwritten rfl hmem haccept hne
      rw [h] at hleft
      exact hleft rfl
    constructor
    · intro request hmem
      exact hsame request (List.mem_filter.mp hmem).1 (List.mem_filter.mp hmem).2
    · intro request hlast
      rw [foldl_stays hwritten rfl hsame, hlast] at h
      exact h
  · intro h
    obtain ⟨hsame, hlast⟩ := h
    rw [foldl_stays hwritten rfl
      (fun request hmem haccept => hsame request (List.mem_filter.mpr ⟨hmem, haccept⟩))]
    cases hcase : (requests.filter st.status.accepts).getLast? with
    | none => rfl
    | some request => exact hlast request hcase

/-! ## All calls -/

/-- The states after a decision is committed. -/
def applyDecision (states : ToolCallStateMap) (resumeModeOverride : Option ToolCallResumeMode)
    (current : ToolCallStateMap) (request : ResumeRequest) : ToolCallStateMap :=
  match resolveCallTarget states request.targetId with
  | none => current
  | some target => current.apply (.put (request.resumed resumeModeOverride target.1 target.2))

variable {states : ToolCallStateMap} {resumeModeOverride : Option ToolCallResumeMode}
variable {callId : String} {st : ToolCallState} {request : ResumeRequest}

theorem resolveCallTarget_get? {targetId : String}
    (h : resolveCallTarget states targetId = some (callId, st)) :
    states.calls.get? callId = some st := by
  unfold resolveCallTarget at h
  split at h
  · rename_i callState hget
    cases h
    exact hget
  · exact AssocMap.get?_eq_some.mpr (List.mem_of_find?_eq_some h)

theorem names_eq_true : states.names callId request = true ↔
    ∃ st, resolveCallTarget states request.targetId = some (callId, st) := by
  unfold ToolCallStateMap.names
  cases resolveCallTarget states request.targetId with
  | none => simp
  | some target =>
    obtain ⟨id, st⟩ := target
    simp

theorem written_status : (request.written resumeModeOverride callId st).status =
    request.decision.action.status := rfl

/-- A decision about another call leaves the call as it is. -/
theorem applyDecision_of_not_names {current : ToolCallStateMap}
    (h : states.names callId request = false) :
    (applyDecision states resumeModeOverride current request).calls.get? callId =
      current.calls.get? callId := by
  unfold applyDecision
  cases hresolve : resolveCallTarget states request.targetId with
  | none => rfl
  | some target =>
    have hne : callId ≠ target.1 := by
      intro heq
      have hnames : states.names callId request = true :=
        names_eq_true.mpr ⟨target.2, by rw [hresolve, heq]⟩
      rw [h] at hnames
      cases hnames
    show (current.apply (.put (request.resumed resumeModeOverride target.1 target.2))).calls.get?
      callId = _
    unfold ToolCallStateMap.apply
    dsimp only
    split
    · rfl
    · exact AssocMap.get?_insert_of_ne _ _ hne

/-- A decision about the call is written if the call's status lets it through. -/
theorem applyDecision_of_names {current : ToolCallStateMap} {now : ToolCallState}
    (hst : states.calls.get? callId = some st) (h : states.names callId request = true)
    (hnow : current.calls.get? callId = some now) :
    (applyDecision states resumeModeOverride current request).calls.get? callId =
      some (rewrite (fun request => request.written resumeModeOverride callId st) now
        request) := by
  obtain ⟨st', hresolve⟩ := names_eq_true.mp h
  have hsame := resolveCallTarget_get? hresolve
  rw [hst] at hsame
  obtain rfl := Option.some.inj hsame
  have hstatus : current.currentStatus callId = now.status := by
    unfold ToolCallStateMap.currentStatus
    rw [hnow]
    rfl
  unfold applyDecision
  rw [hresolve]
  show (current.apply (.put (request.resumed resumeModeOverride callId st))).calls.get? callId = _
  have hid : (request.resumed resumeModeOverride callId st).callId = callId := rfl
  have hnext : (request.resumed resumeModeOverride callId st).status =
      request.decision.action.status := rfl
  unfold ToolCallStateMap.apply rewrite ToolCallStatus.accepts
  simp only [hid, hnext, hstatus]
  cases now.status.canTransitionTo request.decision.action.status with
  | true =>
    simp only [Bool.not_true, Bool.false_eq_true, if_false, if_true]
    exact AssocMap.get?_insert_self _ _ _
  | false =>
    simp only [Bool.not_false, Bool.false_eq_true, if_false, if_true]
    exact hnow

/-- Every call sees the decisions about it. -/
theorem foldl_applyDecision (hst : states.calls.get? callId = some st)
    {current : ToolCallStateMap} {now : ToolCallState}
    (hnow : current.calls.get? callId = some now) (requests : List ResumeRequest) :
    (requests.foldl (applyDecision states resumeModeOverride) current).calls.get? callId =
      some ((requests.filter (states.names callId)).foldl
        (rewrite fun request => request.written resumeModeOverride callId st) now) := by
  induction requests generalizing current now with
  | nil => exact hnow
  | cons request requests ih =>
    rw [List.foldl_cons]
    by_cases hnames : states.names callId request = true
    · rw [List.filter_cons_of_pos hnames, List.foldl_cons]
      exact ih (applyDecision_of_names hst hnames hnow)
    · rw [List.filter_cons_of_neg hnames]
      apply ih
      rw [applyDecision_of_not_names (Bool.not_eq_true _ ▸ hnames), hnow]

/-- A call that no decision names stays as it is. -/
theorem foldl_applyDecision_of_not_names {requests : List ResumeRequest}
    (h : ∀ request ∈ requests, states.names callId request = false) (current : ToolCallStateMap) :
    (requests.foldl (applyDecision states resumeModeOverride) current).calls.get? callId =
      current.calls.get? callId := by
  induction requests generalizing current with
  | nil => rfl
  | cons request requests ih =>
    rw [List.foldl_cons, ih (fun r hr => h r (List.mem_cons_of_mem _ hr)),
      applyDecision_of_not_names (h request List.mem_cons_self)]

/-- When the decisions together leave all calls as they were. -/
theorem foldl_applyDecision_eq_iff (requests : List ResumeRequest) :
    (∀ callId, (requests.foldl (applyDecision states resumeModeOverride) states).calls.get?
        callId = states.calls.get? callId) ↔
      ∀ callId st, states.calls.get? callId = some st →
        RewritesOnly states resumeModeOverride requests callId st := by
  have hcall : ∀ callId st, states.calls.get? callId = some st →
      ((requests.foldl (applyDecision states resumeModeOverride) states).calls.get? callId =
          states.calls.get? callId ↔
        RewritesOnly states resumeModeOverride requests callId st) := by
    intro callId st hst
    rw [foldl_applyDecision hst hst, hst, Option.some_inj]
    exact rewrite_eq_self_iff (fun _ => written_status) st _
  constructor
  · intro h callId st hst
    exact (hcall callId st hst).mp (h callId)
  · intro h callId
    cases hst : states.calls.get? callId with
    | some st =>
      rw [(hcall callId st hst).mpr (h callId st hst), hst]
    | none =>
      rw [← hst]
      apply foldl_applyDecision_of_not_names
      intro request _
      cases hnames : states.names callId request with
      | false => rfl
      | true =>
        obtain ⟨st, hresolve⟩ := names_eq_true.mp hnames
        rw [resolveCallTarget_get? hresolve] at hst
        cases hst

/-! ## The loop -/

variable {store store' : StateStore (loopKeys keys)}

/-- An update is committed where the key is registered. -/
theorem commitToolCallUpdate_cases (update : ToolCallStatesUpdate)
    (store : StateStore (loopKeys keys)) :
    (store.HoldsToolCalls ∧ ∃ store', commitToolCallUpdate update store = (.ok (), store') ∧
        store'.registry = store.registry ∧ store'.toolCalls = store.toolCalls.apply update) ∨
      ¬ store.HoldsToolCalls ∧ ∃ e, commitToolCallUpdate update store = (.error e, store) := by
  have hfull : ((MutationBatch.new.update (toolCallStates keys)
      (toolCallStatesUpdate keys update)).isEmpty) = false := rfl
  by_cases hholds : store.HoldsToolCalls
  · apply Or.inl
    have hadmits : store.Admits (MutationBatch.new.update (toolCallStates keys)
        (toolCallStatesUpdate keys update)) := by
      constructor
      · intro base hbase
        cases hbase
      · intro key hkey
        rw [List.mem_singleton.mp hkey]
        exact hholds
    have hcommit := (commit_eq_ok hfull).mpr ⟨hadmits, rfl, rfl⟩
    refine ⟨hholds, store.advance ((MutationBatch.new.update (toolCallStates keys)
      (toolCallStatesUpdate keys update)).run store.inner.ext),
      by simp only [commitToolCallUpdate, hcommit], rfl, ?_⟩
    show (StateMap.update store.inner.ext (toolCallStates keys)
      (toolCallStatesUpdate keys update) (toolCallStates keys)).getD _ = _
    rw [StateMap.update_self]
    rfl
  · apply Or.inr
    have hnot : ¬ store.Admits (MutationBatch.new.update (toolCallStates keys)
        (toolCallStatesUpdate keys update)) := by
      intro hadmits
      exact hholds (hadmits.registered _ (List.mem_singleton.mpr rfl))
    obtain ⟨e, hcommit⟩ := commit_fails hfull hnot
    exact ⟨hholds, e, by simp only [commitToolCallUpdate, hcommit]⟩

/-- A pass fails and writes nothing, or commits its decision. -/
theorem prepareDecision_cases (states : ToolCallStateMap)
    (resumeModeOverride : Option ToolCallResumeMode) (request : ResumeRequest)
    (store : StateStore (loopKeys keys)) :
    ((states.resolves request = false ∨ ¬ store.HoldsToolCalls) ∧
        ∃ e, prepareDecision states resumeModeOverride request store = (.error e, store)) ∨
      states.resolves request = true ∧ store.HoldsToolCalls ∧
        ∃ store', prepareDecision states resumeModeOverride request store = (.ok (), store') ∧
          store'.registry = store.registry ∧
            store'.toolCalls = applyDecision states resumeModeOverride store.toolCalls request := by
  unfold prepareDecision applyDecision ToolCallStateMap.resolves
  cases resolveCallTarget states request.targetId with
  | none => exact Or.inl ⟨Or.inl rfl, _, rfl⟩
  | some target =>
    cases @commitToolCallUpdate_cases keys
      (.put (request.resumed resumeModeOverride target.1 target.2)) store with
    | inl h =>
      obtain ⟨hholds, store', hcommit, hregistry, hcalls⟩ := h
      exact Or.inr ⟨rfl, hholds, store', hcommit, hregistry, hcalls⟩
    | inr h =>
      obtain ⟨hholds, e, hcommit⟩ := h
      exact Or.inl ⟨Or.inr hholds, e, hcommit⟩

/-- What a loop that succeeds has done. -/
theorem forEach_prepareDecision {requests : List ResumeRequest} {bs : List Unit}
    (h : Method.forEach (prepareDecision states resumeModeOverride) requests store =
      (.ok bs, store')) :
    (∀ request ∈ requests, states.resolves request = true) ∧
      (requests ≠ [] → store.HoldsToolCalls) ∧ store'.registry = store.registry ∧
        store'.toolCalls = requests.foldl (applyDecision states resumeModeOverride)
          store.toolCalls := by
  induction requests generalizing store bs store' with
  | nil =>
    cases h
    refine ⟨?_, fun hne => absurd rfl hne, rfl, rfl⟩
    intro request hrequest
    cases hrequest
  | cons request requests ih =>
    obtain ⟨_, store₁, hfirst, hrest⟩ := Method.bind_eq_ok h
    obtain ⟨bs', store₂, hloop, hend⟩ := Method.bind_eq_ok hrest
    cases hend
    obtain ⟨hresolves, -, hregistry, hcalls⟩ := ih hloop
    cases prepareDecision_cases states resumeModeOverride request store with
    | inl hfail =>
      obtain ⟨-, e, herror⟩ := hfail
      rw [herror] at hfirst
      cases hfirst
    | inr hok =>
      obtain ⟨hresolve, hholds, store₃, hpass, hpassRegistry, hpassCalls⟩ := hok
      rw [hpass] at hfirst
      cases hfirst
      refine ⟨?_, fun _ => hholds, by rw [hregistry, hpassRegistry],
        by rw [hcalls, hpassCalls]; rfl⟩
      intro other hother
      cases List.mem_cons.mp hother with
      | inl heq => rw [heq, hresolve]
      | inr hmem => exact hresolves other hmem

/-- What a loop that fails has done: the decisions in front of the first one that names no call
    are committed. -/
theorem prepareResume_error {decisions : List ResumeRequest} {e : StateError}
    (h : (prepareResume decisions resumeModeOverride store).1 = .error e) :
    (store.HoldsToolCalls →
        (prepareResume decisions resumeModeOverride store).2.toolCalls =
          (decisions.takeWhile store.toolCalls.resolves).foldl
            (applyDecision store.toolCalls resumeModeOverride) store.toolCalls) ∧
      (¬ store.HoldsToolCalls → (prepareResume decisions resumeModeOverride store).2 = store) := by
  have hloop := Method.map_error h
  obtain ⟨before, request, after, bs, store₁, hdecisions, hbefore, hfail, hleft⟩ :=
    Method.forEach_error_split _ hloop
  obtain ⟨hresolves, hholds, hregistry, hcalls⟩ := forEach_prepareDecision hbefore
  have hend : (prepareResume decisions resumeModeOverride store).2 = store₁ := by
    show (Method.forEach (prepareDecision store.toolCalls resumeModeOverride) decisions store).2 =
      store₁
    rw [hleft]
    cases prepareDecision_cases store.toolCalls resumeModeOverride request store₁ with
    | inl hcase =>
      obtain ⟨-, e', hpass⟩ := hcase
      rw [hpass]
    | inr hcase =>
      obtain ⟨-, -, store₂, hpass, -⟩ := hcase
      rw [hpass] at hfail
      cases hfail
  constructor
  · intro hregistered
    have hunresolved : store.toolCalls.resolves request = false := by
      cases prepareDecision_cases store.toolCalls resumeModeOverride request store₁ with
      | inl hcase =>
        cases hcase.1 with
        | inl hnone => exact hnone
        | inr hnot =>
          unfold StateStore.HoldsToolCalls at hnot hregistered
          rw [hregistry] at hnot
          exact absurd hregistered hnot
      | inr hcase =>
        obtain ⟨-, -, store₂, hpass, -⟩ := hcase
        rw [hpass] at hfail
        cases hfail
    have htake : decisions.takeWhile store.toolCalls.resolves = before := by
      rw [hdecisions, List.takeWhile_append_of_pos hresolves, List.takeWhile_cons_of_neg
        (by simp [hunresolved]), List.append_nil]
    rw [hend, hcalls, htake]
  · intro hregistered
    have hnil : before = [] := by
      by_contra hne
      exact hregistered (hholds hne)
    rw [hnil] at hbefore
    cases hbefore
    exact hend

/-- When a failure leaves all calls as they were. -/
theorem preparesAtomically_iff (decisions : List ResumeRequest)
    (resumeModeOverride : Option ToolCallResumeMode) (store : StateStore (loopKeys keys)) :
    PreparesAtomically decisions resumeModeOverride store ↔
      EarlierChangeNothing decisions resumeModeOverride store := by
  constructor
  · intro h hholds hunresolved
    apply (foldl_applyDecision_eq_iff _).mp
    cases hresult : (prepareResume decisions resumeModeOverride store).1 with
    | ok _ =>
      -- a loop that succeeds has resolved every decision
      obtain ⟨bs, hbs, -⟩ := Method.map_ok hresult
      obtain ⟨hresolves, -⟩ := forEach_prepareDecision (Prod.ext hbs rfl)
      obtain ⟨request, hrequest, hnone⟩ := hunresolved
      rw [hresolves request hrequest] at hnone
      cases hnone
    | error e =>
      intro callId
      have hsame := h.onError e hunresolved hresult callId
      rw [(prepareResume_error hresult).1 hholds] at hsame
      exact hsame
  · intro h
    constructor
    · intro e hunresolved herror callId
      obtain ⟨hregistered, hmissing⟩ := prepareResume_error herror
      by_cases hholds : store.HoldsToolCalls
      · rw [hregistered hholds]
        exact (foldl_applyDecision_eq_iff _).mpr (h hholds hunresolved) callId
      · rw [hmissing hholds]
    · intro hok callId hnames
      obtain ⟨bs, hbs, -⟩ := Method.map_ok hok
      obtain ⟨-, -, -, hcalls⟩ := forEach_prepareDecision (Prod.ext hbs rfl)
      show ((Method.forEach (prepareDecision store.toolCalls resumeModeOverride) decisions
        store).2).toolCalls.calls.get? callId = _
      rw [hcalls]
      exact foldl_applyDecision_of_not_names hnames _

/-- A store with one suspended call, in a program with the background plugin. -/
def suspendedStore : StateStore (loopKeys backgroundKeys) where
  inner := ⟨1, StateMap.empty.insert (toolCallStates backgroundKeys)
    (show ToolCallStateMap from ⟨AssocMap.empty.insert "call"
      (ToolCallState.new "call" "bash" .null .suspended 0)⟩)⟩
  registry := ⟨AssocMap.empty.insert "__runtime.tool_call_states" .commutative⟩

/-- The call is resuming although the second decision names no call. -/
theorem prepareResume_leavesResuming :
    ¬ PreparesAtomically [⟨"call", ⟨"d1", .resume, .null, none, 1⟩, 1⟩,
      ⟨"gone", ⟨"d2", .resume, .null, none, 1⟩, 1⟩] none suspendedStore := by
  intro h
  have hsame := h.onError (.unknownKey "tool call or suspension gone not found")
    ⟨⟨"gone", ⟨"d2", .resume, .null, none, 1⟩, 1⟩, by simp, by rfl⟩ (by rfl) "call"
  have hstatus := congrArg (Option.map ToolCallState.status) hsame
  revert hstatus
  decide +kernel

end Remo
