import Remo.Spec.Engine.StreamAttempts

/-!
# Streamed tool calls are accounted for

Behind the last reset every call that is started is ready or cancelled, when every interrupted
stream has at most one call that is not complete, and the stream that ends by itself has none.

## Key results

- `startsClosed_iff`: the starts of several streams are closed when those of each of them are.
- `callsAccounted_iff`: when all calls of an inference are accounted for.
-/

namespace Remo

/-- The event says what became of a call. -/
def SinkEvent.closes (id : String) : SinkEvent → Bool
  | .toolCallReady other _ _ => other == id
  | .toolCallCancel other _ _ => other == id
  | _ => false

def SinkEvent.isReset : SinkEvent → Bool
  | .streamReset _ => true
  | _ => false

/-- The event fits to the result: the call is ready as it is in the result, or it is cancelled and
    not in the result. -/
def SinkEvent.FitsTo (toolCalls : List ToolCall) : SinkEvent → Prop
  | .toolCallReady id name arguments => ⟨id, name, arguments⟩ ∈ toolCalls
  | .toolCallCancel id _ _ => id ∉ toolCalls.map ToolCall.id
  | _ => False

/-- Every call that is started is behind its start ready or cancelled once, as the result says, and
    no call of the result is missing. -/
structure CallsAccounted (events : List SinkEvent) (toolCalls : List ToolCall) : Prop where
  started : ∀ before id name after, events = before ++ .toolCallStart id name :: after →
    ∃ event, after.filter (SinkEvent.closes id) = [event] ∧ event.FitsTo toolCalls
  ready : ∀ call ∈ toolCalls, .toolCallReady call.id call.name call.arguments ∈ events

namespace StreamAttempt

variable (fromStr : String → Option Value)

/-- An interrupted stream has at most one call that is not complete, another stream has none. -/
def ClosesCalls (self : StreamAttempt) : Prop :=
  if self.interruption?.isSome then
    (self.calls.filter fun call => (call.complete? fromStr).isNone).length ≤ 1
  else ∀ call ∈ self.calls, (StreamingAccumulator.finalCall? fromStr call).isSome

instance (self : StreamAttempt) : Decidable (self.ClosesCalls fromStr) := by
  unfold ClosesCalls
  infer_instance

/-! ## One stream -/

theorem closes_streamed {self : StreamAttempt} {id : String} :
    self.streamed.filter (SinkEvent.closes id) = [] := by
  rw [List.filter_eq_nil_iff]
  intro event hevent
  cases self with
  | refused error => exact absurd hevent List.not_mem_nil
  | opened events ending =>
    obtain ⟨streamEvent, -, hsink⟩ := List.mem_filterMap.mp hevent
    cases streamEvent <;> cases hsink <;> exact Bool.false_ne_true

/-- The calls that are started are those with a start. -/
theorem start_mem_streamed {self : StreamAttempt} {id : String} :
    (∃ name, .toolCallStart id name ∈ self.streamed) ↔ id ∈ self.startIds := by
  cases self with
  | refused error =>
    constructor
    · intro h
      obtain ⟨name, hmem⟩ := h
      exact absurd hmem List.not_mem_nil
    · intro h
      exact absurd h List.not_mem_nil
  | opened events ending =>
    constructor
    · intro h
      obtain ⟨name, hmem⟩ := h
      obtain ⟨streamEvent, hevent, hsink⟩ := List.mem_filterMap.mp hmem
      cases streamEvent <;> cases hsink
      exact List.mem_filterMap.mpr ⟨_, hevent, rfl⟩
    · intro h
      obtain ⟨streamEvent, hevent, hstart⟩ := List.mem_filterMap.mp h
      cases streamEvent <;> cases hstart
      exact ⟨_, List.mem_filterMap.mpr ⟨_, hevent, rfl⟩⟩

variable {fromStr}

theorem call?_id {self : StreamAttempt} {call : PartialCall} {complete : ToolCall}
    (h : self.call? fromStr call = some complete) : complete.id = call.id := by
  unfold call? at h
  split at h
  · exact complete?_id fromStr h
  · exact finalCall?_id fromStr h

/-- The cancelled call is the last one that is not complete. -/
theorem cancelled_eq (self : StreamAttempt) : self.cancelled fromStr =
    if self.interruption?.isSome then
      (self.calls.filter fun call => (self.call? fromStr call).isNone).getLast?.map
        PartialCall.inFlight
    else none := by
  unfold cancelled call?
  cases self.interruption? with
  | none => rfl
  | some cause =>
    rw [Option.isSome_some, if_pos rfl]
    exact (self.snapshot_calls fromStr).2

theorem cancelled_mem {self : StreamAttempt} {tool : InFlightTool}
    (h : self.cancelled fromStr = some tool) :
    ∃ call ∈ self.calls, self.call? fromStr call = none ∧ tool = call.inFlight := by
  rw [cancelled_eq] at h
  split at h
  · obtain ⟨call, hlast, htool⟩ := Option.map_eq_some_iff.mp h
    obtain ⟨hmem, hnone⟩ := List.mem_filter.mp (List.mem_of_getLast? hlast)
    exact ⟨call, hmem, Option.isNone_iff_eq_none.mp hnone, htool.symm⟩
  · cases h

/-- What closes a stream is about its own calls. -/
theorem closes_closing {self : StreamAttempt} {id : String} {event : SinkEvent}
    (hevent : event ∈ self.closing fromStr) (hcloses : event.closes id = true) :
    id ∈ self.startIds := by
  unfold closing at hevent
  dsimp only at hevent
  rw [← calls_ids]
  split at hevent
  · rw [List.mem_singleton.mp hevent] at hcloses
    cases hcloses
  · cases List.mem_append.mp hevent with
    | inl hcancel =>
      obtain ⟨tool, htool, heq⟩ := List.mem_map.mp hcancel
      obtain ⟨call, hcall, -, hflight⟩ := cancelled_mem (Option.mem_toList.mp htool)
      rw [← heq] at hcloses
      rw [← beq_iff_eq.mp hcloses, hflight]
      exact List.mem_map_of_mem hcall
    | inr hready =>
      obtain ⟨complete, hcomplete, heq⟩ := List.mem_map.mp hready
      obtain ⟨call, hcall, hsome⟩ := List.mem_filterMap.mp hcomplete
      rw [← heq] at hcloses
      rw [← beq_iff_eq.mp hcloses, call?_id hsome]
      exact List.mem_map_of_mem hcall

theorem start_not_mem_closing {self : StreamAttempt} {id name : String} :
    .toolCallStart id name ∉ self.closing fromStr := by
  intro hmem
  unfold closing at hmem
  dsimp only at hmem
  split at hmem
  · cases List.mem_singleton.mp hmem
  · cases List.mem_append.mp hmem with
    | inl hcancel =>
      obtain ⟨tool, -, heq⟩ := List.mem_map.mp hcancel
      cases heq
    | inr hready =>
      obtain ⟨complete, -, heq⟩ := List.mem_map.mp hready
      cases heq

/-- The ready events of a call among those of all. -/
theorem filter_ready {f : PartialCall → Option ToolCall}
    (hid : ∀ call complete, f call = some complete → complete.id = call.id)
    {calls : List PartialCall} (hnodup : (calls.map PartialCall.id).Nodup) {call : PartialCall}
    (hcall : call ∈ calls) :
    ((calls.filterMap f).map fun call =>
        SinkEvent.toolCallReady call.id call.name call.arguments).filter
        (SinkEvent.closes call.id) =
      ((f call).map fun call =>
        SinkEvent.toolCallReady call.id call.name call.arguments).toList := by
  induction calls with
  | nil => exact absurd hcall List.not_mem_nil
  | cons other calls ih =>
    rw [List.map_cons, List.nodup_cons] at hnodup
    have hhead : ((other :: calls).filterMap f).map (fun call =>
        SinkEvent.toolCallReady call.id call.name call.arguments) =
        ((f other).map fun call =>
          SinkEvent.toolCallReady call.id call.name call.arguments).toList ++
        (calls.filterMap f).map fun call =>
          SinkEvent.toolCallReady call.id call.name call.arguments := by
      rw [List.filterMap_cons]
      cases f other <;> rfl
    rw [hhead, List.filter_append]
    cases List.mem_cons.mp hcall with
    | inl heq =>
      have hrest : ((calls.filterMap f).map fun call =>
          SinkEvent.toolCallReady call.id call.name call.arguments).filter
          (SinkEvent.closes call.id) = [] := by
        rw [List.filter_eq_nil_iff]
        intro event hevent hcloses
        obtain ⟨complete, hcomplete, hready⟩ := List.mem_map.mp hevent
        obtain ⟨later, hlater, hsome⟩ := List.mem_filterMap.mp hcomplete
        rw [← hready] at hcloses
        apply hnodup.1
        rw [← heq, ← beq_iff_eq.mp hcloses, hid later complete hsome]
        exact List.mem_map_of_mem hlater
      rw [hrest, List.append_nil, ← heq]
      cases hf : f call with
      | none => rfl
      | some complete =>
        have hcloses : SinkEvent.closes call.id
            (.toolCallReady complete.id complete.name complete.arguments) = true :=
          beq_iff_eq.mpr (hid call complete hf)
        rw [Option.map_some, Option.toList_some, List.filter_cons_of_pos hcloses]
        rfl
    | inr hmem =>
      have hfirst : ((f other).map fun call =>
          SinkEvent.toolCallReady call.id call.name call.arguments).toList.filter
          (SinkEvent.closes call.id) = [] := by
        rw [List.filter_eq_nil_iff]
        intro event hevent hcloses
        obtain ⟨complete, hf, hready⟩ := Option.map_eq_some_iff.mp (Option.mem_toList.mp hevent)
        rw [← hready] at hcloses
        apply hnodup.1
        rw [← hid other complete hf, beq_iff_eq.mp hcloses]
        exact List.mem_map_of_mem hmem
      rw [hfirst, List.nil_append]
      exact ih hnodup.2 hmem

/-- The calls of a stream are closed when no more of them than the cancelled one is not complete. -/
theorem closed_iff {self : StreamAttempt} (hnodup : self.startIds.Nodup)
    (hrestarts : self.restarts fromStr = false) {toolCalls : List ToolCall}
    (hready : ∀ call ∈ self.ready fromStr, call ∈ toolCalls)
    (habsent : ∀ call ∈ self.calls, self.call? fromStr call = none →
      call.id ∉ toolCalls.map ToolCall.id) :
    (∀ id ∈ self.startIds, ∃ event,
      (self.closing fromStr).filter (SinkEvent.closes id) = [event] ∧ event.FitsTo toolCalls) ↔
      self.ClosesCalls fromStr := by
  rw [← calls_ids] at hnodup ⊢
  have hclosing : ∀ call ∈ self.calls,
      (self.closing fromStr).filter (SinkEvent.closes call.id) =
        ((self.cancelled fromStr).toList.map fun tool => SinkEvent.toolCallCancel tool.id tool.name
          ((self.interruption?.map InterruptCause.text).getD "")).filter
            (SinkEvent.closes call.id) ++
          ((self.call? fromStr call).map fun call =>
            SinkEvent.toolCallReady call.id call.name call.arguments).toList := by
    intro call hcall
    unfold closing
    dsimp only
    rw [hrestarts, if_neg Bool.false_ne_true, List.filter_append]
    congr 1
    exact filter_ready (fun _ _ => call?_id) hnodup hcall
  have hsame : ∀ call ∈ self.calls, ∀ other ∈ self.calls, call.id = other.id → call = other :=
    fun call hcall other hother heq => List.inj_on_of_nodup_map hnodup hcall hother heq
  constructor
  · intro hclosed
    unfold ClosesCalls
    split
    case isTrue hinterrupted =>
      have hcall : ∀ call, self.call? fromStr call = call.complete? fromStr :=
        fun _ => if_pos hinterrupted
      have hcancelled := @cancelled_eq fromStr self
      rw [if_pos hinterrupted] at hcancelled
      simp only [hcall] at hcancelled
      have hlast : ∀ call ∈ self.calls.filter fun call => (call.complete? fromStr).isNone,
          some call = (self.calls.filter fun call =>
            (call.complete? fromStr).isNone).getLast? := by
        intro call hmem
        obtain ⟨hmem', hnone⟩ := List.mem_filter.mp hmem
        obtain ⟨event, hevent, -⟩ := hclosed call.id (List.mem_map_of_mem hmem')
        rw [hclosing call hmem', hcall, Option.isNone_iff_eq_none.mp hnone] at hevent
        cases hlast : (self.calls.filter fun call => (call.complete? fromStr).isNone).getLast? with
        | none =>
          rw [hcancelled, hlast] at hevent
          cases hevent
        | some last =>
          rw [hcancelled, hlast] at hevent
          have hin : SinkEvent.closes call.id (.toolCallCancel last.id last.name
              ((self.interruption?.map InterruptCause.text).getD "")) = true := by
            cases hc : SinkEvent.closes call.id (.toolCallCancel last.id last.name
                ((self.interruption?.map InterruptCause.text).getD "")) with
            | true => rfl
            | false =>
              have hnil : List.filter (SinkEvent.closes call.id) [.toolCallCancel last.id last.name
                  ((self.interruption?.map InterruptCause.text).getD "")] ++ [] = [event] := hevent
              rw [List.filter_cons_of_neg (by rw [hc]; exact Bool.false_ne_true)] at hnil
              cases hnil
          have hlastMem := (List.mem_filter.mp (List.mem_of_getLast? hlast)).1
          rw [hsame last hlastMem call hmem' (beq_iff_eq.mp hin)]
      -- every call is the last one
      generalize hu : (self.calls.filter fun call => (call.complete? fromStr).isNone) = unfinished
        at hlast
      have hsub : (unfinished.map PartialCall.id).Nodup := by
        rw [← hu]
        exact List.Nodup.sublist (List.Sublist.map _ List.filter_sublist) hnodup
      cases unfinished with
      | nil => exact Nat.zero_le _
      | cons first others =>
        cases others with
        | nil => exact Nat.le_refl _
        | cons second others =>
          have heq := (hlast first List.mem_cons_self).trans
            (hlast second (List.mem_cons_of_mem _ List.mem_cons_self)).symm
          rw [Option.some.inj heq] at hsub
          exact absurd List.mem_cons_self (List.nodup_cons.mp hsub).1
    case isFalse hends =>
      intro call hmem
      obtain ⟨event, hevent, -⟩ := hclosed call.id (List.mem_map_of_mem hmem)
      have hcancelled := @cancelled_eq fromStr self
      rw [if_neg hends] at hcancelled
      have hcall : self.call? fromStr call = StreamingAccumulator.finalCall? fromStr call :=
        if_neg hends
      rw [hclosing call hmem, hcancelled, hcall] at hevent
      cases hfinal : StreamingAccumulator.finalCall? fromStr call with
      | some complete => rfl
      | none =>
        rw [hfinal] at hevent
        cases hevent
  · intro hcloses id hid
    obtain ⟨call, hmem, heq⟩ := List.mem_map.mp hid
    rw [← heq, hclosing call hmem]
    cases hcall : self.call? fromStr call with
    | some complete =>
      have hnone : ((self.cancelled fromStr).toList.map fun tool =>
          SinkEvent.toolCallCancel tool.id tool.name
            ((self.interruption?.map InterruptCause.text).getD "")).filter
              (SinkEvent.closes call.id) = [] := by
        rw [List.filter_eq_nil_iff]
        intro event hevent hclosesIt
        obtain ⟨tool, htool, hcancel⟩ := List.mem_map.mp hevent
        obtain ⟨other, hother, hotherNone, hflight⟩ := cancelled_mem (Option.mem_toList.mp htool)
        rw [← hcancel, hflight] at hclosesIt
        rw [hsame other hother call hmem (beq_iff_eq.mp hclosesIt), hcall] at hotherNone
        cases hotherNone
      rw [hnone]
      refine ⟨_, rfl, ?_⟩
      exact hready complete (List.mem_filterMap.mpr ⟨call, hmem, hcall⟩)
    | none =>
      unfold ClosesCalls at hcloses
      by_cases hinterrupted : self.interruption?.isSome = true
      · rw [if_pos hinterrupted] at hcloses
        have hin : call ∈ self.calls.filter fun call => (call.complete? fromStr).isNone := by
          rw [List.mem_filter]
          have hnone : call.complete? fromStr = none := (if_pos hinterrupted).symm.trans hcall
          exact ⟨hmem, by rw [hnone]; rfl⟩
        have hsingle : (self.calls.filter fun call => (call.complete? fromStr).isNone) =
            [call] := by
          cases hu : self.calls.filter fun call => (call.complete? fromStr).isNone with
          | nil =>
            rw [hu] at hin
            exact absurd hin List.not_mem_nil
          | cons first others =>
            rw [hu] at hin hcloses
            have hothers : others = [] := by
              apply List.eq_nil_of_length_eq_zero
              rw [List.length_cons] at hcloses
              omega
            rw [hothers] at hin ⊢
            rw [List.mem_singleton.mp hin]
        have hcancelled : self.cancelled fromStr = some call.inFlight := by
          unfold cancelled
          obtain ⟨cause, hcause⟩ := Option.isSome_iff_exists.mp hinterrupted
          rw [hcause, Option.bind_some, (self.snapshot_calls fromStr).2, hsingle]
          rfl
        rw [hcancelled]
        refine ⟨.toolCallCancel call.id call.name
          ((self.interruption?.map InterruptCause.text).getD ""), ?_, habsent call hmem hcall⟩
        have hclosesIt : SinkEvent.closes call.id (.toolCallCancel call.id call.name
            ((self.interruption?.map InterruptCause.text).getD "")) = true :=
          beq_self_eq_true _
        show List.filter _ [SinkEvent.toolCallCancel call.id call.name _] ++ [] = _
        rw [List.append_nil, List.filter_cons_of_pos hclosesIt]
        rfl
      · rw [if_neg hinterrupted] at hcloses
        have hfinal := hcloses call hmem
        rw [(if_neg hinterrupted).symm.trans hcall] at hfinal
        cases hfinal

/-! ## Several streams -/

/-- The starts of several streams are closed when those of each of them are. -/
theorem startsClosed_iff {P : List SinkEvent → Prop} (streams : List StreamAttempt)
    (hids : (streams.flatMap startIds).Nodup) :
    (∀ before id name after,
      streams.flatMap (events fromStr) = before ++ .toolCallStart id name :: after →
        P (after.filter (SinkEvent.closes id))) ↔
      ∀ stream ∈ streams, ∀ id ∈ stream.startIds,
        P ((stream.closing fromStr).filter (SinkEvent.closes id)) := by
  induction streams with
  | nil =>
    constructor
    · intro _ stream hstream
      exact absurd hstream List.not_mem_nil
    · intro _ before id name after heq
      cases before <;> cases heq
  | cons stream streams ih =>
    rw [List.flatMap_cons, List.nodup_append] at hids
    obtain ⟨hown, hothers, hapart⟩ := hids
    -- what closes a call of this stream is not in the others
    have hlater : ∀ id ∈ stream.startIds,
        (streams.flatMap (events fromStr)).filter (SinkEvent.closes id) = [] := by
      intro id hid
      rw [List.filter_eq_nil_iff]
      intro event hevent hcloses
      obtain ⟨other, hother, hmem⟩ := List.mem_flatMap.mp hevent
      cases List.mem_append.mp hmem with
      | inl hstreamed =>
        have hnone := @closes_streamed other id
        rw [List.filter_eq_nil_iff] at hnone
        exact hnone event hstreamed hcloses
      | inr hclosing =>
        exact hapart id hid id
          (List.mem_flatMap.mpr ⟨other, hother, closes_closing hclosing hcloses⟩) rfl
    have hsuffix : ∀ id ∈ stream.startIds, ∀ between : List SinkEvent,
        between.filter (SinkEvent.closes id) = [] →
        ((between ++ stream.closing fromStr) ++ streams.flatMap (events fromStr)).filter
            (SinkEvent.closes id) =
          (stream.closing fromStr).filter (SinkEvent.closes id) := by
      intro id hid between hbetween
      rw [List.filter_append, List.filter_append, hbetween, hlater id hid, List.nil_append,
        List.append_nil]
    rw [List.flatMap_cons, List.forall_mem_cons, ← ih hothers]
    constructor
    · intro h
      constructor
      · intro id hid
        obtain ⟨name, hstart⟩ := start_mem_streamed.mpr hid
        obtain ⟨before, between, hsplit⟩ := List.append_of_mem hstart
        have hbetween : between.filter (SinkEvent.closes id) = [] := by
          have hnone := @closes_streamed stream id
          rw [hsplit, List.filter_append, List.append_eq_nil_iff, List.filter_cons] at hnone
          exact hnone.2
        rw [← hsuffix id hid between hbetween]
        apply h before id name
        unfold events
        rw [hsplit]
        simp
      · intro before id name after heq
        apply h (stream.events fromStr ++ before) id name after
        rw [heq, List.append_assoc]
    · intro h before id name after heq
      cases append_eq_split heq with
      | inr hrest =>
        obtain ⟨between, -, hlaterSplit⟩ := hrest
        exact h.2 between id name after hlaterSplit
      | inl hfirst =>
        obtain ⟨between, hevents, hafter⟩ := hfirst
        cases append_eq_split hevents with
        | inr hclosing =>
          obtain ⟨inner, -, hinner⟩ := hclosing
          exfalso
          apply @start_not_mem_closing fromStr stream id name
          rw [hinner]
          exact List.mem_append_right _ List.mem_cons_self
        | inl hstreamed =>
          obtain ⟨inner, hinner, hbetween⟩ := hstreamed
          have hid : id ∈ stream.startIds := by
            apply start_mem_streamed.mp
            refine ⟨name, ?_⟩
            rw [hinner]
            exact List.mem_append_right _ List.mem_cons_self
          have hnone : inner.filter (SinkEvent.closes id) = [] := by
            have hall := @closes_streamed stream id
            rw [hinner, List.filter_append, List.append_eq_nil_iff, List.filter_cons] at hall
            exact hall.2
          rw [hafter, hbetween, hsuffix id hid inner hnone]
          exact h.1 id hid

theorem restarts_iff {self : StreamAttempt} : self.restarts fromStr = true ↔
    self.interruption?.isSome = true ∧ (self.snapshot fromStr).plan = .wholeRestart := by
  unfold restarts plan?
  cases self.interruption? <;> simp

/-- Another stream is opened behind a restart. -/
theorem goesOn_of_restarts {self : StreamAttempt} (h : self.restarts fromStr = true) :
    self.goesOn fromStr = true := by
  obtain ⟨hinterrupted, hplan⟩ := restarts_iff.mp h
  unfold goesOn
  rw [hinterrupted, Bool.true_and, List.isEmpty_iff]
  cases (self.snapshot fromStr).plan_cases with
  | inl hsynth =>
    rw [hplan] at hsynth
    cases hsynth.1
  | inr hnone => exact hnone.1

/-- A stream behind which another one is opened has no calls that are ready. -/
theorem ready_of_goesOn {self : StreamAttempt} (h : self.goesOn fromStr = true) :
    self.ready fromStr = [] := by
  unfold goesOn at h
  rw [Bool.and_eq_true, List.isEmpty_iff] at h
  rw [ready_interrupted fromStr h.1, h.2]

theorem ready_ids {self : StreamAttempt} {call : ToolCall} (h : call ∈ self.ready fromStr) :
    ∃ started ∈ self.calls, self.call? fromStr started = some call ∧ call.id = started.id := by
  obtain ⟨started, hstarted, hsome⟩ := List.mem_filterMap.mp h
  exact ⟨started, hstarted, hsome, call?_id hsome⟩

/-- Only a restart ends with a reset. -/
theorem isReset_events (self : StreamAttempt) :
    (self.restarts fromStr = false → (self.events fromStr).any SinkEvent.isReset = false) ∧
      (self.restarts fromStr = true → ∃ front marker,
        self.events fromStr = front ++ [marker] ∧ marker.isReset = true) := by
  constructor
  · intro hrestarts
    rw [List.any_eq_false]
    intro event hevent hreset
    cases List.mem_append.mp hevent with
    | inl hstreamed =>
      cases self with
      | refused error => exact absurd hstreamed List.not_mem_nil
      | opened events ending =>
        obtain ⟨streamEvent, -, hsink⟩ := List.mem_filterMap.mp hstreamed
        cases streamEvent <;> cases hsink <;> cases hreset
    | inr hclosing =>
      unfold closing at hclosing
      dsimp only at hclosing
      rw [hrestarts, if_neg Bool.false_ne_true] at hclosing
      cases List.mem_append.mp hclosing with
      | inl hcancel =>
        obtain ⟨tool, -, heq⟩ := List.mem_map.mp hcancel
        rw [← heq] at hreset
        cases hreset
      | inr hready =>
        obtain ⟨call, -, heq⟩ := List.mem_map.mp hready
        rw [← heq] at hreset
        cases hreset
  · intro hrestarts
    unfold events closing
    dsimp only
    rw [hrestarts, if_pos rfl]
    exact ⟨_, _, rfl, rfl⟩

end StreamAttempt

/-! ## An inference -/

section Parser

variable (fromStr : String → Option Value)

/-- The streams behind the last one that is restarted. -/
def streamsSinceReset (streams : List StreamAttempt) : List StreamAttempt :=
  afterLast (StreamAttempt.restarts fromStr) (usedStreams fromStr streams)

theorem usedStreams_prefix (streams : List StreamAttempt) :
    usedStreams fromStr streams <+: streams := by
  induction streams with
  | nil => exact List.prefix_refl _
  | cons stream streams ih =>
    unfold usedStreams
    split
    · exact List.cons_prefix_cons.mpr ⟨rfl, ih⟩
    · exact List.cons_prefix_cons.mpr ⟨rfl, List.nil_prefix⟩

/-- The calls of an inference that returns are accounted for behind its last reset exactly when the
    streams since then close their calls. -/
theorem callsAccounted_iff (maxRetries : Nat) (request : InferenceRequest)
    (streams : List StreamAttempt) (hids : (streams.flatMap StreamAttempt.startIds).Nodup)
    {effects : List StreamEffect} {result : StreamResult} {hint : Option InFlightTool}
    (hrun : executeStreaming fromStr maxRetries none none request streams =
      (effects, some (.ok (result, hint)))) :
    CallsAccounted (afterLast SinkEvent.isReset (emitted effects)) result.toolCalls ↔
      ∀ stream ∈ streamsSinceReset fromStr streams, stream.ClosesCalls fromStr := by
  obtain ⟨hevents, init, last, hused, hinit, hlast, hcalls⟩ := driveStreams_ok fromStr hrun
  have hlastRestarts : last.restarts fromStr = false := by
    cases hrestarts : last.restarts fromStr with
    | false => rfl
    | true =>
      rw [StreamAttempt.goesOn_of_restarts hrestarts] at hlast
      cases hlast
  have hsince : streamsSinceReset fromStr streams =
      afterLast (StreamAttempt.restarts fromStr) init ++ [last] := by
    unfold streamsSinceReset
    rw [hused, afterLast_concat hlastRestarts]
  have hbehind : afterLast SinkEvent.isReset (emitted effects) =
      (streamsSinceReset fromStr streams).flatMap (StreamAttempt.events fromStr) := by
    rw [hevents]
    exact afterLast_flatMap (fun stream => stream.isReset_events.1)
      (fun stream => stream.isReset_events.2) _
  have hkept : ∀ stream ∈ streamsSinceReset fromStr streams, stream.restarts fromStr = false := by
    intro stream hstream
    have hnone := any_afterLast (StreamAttempt.restarts fromStr) (usedStreams fromStr streams)
    rw [List.any_eq_false] at hnone
    exact Bool.eq_false_iff.mpr (hnone stream hstream)
  have hnodup : ((streamsSinceReset fromStr streams).flatMap StreamAttempt.startIds).Nodup := by
    obtain ⟨more, hmore⟩ := usedStreams_prefix fromStr streams
    obtain ⟨front, hfront⟩ := afterLast_suffix (StreamAttempt.restarts fromStr)
      (usedStreams fromStr streams)
    rw [← hmore, ← hfront, List.flatMap_append, List.flatMap_append] at hids
    exact (List.nodup_append.mp (List.nodup_append.mp hids).1).2.1
  have hown : ∀ stream ∈ streamsSinceReset fromStr streams, stream.startIds.Nodup := by
    intro stream hstream
    exact (List.nodup_flatMap.mp hnodup).1 stream hstream
  have hclosed : ∀ stream ∈ streamsSinceReset fromStr streams,
      (∀ id ∈ stream.startIds, ∃ event, (stream.closing fromStr).filter (SinkEvent.closes id) =
        [event] ∧ event.FitsTo result.toolCalls) ↔ stream.ClosesCalls fromStr := by
    intro stream hstream
    have hcases : stream = last ∨ stream ∈ afterLast (StreamAttempt.restarts fromStr) init := by
      rw [hsince, List.mem_append, List.mem_singleton] at hstream
      exact hstream.symm
    cases hcases with
    | inl heq =>
      apply StreamAttempt.closed_iff (hown stream hstream) (hkept stream hstream)
      · intro call hcall
        rw [hcalls, ← heq]
        exact hcall
      · intro call hcall hnone hmem
        rw [hcalls, ← heq] at hmem
        obtain ⟨complete, hcomplete, hid⟩ := List.mem_map.mp hmem
        obtain ⟨started, hstarted, hsome, hstartedId⟩ := StreamAttempt.ready_ids hcomplete
        have hnodupIds := hown stream hstream
        rw [← StreamAttempt.calls_ids] at hnodupIds
        rw [List.inj_on_of_nodup_map hnodupIds hstarted hcall (hstartedId.symm.trans hid),
          hnone] at hsome
        cases hsome
    | inr hearlier =>
      have hgoesOn : stream.goesOn fromStr = true :=
        hinit stream (afterLast_suffix _ init |>.subset hearlier)
      apply StreamAttempt.closed_iff (hown stream hstream) (hkept stream hstream)
      · intro call hcall
        rw [StreamAttempt.ready_of_goesOn hgoesOn] at hcall
        exact absurd hcall List.not_mem_nil
      · intro call hcall hnone hmem
        rw [hcalls] at hmem
        obtain ⟨complete, hcomplete, hid⟩ := List.mem_map.mp hmem
        obtain ⟨started, hstarted, -, hstartedId⟩ := StreamAttempt.ready_ids hcomplete
        rw [hsince, List.flatMap_append, List.nodup_append] at hnodup
        apply hnodup.2.2 call.id _ call.id _ rfl
        · rw [List.mem_flatMap]
          refine ⟨stream, hearlier, ?_⟩
          rw [← StreamAttempt.calls_ids]
          exact List.mem_map_of_mem hcall
        · rw [List.mem_flatMap]
          refine ⟨last, List.mem_singleton_self _, ?_⟩
          rw [← StreamAttempt.calls_ids, ← hid, hstartedId]
          exact List.mem_map_of_mem hstarted
  have hready : ∀ call ∈ result.toolCalls,
      .toolCallReady call.id call.name call.arguments ∈
        (streamsSinceReset fromStr streams).flatMap (StreamAttempt.events fromStr) := by
    intro call hcall
    rw [hsince, List.mem_flatMap]
    refine ⟨last, List.mem_append_right _ (List.mem_singleton_self _), ?_⟩
    apply List.mem_append_right
    unfold StreamAttempt.closing
    dsimp only
    rw [hlastRestarts, if_neg Bool.false_ne_true]
    apply List.mem_append_right
    rw [hcalls] at hcall
    exact List.mem_map_of_mem hcall
  have hstarts := @StreamAttempt.startsClosed_iff fromStr
    (fun closing => ∃ event, closing = [event] ∧ event.FitsTo result.toolCalls)
    (streamsSinceReset fromStr streams) hnodup
  rw [hbehind]
  constructor
  · intro h stream hstream
    exact (hclosed stream hstream).mp (hstarts.mp h.started stream hstream)
  · intro h
    refine ⟨?_, hready⟩
    apply hstarts.mpr
    intro stream hstream
    exact (hclosed stream hstream).mpr (h stream hstream)

end Parser

/-- A parser that knows the empty object. -/
def parseEmptyObject (text : String) : Option Value :=
  if text = "{}" then some (.object []) else none

/-- A restart, a call that is cancelled, and one that is ready. -/
theorem callsAccounted_recovered :
    CallsAccounted
      (afterLast SinkEvent.isReset (emitted (executeStreaming parseEmptyObject 3 none none
        ⟨"model", []⟩
        [.opened [.toolCallStart "a" "search"] .stalled,
          .opened [.textDelta "Looking", .toolCallStart "b" "search", .toolCallDelta "b" "\x7b"]
            (.failed (.provider "connection reset")),
          .opened [.toolCallStart "c" "search", .toolCallDelta "c" "{}", .stop .toolUse]
            .drained]).1))
      [⟨"c", "search", ⟨"{}"⟩⟩] := by
  apply (@callsAccounted_iff parseEmptyObject 3 ⟨"model", []⟩
    [.opened [.toolCallStart "a" "search"] .stalled,
      .opened [.textDelta "Looking", .toolCallStart "b" "search", .toolCallDelta "b" "\x7b"]
        (.failed (.provider "connection reset")),
      .opened [.toolCallStart "c" "search", .toolCallDelta "c" "{}", .stop .toolUse] .drained]
    (by decide) _ ⟨[], [⟨"c", "search", ⟨"{}"⟩⟩], none, some .toolUse, false⟩ none
    (Prod.ext rfl (by rfl))).mpr
  decide +kernel

/-- Of two calls that are not complete only the last one is cancelled. -/
theorem callsAccounted_fails :
    (executeStreaming parseEmptyObject 3 none none ⟨"model", []⟩
      [.opened [.textDelta "Looking", .toolCallStart "a" "search", .toolCallStart "b" "search"]
        .stalled, .opened [.textDelta "Done"] .drained]).2 =
        some (.ok (⟨["Done"], [], none, none, false⟩, none)) ∧
      ¬CallsAccounted
        (afterLast SinkEvent.isReset (emitted (executeStreaming parseEmptyObject 3 none none
          ⟨"model", []⟩
          [.opened [.textDelta "Looking", .toolCallStart "a" "search", .toolCallStart "b" "search"]
            .stalled, .opened [.textDelta "Done"] .drained]).1)) [] := by
  refine ⟨by rfl, ?_⟩
  have hevents : afterLast SinkEvent.isReset (emitted (executeStreaming parseEmptyObject 3 none none
      ⟨"model", []⟩
      [.opened [.textDelta "Looking", .toolCallStart "a" "search", .toolCallStart "b" "search"]
        .stalled, .opened [.textDelta "Done"] .drained]).1) =
      [.textDelta "Looking", .toolCallStart "a" "search", .toolCallStart "b" "search",
        .toolCallCancel "b" "search" "idle stall", .textDelta "Done"] := by
    decide +kernel
  intro h
  rw [hevents] at h
  obtain ⟨event, hevent, -⟩ := h.started [.textDelta "Looking"] "a" "search" _ rfl
  have hnone : [] = [event] := hevent
  cases hnone

end Remo
