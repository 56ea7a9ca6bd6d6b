import Mathlib.Data.List.Induction
import Mathlib.Data.List.Infix
import Remo.Native.Engine.Streaming

/-!
# Streamed tool arguments

What a stream event does to the collector, and when the deltas of a call add up to its arguments.

## Key results

- `feed_toolCall`, `feed_streamEnd`, `feed_plain`: what an event does to the calls
- `steady_of_collect`: a call with a name has been started
- `append_argsDelta_iff`: when a delta completes what has been sent
- `faithfulStream_iff`: when the deltas add up at every point of a stream
-/

/-! ## What a stream event does

A consumer feeds every event to the collector and takes all outputs that it leaves.
-/

namespace Remo

/-! ## A consumer -/

namespace StreamCollector

/-- Take the pending outputs, a number of them at most. -/
def drainFrom : Nat → StreamCollector → List StreamOutput × StreamCollector
  | 0, c => ([], c)
  | n + 1, c =>
    match c.takePendingOutput.1 with
    | none => ([], c.takePendingOutput.2)
    | some out =>
      let rest := drainFrom n c.takePendingOutput.2
      (out :: rest.1, rest.2)

/-- Take the pending outputs until there are none. -/
def drain (self : StreamCollector) : List StreamOutput × StreamCollector :=
  drainFrom (self.pendingOutputs.length + 1) self

theorem drain_eq (self : StreamCollector) :
    self.drain = (self.pendingOutputs, { self with pendingOutputs := [] }) := by
  have h : ∀ (outs : List StreamOutput) (c : StreamCollector), c.pendingOutputs = outs →
      drainFrom (outs.length + 1) c = (outs, { c with pendingOutputs := [] }) := by
    intro outs
    induction outs with
    | nil =>
      intro c hc
      simp [drainFrom, takePendingOutput, hc]
    | cons out outs ih =>
      intro c hc
      have hrest := ih { c with pendingOutputs := outs } rfl
      simp only [drainFrom, takePendingOutput, List.length_cons, hc, List.head?_cons,
        List.tail_cons] at hrest ⊢
      rw [hrest]
  exact h _ self rfl

/-- The text that `finish` uses for a call. -/
def UsesText (self : StreamCollector) (id text : String) : Prop :=
  ∃ p, self.toolCalls.get? id = some p ∧ p.name ≠ "" ∧ p.arguments = text

end StreamCollector

/-- A collector, and everything that has been emitted. -/
structure Streamed where
  collector : StreamCollector
  outputs : List StreamOutput

/-- Process an event and take the outputs. -/
def Streamed.feed (self : Streamed) (event : ChatStreamEvent) : Option Streamed :=
  (self.collector.process event).map fun processed =>
    ⟨processed.2.drain.2, self.outputs ++ processed.1 :: processed.2.drain.1⟩

/-- Process a stream from its start. -/
def collect (events : List ChatStreamEvent) : Option Streamed :=
  events.foldlM (fun (s : Streamed) event => s.feed event) ⟨.new, []⟩

theorem collect_concat (events : List ChatStreamEvent) (event : ChatStreamEvent) :
    collect (events ++ [event]) = (collect events).bind fun s => s.feed event := by
  unfold collect
  rw [List.foldlM_append]
  cases events.foldlM (fun (s : Streamed) event => s.feed event) ⟨.new, []⟩ with
  | none => rfl
  | some s =>
    show ([event].foldlM (fun (s : Streamed) event => s.feed event) s) = s.feed event
    simp

/-- The argument delta of an output for the call. -/
def deltaFor (id : String) : StreamOutput → String
  | .toolCallDelta id' delta => if id' = id then delta else ""
  | .toolCallStart _ _ => ""
  | .textDelta _ => ""
  | .reasoningDelta _ => ""
  | .none => ""

/-- The argument deltas of a call, one behind the other. -/
def deltasFor (id : String) : List StreamOutput → String
  | [] => ""
  | out :: outs => deltaFor id out ++ deltasFor id outs

/-- The text that the collector holds for the call. -/
def Streamed.held (self : Streamed) (id : String) : String := (self.collector.entryOf id).arguments

/-- What has been sent of the call. -/
def Streamed.sent (self : Streamed) (id : String) : String := deltasFor id self.outputs

/-- The name of the call once a chunk has come. -/
def Streamed.nameWith (self : Streamed) (call : ProviderToolCall) : String :=
  if call.fnName.isEmpty then (self.collector.entryOf call.callId).name else call.fnName

/-! ## A chunk -/

variable {s s' : Streamed} {call : ProviderToolCall} {id d : String}
variable {events : List ChatStreamEvent}

theorem deltasFor_append (id : String) (outs outs' : List StreamOutput) :
    deltasFor id (outs ++ outs') = deltasFor id outs ++ deltasFor id outs' := by
  induction outs with
  | nil =>
    show deltasFor id outs' = "" ++ deltasFor id outs'
    rw [String.empty_append]
  | cons out outs ih =>
    show deltaFor id out ++ deltasFor id (outs ++ outs') = _
    rw [ih, ← String.append_assoc]
    rfl

/-- What is emitted for a chunk, with the text behind the held one. -/
def Streamed.emitted (self : Streamed) (call : ProviderToolCall) (d : String) : String :=
  if (self.collector.entryOf call.callId).startEmitted then d
  else if self.nameWith call = "" then ""
  else if toolArgsHaveContent call.fnArguments then argsStrOf call.fnArguments
  else ""

/-- The entry of a call behind a chunk. -/
def Streamed.entryWith (self : Streamed) (call : ProviderToolCall) : PartialToolCall where
  id := (self.collector.entryOf call.callId).id
  name := self.nameWith call
  arguments := argsStrOf call.fnArguments
  startEmitted := (self.collector.entryOf call.callId).startEmitted ||
    !(self.nameWith call).isEmpty

/-- The delta of a chunk, unless the slice panics. -/
def Streamed.deltaOf (self : Streamed) (call : ProviderToolCall) : Option String :=
  argsDelta (byteLen (self.held call.callId)) (argsStrOf call.fnArguments)

/-- The collector behind a chunk, with its delta. -/
def Streamed.collectorWith (self : Streamed) (call : ProviderToolCall) (d : String) :
    StreamCollector :=
  { self.collector with
    toolCalls := self.collector.toolCalls.insert call.callId (self.entryWith call)
    toolCallOrder :=
      if (self.collector.toolCalls.get? call.callId).isSome then self.collector.toolCallOrder
      else self.collector.toolCallOrder ++ [call.callId]
    bytesReceived := self.collector.bytesReceived + byteLen d }

/-- A chunk starts its call, adds to it, or emits nothing. -/
theorem startOrDelta {α : Type} (started nameless empty : Bool) (start delta none : α) :
    (if (!started && !nameless) = true then some start
      else if (started && !empty) = true then some delta
      else some none) =
      some (if started = true then if empty = true then none else delta
        else if nameless = true then none else start) := by
  cases started <;> cases nameless <;> cases empty <;> rfl

theorem processToolCall_eq :
    s.collector.processToolCall call = (s.deltaOf call).map fun d =>
      if (s.collector.entryOf call.callId).startEmitted then
        if d.isEmpty then (.none, s.collectorWith call d)
        else (.toolCallDelta call.callId d, s.collectorWith call d)
      else if (s.nameWith call).isEmpty then (.none, s.collectorWith call d)
      else (.toolCallStart call.callId (s.nameWith call),
        { s.collectorWith call d with
          pendingOutputs := s.collector.pendingOutputs ++
            if toolArgsHaveContent call.fnArguments then
              [.toolCallDelta call.callId (argsStrOf call.fnArguments)] else [] }) := by
  unfold StreamCollector.processToolCall
  dsimp only
  show (s.deltaOf call).bind _ = _
  cases s.deltaOf call with
  | none => rfl
  | some d =>
    rw [Option.bind_some, Option.map_some]
    have hstart : ∀ started nameless : Bool,
        (started || (!started && !nameless)) = (started || !nameless) := by
      decide
    simp only [hstart]
    exact startOrDelta _ _ _ _ _ _

/-- What a chunk does to its call. -/
theorem feed_toolCall (hpending : s.collector.pendingOutputs = [])
    (h : s.feed (.toolCallChunk call) = some s') :
    ∃ d, s.deltaOf call = some d ∧ s'.collector.pendingOutputs = [] ∧
      s'.collector.toolCalls = s.collector.toolCalls.insert call.callId (s.entryWith call) ∧
      ∀ id, s'.sent id = s.sent id ++ if call.callId = id then s.emitted call d else "" := by
  unfold Streamed.feed at h
  rw [show s.collector.process (.toolCallChunk call) = s.collector.processToolCall call from rfl,
    processToolCall_eq] at h
  cases hd : s.deltaOf call with
  | none =>
    rw [hd] at h
    cases h
  | some d =>
    rw [hd, Option.map_some, Option.map_some, Option.some.injEq] at h
    refine ⟨d, rfl, ?_⟩
    rw [← h]
    unfold Streamed.sent Streamed.emitted
    dsimp only
    rw [StreamCollector.drain_eq]
    by_cases hstarted : (s.collector.entryOf call.callId).startEmitted = true
    · rw [if_pos hstarted, if_pos hstarted]
      by_cases hempty : d.isEmpty = true
      · rw [if_pos hempty]
        refine ⟨rfl, rfl, ?_⟩
        intro id
        rw [deltasFor_append, String.isEmpty_iff.mp hempty]
        dsimp only [Streamed.collectorWith]
        rw [hpending]
        simp [deltasFor, deltaFor]
      · rw [if_neg hempty]
        refine ⟨rfl, rfl, ?_⟩
        intro id
        rw [deltasFor_append]
        dsimp only [Streamed.collectorWith]
        rw [hpending]
        simp [deltasFor, deltaFor]
    · rw [if_neg hstarted, if_neg hstarted]
      by_cases hname : (s.nameWith call).isEmpty = true
      · rw [if_pos hname, if_pos (String.isEmpty_iff.mp hname)]
        refine ⟨rfl, rfl, ?_⟩
        intro id
        rw [deltasFor_append]
        dsimp only [Streamed.collectorWith]
        rw [hpending]
        simp [deltasFor, deltaFor]
      · rw [if_neg hname, if_neg (fun h => hname (String.isEmpty_iff.mpr h))]
        refine ⟨rfl, rfl, ?_⟩
        intro id
        rw [deltasFor_append, hpending, List.nil_append]
        cases toolArgsHaveContent call.fnArguments with
        | true => simp [deltasFor, deltaFor]
        | false => simp [deltasFor, deltaFor]

theorem feed_of_deltaOf (h : s.deltaOf call = some d) :
    ∃ s', s.feed (.toolCallChunk call) = some s' := by
  have hprocess : s.collector.process (.toolCallChunk call) = s.collector.processToolCall call :=
    rfl
  unfold Streamed.feed
  rw [hprocess, processToolCall_eq, h]
  exact ⟨_, rfl⟩

/-! ## Captured calls -/

/-- The calls that an `End` event leaves when it captures calls. -/
def capturedCalls (calls : List ProviderToolCall) : AssocMap String PartialToolCall :=
  calls.foldl (fun m call => m.insert call.callId (StreamCollector.capturedEntry call)) .empty

/-- The last captured call with an id stays. -/
theorem get?_capturedCalls (calls : List ProviderToolCall) (id : String) :
    (capturedCalls calls).get? id =
      (calls.reverse.find? fun call => call.callId == id).map StreamCollector.capturedEntry := by
  induction calls using List.reverseRecOn with
  | nil => rfl
  | append_singleton calls call ih =>
    unfold capturedCalls at ih ⊢
    rw [List.foldl_append, List.reverse_append, List.foldl_cons, List.foldl_nil,
      AssocMap.get?_insert, ih]
    show _ = ((call :: calls.reverse).find? fun call => call.callId == id).map _
    rw [List.find?_cons]
    cases hhit : call.callId == id with
    | true =>
      rw [if_pos (beq_iff_eq.mp hhit).symm]
      rfl
    | false =>
      have hne : ¬ id = call.callId := fun heq => beq_eq_false_iff_ne.mp hhit heq.symm
      rw [if_neg hne]

theorem toolCalls_applyEnd (c : StreamCollector) (captured : StreamEnd) :
    (c.applyEnd captured).toolCalls = captured.capturedToolCalls.elim c.toolCalls capturedCalls ∧
      (c.applyEnd captured).pendingOutputs = c.pendingOutputs := by
  unfold StreamCollector.applyEnd
  cases captured.capturedToolCalls with
  | none => cases captured.capturedFirstText <;> exact ⟨rfl, rfl⟩
  | some calls => cases captured.capturedFirstText <;> exact ⟨rfl, rfl⟩

theorem feed_streamEnd {captured : StreamEnd} (hpending : s.collector.pendingOutputs = [])
    (h : s.feed (.streamEnd captured) = some s') :
    s'.collector.pendingOutputs = [] ∧
      s'.collector.toolCalls = captured.capturedToolCalls.elim s.collector.toolCalls
        capturedCalls ∧
      ∀ id, s'.sent id = s.sent id := by
  obtain ⟨hcalls, houts⟩ := toolCalls_applyEnd s.collector captured
  have hfeed : s.feed (.streamEnd captured) = some
      ⟨{ s.collector.applyEnd captured with pendingOutputs := [] }, s.outputs ++ [.none]⟩ := by
    show some (Streamed.mk _ _) = _
    rw [StreamCollector.drain_eq, houts, hpending]
  rw [hfeed, Option.some.injEq] at h
  rw [← h]
  refine ⟨rfl, hcalls, ?_⟩
  intro id
  unfold Streamed.sent
  rw [deltasFor_append]
  simp [deltasFor, deltaFor]

/-- The event is neither a chunk of a tool call nor an `End` event. -/
def IsPlain : ChatStreamEvent → Prop
  | .toolCallChunk _ => False
  | .streamEnd _ => False
  | .start => True
  | .chunk _ => True
  | .reasoningChunk _ => True
  | .thoughtSignatureChunk _ => True

/-- Other events leave the calls alone. -/
theorem feed_plain {event : ChatStreamEvent} (hevent : IsPlain event)
    (hpending : s.collector.pendingOutputs = []) :
    ∃ s', s.feed event = some s' ∧ s'.collector.pendingOutputs = [] ∧
      s'.collector.toolCalls = s.collector.toolCalls ∧ ∀ id, s'.sent id = s.sent id := by
  have hnone : ∀ (out : StreamOutput) (c : StreamCollector), s.collector.process event =
      some (out, c) → c.pendingOutputs = [] → c.toolCalls = s.collector.toolCalls →
      (∀ id, deltaFor id out = "") →
      ∃ s', s.feed event = some s' ∧ s'.collector.pendingOutputs = [] ∧
        s'.collector.toolCalls = s.collector.toolCalls ∧ ∀ id, s'.sent id = s.sent id := by
    intro out c hprocess hc hcalls hdelta
    refine ⟨⟨{ c with pendingOutputs := [] }, s.outputs ++ [out]⟩, ?_, rfl, hcalls, ?_⟩
    · unfold Streamed.feed
      rw [hprocess, Option.map_some]
      dsimp only
      rw [StreamCollector.drain_eq, hc]
    · intro id
      unfold Streamed.sent
      rw [deltasFor_append]
      simp [deltasFor, hdelta]
  cases event with
  | toolCallChunk call => cases hevent
  | streamEnd captured => cases hevent
  | start => exact hnone _ _ rfl hpending rfl fun _ => rfl
  | chunk content => exact hnone _ _ rfl hpending rfl fun _ => rfl
  | reasoningChunk content => exact hnone _ _ rfl hpending rfl fun _ => rfl
  | thoughtSignatureChunk content => exact hnone _ _ rfl hpending rfl fun _ => rfl

/-! ## Runs -/

/-- Between events all outputs are taken, and the calls with a name have been started. -/
structure Streamed.Steady (w : Streamed) : Prop where
  taken : w.collector.pendingOutputs = []
  started : ∀ id p, w.collector.toolCalls.get? id = some p → p.name ≠ "" → p.startEmitted = true

theorem steady_new : Streamed.Steady ⟨.new, []⟩ where
  taken := rfl
  started id p h := by
    cases h

theorem Streamed.Steady.feedPlain (event : ChatStreamEvent) (h : s.Steady)
    (hplain : IsPlain event) (hfeed : s.feed event = some s') : s'.Steady := by
  obtain ⟨s'', hfeed', hpending, hcalls, -⟩ := feed_plain hplain h.taken
  rw [hfeed'] at hfeed
  cases hfeed
  refine ⟨hpending, ?_⟩
  rw [hcalls]
  exact h.started

theorem Streamed.Steady.feed {event : ChatStreamEvent} (h : s.Steady)
    (hfeed : s.feed event = some s') : s'.Steady := by
  cases event with
  | toolCallChunk call =>
    obtain ⟨d, -, hpending, hcalls, -⟩ := feed_toolCall h.taken hfeed
    refine ⟨hpending, ?_⟩
    intro id p hp hname
    rw [hcalls, AssocMap.get?_insert] at hp
    by_cases heq : id = call.callId
    · rw [if_pos heq, Option.some.injEq] at hp
      rw [← hp] at hname ⊢
      have hempty : (s.nameWith call).isEmpty = false := by
        cases hc : (s.nameWith call).isEmpty with
        | true => exact absurd (String.isEmpty_iff.mp hc) hname
        | false => rfl
      show ((s.collector.entryOf call.callId).startEmitted || !(s.nameWith call).isEmpty) = true
      rw [hempty]
      simp
    · rw [if_neg heq] at hp
      exact h.started id p hp hname
  | streamEnd captured =>
    obtain ⟨hpending, hcalls, -⟩ := feed_streamEnd h.taken hfeed
    refine ⟨hpending, ?_⟩
    intro id p hp hname
    rw [hcalls] at hp
    cases hcaptured : captured.capturedToolCalls with
    | none =>
      rw [hcaptured] at hp
      exact h.started id p hp hname
    | some calls =>
      rw [hcaptured] at hp
      obtain ⟨call, -, hcall⟩ := Option.map_eq_some_iff.mp
        ((get?_capturedCalls calls id).symm.trans hp)
      rw [← hcall]
      rfl
  | start => exact h.feedPlain .start trivial hfeed
  | chunk content => exact h.feedPlain (.chunk content) trivial hfeed
  | reasoningChunk content => exact h.feedPlain (.reasoningChunk content) trivial hfeed
  | thoughtSignatureChunk content =>
    exact h.feedPlain (.thoughtSignatureChunk content) trivial hfeed

theorem steady_of_collect (h : collect events = some s) : s.Steady := by
  induction events using List.reverseRecOn generalizing s with
  | nil =>
    cases h
    exact steady_new
  | append_singleton past event ih =>
    rw [collect_concat] at h
    obtain ⟨before, hbefore, hfeed⟩ := Option.bind_eq_some_iff.mp h
    exact (ih hbefore).feed hfeed

end Remo

/-! ## Streamed tool arguments

The deltas of a call should add up to the arguments that the collector ends with. They do while
the text that is held is the text that has been sent: a placeholder is held without being sent,
and captured calls replace the held text.
-/

namespace Remo

/-! ## Faithful streams -/

/-- The arguments that an event brings for the call. -/
def argsFor (id : String) : ChatStreamEvent → Option Value
  | .toolCallChunk call => if call.callId = id then some call.fnArguments else none
  | .start => none
  | .chunk _ => none
  | .reasoningChunk _ => none
  | .thoughtSignatureChunk _ => none
  | .streamEnd _ => none

/-- The successive arguments of a call. -/
def argValues (id : String) (events : List ChatStreamEvent) : List Value :=
  events.filterMap (argsFor id)

/-- Each argument text extends the one before. -/
def TextsExtend (values : List Value) : Prop :=
  (values.map fun v => (argsStrOf v).toList).IsChain (· <+: ·)

/-- Each argument text extends the one before, once an empty placeholder at the front is left
    out. -/
def Growing (values : List Value) : Prop :=
  TextsExtend values ∨
    ∃ v rest, values = v :: rest ∧ toolArgsHaveContent v = false ∧ TextsExtend rest

/-- After the events nothing has panicked, and the deltas of every call whose texts grow add up
    to the text that `finish` uses. -/
structure FaithfulAfter (events : List ChatStreamEvent) : Prop where
  safe : ∃ s, collect events = some s
  deltas : ∀ s, collect events = some s → ∀ id, Growing (argValues id events) →
    ∀ text, s.collector.UsesText id text → deltasFor id s.outputs = text

/-- The stream is faithful after each of its events. -/
def FaithfulStream (events : List ChatStreamEvent) : Prop :=
  ∀ past, past <+: events → FaithfulAfter past

/-! ## The condition -/

/-- A chunk that is taken faithfully. -/
structure ChunkOk (past : List ChatStreamEvent) (s : Streamed) (call : ProviderToolCall) : Prop where
  /-- In a longer text, a character begins behind as many bytes as are held. -/
  boundary : byteLen (s.held call.callId) < byteLen (argsStrOf call.fnArguments) →
    Utf8.IsBoundary (argsStrOf call.fnArguments).toList (byteLen (s.held call.callId))
  /-- The chunk that starts the call has content and is the first of which anything is sent, or
      its text has been sent. -/
  start : Growing (argValues call.callId past ++ [call.fnArguments]) →
    (s.collector.entryOf call.callId).startEmitted = false → s.nameWith call ≠ "" →
    s.sent call.callId =
      if toolArgsHaveContent call.fnArguments then "" else argsStrOf call.fnArguments
  /-- Of a call that has started, the text has been sent as far as it is held. -/
  resumes : Growing (argValues call.callId past ++ [call.fnArguments]) →
    (s.collector.entryOf call.callId).startEmitted = true → s.nameWith call ≠ "" →
    (s.sent call.callId).toList <+: (argsStrOf call.fnArguments).toList ∧
      byteLen (s.sent call.callId) =
        min (byteLen (s.held call.callId)) (byteLen (argsStrOf call.fnArguments))

/-- Captured calls repeat what has been sent. -/
def EndOk (past : List ChatStreamEvent) (s : Streamed) (captured : StreamEnd) : Prop :=
  ∀ calls, captured.capturedToolCalls = some calls → ∀ id call,
    calls.reverse.find? (fun call => call.callId == id) = some call → call.fnName ≠ "" →
      Growing (argValues id past) → s.sent id = call.fnArguments.print

/-- An event that is taken faithfully. -/
def StepOk (past : List ChatStreamEvent) (s : Streamed) : ChatStreamEvent → Prop
  | .toolCallChunk call => ChunkOk past s call
  | .streamEnd captured => EndOk past s captured
  | .start => True
  | .chunk _ => True
  | .reasoningChunk _ => True
  | .thoughtSignatureChunk _ => True

/-- All events are taken faithfully. -/
def StepsOk (events : List ChatStreamEvent) : Prop :=
  ∀ past event rest, events = past ++ event :: rest → ∀ s, collect past = some s →
    StepOk past s event
/-! ## Deltas -/

variable {s s' : Streamed} {call : ProviderToolCall} {id d : String}
variable {past events : List ChatStreamEvent}

/-- A chunk is taken when a character begins where its text is cut. -/
theorem exists_argsDelta_iff {pos : Nat} {text : String} :
    (∃ d, argsDelta pos text = some d) ↔
      (pos < byteLen text → Utf8.IsBoundary text.toList pos) := by
  unfold argsDelta
  by_cases hlt : pos < byteLen text
  · rw [if_pos hlt]
    unfold textFrom
    constructor
    · intro h _
      obtain ⟨d, hd⟩ := h
      obtain ⟨rest, hrest, -⟩ := Option.map_eq_some_iff.mp hd
      obtain ⟨before, htext, hsize⟩ := Utf8.dropBytes_eq_some.mp hrest
      exact ⟨before, rest, htext, hsize⟩
    · intro h
      obtain ⟨before, rest, htext, hsize⟩ := h hlt
      exact ⟨_, Option.map_eq_some_iff.mpr
        ⟨rest, Utf8.dropBytes_eq_some.mpr ⟨before, htext, hsize⟩, rfl⟩⟩
  · rw [if_neg hlt]
    exact ⟨fun _ h => absurd h hlt, fun _ => ⟨"", rfl⟩⟩

/-- A delta completes what has been sent when that is the text as far as it is held. -/
theorem append_argsDelta_iff {sent text d : String} {pos : Nat}
    (hd : argsDelta pos text = some d) :
    sent ++ d = text ↔
      sent.toList <+: text.toList ∧ byteLen sent = min pos (byteLen text) := by
  have htext : sent ++ d = text ↔ sent.toList ++ d.toList = text.toList := by
    rw [← String.toList_inj, String.toList_append]
  rw [htext]
  unfold argsDelta at hd
  by_cases hlt : pos < byteLen text
  · rw [if_pos hlt] at hd
    unfold textFrom at hd
    obtain ⟨rest, hrest, rfl⟩ := Option.map_eq_some_iff.mp hd
    obtain ⟨before, hsplit, hsize⟩ := Utf8.dropBytes_eq_some.mp hrest
    rw [String.toList_ofList, hsplit]
    constructor
    · intro h
      rw [List.append_cancel_right h]
      refine ⟨⟨rest, rfl⟩, ?_⟩
      unfold byteLen at hlt ⊢
      rw [List.append_cancel_right h]
      omega
    · intro h
      obtain ⟨hsent, hlen⟩ := h
      have hsame : sent.toList = before := by
        apply Utf8.eq_of_isPrefix hsent ⟨rest, rfl⟩
        unfold byteLen at hlen hlt
        omega
      rw [hsame]
  · rw [if_neg hlt, Option.some.injEq] at hd
    rw [← hd]
    simp only [String.toList_empty, List.append_nil]
    constructor
    · intro h
      unfold byteLen at hlt ⊢
      rw [h]
      exact ⟨List.prefix_refl _, by omega⟩
    · intro h
      apply Utf8.eq_of_isPrefix h.1 (List.prefix_refl _)
      have hlen := h.2
      unfold byteLen at hlen hlt
      omega

/-! ## Runs -/

/-- What holds of a step that returns holds of the stream with the event. -/
theorem faithfulAfter_concat {event : ChatStreamEvent} (hs : collect past = some s) :
    FaithfulAfter (past ++ [event]) ↔
      (∃ s', s.feed event = some s') ∧ ∀ s', s.feed event = some s' → ∀ id,
        Growing (argValues id (past ++ [event])) → ∀ text, s'.collector.UsesText id text →
          s'.sent id = text := by
  have hcollect : collect (past ++ [event]) = s.feed event := by
    rw [collect_concat, hs]
    rfl
  constructor
  · intro h
    have hsafe := h.safe
    have hdeltas := h.deltas
    rw [hcollect] at hsafe hdeltas
    exact ⟨hsafe, hdeltas⟩
  · intro h
    constructor
    · rw [hcollect]
      exact h.1
    · rw [hcollect]
      exact h.2

theorem argValues_chunk (id : String) :
    argValues id (past ++ [.toolCallChunk call]) =
      argValues id past ++ if call.callId = id then [call.fnArguments] else [] := by
  unfold argValues
  rw [List.filterMap_append]
  by_cases heq : call.callId = id
  · simp [argsFor, heq]
  · simp [argsFor, heq]

/-- A chunk is taken faithfully when it meets the condition. -/
theorem faithfulAfter_chunk (hs : collect past = some s) (hpast : FaithfulAfter past) :
    FaithfulAfter (past ++ [.toolCallChunk call]) ↔ ChunkOk past s call := by
  have hsteady := steady_of_collect hs
  rw [faithfulAfter_concat hs]
  constructor
  · intro h
    obtain ⟨⟨s', hfeed⟩, hdeltas⟩ := h
    obtain ⟨d, hd, -, hcalls, hsent⟩ := feed_toolCall hsteady.taken hfeed
    have hsum : Growing (argValues call.callId past ++ [call.fnArguments]) →
        s.nameWith call ≠ "" →
        s.sent call.callId ++ s.emitted call d = argsStrOf call.fnArguments := by
      intro hgrow hname
      have hhere := hdeltas s' hfeed call.callId
      rw [argValues_chunk, if_pos rfl, hsent, if_pos rfl] at hhere
      apply hhere hgrow
      refine ⟨s.entryWith call, ?_, hname, rfl⟩
      rw [hcalls, AssocMap.get?_insert, if_pos rfl]
    constructor
    · exact exists_argsDelta_iff.mp ⟨d, hd⟩
    · intro hgrow hstarted hname
      have hsame := hsum hgrow hname
      unfold Streamed.emitted at hsame
      rw [if_neg (by rw [hstarted]; exact Bool.false_ne_true), if_neg hname] at hsame
      cases hcontent : toolArgsHaveContent call.fnArguments with
      | true =>
        rw [hcontent, if_pos rfl] at hsame
        have hlength := congrArg String.length hsame
        rw [String.length_append] at hlength
        exact String.length_eq_zero_iff.mp (by omega)
      | false =>
        rw [hcontent, if_neg Bool.false_ne_true, String.append_empty] at hsame
        exact hsame
    · intro hgrow hstarted hname
      have hsame := hsum hgrow hname
      unfold Streamed.emitted at hsame
      rw [if_pos hstarted] at hsame
      exact (append_argsDelta_iff hd).mp hsame
  · intro h
    obtain ⟨d, hd⟩ := exists_argsDelta_iff.mpr h.boundary
    constructor
    · exact feed_of_deltaOf hd
    · intro s' hfeed id hgrow text huses
      obtain ⟨d', hd', -, hcalls, hsent⟩ := feed_toolCall hsteady.taken hfeed
      obtain ⟨p, hp, hname, htext⟩ := huses
      rw [hcalls, AssocMap.get?_insert] at hp
      rw [argValues_chunk] at hgrow
      by_cases heq : call.callId = id
      · rw [if_pos heq.symm, Option.some.injEq] at hp
        rw [← heq] at hgrow
        rw [if_pos rfl] at hgrow
        rw [← hp] at hname htext
        have hname : s.nameWith call ≠ "" := hname
        rw [hsent, if_pos heq, ← htext, ← heq]
        show _ = argsStrOf call.fnArguments
        unfold Streamed.emitted
        cases hstarted : (s.collector.entryOf call.callId).startEmitted with
        | true =>
          rw [if_pos rfl]
          exact (append_argsDelta_iff hd').mpr (h.resumes hgrow hstarted hname)
        | false =>
          have hstart := h.start hgrow hstarted hname
          rw [if_neg Bool.false_ne_true, if_neg hname, hstart]
          cases toolArgsHaveContent call.fnArguments with
          | true => simp
          | false => simp
      · rw [if_neg (fun h => heq h.symm)] at hp
        rw [if_neg heq, List.append_nil] at hgrow
        rw [hsent, if_neg heq, String.append_empty]
        exact hpast.deltas s hs id hgrow text ⟨p, hp, hname, htext⟩

/-- An `End` event is taken faithfully when it meets the condition. -/
theorem faithfulAfter_streamEnd {captured : StreamEnd} (hs : collect past = some s)
    (hpast : FaithfulAfter past) :
    FaithfulAfter (past ++ [.streamEnd captured]) ↔ EndOk past s captured := by
  have hsteady := steady_of_collect hs
  have hvalues : ∀ id, argValues id (past ++ [.streamEnd captured]) = argValues id past := by
    intro id
    simp [argValues, argsFor]
  rw [faithfulAfter_concat hs]
  simp only [hvalues]
  constructor
  · intro h calls hcalls id call hcall hname hgrow
    obtain ⟨⟨s', hfeed⟩, hdeltas⟩ := h
    obtain ⟨-, hmap, hsent⟩ := feed_streamEnd hsteady.taken hfeed
    rw [hcalls] at hmap
    rw [← hsent]
    apply hdeltas s' hfeed id hgrow
    refine ⟨StreamCollector.capturedEntry call, ?_, hname, rfl⟩
    rw [hmap]
    show (capturedCalls calls).get? id = _
    rw [get?_capturedCalls, hcall]
    rfl
  · intro h
    refine ⟨⟨_, rfl⟩, ?_⟩
    intro s' hfeed id hgrow text huses
    obtain ⟨-, hmap, hsent⟩ := feed_streamEnd hsteady.taken hfeed
    obtain ⟨p, hp, hname, htext⟩ := huses
    rw [hmap] at hp
    rw [hsent]
    cases hcaptured : captured.capturedToolCalls with
    | none =>
      rw [hcaptured] at hp
      exact hpast.deltas s hs id hgrow text ⟨p, hp, hname, htext⟩
    | some calls =>
      rw [hcaptured] at hp
      obtain ⟨call, hcall, rfl⟩ := Option.map_eq_some_iff.mp
        ((get?_capturedCalls calls id).symm.trans hp)
      rw [h calls hcaptured id call hcall hname hgrow]
      exact htext

theorem faithfulAfter_plain {event : ChatStreamEvent} (hplain : IsPlain event)
    (hvalues : ∀ id, argsFor id event = none) (hs : collect past = some s)
    (hpast : FaithfulAfter past) : FaithfulAfter (past ++ [event]) := by
  have hsteady := steady_of_collect hs
  rw [faithfulAfter_concat hs]
  obtain ⟨s', hfeed, -, hmap, hsent⟩ := feed_plain hplain hsteady.taken
  refine ⟨⟨s', hfeed⟩, ?_⟩
  intro s'' hfeed' id hgrow text huses
  rw [hfeed] at hfeed'
  cases hfeed'
  have hsame : argValues id (past ++ [event]) = argValues id past := by
    simp [argValues, hvalues]
  rw [hsame] at hgrow
  obtain ⟨p, hp, hrest⟩ := huses
  rw [hmap] at hp
  rw [hsent]
  exact hpast.deltas s hs id hgrow text ⟨p, hp, hrest⟩

/-- One more event is taken faithfully when it meets the condition. -/
theorem faithfulAfter_iff (event : ChatStreamEvent) (hs : collect past = some s)
    (hpast : FaithfulAfter past) :
    FaithfulAfter (past ++ [event]) ↔ StepOk past s event := by
  cases event with
  | toolCallChunk call => exact faithfulAfter_chunk hs hpast
  | streamEnd captured => exact faithfulAfter_streamEnd hs hpast
  | start => exact iff_of_true (faithfulAfter_plain trivial (fun _ => rfl) hs hpast) trivial
  | chunk content =>
    exact iff_of_true (faithfulAfter_plain trivial (fun _ => rfl) hs hpast) trivial
  | reasoningChunk content =>
    exact iff_of_true (faithfulAfter_plain trivial (fun _ => rfl) hs hpast) trivial
  | thoughtSignatureChunk content =>
    exact iff_of_true (faithfulAfter_plain trivial (fun _ => rfl) hs hpast) trivial

theorem faithfulAfter_nil : FaithfulAfter [] where
  safe := ⟨_, rfl⟩
  deltas s hs id _ text huses := by
    cases hs
    obtain ⟨p, hp, -⟩ := huses
    cases hp

/-- When a stream is faithful after each of its events. -/
theorem faithfulStream_iff (events : List ChatStreamEvent) :
    FaithfulStream events ↔ StepsOk events := by
  constructor
  · intro h past event rest heq s hs
    have hpast : FaithfulAfter past := h past (by rw [heq]; exact List.prefix_append _ _)
    have hnext : FaithfulAfter (past ++ [event]) := by
      apply h
      rw [heq]
      exact ⟨rest, by simp⟩
    exact (faithfulAfter_iff event hs hpast).mp hnext
  · intro h past hpast
    induction past using List.reverseRecOn with
    | nil => exact faithfulAfter_nil
    | append_singleton past event ih =>
      obtain ⟨rest, hrest⟩ := hpast
      have heq : events = past ++ event :: rest := by
        rw [← hrest]
        simp
      have hbefore := ih ⟨event :: rest, heq.symm⟩
      obtain ⟨s, hs⟩ := hbefore.safe
      exact (faithfulAfter_iff event hs hbefore).mpr (h past event rest heq s hs)

/-! ## A placeholder -/

/-- A call that starts with an empty object, and then gets its arguments. -/
def placeholderStream : List ChatStreamEvent :=
  [.toolCallChunk ⟨"call", "get_weather", .object []⟩,
    .toolCallChunk ⟨"call", "get_weather", .string "\x7b\"city\":\"Rome\"\x7d"⟩]

/-- A call whose second text has a character across the end of the first one. -/
def splitCharacterStream : List ChatStreamEvent :=
  [.toolCallChunk ⟨"call", "get_weather", .string "ab"⟩,
    .toolCallChunk ⟨"call", "get_weather", .string "aé"⟩]

/-- The length of the placeholder is taken off the arguments, and a shorter beginning panics. -/
theorem placeholder_losesBytes :
    Growing (argValues "call" placeholderStream) ∧ ¬ FaithfulAfter placeholderStream ∧
      collect splitCharacterStream = none := by
  have hgrow : Growing (argValues "call" placeholderStream) := by
    apply Or.inr
    exact ⟨_, _, rfl, rfl, List.IsChain.singleton _⟩
  refine ⟨hgrow, ?_, ?_⟩
  · intro h
    obtain ⟨s, hs⟩ := h.safe
    have hsent : (collect placeholderStream).map (fun s => s.sent "call") =
        some "city\":\"Rome\"\x7d" := by
      decide +kernel
    have hentry : (collect placeholderStream).bind (fun s => s.collector.toolCalls.get? "call") =
        some ⟨"call", "get_weather", "\x7b\"city\":\"Rome\"\x7d", true⟩ := by
      decide +kernel
    rw [hs] at hsent hentry
    have hsame := h.deltas s hs "call" hgrow _ ⟨_, hentry, by decide, rfl⟩
    rw [show deltasFor "call" s.outputs = _ from Option.some.inj hsent] at hsame
    revert hsame
    decide
  · have hnone : (collect splitCharacterStream).isNone = true := by
      decide +kernel
    exact Option.isNone_iff_eq_none.mp hnone

end Remo
