import Remo.ForStd.CachedEntry
import Remo.Spec.Protocol.StrictClients

/-!
# The interrupt of a suspended run

A suspended run finishes with an interrupt, whose id is the suspension id of a call that waits.
The encoder keeps the suspensions of all waiting calls in a hash map and one of them beside it, so
its runs are stated for every iteration order of the map.

## Key results

- `Reaches.interrupts`: the map and the entry beside it over every run.
- `interrupt_isOpen`: the interrupt names the latest suspension of a call that has not been settled
  since. Events behind a terminal event and Pending results without a ticket count for nothing.
- `interrupt_notOpen`: both of these do make a difference.
-/

namespace Remo

open Protocol (SuspendTicket ToolResult)

namespace Protocol

/-- A Pending result of the call, with the ticket it carries. -/
def AgentEvent.SuspendsCall (ev : AgentEvent) (call : String) (suspension : Option SuspendTicket) :
    Prop :=
  ∃ messageId result, ev = .toolCallDone call messageId result ∧ result.status = .pending ∧
    result.suspension = suspension

/-- A result of the call that is not Pending, or its resumption. -/
def AgentEvent.SettlesCall (ev : AgentEvent) (call : String) : Prop :=
  (∃ messageId result, ev = .toolCallDone call messageId result ∧ result.status ≠ .pending) ∨
    ∃ result, ev = .toolCallResumed call result

/-- The latest Pending result of a call that has not been settled since. -/
def WaitsOn (evs : List AgentEvent) (call : String) (suspension : Option SuspendTicket) : Prop :=
  ∃ before ev after, evs = before ++ ev :: after ∧ ev.SuspendsCall call suspension ∧
    ∀ later ∈ after, ¬later.SettlesCall call ∧ ∀ other, ¬later.SuspendsCall call other

/-- The id is the suspension id of a waiting call, or no call waits. -/
def InterruptIsOpen (evs : List AgentEvent) (id : Option String) : Prop :=
  (∀ s, id = some s → ∃ call ticket, WaitsOn evs call (some ticket) ∧ ticket.suspensionId = s) ∧
    (id = none → ∀ call suspension, ¬WaitsOn evs call suspension)

/-- A Pending result that names no suspension. -/
def AgentEvent.isTicketless : AgentEvent → Bool
  | toolCallDone _ _ result =>
    match result.status with
    | .pending => result.suspension.isNone
    | _ => false
  | _ => false

/-- What gets through a guard: nothing behind a terminal event until the next `RunStart`. -/
structure Hearing where
  finished : Bool
  events : List AgentEvent

def Hearing.hear (heard : Hearing) (ev : AgentEvent) : Hearing :=
  if heard.finished && !ev.isRunStart then heard else ⟨ev.isTerminal, heard.events ++ [ev]⟩

/-- The events that get through. -/
def heard (evs : List AgentEvent) : Hearing := evs.foldl Hearing.hear ⟨false, []⟩

theorem heard_concat (evs : List AgentEvent) (ev : AgentEvent) :
    heard (evs ++ [ev]) = (heard evs).hear ev := by
  unfold heard
  rw [List.foldl_append]
  rfl

/-- The events that get through and are no Pending result without a ticket. -/
def counted (evs : List AgentEvent) : List AgentEvent :=
  (heard evs).events.filter fun ev => !ev.isTicketless

end Protocol

namespace AgUiEncoder

open Protocol (WaitsOn InterruptIsOpen heard counted)
open AgUi (Event)

/-- What the encoder keeps of a ticket. -/
def interruptOf (ticket : SuspendTicket) : String × Option String :=
  (ticket.suspensionId,
    if Str.isBlank ticket.suspensionAction then none else some ticket.suspensionAction)

/-- What an event does to the pending interrupts. -/
def interruptEdit : Protocol.AgentEvent → TableEdit String (String × Option String)
  | .toolCallDone id _ result =>
    match result.status, result.suspension with
    | .pending, some ticket => .put id (interruptOf ticket)
    | .pending, none => .keep
    | .success, _ => .drop id
    | .error, _ => .drop id
  | .toolCallResumed targetId _ => .drop targetId
  | _ => .keep

/-- The pending interrupts and the last one. -/
def interrupts (enc : AgUiEncoder) : CachedTable String (String × Option String) :=
  ⟨enc.pendingInterrupts, enc.lastInterrupt⟩

/-- The encoders that a sequence of events leads to, whatever the iteration orders of the map of
    pending interrupts are. -/
inductive Reaches : List Protocol.AgentEvent → AgUiEncoder → Prop where
  | new : Reaches [] .new
  | event {evs : List Protocol.AgentEvent} {enc : AgUiEncoder} (h : Reaches evs enc)
      (ev : Protocol.AgentEvent) : Reaches (evs ++ [ev]) (enc.onAgentEvent ev).2
  | reorder {evs : List Protocol.AgentEvent} {enc : AgUiEncoder} (h : Reaches evs enc)
      (rank : String → Nat) :
      Reaches evs { enc with pendingInterrupts := enc.pendingInterrupts.reorder rank }

/-! ## Edits -/

theorem interruptEdit_put_iff {ev : Protocol.AgentEvent} {call : String}
    {v : String × Option String} :
    interruptEdit ev = .put call v ↔
      ∃ ticket, ev.SuspendsCall call (some ticket) ∧ interruptOf ticket = v := by
  constructor
  · intro h
    cases ev with
    | toolCallDone id messageId result =>
      obtain ⟨status, data, message, suspension, metadata⟩ := result
      cases status with
      | pending =>
        cases suspension with
        | none => cases h
        | some ticket =>
          obtain ⟨rfl, rfl⟩ := TableEdit.put.inj h
          exact ⟨ticket, ⟨messageId, _, rfl, rfl, rfl⟩, rfl⟩
      | success => cases h
      | error => cases h
    | _ => cases h
  · intro h
    obtain ⟨ticket, hsuspends, rfl⟩ := h
    obtain ⟨messageId, result, rfl, hstatus, hsuspension⟩ := hsuspends
    simp only [interruptEdit, hstatus, hsuspension]

theorem interruptEdit_touches_iff {ev : Protocol.AgentEvent} {call : String} :
    (interruptEdit ev).Touches call ↔
      ev.SettlesCall call ∨ ∃ ticket, ev.SuspendsCall call (some ticket) := by
  constructor
  · intro h
    cases ev with
    | toolCallDone id messageId result =>
      obtain ⟨status, data, message, suspension, metadata⟩ := result
      cases status with
      | pending =>
        cases suspension with
        | none => exact h.elim
        | some ticket =>
          obtain rfl : id = call := h
          exact .inr ⟨ticket, messageId, _, rfl, rfl, rfl⟩
      | success =>
        obtain rfl : id = call := h
        exact .inl (.inl ⟨messageId, _, rfl, fun hpending => by cases hpending⟩)
      | error =>
        obtain rfl : id = call := h
        exact .inl (.inl ⟨messageId, _, rfl, fun hpending => by cases hpending⟩)
    | toolCallResumed targetId result =>
      obtain rfl : targetId = call := h
      exact .inl (.inr ⟨result, rfl⟩)
    | _ => exact h.elim
  · intro h
    cases h with
    | inl hsettles =>
      cases hsettles with
      | inl hdone =>
        obtain ⟨messageId, result, rfl, hstatus⟩ := hdone
        obtain ⟨status, data, message, suspension, metadata⟩ := result
        cases status with
        | pending => exact absurd rfl hstatus
        | success => exact rfl
        | error => exact rfl
      | inr hresumed =>
        obtain ⟨result, rfl⟩ := hresumed
        exact rfl
    | inr hsuspends =>
      obtain ⟨ticket, hsuspends⟩ := hsuspends
      rw [interruptEdit_put_iff.mpr ⟨ticket, hsuspends, rfl⟩]
      exact rfl

theorem interruptEdit_of_isTicketless {ev : Protocol.AgentEvent} (h : ev.isTicketless = true) :
    interruptEdit ev = .keep := by
  cases ev with
  | toolCallDone id messageId result =>
    obtain ⟨status, data, message, suspension, metadata⟩ := result
    cases status with
    | pending =>
      cases suspension with
      | none => rfl
      | some ticket => cases h
    | success => cases h
    | error => cases h
  | _ => cases h

theorem isTicketless_of_suspendsCall_none {ev : Protocol.AgentEvent} {call : String}
    (h : ev.SuspendsCall call none) : ev.isTicketless = true := by
  obtain ⟨messageId, result, rfl, hstatus, hsuspension⟩ := h
  unfold Protocol.AgentEvent.isTicketless
  simp only [hstatus, hsuspension]
  rfl

/-- An entry of the table is the suspension of a waiting call. -/
theorem latest_iff {evs : List Protocol.AgentEvent} (hticket : ∀ ev ∈ evs, ev.isTicketless = false)
    (call : String) (v : String × Option String) :
    TableEdit.Latest interruptEdit evs call v ↔
      ∃ ticket, WaitsOn evs call (some ticket) ∧ interruptOf ticket = v := by
  constructor
  · intro h
    obtain ⟨before, ev, after, heq, hput, hquiet⟩ := h
    obtain ⟨ticket, hsuspends, hv⟩ := interruptEdit_put_iff.mp hput
    refine ⟨ticket, ⟨before, ev, after, heq, hsuspends, ?_⟩, hv⟩
    intro later hlater
    have hnot := hquiet later hlater
    rw [interruptEdit_touches_iff] at hnot
    refine ⟨fun hsettles => hnot (.inl hsettles), ?_⟩
    intro other hother
    cases other with
    | some ticket' => exact hnot (.inr ⟨ticket', hother⟩)
    | none =>
      have hmem : later ∈ evs := by
        rw [heq]
        exact List.mem_append_right _ (List.mem_cons_of_mem _ hlater)
      have hless := isTicketless_of_suspendsCall_none hother
      rw [hticket later hmem] at hless
      cases hless
  · intro h
    obtain ⟨ticket, ⟨before, ev, after, heq, hsuspends, hquiet⟩, hv⟩ := h
    refine ⟨before, ev, after, heq, interruptEdit_put_iff.mpr ⟨ticket, hsuspends, hv⟩, ?_⟩
    intro later hlater htouch
    obtain ⟨hsettles, hother⟩ := hquiet later hlater
    cases interruptEdit_touches_iff.mp htouch with
    | inl h => exact hsettles h
    | inr h =>
      obtain ⟨ticket', h⟩ := h
      exact hother _ h

/-! ## Runs -/

/-- An event that gets through edits the pending interrupts and ends or opens the guard. -/
theorem encode_interrupts (enc : AgUiEncoder) (hrunning : enc.guard.finished = false)
    (ev : Protocol.AgentEvent) :
    (enc.encode ev).2.interrupts = enc.interrupts.apply (interruptEdit ev) ∧
      (enc.encode ev).2.guard.finished = ev.isTerminal := by
  cases ev with
  | toolCallDone id messageId result =>
    obtain ⟨status, data, message, suspension, metadata⟩ := result
    cases status with
    | pending =>
      cases suspension with
      | none => exact ⟨rfl, hrunning⟩
      | some ticket => exact ⟨rfl, hrunning⟩
    | success => exact ⟨rfl, hrunning⟩
    | error => exact ⟨rfl, hrunning⟩
  | toolCallStart id name => simp [encode, interrupts, interruptEdit, CachedTable.apply, hrunning,
      Protocol.AgentEvent.isTerminal]
  | stepEnd => simp [encode, interrupts, interruptEdit, CachedTable.apply, hrunning,
      Protocol.AgentEvent.isTerminal]
  | runFinish threadId runId result termination =>
    cases termination <;>
      simp [encode, interrupts, interruptEdit, CachedTable.apply, Protocol.AgentEvent.isTerminal]
  | error message code => exact ⟨rfl, rfl⟩
  | _ => exact ⟨rfl, hrunning⟩

/-- One event, for the encoder and for what it hears. -/
theorem onAgentEvent_interrupts (enc : AgUiEncoder) (ev : Protocol.AgentEvent) :
    (enc.onAgentEvent ev).2.interrupts =
        (if enc.guard.finished && !ev.isRunStart then enc.interrupts
          else enc.interrupts.apply (interruptEdit ev)) ∧
      (enc.onAgentEvent ev).2.guard.finished =
        (if enc.guard.finished && !ev.isRunStart then true else ev.isTerminal) := by
  unfold onAgentEvent
  cases hfinished : enc.guard.finished with
  | false => exact encode_interrupts enc hfinished ev
  | true =>
    cases hstart : ev.isRunStart with
    | false => exact ⟨rfl, hfinished⟩
    | true => exact encode_interrupts { enc with guard := .new } rfl ev

/-- The pending interrupts follow the events that count. -/
theorem Reaches.interrupts {evs : List Protocol.AgentEvent} {enc : AgUiEncoder}
    (h : Reaches evs enc) :
    enc.guard.finished = (heard evs).finished ∧
      CachedTable.Reaches interruptEdit (counted evs) enc.interrupts := by
  induction h with
  | new => exact ⟨rfl, .empty⟩
  | @event evs enc _ ev ih =>
    obtain ⟨hguard, hreaches⟩ := ih
    obtain ⟨hinterrupts, hfinished⟩ := onAgentEvent_interrupts enc ev
    rw [hinterrupts, hfinished, hguard]
    unfold counted
    rw [Protocol.heard_concat]
    unfold Protocol.Hearing.hear
    cases hdrop : (heard evs).finished && !ev.isRunStart with
    | true =>
      have hstill : (heard evs).finished = true := ((Bool.and_eq_true _ _).mp hdrop).1
      exact ⟨hstill.symm, hreaches⟩
    | false =>
      refine ⟨rfl, ?_⟩
      show CachedTable.Reaches _ (List.filter _ ((heard evs).events ++ [ev])) _
      rw [List.filter_append]
      cases hticket : ev.isTicketless with
      | true =>
        rw [List.filter_cons_of_neg (by simp [hticket]), List.filter_nil, List.append_nil,
          interruptEdit_of_isTicketless hticket]
        exact hreaches
      | false =>
        rw [List.filter_cons_of_pos (by simp [hticket]), List.filter_nil]
        exact hreaches.event ev
  | reorder _ rank ih => exact ⟨ih.1, ih.2.reorder rank⟩

/-! ## The frame -/

/-- The interrupt that a suspended run finishes with. -/
def interrupt (enc : AgUiEncoder) : AgUi.InterruptPayload :=
  match enc.lastInterrupt with
  | some (id, reason) => ⟨some id, reason, none⟩
  | none => ⟨none, some "tool_approval", none⟩

theorem onAgentEvent_suspended {enc : AgUiEncoder} (hrunning : enc.guard.finished = false)
    (threadId runId : String) (result : Option Value) :
    (enc.onAgentEvent (.runFinish threadId runId result .suspended)).1 =
      enc.closeBlocks.1 ++ [.runInterrupted threadId runId enc.interrupt] := by
  have hencode : enc.onAgentEvent (.runFinish threadId runId result .suspended) =
      enc.encode (.runFinish threadId runId result .suspended) := by
    unfold onAgentEvent
    rw [hrunning]
    exact if_neg Bool.false_ne_true
  rw [hencode]
  obtain ⟨messageId, textOpen, stepCounter, reasoningOpen, guard, pending, last⟩ := enc
  cases textOpen <;> cases reasoningOpen <;> cases last <;> rfl

theorem interrupt_id (enc : AgUiEncoder) : enc.interrupt.id = enc.lastInterrupt.map Prod.fst := by
  unfold interrupt
  cases enc.lastInterrupt with
  | none => rfl
  | some interrupt => rfl

theorem runInterrupted_notMem_closeBlocks (enc : AgUiEncoder) (threadId runId : String)
    (interrupt : AgUi.InterruptPayload) :
    Event.runInterrupted threadId runId interrupt ∉ enc.closeBlocks.1 := by
  obtain ⟨messageId, textOpen, stepCounter, reasoningOpen, guard, pending, last⟩ := enc
  cases textOpen <;> cases reasoningOpen <;>
    simp [closeBlocks, closeText, closeReasoning, Event.runInterrupted]

/-- Only an encoder that is not finished writes the interrupt, and it writes the last one. -/
theorem interrupt_of_mem {enc : AgUiEncoder} {threadId runId threadId' runId' : String}
    {result : Option Value} {interrupt : AgUi.InterruptPayload}
    (h : Event.runInterrupted threadId' runId' interrupt ∈
      (enc.onAgentEvent (.runFinish threadId runId result .suspended)).1) :
    interrupt = enc.interrupt := by
  cases hrunning : enc.guard.finished with
  | true =>
    unfold onAgentEvent at h
    rw [hrunning] at h
    exact absurd h List.not_mem_nil
  | false =>
    rw [onAgentEvent_suspended hrunning] at h
    cases List.mem_append.mp h with
    | inl hclose => exact absurd hclose (runInterrupted_notMem_closeBlocks enc _ _ _)
    | inr hlast =>
      have heq := List.mem_singleton.mp hlast
      unfold Event.runInterrupted at heq
      injection heq with _ _ _ _ hinterrupt
      exact Option.some.inj hinterrupt

/-- The interrupt of a suspended run names an open suspension, and only without one it names
    none. Events behind a terminal event and Pending results without a ticket do not count. -/
theorem interrupt_isOpen {evs : List Protocol.AgentEvent} {enc : AgUiEncoder} (h : Reaches evs enc)
    {threadId runId threadId' runId' : String} {result : Option Value}
    {interrupt : AgUi.InterruptPayload}
    (hframe : Event.runInterrupted threadId' runId' interrupt ∈
      (enc.onAgentEvent (.runFinish threadId runId result .suspended)).1) :
    InterruptIsOpen (counted evs) interrupt.id := by
  have hticket : ∀ ev ∈ counted evs, ev.isTicketless = false := by
    intro ev hev
    have hkept := (List.mem_filter.mp hev).2
    simpa using hkept
  have htable := h.interrupts.2
  rw [interrupt_of_mem hframe, interrupt_id]
  cases hlast : enc.lastInterrupt with
  | some v =>
    refine ⟨?_, fun hnone => absurd hnone (Option.some_ne_none _)⟩
    intro s hs
    obtain ⟨call, hlatest⟩ := htable.of_cached hlast
    obtain ⟨ticket, hwaits, hv⟩ := (latest_iff hticket call v).mp hlatest
    rw [← hv] at hs
    exact ⟨call, ticket, hwaits, Option.some.inj hs⟩
  | none =>
    refine ⟨fun s hs => absurd hs.symm (Option.some_ne_none _), ?_⟩
    intro _ call suspension hwaits
    cases suspension with
    | some ticket =>
      exact htable.of_cached_none hlast call _ ((latest_iff hticket call _).mpr ⟨ticket, hwaits, rfl⟩)
    | none =>
      obtain ⟨before, ev, after, heq, hsuspends, -⟩ := hwaits
      have hmem : ev ∈ counted evs := by
        rw [heq]
        exact List.mem_append_right _ List.mem_cons_self
      have hless := isTicketless_of_suspendsCall_none hsuspends
      rw [hticket ev hmem] at hless
      cases hless

/-- A Pending result with a ticket. -/
def approvalPending : Protocol.AgentEvent :=
  .toolCallDone "tc1" "m1"
    ⟨.pending, .null, none, some ⟨"perm_tc1", "tool:PermissionConfirm", .replayToolCall⟩, []⟩

theorem interrupt_isOpen_approval :
    InterruptIsOpen (counted [approvalPending]) (some "perm_tc1") :=
  @interrupt_isOpen [approvalPending] _ (.event .new approvalPending) "t1" "r1" "t1" "r1" none
    ⟨some "perm_tc1", some "tool:PermissionConfirm", none⟩ List.mem_cons_self

/-- A Pending result without a ticket. -/
def ticketlessPending : Protocol.AgentEvent := .toolCallDone "tc1" "m1" ⟨.pending, .null, none, none, []⟩

/-- The call is resumed while the encoder is finished. -/
def resumedLate : List Protocol.AgentEvent :=
  [approvalPending, .runFinish "t1" "r1" none .suspended, .toolCallResumed "tc1" .null,
    .runStart "t1" "r1" none]

/-- A call that waits without a ticket leaves the interrupt without an id, and a call that is resumed
    behind a terminal event stays in the interrupt. -/
theorem interrupt_notOpen :
    (Reaches [ticketlessPending] (machine.run .new [ticketlessPending]) ∧
      Event.runInterrupted "t1" "r1" ⟨none, some "tool_approval", none⟩ ∈
        ((machine.run .new [ticketlessPending]).onAgentEvent
          (.runFinish "t1" "r1" none .suspended)).1 ∧
      ¬InterruptIsOpen [ticketlessPending] none) ∧
    Reaches resumedLate (machine.run .new resumedLate) ∧
      Event.runInterrupted "t1" "r1" ⟨some "perm_tc1", some "tool:PermissionConfirm", none⟩ ∈
        ((machine.run .new resumedLate).onAgentEvent (.runFinish "t1" "r1" none .suspended)).1 ∧
      ¬InterruptIsOpen resumedLate (some "perm_tc1") := by
  refine ⟨⟨.event .new _, List.mem_cons_self, ?_⟩,
    .event (.event (.event (.event .new _) _) _) _, List.mem_cons_self, ?_⟩
  · intro h
    exact h.2 rfl "tc1" none ⟨[], _, [], rfl, ⟨"m1", _, rfl, rfl, rfl⟩,
      fun _ hlater => absurd hlater List.not_mem_nil⟩
  · intro h
    obtain ⟨call, ticket, hwaits, -⟩ := h.1 "perm_tc1" rfl
    have hticket : ∀ ev ∈ resumedLate, ev.isTicketless = false := by
      simp [resumedLate, approvalPending, Protocol.AgentEvent.isTicketless]
    -- heard in full, the resumption takes the only entry out of the table
    have htable : CachedTable.Reaches interruptEdit resumedLate ⟨.empty, none⟩ :=
      .event (.event (.event (.event .empty _) _) _) _
    exact htable.of_cached_none rfl call _ ((latest_iff hticket call _).mpr ⟨ticket, hwaits, rfl⟩)

end AgUiEncoder

end Remo
