import Remo.Spec.Event.EventLog

/-!
# Event history

The logs of the store after a run are those before it and what the calls of the run appended.

## Key results

- `run_holds`: the logs of the store are what was appended to it.
-/

namespace Remo

/-- A step of a run of the event store. -/
abbrev EventStep :=
  Machine.Step InMemoryEventStore EventStoreOp (Except EventStoreFault EventStoreReply)

namespace EventStep

/-- The events that a step appended to a scope: the event that `append` returned, when it is not
    that of an earlier append. -/
def appendedIn (scope : EventScope) (t : EventStep) : List CanonicalEvent :=
  match t.reply with
  | .ok (.appended event) =>
    if t.before.state.events.get? event.eventId = none ∧ scope ∈ event.scopes then [event] else []
  | _ => []

end EventStep

open EventStep

/-- The events appended to a scope in the steps. -/
def appended (scope : EventScope) (steps : List EventStep) : List CanonicalEvent :=
  steps.flatMap (appendedIn scope)

namespace InMemoryEventStore

open InMemoryEventState

/-! ## One call -/

theorem holds_empty : new.state.Holds fun _ => [] := holds_new

/-- An append fails and leaves the logs, returns an event that is there, or puts a new one at the
    end of the logs and sends it to every stream. -/
theorem append_cases {self : InMemoryEventStore} {log : EventScope → List CanonicalEvent}
    (h : self.state.Holds log) (draft : CanonicalEventDraft) (options : AppendOptions)
    (now : UInt64) :
    (∃ fault state, append draft options now self = (.error fault, ⟨state, self.streams⟩) ∧
        state.Holds log) ∨
      (∃ event, append draft options now self = (.ok event, self) ∧
        self.state.events.get? event.eventId = some event) ∨
      ∃ event state, append draft options now self =
          (.ok event, ⟨state, self.streams.map (·.send event)⟩) ∧
        self.state.events.get? event.eventId = none ∧
        state.events.get? event.eventId = some event ∧ state.Holds (logWith log event) := by
  have hfail : ∀ fault, ∃ fault' state, ((.error fault, self) : Except EventStoreFault
      CanonicalEvent × InMemoryEventStore) = (.error fault', ⟨state, self.streams⟩) ∧
        state.Holds log := fun fault => ⟨fault, self.state, rfl, h⟩
  -- an append without a retry to look for
  have hchecked : (∃ fault state, appendChecked draft options now self =
        (.error fault, ⟨state, self.streams⟩) ∧ state.Holds log) ∨
      (∃ event, appendChecked draft options now self = (.ok event, self) ∧
        self.state.events.get? event.eventId = some event) ∨
      ∃ event state, appendChecked draft options now self =
          (.ok event, ⟨state, self.streams.map (·.send event)⟩) ∧
        self.state.events.get? event.eventId = none ∧
        state.events.get? event.eventId = some event ∧ state.Holds (logWith log event) := by
    unfold appendChecked
    split
    · exact .inl (hfail _)
    · unfold appendNew
      rcases storeEvent_cases h draft options now with ⟨fault, state, hstore, hstate⟩ |
        ⟨event, state, hstore, hnew, hget, hstate⟩
      · rw [hstore]
        exact .inl ⟨fault, state, rfl, hstate⟩
      · rw [hstore]
        exact .inr (.inr ⟨event, state, rfl, hnew, hget, hstate⟩)
  unfold append
  split
  · exact .inl (hfail _)
  · split
    · exact .inl (hfail _)
    · split
      · exact .inl (hfail _)
      · unfold appendLocked
        split
        · exact hchecked
        · split
          · exact hchecked
          · split
            · exact .inl (hfail _)
            · split
              · exact .inl (hfail _)
              · rename_i event hget
                refine .inr (.inl ⟨event, rfl, ?_⟩)
                rw [(h.keyed _ _ hget).1, hget]

/-- A call keeps the logs, and puts what it appends at their ends. -/
theorem call_holds {self : InMemoryEventStore} {log : EventScope → List CanonicalEvent}
    (h : self.state.Holds log) (op : EventStoreOp) :
    (call op self).2.state.Holds fun scope =>
      log scope ++ appendedIn scope ⟨self, op, (call op self).1, (call op self).2⟩ := by
  cases op with
  | append draft options now =>
    simp only [call, Method.map, appendedIn]
    rcases append_cases h draft options now with ⟨fault, state, hcall, hstate⟩ |
      ⟨event, hcall, hget⟩ | ⟨event, state, hcall, hnew, -, hstate⟩
    · simpa [hcall, Except.map] using hstate
    · simpa [hcall, Except.map, hget] using h
    · simp only [hcall, Except.map, hnew, true_and]
      have heq : (fun scope => log scope ++ if scope ∈ event.scopes then [event] else []) =
          logWith log event := by
        funext scope
        unfold logWith
        split <;> simp
      rw [heq]
      exact hstate
  | list scope start limit =>
    simp only [call, appendedIn]
    cases self.state.listLocked scope start limit <;> simpa [Except.map] using h
  | subscribe scope start =>
    simp only [call, Method.map, appendedIn, subscribe]
    cases subscribeLocked self.state scope start <;> simpa [Except.map] using h
  | next stream lagged =>
    simp only [call, appendedIn]
    cases self.streams[stream]? <;> simpa using h

/-! ## Runs -/

/-- The logs after a run are those before it and what the run appended. -/
theorem run_holds {self : InMemoryEventStore} {log : EventScope → List CanonicalEvent}
    (h : self.state.Holds log) (ops : List EventStoreOp) :
    (machine.run self ops).state.Holds fun scope =>
      log scope ++ appended scope (machine.trace self ops) := by
  induction ops generalizing self log with
  | nil => simpa [Machine.run, Machine.trace, appended] using h
  | cons op ops ih =>
    have hrest := ih (call_holds h op)
    simpa [Machine.run, Machine.trace, appended, machine] using hrest

/-- The maps of the store represent what the whole run has appended. -/
theorem run_new_holds (ops : List EventStoreOp) :
    (machine.run new ops).state.Holds fun scope => appended scope (machine.trace new ops) :=
  run_holds holds_empty ops

end InMemoryEventStore

end Remo
