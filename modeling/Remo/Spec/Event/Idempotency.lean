import Remo.Spec.Event.HistoryOnce

/-!
# Idempotent append

What a second append under the identity of an earlier one does: a retry of the same event gets
that event, another event is a conflict, and neither changes the store.

## Key results

- `remembers_run`: the store keeps the event of an identity, and what was appended under it.
- `append_rejected`: an append that is rejected leaves the store as it was.
- `followsIdempotency_iff`: when a second append does what it should.
-/

namespace Remo

/-- The drafts are the same event: their origin and their schema version do not count, and their
    scopes are a set. -/
structure CanonicalEventDraft.SameEvent (a b : CanonicalEventDraft) : Prop where
  scopes : ∀ scope, scope ∈ a.scopes ↔ scope ∈ b.scopes
  eventKind : a.eventKind = b.eventKind
  payload : a.payload = b.payload
  visibility : a.visibility = b.visibility
  causationId : a.causationId = b.causationId
  correlationId : a.correlationId = b.correlationId

theorem idempotencyDigest_eq_iff {a b : CanonicalEventDraft} :
    a.idempotencyDigest = b.idempotencyDigest ↔ a.SameEvent b ∧ a.scopes = b.scopes := by
  unfold CanonicalEventDraft.idempotencyDigest
  rw [IdempotencyBasis.mk.injEq]
  constructor
  · intro h
    obtain ⟨hscopes, hkind, hpayload, hvisibility, hcausation, hcorrelation⟩ := h
    refine ⟨⟨?_, hkind, hpayload, hvisibility, hcausation, hcorrelation⟩, hscopes⟩
    intro scope
    rw [hscopes]
  · intro h
    exact ⟨h.2, h.1.eventKind, h.1.payload, h.1.visibility, h.1.causationId, h.1.correlationId⟩

/-! ## A valid draft has an event -/

theorem validateScopes_families {seen scopes : List EventScope}
    (h : validateScopes seen scopes = .ok ()) :
    (scopes.map EventScope.family).Nodup ∧
      ∀ scope ∈ scopes, scope.family ∉ seen.map EventScope.family := by
  induction scopes generalizing seen with
  | nil => exact ⟨List.nodup_nil, by simp⟩
  | cons scope scopes ih =>
    unfold validateScopes at h
    split at h
    · cases h
    · split at h
      · cases h
      · split at h
        · cases h
        · rename_i hfamily
          obtain ⟨hnodup, hdisjoint⟩ := ih h
          refine ⟨?_, ?_⟩
          · rw [List.map_cons, List.nodup_cons]
            refine ⟨?_, hnodup⟩
            intro hmem
            obtain ⟨other, hother, heq⟩ := List.mem_map.mp hmem
            apply hdisjoint other hother
            rw [heq]
            simp
          · intro k hk
            cases List.mem_cons.mp hk with
            | inl heq => rw [heq]; exact hfamily
            | inr hmem =>
              intro hseen
              apply hdisjoint k hmem
              rw [List.map_cons]
              exact List.mem_cons_of_mem _ hseen

/-- With one scope of each family, and no id of these families found before, no id contradicts. -/
theorem deriveScopeIds_ok {scopes : List EventScope}
    (hnodup : (scopes.map EventScope.family).Nodup) {ids : EventScopeIds}
    (hthread : .thread ∈ scopes.map EventScope.family → ids.threadId = none)
    (hrun : .run ∈ scopes.map EventScope.family → ids.runId = none) :
    ∃ found, deriveScopeIds ids scopes = .ok found := by
  induction scopes generalizing ids with
  | nil => exact ⟨ids, rfl⟩
  | cons scope scopes ih =>
    rw [List.map_cons, List.nodup_cons] at hnodup
    rw [List.map_cons] at hthread hrun
    cases scope with
    | thread threadId =>
      have hnone := hthread List.mem_cons_self
      simp only [deriveScopeIds, setOptionalId, hnone]
      apply ih hnodup.2
      · exact fun hmem => absurd hmem hnodup.1
      · exact fun hmem => hrun (List.mem_cons_of_mem _ hmem)
    | run runId =>
      have hnone := hrun List.mem_cons_self
      simp only [deriveScopeIds, setOptionalId, hnone]
      apply ih hnodup.2
      · exact fun hmem => hthread (List.mem_cons_of_mem _ hmem)
      · exact fun hmem => absurd hmem hnodup.1

theorem fromAppend_ok {draft : CanonicalEventDraft} (h : draft.validate = .ok ())
    (eventId : String) {cursors : List (EventScope × String)}
    (hcursors : cursors.map Prod.fst = draft.scopes) (now : UInt64) :
    ∃ event, CanonicalEvent.fromAppend eventId cursors now draft = .ok event := by
  have hcover : validateCursorCoverage draft.scopes cursors = .ok () := by
    unfold validateCursorCoverage
    rw [hcursors]
    simp
  have hids : ∃ ids, deriveScopeIds ⟨none, none⟩ draft.scopes = .ok ids := by
    have hvalid := h
    unfold CanonicalEventDraft.validate validateScopeSet at hvalid
    split at hvalid
    · cases hvalid
    · rename_i hscopes
      split at hscopes
      · cases hscopes
      · exact deriveScopeIds_ok (validateScopes_families hscopes).1 (fun _ => rfl) (fun _ => rfl)
  obtain ⟨ids, hids⟩ := hids
  simp only [CanonicalEvent.fromAppend, bind, Except.bind, pure, Except.pure, h, hcover, hids]
  exact ⟨_, rfl⟩

namespace InMemoryEventState

/-- The cursors drawn for scopes are theirs. A drawing that fails panics. -/
theorem forEach_nextCursor_fst (scopes : List EventScope) (s : InMemoryEventState) :
    (∃ p, (Method.forEach nextCursor scopes s).1 = .error (.panic p)) ∨
      ∃ cursors, (Method.forEach nextCursor scopes s).1 = .ok cursors ∧
        cursors.map Prod.fst = scopes := by
  induction scopes generalizing s with
  | nil => exact .inr ⟨[], rfl, rfl⟩
  | cons scope scopes ih =>
    unfold Method.forEach Method.bind
    cases hfirst : nextCursor scope s with
    | mk r s₁ =>
      unfold nextCursor at hfirst
      dsimp only at hfirst
      split at hfirst
      · cases hfirst
        dsimp only
        have hrest := ih { s with
          nextScopeSeq := s.nextScopeSeq.insert scope ((s.nextScopeSeq.get? scope).getD 0 + 1) }
        cases hmore : Method.forEach nextCursor scopes { s with
            nextScopeSeq := s.nextScopeSeq.insert scope
              ((s.nextScopeSeq.get? scope).getD 0 + 1) } with
        | mk r' s₂ =>
          rw [hmore] at hrest
          cases hrest with
          | inl hpanic =>
            obtain ⟨p, hp⟩ := hpanic
            dsimp only at hp
            rw [hp]
            exact .inl ⟨p, rfl⟩
          | inr hok =>
            obtain ⟨cursors, hc, hkeys⟩ := hok
            dsimp only at hc
            rw [hc]
            exact .inr ⟨_, rfl, by simp [hkeys]⟩
      · cases hfirst
        exact .inl ⟨_, rfl⟩

/-- What `storeEvent` leaves of the events and of the identities: it panics and leaves them, or it
    adds the event. -/
theorem storeEvent_parts {draft : CanonicalEventDraft} (h : draft.validate = .ok ())
    (options : AppendOptions) (now : UInt64) (s : InMemoryEventState) :
    (∃ p s', storeEvent draft options now s = (.error (.panic p), s') ∧ s'.events = s.events ∧
        s'.idempotency = s.idempotency) ∨
      ∃ event s', storeEvent draft options now s = (.ok event, s') ∧
        s'.events = s.events.insert event.eventId event ∧
        s'.idempotency = match options.idempotencyIdentity with
          | none => s.idempotency
          | some identity =>
            s.idempotency.insert identity ⟨draft.idempotencyDigest, event.eventId⟩ := by
  unfold storeEvent
  split
  · unfold storeCounted
    dsimp only
    have hsame : ({ s with nextEventSeq := s.nextEventSeq + 1 } : InMemoryEventState).events =
        s.events ∧ ({ s with nextEventSeq := s.nextEventSeq + 1 } : InMemoryEventState).idempotency =
          s.idempotency := ⟨rfl, rfl⟩
    generalize ({ s with nextEventSeq := s.nextEventSeq + 1 } : InMemoryEventState) = s₀ at hsame ⊢
    obtain ⟨hdraws, -⟩ := forEach_nextCursor draft.scopes s₀
    have hdrawn := forEach_nextCursor_fst draft.scopes s₀
    rw [Method.bind]
    cases hcursors : Method.forEach nextCursor draft.scopes s₀ with
    | mk r s₁ =>
      rw [hcursors] at hdraws hdrawn
      dsimp only at hdraws
      have hkept : s₁.events = s.events ∧ s₁.idempotency = s.idempotency := by
        rw [hdraws.eq]
        exact hsame
      cases hdrawn with
      | inl hpanic =>
        obtain ⟨p, hp⟩ := hpanic
        dsimp only at hp
        rw [hp]
        exact .inl ⟨p, s₁, rfl, hkept.1, hkept.2⟩
      | inr hok =>
        obtain ⟨cursors, hc, hkeys⟩ := hok
        dsimp only at hc
        rw [hc]
        dsimp only
        obtain ⟨event, hevent⟩ := fromAppend_ok h (eventIdOf (s.nextEventSeq + 1)) hkeys now
        obtain ⟨-, -, hnodup, hcover⟩ := fromAppend_eq_ok hevent
        obtain ⟨units, s₂, hindex, hindexes⟩ := forEach_indexEvent hnodup
          (fun scope hscope => (hcover scope).1.mp hscope) s₁
        rw [hevent]
        dsimp only
        rw [Method.bind, hindex]
        refine .inr ⟨event, _, rfl, ?_, ?_⟩
        · show s₂.events.insert event.eventId event = _
          rw [hindexes.eq, hkept.1]
        · have hidem : s₂.idempotency = s.idempotency := by rw [hindexes.eq, hkept.2]
          unfold keepEvent
          dsimp only
          rw [hidem] <;> cases options.idempotencyIdentity <;> rfl
  · exact .inl ⟨_, s, rfl, rfl, rfl⟩

end InMemoryEventState

namespace InMemoryEventStore

open InMemoryEventState

/-- The store has the event under the identity, with the digest of what was appended. -/
structure Remembers (w : InMemoryEventStore) (identity : String × String)
    (digest : IdempotencyBasis) (event : CanonicalEvent) : Prop where
  known : w.state.idempotency.get? identity = some ⟨digest, event.eventId⟩
  stored : w.state.events.get? event.eventId = some event

/-! ## One append -/

/-- An append under no identity that is known: it is rejected, it panics, or it stores a new
    event. -/
theorem appendChecked_cases {draft : CanonicalEventDraft} (h : draft.validate = .ok ())
    (options : AppendOptions) (now : UInt64) (self : InMemoryEventStore) :
    (∃ error, appendChecked draft options now self = (fail error, self)) ∨
      (∃ p state, appendChecked draft options now self =
          (.error (.panic p), ⟨state, self.streams⟩) ∧
        state.events = self.state.events ∧ state.idempotency = self.state.idempotency) ∨
      ∃ event self', appendChecked draft options now self = (.ok event, self') ∧
        self'.state.events = self.state.events.insert event.eventId event ∧
        self'.state.idempotency = match options.idempotencyIdentity with
          | none => self.state.idempotency
          | some identity =>
            self.state.idempotency.insert identity ⟨draft.idempotencyDigest, event.eventId⟩ := by
  unfold appendChecked
  cases hprior : self.state.validateExpectedPriorCursors options with
  | error error => exact .inl ⟨error, rfl⟩
  | ok u =>
    unfold appendNew
    cases storeEvent_parts h options now self.state with
    | inl hpanic =>
      obtain ⟨p, state, hstore, hevents, hidem⟩ := hpanic
      dsimp only
      rw [hstore]
      exact .inr (.inl ⟨p, state, rfl, hevents, hidem⟩)
    | inr hok =>
      obtain ⟨event, state, hstore, hevents, hidem⟩ := hok
      dsimp only
      rw [hstore]
      exact .inr (.inr ⟨event, _, rfl, hevents, hidem⟩)

/-- What `append` does once it has validated its input. -/
theorem append_eq {draft : CanonicalEventDraft} {options : AppendOptions}
    (hdraft : draft.validate = .ok ()) (hoptions : options.validate = .ok ())
    (hscopes : ∀ expected ∈ options.expectedPriorCursors, expected.1 ∈ draft.scopes)
    (now : UInt64) (self : InMemoryEventStore) :
    append draft options now self = appendLocked draft options now self := by
  have hchecked : validateExpectedCursorScopes draft options = .ok () := by
    unfold validateExpectedCursorScopes
    rw [if_pos hscopes]
  unfold append
  rw [hdraft, hoptions, hchecked]

/-- An append is rejected without a change, or its input is valid. -/
theorem append_validates (draft : CanonicalEventDraft) (options : AppendOptions) (now : UInt64)
    (self : InMemoryEventStore) :
    (∃ error, append draft options now self = (fail error, self)) ∨
      draft.validate = .ok () ∧ options.validate = .ok () ∧
        (∀ expected ∈ options.expectedPriorCursors, expected.1 ∈ draft.scopes) ∧
        append draft options now self = appendLocked draft options now self := by
  cases hdraft : draft.validate with
  | error error =>
    left
    unfold append
    rw [hdraft]
    exact ⟨error, rfl⟩
  | ok u =>
    cases hoptions : options.validate with
    | error error =>
      left
      unfold append
      rw [hdraft, hoptions]
      exact ⟨error, rfl⟩
    | ok u' =>
      by_cases hscopes : ∀ expected ∈ options.expectedPriorCursors, expected.1 ∈ draft.scopes
      · exact .inr ⟨rfl, rfl, hscopes, append_eq hdraft hoptions hscopes now self⟩
      · left
        unfold append validateExpectedCursorScopes
        rw [hdraft, hoptions, if_neg hscopes]
        exact ⟨_, rfl⟩

/-- An append is rejected or panics and forgets nothing; or it returns the event its identity is
    known for; or it stores a new event, under its identity if it has one. -/
theorem append_parts (draft : CanonicalEventDraft) (options : AppendOptions) (now : UInt64)
    (self : InMemoryEventStore) :
    (∃ error, append draft options now self = (fail error, self)) ∨
      (∃ p state, append draft options now self = (.error (.panic p), ⟨state, self.streams⟩) ∧
        state.events = self.state.events ∧ state.idempotency = self.state.idempotency) ∨
      (∃ identity record event, append draft options now self = (.ok event, self) ∧
        options.idempotencyIdentity = some identity ∧
        self.state.idempotency.get? identity = some record ∧
        record.digest = draft.idempotencyDigest ∧
        self.state.events.get? record.eventId = some event) ∨
      ∃ event self', append draft options now self = (.ok event, self') ∧
        (∀ identity, options.idempotencyIdentity = some identity →
          self.state.idempotency.get? identity = none) ∧
        self'.state.events = self.state.events.insert event.eventId event ∧
        self'.state.idempotency = match options.idempotencyIdentity with
          | none => self.state.idempotency
          | some identity =>
            self.state.idempotency.insert identity ⟨draft.idempotencyDigest, event.eventId⟩ := by
  cases append_validates draft options now self with
  | inl hrejected => exact .inl hrejected
  | inr hvalid =>
    obtain ⟨hdraft, -, -, happend⟩ := hvalid
    rw [happend]
    unfold appendLocked
    -- no identity, or one that is not known
    have hnew := appendChecked_cases hdraft options now self
    cases hidentity : options.idempotencyIdentity with
    | none =>
      dsimp only
      rw [hidentity] at hnew
      cases hnew with
      | inl hrejected => exact .inl hrejected
      | inr hrest =>
        cases hrest with
        | inl hpanic => exact .inr (.inl hpanic)
        | inr hok =>
          obtain ⟨event, self', hcall, hevents, hidem⟩ := hok
          exact .inr (.inr (.inr ⟨event, self', hcall, by simp, hevents, hidem⟩))
    | some identity =>
      obtain ⟨writerId, idempotencyKey⟩ := identity
      dsimp only
      cases hrecord : self.state.idempotency.get? (writerId, idempotencyKey) with
      | none =>
        dsimp only
        rw [hidentity] at hnew
        cases hnew with
        | inl hrejected => exact .inl hrejected
        | inr hrest =>
          cases hrest with
          | inl hpanic => exact .inr (.inl hpanic)
          | inr hok =>
            obtain ⟨event, self', hcall, hevents, hidem⟩ := hok
            refine .inr (.inr (.inr ⟨event, self', hcall, ?_, hevents, hidem⟩))
            intro identity heq
            rw [← Option.some.inj heq, hrecord]
      | some record =>
        dsimp only
        split
        · exact .inl ⟨_, rfl⟩
        · rename_i hdigest
          cases hevent : self.state.events.get? record.eventId with
          | none => exact .inl ⟨_, rfl⟩
          | some event =>
            exact .inr (.inr (.inl ⟨_, record, event, rfl, rfl, hrecord,
              Decidable.not_not.mp hdigest, hevent⟩))

/-- An append that is rejected leaves the store as it was. -/
theorem append_rejected {draft : CanonicalEventDraft} {options : AppendOptions} {now : UInt64}
    {self : InMemoryEventStore} {error : EventStoreError}
    (h : (append draft options now self).1 = .error (.store error)) :
    (append draft options now self).2 = self := by
  cases append_parts draft options now self with
  | inl hrejected =>
    obtain ⟨error', heq⟩ := hrejected
    rw [heq]
  | inr hrest =>
    cases hrest with
    | inl hpanic =>
      obtain ⟨p, state, heq, -⟩ := hpanic
      rw [heq] at h
      cases h
    | inr hok =>
      cases hok with
      | inl hretry =>
        obtain ⟨identity, record, event, heq, -⟩ := hretry
        rw [heq]
      | inr hnew =>
        obtain ⟨event, self', heq, -⟩ := hnew
        rw [heq] at h
        cases h

/-- What an append returns is remembered under its identity. -/
theorem append_remembers {self : InMemoryEventStore} {log : EventScope → List CanonicalEvent}
    (h : self.state.Holds log) {draft : CanonicalEventDraft} {options : AppendOptions}
    {now : UInt64} {event : CanonicalEvent} (hok : (append draft options now self).1 = .ok event)
    {identity : String × String} (hidentity : options.idempotencyIdentity = some identity) :
    (append draft options now self).2.Remembers identity draft.idempotencyDigest event := by
  cases append_parts draft options now self with
  | inl hrejected =>
    obtain ⟨error, heq⟩ := hrejected
    rw [heq] at hok
    cases hok
  | inr hrest =>
    cases hrest with
    | inl hpanic =>
      obtain ⟨p, state, heq, -⟩ := hpanic
      rw [heq] at hok
      cases hok
    | inr hreturned =>
      cases hreturned with
      | inl hretry =>
        obtain ⟨identity', record, event', heq, hid, hknown, hdigest, hstored⟩ := hretry
        rw [heq] at hok ⊢
        cases hok
        rw [hidentity] at hid
        rw [← Option.some.inj hid] at hknown
        have hkey := (h.keyed _ _ hstored).1
        refine ⟨?_, ?_⟩
        · rw [hknown, ← hdigest, hkey]
        · rw [hkey]
          exact hstored
      | inr hnew =>
        obtain ⟨event', self', heq, -, hevents, hidem⟩ := hnew
        rw [heq] at hok ⊢
        cases hok
        rw [hidentity] at hidem
        refine ⟨?_, ?_⟩
        · show self'.state.idempotency.get? identity = _
          rw [hidem]
          exact AssocMap.get?_insert_self _ _ _
        · show self'.state.events.get? event.eventId = _
          rw [hevents]
          exact AssocMap.get?_insert_self _ _ _

/-! ## A run -/

/-- An append forgets no identity and no event. -/
theorem remembers_append {self : InMemoryEventStore} {log : EventScope → List CanonicalEvent}
    (h : self.state.Holds log) {identity : String × String} {digest : IdempotencyBasis}
    {event : CanonicalEvent} (hremembers : self.Remembers identity digest event)
    (draft : CanonicalEventDraft) (options : AppendOptions) (now : UInt64) :
    (append draft options now self).2.Remembers identity digest event := by
  cases append_parts draft options now self with
  | inl hrejected =>
    obtain ⟨error, heq⟩ := hrejected
    rw [heq]
    exact hremembers
  | inr hrest =>
    cases hrest with
    | inl hpanic =>
      obtain ⟨p, state, heq, hevents, hidem⟩ := hpanic
      rw [heq]
      refine ⟨?_, ?_⟩
      · show state.idempotency.get? identity = _
        rw [hidem, hremembers.known]
      · show state.events.get? event.eventId = _
        rw [hevents, hremembers.stored]
    | inr hreturned =>
      cases hreturned with
      | inl hretry =>
        obtain ⟨identity', record, event', heq, -⟩ := hretry
        rw [heq]
        exact hremembers
      | inr hnew =>
        obtain ⟨event', self', heq, hunknown, hevents, hidem⟩ := hnew
        -- the id of the new event is not that of an event that is there
        have hfresh : event.eventId = event'.eventId → event = event' := by
          intro hid
          rcases append_cases h draft options now with ⟨fault, state, hcall, -⟩ |
            ⟨other, hcall, hget⟩ | ⟨other, state, hcall, hnone, -⟩
          · rw [heq] at hcall
            cases hcall
          · rw [heq] at hcall
            cases hcall
            rw [← hid, hremembers.stored] at hget
            exact Option.some.inj hget
          · rw [heq] at hcall
            cases hcall
            rw [← hid, hremembers.stored] at hnone
            cases hnone
        rw [heq]
        refine ⟨?_, ?_⟩
        · show self'.state.idempotency.get? identity = _
          rw [hidem]
          cases hoptions : options.idempotencyIdentity with
          | none => exact hremembers.known
          | some other =>
            have hne : identity ≠ other := by
              intro hsame
              have hnone := hunknown other hoptions
              rw [← hsame, hremembers.known] at hnone
              cases hnone
            dsimp only
            rw [AssocMap.get?_insert, if_neg hne, hremembers.known]
        · show self'.state.events.get? event.eventId = _
          rw [hevents, AssocMap.get?_insert]
          split
          · rename_i hid
            rw [hfresh hid]
          · exact hremembers.stored

theorem remembers_call {self : InMemoryEventStore} {log : EventScope → List CanonicalEvent}
    (h : self.state.Holds log) {identity : String × String} {digest : IdempotencyBasis}
    {event : CanonicalEvent} (hremembers : self.Remembers identity digest event)
    (op : EventStoreOp) : (call op self).2.Remembers identity digest event := by
  cases op with
  | append draft options now => exact remembers_append h hremembers draft options now
  | list scope start limit => exact hremembers
  | subscribe scope start =>
    simp only [call, Method.map, subscribe]
    cases subscribeLocked self.state scope start with
    | error fault => exact hremembers
    | ok opened => exact ⟨hremembers.known, hremembers.stored⟩
  | next stream lagged =>
    simp only [call]
    cases self.streams[stream]? with
    | none => exact hremembers
    | some s => exact ⟨hremembers.known, hremembers.stored⟩

theorem remembers_run {self : InMemoryEventStore} {log : EventScope → List CanonicalEvent}
    (h : self.state.Holds log) {identity : String × String} {digest : IdempotencyBasis}
    {event : CanonicalEvent} (hremembers : self.Remembers identity digest event)
    (ops : List EventStoreOp) : (machine.run self ops).Remembers identity digest event := by
  induction ops generalizing self log with
  | nil => exact hremembers
  | cons op ops ih => exact ih (call_holds h op) (remembers_call h hremembers op)

/-! ## The second append -/

/-- Options with the same identity are valid together. -/
theorem validate_of_identity {a b : AppendOptions} {identity : String × String}
    (ha : a.idempotencyIdentity = some identity) (hb : b.idempotencyIdentity = some identity) :
    a.validate = b.validate := by
  obtain ⟨aWriter, aKey, aCursors⟩ := a
  obtain ⟨bWriter, bKey, bCursors⟩ := b
  unfold AppendOptions.idempotencyIdentity at ha hb
  cases aWriter <;> cases aKey <;> cases bWriter <;> cases bKey <;> simp_all
  obtain ⟨hwriter, hkey⟩ := Prod.mk.inj (ha.trans hb.symm)
  rw [hwriter, hkey]
  rfl

/-- An append under an identity that is known gets its event, or is a conflict. -/
theorem append_known {self : InMemoryEventStore} {identity : String × String}
    {digest : IdempotencyBasis} {event : CanonicalEvent}
    (hremembers : self.Remembers identity digest event) {draft : CanonicalEventDraft}
    {options : AppendOptions} (hdraft : draft.validate = .ok ())
    (hoptions : options.validate = .ok ())
    (hscopes : ∀ expected ∈ options.expectedPriorCursors, expected.1 ∈ draft.scopes)
    (hidentity : options.idempotencyIdentity = some identity) (now : UInt64) :
    (digest = draft.idempotencyDigest → append draft options now self = (.ok event, self)) ∧
      (digest ≠ draft.idempotencyDigest → ∃ message,
        append draft options now self = (.error (.store (.idempotencyConflict message)), self)) := by
  obtain ⟨writerId, idempotencyKey⟩ := identity
  rw [append_eq hdraft hoptions hscopes]
  unfold appendLocked
  rw [hidentity]
  dsimp only
  rw [hremembers.known]
  dsimp only
  refine ⟨?_, ?_⟩
  · intro hdigest
    rw [if_neg (not_not.mpr hdigest), hremembers.stored]
  · intro hdigest
    rw [if_pos hdigest]
    exact ⟨_, rfl⟩

/-- What ADR-0034 D5 says of an append under the identity under which `first` was appended as
    `event`. -/
structure FollowsIdempotency (w : InMemoryEventStore) (first : CanonicalEventDraft)
    (event : CanonicalEvent) (draft : CanonicalEventDraft) (options : AppendOptions)
    (now : UInt64) : Prop where
  /-- A retry gets the first event. -/
  same : first.SameEvent draft → append draft options now w = (.ok event, w)
  other : ¬first.SameEvent draft → ∃ message,
    append draft options now w = (.error (.store (.idempotencyConflict message)), w)
  /-- An append that is rejected, in any state of the store, leaves it as it was. -/
  rejected : ∀ ops draft options now error,
    (append draft options now (machine.run new ops)).1 = .error (.store error) →
      (append draft options now (machine.run new ops)).2 = machine.run new ops

/-- A second append does what it should exactly when a retry has the scopes in the same order, and
    it expects prior cursors in scopes of its draft only. -/
theorem followsIdempotency_iff (ops between : List EventStoreOp) {first : CanonicalEventDraft}
    {firstOptions : AppendOptions} {firstNow : UInt64} {event : CanonicalEvent}
    (hfirst : (append first firstOptions firstNow (machine.run new ops)).1 = .ok event)
    {draft : CanonicalEventDraft} (hdraft : draft.validate = .ok ()) {options : AppendOptions}
    {identity : String × String} (hidentity : firstOptions.idempotencyIdentity = some identity)
    (hsame : options.idempotencyIdentity = some identity) (now : UInt64) :
    FollowsIdempotency
        (machine.run (append first firstOptions firstNow (machine.run new ops)).2 between)
        first event draft options now ↔
      (first.SameEvent draft → first.scopes = draft.scopes) ∧
        ∀ expected ∈ options.expectedPriorCursors, expected.1 ∈ draft.scopes := by
  have hlog := run_holds holds_empty ops
  have hlog' := call_holds hlog (.append first firstOptions firstNow)
  have hremembers := remembers_run hlog' (append_remembers hlog hfirst hidentity) between
  simp only [call, Method.map_snd] at hremembers
  generalize machine.run (append first firstOptions firstNow (machine.run new ops)).2 between =
    self at hremembers ⊢
  -- the identity is valid, since the first append was not rejected
  have hoptions : options.validate = .ok () := by
    rw [validate_of_identity hsame hidentity]
    cases append_validates first firstOptions firstNow (machine.run new ops) with
    | inl hrejected =>
      obtain ⟨error, heq⟩ := hrejected
      rw [heq] at hfirst
      cases hfirst
    | inr hvalid => exact hvalid.2.1
  constructor
  · intro h
    -- a foreign scope is reported before the identity is looked up
    have hscopes : ∀ expected ∈ options.expectedPriorCursors, expected.1 ∈ draft.scopes := by
      apply Decidable.byContradiction
      intro hforeign
      have hinvalid : (append draft options now self).1 =
          fail (.validation "expected cursor scope is not in append scope set") := by
        unfold append validateExpectedCursorScopes
        rw [hdraft, hoptions, if_neg hforeign]
      by_cases hevent : first.SameEvent draft
      · rw [h.same hevent] at hinvalid
        cases hinvalid
      · obtain ⟨message, hconflict⟩ := h.other hevent
        rw [hconflict] at hinvalid
        cases hinvalid
    refine ⟨?_, hscopes⟩
    intro hevent
    apply Decidable.byContradiction
    intro horder
    have hdigest : first.idempotencyDigest ≠ draft.idempotencyDigest := by
      intro heq
      exact horder (idempotencyDigest_eq_iff.mp heq).2
    obtain ⟨message, hconflict⟩ :=
      (append_known hremembers hdraft hoptions hscopes hsame now).2 hdigest
    rw [h.same hevent] at hconflict
    cases hconflict
  · intro h
    obtain ⟨hretry, hconflict⟩ := append_known hremembers hdraft hoptions h.2 hsame now
    refine ⟨?_, ?_, fun _ _ _ _ _ => append_rejected⟩
    · exact fun hevent => hretry (idempotencyDigest_eq_iff.mpr ⟨hevent, h.1 hevent⟩)
    · exact fun hevent => hconflict fun heq => hevent (idempotencyDigest_eq_iff.mp heq).1

/-- A draft with the scopes, from a writer. -/
def savedDraft (scopes : List EventScope) (origin : String) : CanonicalEventDraft :=
  ⟨scopes, "Saved", ⟨"null"⟩, none, none, origin, .visible, 1⟩

def savedOptions : AppendOptions := ⟨some "writer", some "key", []⟩

/-- The event of the first append. -/
def savedEvent : CanonicalEvent where
  eventId := "evt_mem_1"
  scopes := [.thread "t", .run "r"]
  cursorsByScope := [(.thread "t", "cur_mem_1"), (.run "r", "cur_mem_1")]
  eventKind := "Saved"
  payload := ⟨"null"⟩
  threadId := some "t"
  runId := some "r"
  causationId := none
  correlationId := none
  origin := "runtime"
  visibility := .visible
  schemaVersion := 1
  createdAt := 0

/-- A retry from elsewhere gets the event of the first append. -/
theorem followsIdempotency_iff_savedElsewhere :
    (append (savedDraft [.thread "t", .run "r"] "runtime") savedOptions 0 new).1 =
        .ok savedEvent ∧
      FollowsIdempotency
        (append (savedDraft [.thread "t", .run "r"] "runtime") savedOptions 0 new).2
        (savedDraft [.thread "t", .run "r"] "runtime") savedEvent
        (savedDraft [.thread "t", .run "r"] "elsewhere") savedOptions 5 := by
  have hfirst : (append (savedDraft [.thread "t", .run "r"] "runtime") savedOptions 0
      (machine.run new [])).1 = .ok savedEvent := by rfl
  refine ⟨hfirst, ?_⟩
  apply (followsIdempotency_iff [] [] hfirst (by decide) rfl rfl 5).mpr
  exact ⟨fun _ => rfl, by decide⟩

/-- A retry that lists the scopes in another order is taken for another event. -/
theorem reorderedRetry_conflicts :
    (append (savedDraft [.thread "t", .run "r"] "runtime") savedOptions 0 new).1 =
        .ok savedEvent ∧
      (savedDraft [.run "r", .thread "t"] "runtime").validate = .ok () ∧
      ¬FollowsIdempotency
        (append (savedDraft [.thread "t", .run "r"] "runtime") savedOptions 0 new).2
        (savedDraft [.thread "t", .run "r"] "runtime") savedEvent
        (savedDraft [.run "r", .thread "t"] "runtime") savedOptions 5 := by
  refine ⟨by rfl, by decide, ?_⟩
  intro h
  have hsame : (savedDraft [.thread "t", .run "r"] "runtime").SameEvent
      (savedDraft [.run "r", .thread "t"] "runtime") :=
    ⟨fun scope => List.Perm.mem_iff (List.Perm.swap _ _ _), rfl, rfl, rfl, rfl, rfl⟩
  have hretry := congrArg Prod.fst (h.same hsame)
  have hconflict : (append (savedDraft [.run "r", .thread "t"] "runtime") savedOptions 5
      (append (savedDraft [.thread "t", .run "r"] "runtime") savedOptions 0 new).2).1 =
        fail (.idempotencyConflict ("idempotency identity reused with different input: " ++
          "writer_id=writer, idempotency_key=key")) := by rfl
  rw [hconflict] at hretry
  cases hretry

end InMemoryEventStore

end Remo
