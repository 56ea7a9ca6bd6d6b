import Remo.ForStd.Paging
import Remo.Native.Event.Memory
import Remo.Spec.Scope

/-!
# The logs of the event store

The store keeps one log for each scope. `Holds` says how the maps of the store represent the logs;
an append that stores an event puts it at the end of the log of each of its scopes.
-/

namespace Remo

/-- The cursor of an event in a scope it belongs to. -/
def CanonicalEvent.cursorAt (scope : EventScope) (event : CanonicalEvent) : String :=
  (event.cursorIn scope).getD ""

namespace InMemoryEventState

/-- The number of the last cursor drawn in a scope. -/
def seqOf (s : InMemoryEventState) (scope : EventScope) : UInt64 :=
  (s.nextScopeSeq.get? scope).getD 0

/-- The store represents the logs. -/
structure Holds (s : InMemoryEventState) (log : EventScope → List CanonicalEvent) : Prop where
  index : ∀ scope, s.indexOf scope = (log scope).map CanonicalEvent.eventId
  stored : ∀ scope, ∀ event ∈ log scope, s.events.get? event.eventId = some event
  numbered : ∀ scope, ∀ event ∈ log scope, scope ∈ event.scopes ∧
    ∃ n, n ≤ s.seqOf scope ∧ event.cursorIn scope = some (cursorOf n)
  nodup : ∀ scope, ((log scope).map (CanonicalEvent.cursorAt scope)).Nodup
  positions : ∀ scope cursor position, s.cursorPositions.get? (scope, cursor) = some position ↔
    ∃ event, (log scope)[position]? = some event ∧ event.cursorIn scope = some cursor
  keyed : ∀ eventId event, s.events.get? eventId = some event → event.eventId = eventId ∧
    ∃ n, n ≤ s.nextEventSeq ∧ eventId = eventIdOf n
  logged : ∀ eventId event, s.events.get? eventId = some event →
    ∀ scope cursor, event.cursorIn scope = some cursor → event ∈ log scope
  length_le : ∀ scope, (log scope).length ≤ s.nextEventSeq.toNat

theorem holds_new : new.Holds fun _ => [] where
  index := by simp [new, indexOf]
  stored := by simp
  numbered := by simp
  nodup := by simp
  positions := by simp [new]
  keyed := by simp [new]
  logged := by simp [new]
  length_le := by simp

theorem Holds.cursorIn {s : InMemoryEventState} {log : EventScope → List CanonicalEvent}
    (h : s.Holds log) {scope : EventScope} {event : CanonicalEvent} (hmem : event ∈ log scope) :
    event.cursorIn scope = some (event.cursorAt scope) := by
  obtain ⟨-, n, -, hcursor⟩ := h.numbered scope event hmem
  rw [CanonicalEvent.cursorAt, hcursor]
  rfl

theorem eventIdOf_inj {m n : UInt64} (h : eventIdOf m = eventIdOf n) : m = n := append_toString_inj h

theorem cursorOf_inj {m n : UInt64} (h : cursorOf m = cursorOf n) : m = n := append_toString_inj h

/-! ## Drawing cursors -/

/-- Cursors were drawn, and nothing else was written. -/
structure Draws (s s' : InMemoryEventState) : Prop where
  eq : s' = { s with nextScopeSeq := s'.nextScopeSeq }
  seq_le : ∀ scope, s.seqOf scope ≤ s'.seqOf scope

theorem Draws.refl (s : InMemoryEventState) : Draws s s := ⟨rfl, fun _ => UInt64.le_refl _⟩

theorem Draws.trans {s s' s'' : InMemoryEventState} (h : Draws s s') (h' : Draws s' s'') :
    Draws s s'' := by
  constructor
  · rw [h'.eq, h.eq]
  · exact fun scope => UInt64.le_trans (h.seq_le scope) (h'.seq_le scope)

theorem nextCursor_draws (scope : EventScope) (s : InMemoryEventState) :
    Draws s (nextCursor scope s).2 ∧ ∀ drawn, (nextCursor scope s).1 = .ok drawn →
      ∃ n, s.seqOf scope < n ∧ n ≤ (nextCursor scope s).2.seqOf scope ∧
        drawn = (scope, cursorOf n) := by
  unfold nextCursor
  dsimp only
  split
  · rename_i hroom
    have hlt := Outcome.lt_add_one hroom
    have hseq : ∀ k, InMemoryEventState.seqOf
        { s with nextScopeSeq := s.nextScopeSeq.insert scope (s.seqOf scope + 1) } k =
          if k = scope then s.seqOf scope + 1 else s.seqOf k := by
      intro k
      unfold seqOf
      dsimp only
      rw [AssocMap.get?_insert]
      split <;> rfl
    refine ⟨⟨rfl, ?_⟩, ?_⟩
    · intro k
      have hk := hseq k
      unfold seqOf at hk hlt ⊢
      rw [hk]
      split
      · rename_i heq
        rw [heq]
        exact UInt64.le_of_lt hlt
      · exact UInt64.le_refl _
    · intro drawn hdrawn
      refine ⟨s.seqOf scope + 1, hlt, ?_, (Except.ok.inj hdrawn).symm⟩
      have hk := hseq scope
      rw [if_pos rfl] at hk
      unfold seqOf at hk ⊢
      rw [hk]
      exact UInt64.le_refl _
  · refine ⟨Draws.refl s, ?_⟩
    intro drawn hdrawn
    cases hdrawn

/-- The cursors of an event are new in their scopes. -/
theorem forEach_nextCursor (scopes : List EventScope) (s : InMemoryEventState) :
    Draws s (Method.forEach nextCursor scopes s).2 ∧
      ∀ cursors, (Method.forEach nextCursor scopes s).1 = .ok cursors →
        ∀ drawn ∈ cursors, ∃ n, s.seqOf drawn.1 < n ∧
          n ≤ (Method.forEach nextCursor scopes s).2.seqOf drawn.1 ∧
          drawn.2 = cursorOf n := by
  induction scopes generalizing s with
  | nil =>
    refine ⟨Draws.refl s, ?_⟩
    intro cursors h
    cases h
    simp
  | cons scope scopes ih =>
    obtain ⟨hfirst, hfirstOk⟩ := nextCursor_draws scope s
    obtain ⟨hrest, hrestOk⟩ := ih (nextCursor scope s).2
    unfold Method.forEach Method.bind
    cases hf : nextCursor scope s with
    | mk r s₁ =>
      rw [hf] at hfirst hfirstOk hrest hrestOk
      cases r with
      | error fault =>
        refine ⟨hfirst, ?_⟩
        intro cursors h
        cases h
      | ok drawn =>
        dsimp only at hfirst hfirstOk hrest hrestOk ⊢
        cases hr : Method.forEach nextCursor scopes s₁ with
        | mk r' s₂ =>
          rw [hr] at hrest hrestOk
          cases r' with
          | error fault =>
            refine ⟨hfirst.trans hrest, ?_⟩
            intro cursors h
            cases h
          | ok more =>
            refine ⟨hfirst.trans hrest, ?_⟩
            intro cursors h
            cases h
            intro d hd
            cases List.mem_cons.mp hd with
            | inl heq =>
              obtain ⟨n, hlt, hle, hdrawn⟩ := hfirstOk drawn rfl
              rw [heq, hdrawn]
              exact ⟨n, hlt, UInt64.le_trans hle (hrest.seq_le scope), rfl⟩
            | inr hmem =>
              obtain ⟨n, hlt, hle, hdrawn⟩ := hrestOk more rfl d hmem
              exact ⟨n, UInt64.lt_of_le_of_lt (hfirst.seq_le d.1) hlt, hle, hdrawn⟩

/-- Drawing cursors does not change the logs. -/
theorem Holds.draws {s s' : InMemoryEventState} {log : EventScope → List CanonicalEvent}
    (h : s.Holds log) (hdraws : Draws s s') : s'.Holds log := by
  have heq := hdraws.eq
  have hseq := hdraws.seq_le
  generalize s'.nextScopeSeq = seqs at heq
  subst heq
  refine ⟨h.index, h.stored, ?_, h.nodup, h.positions, h.keyed, h.logged, h.length_le⟩
  intro scope event hmem
  obtain ⟨hscope, n, hle, hcursor⟩ := h.numbered scope event hmem
  exact ⟨hscope, n, UInt64.le_trans hle (hseq scope), hcursor⟩

/-! ## The new event -/

theorem validateScopes_nodup {seen scopes : List EventScope}
    (h : validateScopes seen scopes = .ok ()) : scopes.Nodup ∧ ∀ scope ∈ scopes, scope ∉ seen := by
  induction scopes generalizing seen with
  | nil => exact ⟨List.nodup_nil, by simp⟩
  | cons scope scopes ih =>
    unfold validateScopes at h
    split at h
    · cases h
    · split at h
      · cases h
      · rename_i hnew
        split at h
        · cases h
        · obtain ⟨hnodup, hdisjoint⟩ := ih h
          refine ⟨List.nodup_cons.mpr ⟨?_, hnodup⟩, ?_⟩
          · intro hmem
            exact hdisjoint scope hmem List.mem_cons_self
          · intro k hk
            cases List.mem_cons.mp hk with
            | inl heq => rw [heq]; exact hnew
            | inr hmem => exact fun hseen => hdisjoint k hmem (List.mem_cons_of_mem _ hseen)

theorem validate_nodup {draft : CanonicalEventDraft} (h : draft.validate = .ok ()) :
    draft.scopes.Nodup := by
  unfold CanonicalEventDraft.validate at h
  split at h
  · cases h
  · rename_i hscopes
    unfold validateScopeSet at hscopes
    split at hscopes
    · cases hscopes
    · exact (validateScopes_nodup hscopes).1

/-- The event has its draft's scopes, without repetition, and a cursor in exactly these. -/
theorem fromAppend_eq_ok {eventId : String} {cursors : List (EventScope × String)} {now : UInt64}
    {draft : CanonicalEventDraft} {event : CanonicalEvent}
    (h : CanonicalEvent.fromAppend eventId cursors now draft = .ok event) :
    event.eventId = eventId ∧ event.scopes = draft.scopes ∧ event.scopes.Nodup ∧
      ∀ scope, (scope ∈ event.scopes ↔ ∃ cursor, event.cursorIn scope = some cursor) ∧
        ∀ cursor, event.cursorIn scope = some cursor → (scope, cursor) ∈ cursors := by
  simp only [CanonicalEvent.fromAppend, bind, Except.bind, pure, Except.pure] at h
  split at h
  · cases h
  · rename_i hvalid
    split at h
    · cases h
    · rename_i hcover
      split at h
      · cases h
      · cases h
        refine ⟨rfl, rfl, validate_nodup hvalid, ?_⟩
        unfold validateCursorCoverage at hcover
        split at hcover
        · rename_i hboth
          intro scope
          have hmem : ∀ cursor, cursors.lookup scope = some cursor → (scope, cursor) ∈ cursors := by
            intro cursor hc
            obtain ⟨before, after, hsplit, -⟩ := List.lookup_eq_some_iff.mp hc
            rw [hsplit]
            simp
          refine ⟨⟨?_, ?_⟩, hmem⟩
          · intro hscope
            show ∃ cursor, cursors.lookup scope = some cursor
            obtain ⟨entry, hentry, hfst⟩ := List.mem_map.mp (hboth.1 scope hscope)
            rw [← Option.isSome_iff_exists, List.lookup_isSome_iff]
            exact ⟨entry, hentry, by simp [hfst]⟩
          · intro hcursor
            obtain ⟨cursor, hc⟩ := hcursor
            exact hboth.2 scope (List.mem_map_of_mem (f := Prod.fst) (hmem cursor hc))
        · cases hcover

/-- The event goes to the end of the index of each of the scopes. -/
structure Indexes (event : CanonicalEvent) (scopes : List EventScope)
    (s s' : InMemoryEventState) : Prop where
  eq : s' = { s with scopeIndexes := s'.scopeIndexes, cursorPositions := s'.cursorPositions }
  index : ∀ scope, s'.indexOf scope =
    if scope ∈ scopes then s.indexOf scope ++ [event.eventId] else s.indexOf scope
  positions : ∀ scope cursor, s'.cursorPositions.get? (scope, cursor) =
    if scope ∈ scopes ∧ event.cursorIn scope = some cursor then some (s.indexOf scope).length
    else s.cursorPositions.get? (scope, cursor)

theorem indexEvent_eq {event : CanonicalEvent} {scope : EventScope} {cursor : String}
    (hcursor : event.cursorIn scope = some cursor) (s : InMemoryEventState) :
    ∃ s', indexEvent event scope s = (.ok (), s') ∧ Indexes event [scope] s s' := by
  unfold indexEvent
  rw [hcursor]
  refine ⟨_, rfl, rfl, ?_, ?_⟩
  · intro k
    show ((s.scopeIndexes.insert scope (s.indexOf scope ++ [event.eventId])).get? k).getD [] = _
    rw [AssocMap.get?_insert]
    by_cases hk : k = scope
    · simp [hk]
    · simp only [hk, if_false, List.mem_singleton]
      rfl
  · intro k c
    dsimp only
    rw [AssocMap.get?_insert]
    by_cases hk : k = scope
    · by_cases hc : c = cursor
      · simp [hk, hc, hcursor]
      · have hc' : cursor ≠ c := fun heq => hc heq.symm
        simp [hk, hcursor, hc, hc']
    · simp [hk]

/-- The loop that indexes an event. -/
theorem forEach_indexEvent {event : CanonicalEvent} {scopes : List EventScope}
    (hnodup : scopes.Nodup)
    (hcursors : ∀ scope ∈ scopes, ∃ cursor, event.cursorIn scope = some cursor)
    (s : InMemoryEventState) :
    ∃ units s', Method.forEach (indexEvent event) scopes s = (.ok units, s') ∧
      Indexes event scopes s s' := by
  induction scopes generalizing s with
  | nil => exact ⟨[], s, rfl, rfl, by simp, by simp⟩
  | cons scope scopes ih =>
    obtain ⟨hnew, hnodup⟩ := List.nodup_cons.mp hnodup
    obtain ⟨cursor, hcursor⟩ := hcursors scope List.mem_cons_self
    obtain ⟨s₁, hfirst, hs₁⟩ := indexEvent_eq hcursor s
    obtain ⟨units, s₂, hrest, hs₂⟩ := ih hnodup
      (fun k hk => hcursors k (List.mem_cons_of_mem _ hk)) s₁
    refine ⟨() :: units, s₂, ?_, ?_, ?_, ?_⟩
    · rw [Method.forEach, Method.bind, hfirst]
      dsimp only
      rw [Method.bind, hrest]
    · rw [hs₂.eq, hs₁.eq]
    · intro k
      rw [hs₂.index, hs₁.index]
      by_cases hk : k = scope
      · simp [hk, hnew]
      · simp [hk]
    · intro k c
      rw [hs₂.positions, hs₁.index, hs₁.positions]
      by_cases hk : k = scope
      · simp [hk, hnew]
      · simp [hk]

/-- The log after the event, in the scopes of the event. -/
def logWith (log : EventScope → List CanonicalEvent) (event : CanonicalEvent) :
    EventScope → List CanonicalEvent :=
  fun scope => if scope ∈ event.scopes then log scope ++ [event] else log scope

theorem mem_logWith {log : EventScope → List CanonicalEvent} {event e : CanonicalEvent}
    {scope : EventScope} :
    e ∈ logWith log event scope ↔ e ∈ log scope ∨ scope ∈ event.scopes ∧ e = event := by
  unfold logWith
  split
  · rename_i hscope
    simp [hscope]
  · rename_i hscope
    simp [hscope]

/-- A new event is at the end of the logs of its scopes. -/
theorem Holds.keepEvent {s s' : InMemoryEventState} {log : EventScope → List CanonicalEvent}
    (h : s.Holds log) {event : CanonicalEvent} (hindexes : Indexes event event.scopes s s')
    (hnew : s.events.get? event.eventId = none)
    (hid : ∃ n, n ≤ s.nextEventSeq ∧ event.eventId = eventIdOf n)
    (hroom : ∀ scope, (log scope).length < s.nextEventSeq.toNat)
    (hscopes : ∀ scope, scope ∈ event.scopes ↔ ∃ cursor, event.cursorIn scope = some cursor)
    (hcursor : ∀ scope cursor, event.cursorIn scope = some cursor →
      ∃ n, n ≤ s.seqOf scope ∧ cursor = cursorOf n ∧
        ∀ e ∈ log scope, e.cursorIn scope ≠ some cursor)
    (identity : Option (String × String)) (digest : IdempotencyBasis) :
    (keepEvent identity digest event s').Holds (logWith log event) := by
  have hs' := hindexes.eq
  have hevents : ∀ id, (InMemoryEventState.keepEvent identity digest event s').events.get? id =
      if id = event.eventId then some event else s.events.get? id := by
    intro id
    show (s'.events.insert event.eventId event).get? id = _
    rw [AssocMap.get?_insert, hs']
  have hlength : ∀ scope, (s.indexOf scope).length = (log scope).length := by
    intro scope
    rw [h.index, List.length_map]
  have hnext : (InMemoryEventState.keepEvent identity digest event s').nextEventSeq =
      s.nextEventSeq := by
    show s'.nextEventSeq = s.nextEventSeq
    rw [hs']
  constructor
  case index =>
    intro scope
    show s'.indexOf scope = _
    rw [hindexes.index, h.index]
    unfold logWith
    split <;> simp
  case stored =>
    intro scope e he
    rw [hevents]
    cases mem_logWith.mp he with
    | inl hold =>
      have hget := h.stored scope e hold
      have hne : e.eventId ≠ event.eventId := by
        intro heq
        rw [heq, hnew] at hget
        cases hget
      rw [if_neg hne, hget]
    | inr hlast => rw [hlast.2, if_pos rfl]
  case numbered =>
    intro scope e he
    show scope ∈ e.scopes ∧ ∃ n, n ≤ s'.seqOf scope ∧ _
    have hseq : s'.seqOf scope = s.seqOf scope := by
      unfold seqOf
      rw [hs']
    rw [hseq]
    cases mem_logWith.mp he with
    | inl hold => exact h.numbered scope e hold
    | inr hlast =>
      rw [hlast.2]
      obtain ⟨cursor, hc⟩ := (hscopes scope).mp hlast.1
      obtain ⟨n, hle, heq, -⟩ := hcursor scope cursor hc
      exact ⟨hlast.1, n, hle, by rw [hc, heq]⟩
  case nodup =>
    intro scope
    unfold logWith
    split
    · rename_i hscope
      obtain ⟨cursor, hc⟩ := (hscopes scope).mp hscope
      obtain ⟨-, -, -, hfresh⟩ := hcursor scope cursor hc
      rw [List.map_append, List.nodup_append]
      refine ⟨h.nodup scope, List.nodup_singleton _, ?_⟩
      intro a ha b hb heq
      obtain ⟨e, he, rfl⟩ := List.mem_map.mp ha
      have hb' : b = event.cursorAt scope := by simpa using hb
      apply hfresh e he
      rw [h.cursorIn he, heq, hb', CanonicalEvent.cursorAt, hc]
      rfl
    · exact h.nodup scope
  case positions =>
    intro scope cursor position
    show s'.cursorPositions.get? (scope, cursor) = _ ↔ _
    rw [hindexes.positions, hlength]
    unfold logWith
    by_cases hscope : scope ∈ event.scopes
    · by_cases hc : event.cursorIn scope = some cursor
      · obtain ⟨-, -, -, hfresh⟩ := hcursor scope cursor hc
        simp only [hscope, hc, and_self, if_true, Option.some.injEq]
        constructor
        · intro heq
          exact ⟨event, by rw [← heq]; simp, hc⟩
        · intro hex
          obtain ⟨e, hget, he⟩ := hex
          rw [List.getElem?_append] at hget
          split at hget
          · exact absurd he (hfresh e (List.mem_of_getElem? hget))
          · rename_i hge
            have hlt : position - (log scope).length < [event].length :=
              (List.getElem?_eq_some_iff.mp hget).1
            simp only [List.length_singleton] at hlt
            omega
      · simp only [hc, and_false, if_false, hscope, if_true]
        rw [h.positions]
        constructor
        · intro hex
          obtain ⟨e, hget, he⟩ := hex
          have hlt := (List.getElem?_eq_some_iff.mp hget).1
          exact ⟨e, by rw [List.getElem?_append_left hlt]; exact hget, he⟩
        · intro hex
          obtain ⟨e, hget, he⟩ := hex
          rw [List.getElem?_append] at hget
          split at hget
          · exact ⟨e, hget, he⟩
          · have heq : e = event := by simpa using List.mem_of_getElem? hget
            rw [heq] at he
            exact absurd he hc
    · simp only [hscope, false_and, if_false]
      exact h.positions scope cursor position
  case keyed =>
    intro id e hget
    rw [hevents] at hget
    rw [hnext]
    split at hget
    · rename_i heq
      cases hget
      rw [heq]
      exact ⟨rfl, hid⟩
    · exact h.keyed id e hget
  case logged =>
    intro id e hget scope cursor hc
    rw [hevents] at hget
    rw [mem_logWith]
    split at hget
    · cases hget
      exact .inr ⟨(hscopes scope).mpr ⟨cursor, hc⟩, rfl⟩
    · exact .inl (h.logged id e hget scope cursor hc)
  case length_le =>
    intro scope
    rw [hnext]
    unfold logWith
    split
    · rw [List.length_append, List.length_singleton]
      exact hroom scope
    · exact h.length_le scope

/-- The next event id is new. -/
theorem Holds.get?_next {s : InMemoryEventState} {log : EventScope → List CanonicalEvent}
    (h : s.Holds log) (hlt : s.nextEventSeq < s.nextEventSeq + 1) :
    s.events.get? (eventIdOf (s.nextEventSeq + 1)) = none := by
  cases hget : s.events.get? (eventIdOf (s.nextEventSeq + 1)) with
  | none => rfl
  | some event =>
    obtain ⟨-, n, hle, hid⟩ := h.keyed _ _ hget
    rw [← eventIdOf_inj hid] at hle
    exact absurd hlt (UInt64.not_lt.mpr hle)

/-- Counting an event does not change the logs. -/
theorem Holds.count {s : InMemoryEventState} {log : EventScope → List CanonicalEvent}
    (h : s.Holds log) (hlt : s.nextEventSeq < s.nextEventSeq + 1) :
    InMemoryEventState.Holds { s with nextEventSeq := s.nextEventSeq + 1 } log := by
  refine ⟨h.index, h.stored, h.numbered, h.nodup, h.positions, ?_, h.logged, ?_⟩
  · intro eventId event hget
    obtain ⟨hkey, n, hle, hid⟩ := h.keyed eventId event hget
    exact ⟨hkey, n, UInt64.le_of_lt (UInt64.lt_of_le_of_lt hle hlt), hid⟩
  · intro scope
    have hle := h.length_le scope
    have hnat := UInt64.lt_iff_toNat_lt.mp hlt
    exact Nat.le_of_lt (Nat.lt_of_le_of_lt hle hnat)

/-- Storing the event counted last fails and leaves the logs, or puts it at the end of them. -/
theorem storeCounted_cases {s : InMemoryEventState} {log : EventScope → List CanonicalEvent}
    (h : s.Holds log) (hnew : s.events.get? (eventIdOf s.nextEventSeq) = none)
    (hroom : ∀ scope, (log scope).length < s.nextEventSeq.toNat) (draft : CanonicalEventDraft)
    (options : AppendOptions) (now : UInt64) :
    (∃ fault s', storeCounted draft options now s = (.error fault, s') ∧ s'.Holds log) ∨
      ∃ event s', storeCounted draft options now s = (.ok event, s') ∧
        s.events.get? event.eventId = none ∧ s'.events.get? event.eventId = some event ∧
        s'.Holds (logWith log event) := by
  obtain ⟨hdraws, hdrawn⟩ := forEach_nextCursor draft.scopes s
  unfold storeCounted
  dsimp only
  rw [Method.bind]
  cases hcursors : Method.forEach nextCursor draft.scopes s with
  | mk r s₁ =>
    rw [hcursors] at hdraws hdrawn
    dsimp only at hdraws hdrawn
    cases r with
    | error fault => exact .inl ⟨fault, s₁, rfl, h.draws hdraws⟩
    | ok cursors =>
      dsimp only
      cases hevent : CanonicalEvent.fromAppend (eventIdOf s.nextEventSeq) cursors now draft with
      | error error => exact .inl ⟨_, s₁, rfl, h.draws hdraws⟩
      | ok event =>
        obtain ⟨hid, -, hnodup, hcover⟩ := fromAppend_eq_ok hevent
        obtain ⟨units, s₂, hindex, hindexes⟩ := forEach_indexEvent hnodup
          (fun scope hscope => (hcover scope).1.mp hscope) s₁
        have hsame : s₁.events = s.events ∧ s₁.nextEventSeq = s.nextEventSeq := by
          rw [hdraws.eq]
          exact ⟨rfl, rfl⟩
        dsimp only
        rw [Method.bind, hindex]
        refine .inr ⟨event, _, rfl, by rw [hid]; exact hnew, AssocMap.get?_insert_self _ _ _, ?_⟩
        apply (h.draws hdraws).keepEvent hindexes
        · rw [hsame.1, hid]
          exact hnew
        · exact ⟨s.nextEventSeq, by rw [hsame.2]; exact UInt64.le_refl _, hid⟩
        · rw [hsame.2]
          exact hroom
        · exact fun scope => (hcover scope).1
        · intro scope cursor hcursor
          obtain ⟨n, hlater, hle, heq⟩ := hdrawn cursors rfl _ ((hcover scope).2 cursor hcursor)
          refine ⟨n, hle, heq, ?_⟩
          -- the cursors of the log were drawn before
          intro e he hsame
          obtain ⟨-, m, hm, hc⟩ := h.numbered scope e he
          have heq' : cursor = cursorOf n := heq
          rw [hc, heq', Option.some.injEq] at hsame
          rw [cursorOf_inj hsame] at hm
          exact absurd hlater (UInt64.not_lt.mpr hm)

theorem storeEvent_cases {s : InMemoryEventState} {log : EventScope → List CanonicalEvent}
    (h : s.Holds log) (draft : CanonicalEventDraft) (options : AppendOptions) (now : UInt64) :
    (∃ fault s', storeEvent draft options now s = (.error fault, s') ∧ s'.Holds log) ∨
      ∃ event s', storeEvent draft options now s = (.ok event, s') ∧
        s.events.get? event.eventId = none ∧ s'.events.get? event.eventId = some event ∧
        s'.Holds (logWith log event) := by
  unfold storeEvent
  split
  · rename_i hroom
    have hlt := Outcome.lt_add_one hroom
    apply storeCounted_cases (h.count hlt) (h.get?_next hlt)
    intro scope
    exact Nat.lt_of_le_of_lt (h.length_le scope) (UInt64.lt_iff_toNat_lt.mp hlt)
  · exact .inl ⟨_, s, rfl, h⟩

end InMemoryEventState

end Remo
