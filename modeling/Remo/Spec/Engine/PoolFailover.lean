import Remo.Native.Engine.PoolExecutor
import Remo.Spec.Engine.PoolRouting

/-!
# A call of a pool tries each member once

Whatever other calls do to the session and to the health of the members between its turns, a call
tries no member twice and comes to an end.

## Key results

- `next_untried`: the next member is available and untried
- `execute_failsOver`: what a call does with the members of its pool
-/

namespace Remo.PoolExecutor

variable {S α : Type} [LinearOrder S] {p : PoolExecutor S}

/-- A call tries members of its pool one after the other. -/
structure FailsOver (p : PoolExecutor S) (turns : List (PoolTurn α)) (call : PoolCall α) :
    Prop where
  once : call.members.Nodup
  members : ∀ idx ∈ call.members, idx < p.router.members.length
  /-- A member after the first was available when it was chosen. -/
  chosen : ∀ choice ∈ call.members.tail.zip turns, choice.2.available choice.1 = true
  ends : p.router.members.length ≤ turns.length → call.outcome.isSome = true

/-! ## The next member -/

omit [LinearOrder S] in
theorem untriedMask_eq_true {available : Nat → Bool} {tried : List Bool} {i : Nat} :
    (p.untriedMask available tried)[i]? = some true ↔
      i < p.router.members.length ∧ available i = true ∧ tried[i]? = some false := by
  unfold untriedMask healthMask
  rw [List.getElem?_zipWith, List.getElem?_map]
  by_cases hi : i < p.router.members.length
  · cases tried[i]? <;> simp [hi]
  · simp [hi]

/-- The next member is available and untried. -/
theorem next_untried {key : String} {current next : Nat} {tried : List Bool} {available : Nat → Bool}
    {state : PoolSessionState} (htried : tried.length = p.router.members.length)
    (h : (p.nextOnUnavailable key current tried available state).1 = some next) :
    next < p.router.members.length ∧ available next = true ∧ tried[next]? = some false := by
  apply untriedMask_eq_true.mp
  unfold nextOnUnavailable at h
  dsimp only at h
  split at h
  · obtain ⟨-, hmask⟩ := Option.filter_eq_some_iff.mp h
    cases hget : (p.untriedMask available tried)[next]? with
    | none => simp [hget] at hmask
    | some healthy => simpa [hget] using hmask
  · split at h
    · cases h
    · cases hselect : p.router.selectFailover p.score key current
          (p.untriedMask available tried) with
      | none => simp [hselect] at h
      | some found =>
        simp only [hselect, Option.some.injEq] at h
        subst h
        obtain ⟨hlt, -, hhealthy⟩ := PoolRouter.selectFailover_spec hselect
        have hget : found < (p.untriedMask available tried).length := by
          simpa [untriedMask, healthMask, htried] using hlt
        simpa [isHealthy, hget] using hhealthy

theorem next_of_turnStep {key : String} {turn : PoolTurn α} {idx next : Nat} {tried : List Bool}
    (h : p.turnStep key turn idx tried = .inr next) :
    (p.nextOnUnavailable key idx tried turn.available turn.session).1 = some next := by
  unfold turnStep nextOnError at h
  grind

/-! ## The loop -/

theorem untried_set {tried : List Bool} {idx i : Nat} :
    (tried.set idx true)[i]? = some false ↔ tried[i]? = some false ∧ i ≠ idx := by
  rw [List.getElem?_set]
  by_cases h : idx = i
  · split_ifs <;> simp_all
  · simp [h, Ne.symm h]

/-- A call tries untried members only, and a call that is under way has one left to try. -/
theorem executeLoop_spec (key : String) (turns : List (PoolTurn α)) {idx : Nat} {tried : List Bool}
    (htried : tried.length = p.router.members.length) (hidx : tried[idx]? = some false) :
    let call := p.executeLoop key turns idx tried
    call.members.Nodup ∧ (∀ i ∈ call.members, tried[i]? = some false) ∧
      (∀ choice ∈ call.members.tail.zip turns, choice.2.available choice.1 = true) ∧
      (turns ≠ [] → call.members.head? = some idx) ∧
      (call.outcome = none → turns.length < tried.count false) := by
  induction turns generalizing idx tried with
  | nil => simpa [executeLoop] using List.mem_of_getElem? hidx
  | cons turn turns ih =>
    simp only [executeLoop]
    cases hstep : p.turnStep key turn idx (tried.set idx true) with
    | inl outcome => simpa using hidx
    | inr next =>
      have hlen : (tried.set idx true).length = p.router.members.length := by simpa using htried
      obtain ⟨-, havailable, huntried⟩ := next_untried hlen (next_of_turnStep hstep)
      obtain ⟨honce, hmembers, hchosen, hhead, hends⟩ := ih hlen huntried
      refine ⟨List.nodup_cons.mpr ⟨fun hmem => ?_, honce⟩, ?_, ?_, fun _ => rfl, fun hnone => ?_⟩
      · exact (untried_set.mp (hmembers idx hmem)).2 rfl
      · intro i hi
        cases List.mem_cons.mp hi with
        | inl h => rwa [h]
        | inr h => exact (untried_set.mp (hmembers i h)).1
      · cases turns with
        | nil => simp [executeLoop]
        | cons turn' turns =>
          obtain ⟨rest, hrest⟩ := List.head?_eq_some_iff.mp (hhead (by simp))
          rw [hrest] at hchosen
          simp only [List.tail_cons, hrest, List.zip_cons_cons, List.forall_mem_cons]
          exact ⟨havailable, hchosen⟩
      · have hcount : (tried.set idx true).count false = tried.count false - 1 := by
          obtain ⟨hlt, hget⟩ := List.getElem?_eq_some_iff.mp hidx
          simp [List.count_set hlt, hget]
        have hrest := hends hnone
        rw [List.length_cons]
        omega

/-- Whatever other calls do between its turns, a call tries no member twice, moves on to
    available members only, and is over when it has had a turn for each. -/
theorem execute_failsOver (p : PoolExecutor S) (sessionKey : String) (turns : List (PoolTurn α))
    (first : Nat) (hfirst : first < p.router.members.length) :
    p.FailsOver turns (p.execute sessionKey turns first) := by
  have hlen : (List.replicate p.router.members.length false).length = p.router.members.length :=
    List.length_replicate
  have huntried : ∀ i, (List.replicate p.router.members.length false)[i]? = some false ↔
      i < p.router.members.length := by simp [List.getElem?_replicate]
  obtain ⟨honce, hmembers, hchosen, -, hends⟩ :=
    executeLoop_spec sessionKey turns hlen ((huntried first).mpr hfirst)
  refine ⟨honce, fun i hi => (huntried i).mp (hmembers i hi), hchosen, fun hturns => ?_⟩
  by_contra hnone
  have hlt := hends (Option.not_isSome_iff_eq_none.mp hnone)
  rw [List.count_replicate_self] at hlt
  omega

/-- A member that is not authorized is left for the other one. -/
theorem execute_failsOver_unauthorized :
    let p : PoolExecutor Nat := ⟨⟨[⟨"a", .member, 1⟩, ⟨"b", .failoverOnly, 1⟩], .deterministic⟩,
      ⟨true, none, true, none⟩, fun _ _ _ => 0⟩
    let turn (idx : Nat) : PoolTurn Unit := ⟨none, .error (.unauthorized "401"), none,
      ⟨some idx, 0⟩, fun _ => true, fun _ => true⟩
    let call := p.execute "session" [turn 0, turn 1] 0
    call.members = [0, 1] ∧ p.FailsOver [turn 0, turn 1] call :=
  ⟨by decide, execute_failsOver _ _ _ _ (by decide)⟩

end Remo.PoolExecutor
