import Remo.Native.Storage.Memory

/-!
# Run pointers of a thread

A thread points at its active and at its open run. Run records reach it in any order: a record
older than the watermark is ignored, unless it says that its run is done.

Key results:
* `applyRunProjection_pointers` what one record does to the two pointers
* `applyRunProjections_keepPointers` the watermark, the two pointers and finished runs over a
  sequence of records
-/

namespace Remo

namespace Thread

/-- Apply a sequence of run records, the first one first. -/
def applyRunProjections (self : Thread) (runs : List RunRecord) : Thread :=
  runs.foldl applyRunProjection self

/-- The active run, when present, is the open one. -/
def PointersAgree (self : Thread) : Prop :=
  ∀ runId, self.activeRunId = some runId → self.openRunId = some runId

/-- No pointer is at the run. -/
def PointsPast (self : Thread) (runId : String) : Prop :=
  self.activeRunId ≠ some runId ∧ self.openRunId ≠ some runId

/-- The watermark is no lower than before. -/
def WatermarkKept (self later : Thread) : Prop :=
  ∀ before, self.latestRunUpdatedAt = some before →
    ∃ after, later.latestRunUpdatedAt = some after ∧ before ≤ after

variable {self : Thread} {run : RunRecord} {runId : String}

/-! ## One record -/

/-- A record of a finished run drops the pointers to it. Another record moves both pointers to
    its run, or is ignored. -/
theorem applyRunProjection_pointers (self : Thread) (run : RunRecord) :
    let applied := self.applyRunProjection run
    let cleared := self.clearRunProjectionIfMatches run.runId
    (run.status = .done ∧ applied.activeRunId = cleared.activeRunId ∧
      applied.openRunId = cleared.openRunId) ∨
    (run.status ≠ .done ∧ applied.openRunId = some run.runId ∧
      (applied.activeRunId = none ∨ applied.activeRunId = some run.runId)) ∨
    (run.status ≠ .done ∧ applied.activeRunId = self.activeRunId ∧
      applied.openRunId = self.openRunId) := by
  dsimp only
  unfold applyRunProjection
  split
  · cases run.status with
    | created => simp
    | running => simp
    | waiting => simp
    | done => simp [clearRunProjectionIfMatches]
  · by_cases hdone : run.status = .done
    · simp [hdone]
    · simp [hdone]

theorem applyRunProjection_watermark (self : Thread) (run : RunRecord) :
    self.WatermarkKept (self.applyRunProjection run) := by
  intro before hbefore
  unfold applyRunProjection
  split
  · rename_i hcurrent
    have hle : before ≤ run.updatedAt := by simpa [hbefore] using hcurrent
    cases run.status with
    | created => exact ⟨run.updatedAt, rfl, hle⟩
    | running => exact ⟨run.updatedAt, rfl, hle⟩
    | waiting => exact ⟨run.updatedAt, rfl, hle⟩
    | done => exact ⟨run.updatedAt, rfl, hle⟩
  · split
    · exact ⟨before, hbefore, UInt64.le_refl before⟩
    · exact ⟨before, hbefore, UInt64.le_refl before⟩

theorem PointersAgree.applyRunProjection (h : self.PointersAgree) (run : RunRecord) :
    (self.applyRunProjection run).PointersAgree := by
  intro runId hactive
  cases self.applyRunProjection_pointers run with
  | inl hdone =>
    obtain ⟨-, hactive', hopen'⟩ := hdone
    rw [hactive'] at hactive
    rw [hopen']
    simp only [clearRunProjectionIfMatches] at hactive ⊢
    split at hactive
    · cases hactive
    · -- the active run is not the finished one, so the open one is not either
      rename_i hne
      rw [h runId hactive, if_neg (hactive ▸ hne)]
  | inr h' =>
    cases h' with
    | inl hmoved =>
      obtain ⟨-, hopen', hactive'⟩ := hmoved
      cases hactive' with
      | inl hnone =>
        rw [hnone] at hactive
        cases hactive
      | inr hsome => rw [hopen', ← hsome, hactive]
    | inr hsame =>
      rw [hsame.2.1] at hactive
      rw [hsame.2.2, h runId hactive]

/-- Behind the record of a finished run no pointer is at it. -/
theorem pointsPast_of_done (hdone : run.status = .done) :
    (self.applyRunProjection run).PointsPast run.runId := by
  cases self.applyRunProjection_pointers run with
  | inl h =>
    obtain ⟨-, hactive, hopen⟩ := h
    rw [PointsPast, hactive, hopen]
    simp only [clearRunProjectionIfMatches]
    constructor
    · split
      · simp
      · assumption
    · split
      · simp
      · assumption
  | inr h =>
    cases h with
    | inl hmoved => exact absurd hdone hmoved.1
    | inr hsame => exact absurd hdone hsame.1

/-- A record of another run does not bring a pointer back. -/
theorem PointsPast.applyRunProjection (h : self.PointsPast runId) (hother : run.runId ≠ runId) :
    (self.applyRunProjection run).PointsPast runId := by
  have hne : some run.runId ≠ some runId := by simpa using hother
  cases self.applyRunProjection_pointers run with
  | inl hdone =>
    obtain ⟨-, hactive, hopen⟩ := hdone
    rw [PointsPast, hactive, hopen]
    simp only [clearRunProjectionIfMatches]
    constructor
    · split
      · simp
      · exact h.1
    · split
      · simp
      · exact h.2
  | inr h' =>
    cases h' with
    | inl hmoved =>
      obtain ⟨-, hopen, hactive⟩ := hmoved
      rw [PointsPast, hopen]
      cases hactive with
      | inl hnone => simp [hnone, hother]
      | inr hsome => simp [hsome, hother]
    | inr hsame =>
      rw [PointsPast, hsame.2.1, hsame.2.2]
      exact h

/-! ## Sequences of records -/

theorem WatermarkKept.trans {other later : Thread} (h : self.WatermarkKept other)
    (h' : other.WatermarkKept later) : self.WatermarkKept later := by
  intro before hbefore
  obtain ⟨between, hbetween, hle⟩ := h before hbefore
  obtain ⟨after, hafter, hle'⟩ := h' between hbetween
  exact ⟨after, hafter, UInt64.le_trans hle hle'⟩

theorem applyRunProjections_watermark (self : Thread) (runs : List RunRecord) :
    self.WatermarkKept (self.applyRunProjections runs) := by
  induction runs generalizing self with
  | nil => exact fun before hbefore => ⟨before, hbefore, UInt64.le_refl before⟩
  | cons run runs ih =>
    exact (self.applyRunProjection_watermark run).trans (ih (self.applyRunProjection run))

theorem PointersAgree.applyRunProjections (h : self.PointersAgree) (runs : List RunRecord) :
    (self.applyRunProjections runs).PointersAgree := by
  induction runs generalizing self with
  | nil => exact h
  | cons run runs ih => exact ih (h.applyRunProjection run)

theorem PointsPast.applyRunProjections (h : self.PointsPast runId) {runs : List RunRecord}
    (hother : ∀ run ∈ runs, run.runId ≠ runId) :
    (self.applyRunProjections runs).PointsPast runId := by
  induction runs generalizing self with
  | nil => exact h
  | cons run runs ih =>
    have hrun : run.runId ≠ runId := hother run List.mem_cons_self
    exact ih (h.applyRunProjection hrun) fun later hlater =>
      hother later (List.mem_cons_of_mem _ hlater)

/-- Run records applied in any order never lower the watermark of a thread, and no pointer is at
    a run whose last record says it is done. A thread whose active run is its open one, as in a
    new thread, stays so. -/
theorem applyRunProjections_keepPointers (self : Thread) (runs : List RunRecord) :
    self.WatermarkKept (self.applyRunProjections runs) ∧
    (∀ earlier run later, runs = earlier ++ run :: later → run.status = .done →
      (∀ other ∈ later, other.runId ≠ run.runId) →
      (self.applyRunProjections runs).PointsPast run.runId) ∧
    (self.PointersAgree → (self.applyRunProjections runs).PointersAgree) := by
  refine ⟨self.applyRunProjections_watermark runs, ?_, fun h => h.applyRunProjections runs⟩
  intro earlier run later hruns hdone hlater
  have hsplit : self.applyRunProjections runs =
      ((self.applyRunProjections earlier).applyRunProjection run).applyRunProjections later := by
    rw [hruns]
    simp [applyRunProjections]
  rw [hsplit]
  exact (pointsPast_of_done hdone).applyRunProjections hlater

example (id : String) : (withId id).PointersAgree := by
  intro runId hactive
  cases hactive

/-- A thread that was stored with an active run other than its open one keeps both pointers when
    a record older than its watermark comes. -/
theorem applyRunProjections_keepMismatch :
    ¬ ∀ (self : Thread) (runs : List RunRecord),
      (self.applyRunProjections runs).PointersAgree := by
  intro h
  have hagree := h { withId "t" with
      activeRunId := some "r-1", openRunId := some "r-2", latestRunUpdatedAt := some 10 }
    [{ RunRecord.new "r-3" "t" "a" with updatedAt := 5 }] "r-1" rfl
  exact absurd hagree (by decide)

end Thread

end Remo
