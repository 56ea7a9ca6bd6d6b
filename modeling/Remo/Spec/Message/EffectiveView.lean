import Remo.ForStd.IntervalFold
import Remo.Native.Message.Effective

/-!
# The effective view as an interval fold

`effectiveMessages` sorts the compaction intervals, drops those inside others and
weaves the summaries into the raw records. `FoldedView` says which records come
out and in which order, without saying how they are found.

## Key results

- `effectiveMessages_eq`: the fold is the `weave` of the undominated summaries
- `effectiveMessages_folds`: the view is a `FoldedView`, and for cumulative summaries
  the widest summary followed by the raw tail
-/

namespace Remo

/-! ## Summaries and raw records -/

namespace MessageRecord

/-- The interval a record covers; of no account for a raw record. -/
def span (r : MessageRecord) : Interval :=
  match r.compaction with
  | some mark => ⟨mark.fromSeq, mark.toSeq⟩
  | none => ⟨1, 0⟩

theorem span_of_some {r : MessageRecord} {mark : CompactionMark} (h : r.compaction = some mark) :
    r.span = ⟨mark.fromSeq, mark.toSeq⟩ := by
  rw [span, h]

/-- The interval of a summary record with its message. -/
def summaryInterval (r : MessageRecord) : SummaryInterval :=
  ⟨r.span.lo, r.span.hi, r.message⟩

end MessageRecord

open MessageRecord

/-- The summary records of a log. -/
def summaryRecords (records : List MessageRecord) : List MessageRecord :=
  records.filter fun r => r.compaction.isSome

/-- The summary records whose interval lies in no other one, by start. -/
def foldingRecords (records : List MessageRecord) : List MessageRecord :=
  undominated span [] ((summaryRecords records).insertionSort fun a b => a.span.Before b.span)

/-- The raw record lies in no interval of a summary. -/
def Uncovered (records : List MessageRecord) (seq : Nat) : Prop :=
  ∀ r ∈ records, ∀ mark, r.compaction = some mark → ¬(mark.fromSeq ≤ seq ∧ seq ≤ mark.toSeq)

/-- No other interval of the log contains the interval. -/
def MaximalMark (records : List MessageRecord) (mark : CompactionMark) : Prop :=
  (∃ r ∈ records, r.compaction = some mark) ∧
    ∀ r ∈ records, ∀ mark', r.compaction = some mark' → mark'.fromSeq ≤ mark.fromSeq →
      mark.toSeq ≤ mark'.toSeq → mark' = mark

/-! ## The code against the library -/

instance : Std.Total (α := MessageRecord) fun a b => a.span.Before b.span where
  total a b := by
    unfold Interval.Before
    omega

instance : IsTrans MessageRecord fun a b => a.span.Before b.span where
  trans a b c := by
    unfold Interval.Before
    omega

theorem filterMap_ofRecord (records : List MessageRecord) :
    records.filterMap SummaryInterval.ofRecord = (summaryRecords records).map summaryInterval := by
  induction records with
  | nil => rfl
  | cons r records ih =>
    unfold summaryRecords at ih ⊢
    cases h : r.compaction with
    | none => simp [SummaryInterval.ofRecord, h, ih]
    | some mark => simp [SummaryInterval.ofRecord, h, ih, summaryInterval, span]

theorem dropDominated_map (kept cs : List MessageRecord) :
    dropDominated (kept.map summaryInterval) (cs.map summaryInterval) =
      (undominated span kept cs).map summaryInterval := by
  induction cs generalizing kept with
  | nil => rfl
  | cons c cs ih =>
    have hany : (kept.map summaryInterval).any (summaryInterval c).dominatedBy =
        kept.any fun k => decide (c.span.Within k.span) := by
      rw [List.any_map]
      congr 1
      funext k
      show (decide (k.span.lo ≤ c.span.lo) && decide (c.span.hi ≤ k.span.hi)) = _
      exact (Bool.decide_and _ _).symm
    rw [List.map_cons, dropDominated, undominated, hany]
    split
    · exact ih kept
    · rw [← ih, List.map_append]
      rfl

/-- The candidates in the order they are looked at. -/
theorem sorted_candidates (records : List MessageRecord) :
    ((summaryRecords records).insertionSort fun a b => a.span.Before b.span).Pairwise
      fun a b => a.span.Before b.span :=
  List.pairwise_insertionSort _ _

/-- The records folded to ascend at both ends. -/
theorem foldingRecords_ascending (records : List MessageRecord) :
    Ascending span (foldingRecords records) :=
  undominated_ascending List.Pairwise.nil (by simp) (sorted_candidates records)

/-- The kept candidates are sorted by start as they are. -/
theorem effectiveIntervals_eq (records : List MessageRecord) :
    effectiveIntervals records = (foldingRecords records).map summaryInterval := by
  have hsort : ((summaryRecords records).map summaryInterval).insertionSort
      SummaryInterval.Before =
        ((summaryRecords records).insertionSort fun a b => a.span.Before b.span).map
          summaryInterval :=
    (List.map_insertionSort _ _ summaryInterval _ fun a _ b _ => Iff.rfl).symm
  have hdropped := dropDominated_map []
    ((summaryRecords records).insertionSort fun a b => a.span.Before b.span)
  unfold effectiveIntervals
  rw [filterMap_ofRecord, hsort]
  dsimp only
  rw [show ([] : List SummaryInterval) = [].map summaryInterval from rfl, hdropped]
  apply List.Pairwise.insertionSort_eq
  rw [List.pairwise_map]
  exact (foldingRecords_ascending records).imp fun h => Nat.le_of_lt h.1

/-- The loop puts out what `weave` does. -/
theorem emitEffective_map (intervals : List SummaryInterval) (next records : List MessageRecord) :
    emitEffective intervals (next.map summaryInterval) records =
      (weave (fun r => r.span.lo) MessageRecord.seq (fun r => !coveredBy intervals r.seq) next
        records).map (Sum.elim MessageRecord.message MessageRecord.message) := by
  induction records generalizing next with
  | nil => simp [emitEffective, weave, summaryInterval, Function.comp_def]
  | cons r records ih =>
    have htake : (next.map summaryInterval).takeWhile (fun i => i.fromSeq ≤ r.seq) =
        (next.takeWhile fun b => b.span.lo ≤ r.seq).map summaryInterval := List.takeWhile_map ..
    have hdrop : (next.map summaryInterval).dropWhile (fun i => i.fromSeq ≤ r.seq) =
        (next.dropWhile fun b => b.span.lo ≤ r.seq).map summaryInterval := List.dropWhile_map ..
    rw [emitEffective, weave, htake, hdrop, ih, List.map_append, List.map_append, List.map_map,
      List.map_map]
    congr 2
    cases coveredBy intervals r.seq <;> rfl

/-! ## What the fold puts out -/

/-- The records put out for a log: the folded summaries among the uncovered raw records. -/
def foldedView (records : List MessageRecord) : List MessageRecord :=
  (weave (fun r => r.span.lo) MessageRecord.seq
    (fun r => !coveredBy (effectiveIntervals records) r.seq) (foldingRecords records)
    (records.filter fun r => r.compaction.isNone)).map (Sum.elim id id)

/-- With distinct sequence numbers the raw records are those without a mark. -/
theorem raw_filter {records : List MessageRecord} (hseqs : (records.map MessageRecord.seq).Nodup) :
    (records.filter fun r =>
      r.seq ∉ (records.filter fun r => r.compaction.isSome).map MessageRecord.seq) =
      records.filter fun r => r.compaction.isNone := by
  apply List.filter_congr
  intro r hr
  cases hmark : r.compaction with
  | some mark =>
    have hmem : r.seq ∈ (records.filter fun r => r.compaction.isSome).map MessageRecord.seq :=
      List.mem_map.mpr ⟨r, List.mem_filter.mpr ⟨hr, by simp [hmark]⟩, rfl⟩
    simp [hmem]
  | none =>
    have hmem : r.seq ∉ (records.filter fun r => r.compaction.isSome).map MessageRecord.seq := by
      intro hseq
      obtain ⟨r', hr', heq⟩ := List.mem_map.mp hseq
      obtain ⟨hr', hsome⟩ := List.mem_filter.mp hr'
      obtain rfl := List.inj_on_of_nodup_map hseqs hr' hr heq
      simp [hmark] at hsome
    simp [hmem]

/-- The code puts out the messages of the folded view. -/
theorem effectiveMessages_eq {records : List MessageRecord}
    (hseqs : (records.map MessageRecord.seq).Nodup) :
    effectiveMessages records = (foldedView records).map MessageRecord.message := by
  unfold effectiveMessages foldedView
  dsimp only
  rw [raw_filter hseqs]
  conv_lhs =>
    arg 2
    rw [effectiveIntervals_eq]
  rw [emitEffective_map, List.map_map]
  congr 1
  funext x
  cases x <;> rfl

/-- The candidates are the summaries of the log. -/
theorem mem_candidates {records : List MessageRecord} {r : MessageRecord} :
    r ∈ (summaryRecords records).insertionSort (fun a b => a.span.Before b.span) ↔
      r ∈ records ∧ ∃ mark, r.compaction = some mark := by
  rw [List.mem_insertionSort, summaryRecords, List.mem_filter, Option.isSome_iff_exists]

/-- The folded summaries are summaries of the log. -/
theorem mem_foldingRecords {records : List MessageRecord} {s : MessageRecord}
    (hs : s ∈ foldingRecords records) : s ∈ records ∧ ∃ mark, s.compaction = some mark := by
  have hmem := mem_of_mem_undominated hs
  exact mem_candidates.mp (hmem.resolve_left List.not_mem_nil)

/-- Every summary lies in a folded one. -/
theorem exists_folding {records : List MessageRecord} {r : MessageRecord} {mark : CompactionMark}
    (hr : r ∈ records) (hmark : r.compaction = some mark) :
    ∃ k ∈ foldingRecords records, r.span.Within k.span :=
  exists_undominated [] (mem_candidates.mpr ⟨hr, mark, hmark⟩)

/-- The interval of a mark. -/
def CompactionMark.interval (mark : CompactionMark) : Interval := ⟨mark.fromSeq, mark.toSeq⟩

theorem CompactionMark.interval_inj {a b : CompactionMark} : a.interval = b.interval ↔ a = b := by
  cases a
  cases b
  simp [CompactionMark.interval]

/-- A mark is maximal if its interval is maximal among the candidates. -/
theorem maximalMark_iff (records : List MessageRecord) (mark : CompactionMark) :
    MaximalMark records mark ↔
      MaximalIn span ((summaryRecords records).insertionSort fun a b => a.span.Before b.span)
        mark.interval := by
  constructor
  · rintro ⟨⟨r, hr, hmark⟩, hmaximal⟩
    have hspan : r.span = mark.interval := span_of_some hmark
    refine ⟨⟨r, mem_candidates.mpr ⟨hr, mark, hmark⟩, hspan⟩, ?_⟩
    intro c hc hwithin
    obtain ⟨hc, mark', hmark'⟩ := mem_candidates.mp hc
    have hspan' : c.span = mark'.interval := span_of_some hmark'
    rw [hspan'] at hwithin
    rw [hspan', hmaximal c hc mark' hmark' hwithin.1 hwithin.2]
  · rintro ⟨⟨r, hr, hspan⟩, hmaximal⟩
    obtain ⟨hr, mark', hmark'⟩ := mem_candidates.mp hr
    have hspan' : r.span = mark'.interval := span_of_some hmark'
    obtain rfl := CompactionMark.interval_inj.mp (hspan'.symm.trans hspan)
    refine ⟨⟨r, hr, hmark'⟩, ?_⟩
    intro c hc mark'' hmark'' hfrom hto
    have hspan'' : c.span = mark''.interval := span_of_some hmark''
    have heq := hmaximal c (mem_candidates.mpr ⟨hc, mark'', hmark''⟩) (hspan'' ▸ ⟨hfrom, hto⟩)
    exact CompactionMark.interval_inj.mp (hspan''.symm.trans heq)

/-- The marks of the folded summaries are the maximal ones. -/
theorem mem_folding_marks (records : List MessageRecord) (mark : CompactionMark) :
    mark ∈ (foldingRecords records).filterMap MessageRecord.compaction ↔
      MaximalMark records mark := by
  rw [maximalMark_iff, ← mem_map_undominated (sorted_candidates records)]
  show _ ↔ mark.interval ∈ (foldingRecords records).map span
  rw [List.mem_filterMap, List.mem_map]
  constructor
  · rintro ⟨s, hs, hmark⟩
    exact ⟨s, hs, span_of_some hmark⟩
  · rintro ⟨s, hs, hspan⟩
    obtain ⟨-, mark', hmark'⟩ := mem_foldingRecords hs
    have hspan' : s.span = mark'.interval := span_of_some hmark'
    obtain rfl := CompactionMark.interval_inj.mp (hspan'.symm.trans hspan)
    exact ⟨s, hs, hmark'⟩

theorem nodup_folding_marks (records : List MessageRecord) :
    ((foldingRecords records).filterMap MessageRecord.compaction).Nodup := by
  rw [List.Nodup, List.pairwise_filterMap]
  apply (foldingRecords_ascending records).imp
  intro a b hab mark hmark mark' hmark' heq
  rw [span_of_some hmark, span_of_some hmark', heq] at hab
  omega

/-- The loop leaves out what lies in some mark, though it asks only the folded ones. -/
theorem coveredBy_eq_false_iff (records : List MessageRecord) (seq : Nat) :
    coveredBy (effectiveIntervals records) seq = false ↔ Uncovered records seq := by
  rw [effectiveIntervals_eq, coveredBy, List.any_map, List.any_eq_false]
  constructor
  · intro hnone r hr mark hmark hcovered
    obtain ⟨k, hk, hwithin⟩ := exists_folding hr hmark
    rw [span_of_some hmark] at hwithin
    apply hnone k hk
    have hlo : k.span.lo ≤ seq := Nat.le_trans hwithin.1 hcovered.1
    have hhi : seq ≤ k.span.hi := Nat.le_trans hcovered.2 hwithin.2
    simp [summaryInterval, hlo, hhi]
  · intro huncovered s hs hcovered
    obtain ⟨hmem, mark, hmark⟩ := mem_foldingRecords hs
    apply huncovered s hmem mark hmark
    simpa [summaryInterval, span_of_some hmark] using hcovered

instance (records : List MessageRecord) (seq : Nat) : Decidable (Uncovered records seq) :=
  decidable_of_iff _ (coveredBy_eq_false_iff records seq)

/-! ## The fold as a view -/

/-- What stands in the view of a log. The raw records outside every interval pass
    through in order, each maximal interval has one summary, the first committed for
    it, and a summary stands at the start of its interval. -/
structure FoldedView (records view : List MessageRecord) : Prop where
  raw : view.filter (fun r => r.compaction.isNone) =
    records.filter fun r => r.compaction.isNone ∧ Uncovered records r.seq
  subset : ∀ r ∈ view, r ∈ records
  marks : ∀ mark, mark ∈ view.filterMap MessageRecord.compaction ↔ MaximalMark records mark
  marks_nodup : (view.filterMap MessageRecord.compaction).Nodup
  first : ∀ s ∈ view, s.compaction.isSome → ∀ r ∈ records, r.compaction = s.compaction →
    s.seq ≤ r.seq
  placed : view.Pairwise fun a b =>
    (∀ mark, a.compaction = some mark → b.compaction = none → mark.fromSeq ≤ b.seq) ∧
      ∀ mark, a.compaction = none → b.compaction = some mark → a.seq < mark.fromSeq

/-- Raw records with increasing sequence numbers. -/
theorem raw_sorted {records : List MessageRecord}
    (hseqs : (records.map MessageRecord.seq).Pairwise (· < ·)) :
    (records.filter fun r => r.compaction.isNone).Pairwise fun a b => a.seq < b.seq :=
  (List.pairwise_map.mp hseqs).sublist List.filter_sublist

/-- Where the records of the view come from. -/
theorem mem_foldedView {records : List MessageRecord} {x : MessageRecord ⊕ MessageRecord}
    (hx : x ∈ weave (fun r => r.span.lo) MessageRecord.seq
      (fun r => !coveredBy (effectiveIntervals records) r.seq) (foldingRecords records)
      (records.filter fun r => r.compaction.isNone)) :
    (∃ s ∈ foldingRecords records, x = .inl s) ∨
      ∃ r ∈ records, r.compaction = none ∧ x = .inr r := by
  cases mem_weave hx with
  | inl hleft => exact .inl hleft
  | inr hright =>
    obtain ⟨r, hr, heq⟩ := hright
    obtain ⟨hr, hnone⟩ := List.mem_filter.mp hr
    exact .inr ⟨r, hr, by simpa using hnone, heq⟩

/-- Reading a property of the view off the woven list. -/
theorem filter_elim {l : List (MessageRecord ⊕ MessageRecord)}
    (hleft : ∀ s, .inl s ∈ l → s.compaction.isNone = false)
    (hright : ∀ r, .inr r ∈ l → r.compaction.isNone = true) :
    (l.map (Sum.elim id id)).filter (fun r => r.compaction.isNone) =
      l.filterMap Sum.getRight? := by
  induction l with
  | nil => rfl
  | cons x l ih =>
    have ih' := ih (fun s hs => hleft s (List.mem_cons_of_mem _ hs))
      fun r hr => hright r (List.mem_cons_of_mem _ hr)
    cases x with
    | inl s =>
      have hs := hleft s List.mem_cons_self
      rw [List.filterMap_cons_none (by rfl)]
      simp [hs, ih']
    | inr r =>
      have hr := hright r List.mem_cons_self
      simp [hr, ih']

theorem filterMap_elim {l : List (MessageRecord ⊕ MessageRecord)}
    (hright : ∀ r, .inr r ∈ l → r.compaction = none) :
    (l.map (Sum.elim id id)).filterMap MessageRecord.compaction =
      (l.filterMap Sum.getLeft?).filterMap MessageRecord.compaction := by
  induction l with
  | nil => rfl
  | cons x l ih =>
    have ih' := ih fun r hr => hright r (List.mem_cons_of_mem _ hr)
    cases x with
    | inl s => simp [List.filterMap_cons, ih']
    | inr r =>
      have hr := hright r List.mem_cons_self
      rw [List.filterMap_cons_none (by rfl)]
      simp [hr, ih']

/-- Of the summaries with one interval the folded one was committed first. -/
theorem folding_first {records : List MessageRecord}
    (hseqs : (records.map MessageRecord.seq).Pairwise (· < ·)) {s r : MessageRecord}
    (hs : s ∈ foldingRecords records) (hr : r ∈ records) (hmark : r.compaction = s.compaction) :
    s.seq ≤ r.seq := by
  by_contra hle
  have hlt : r.seq < s.seq := Nat.lt_of_not_le hle
  obtain ⟨hmem, mark, hsmark⟩ := mem_foldingRecords hs
  have hspan : s.span = r.span := by
    rw [span_of_some hsmark, span_of_some (hmark.trans hsmark)]
  have hascending : (summaryRecords records).Pairwise fun a b => a.seq < b.seq :=
    (List.pairwise_map.mp hseqs).sublist List.filter_sublist
  have hmem' : ∀ x ∈ records, x.compaction = some mark → x ∈ summaryRecords records :=
    fun x hx hsome => List.mem_filter.mpr ⟨hx, by simp [hsome]⟩
  -- `r` comes before `s` in the log, and stays before it when the candidates are sorted
  have hpair : [r, s].Sublist (summaryRecords records) :=
    pair_sublist_of_lt hascending (hmem' r hr (hmark.trans hsmark)) (hmem' s hmem hsmark) hlt
  have hbefore : r.span.Before s.span := .inr ⟨by rw [hspan], by rw [hspan]⟩
  have hsorted := List.pair_sublist_insertionSort (r := fun a b => a.span.Before b.span) hbefore
    hpair
  have hnodup : (summaryRecords records).Nodup := hascending.imp fun h heq => by
    rw [heq] at h
    omega
  exact undominated_first ((List.perm_insertionSort _ _).nodup_iff.mpr hnodup) List.not_mem_nil
    hsorted (hspan ▸ Interval.Within.refl _) hs

/-- The fold keeps what it should, where it should. -/
theorem foldedView_spec {records : List MessageRecord}
    (hseqs : (records.map MessageRecord.seq).Pairwise (· < ·)) :
    FoldedView records (foldedView records) := by
  have hleft : ∀ s, .inl s ∈ weave (fun r => r.span.lo) MessageRecord.seq
      (fun r => !coveredBy (effectiveIntervals records) r.seq) (foldingRecords records)
      (records.filter fun r => r.compaction.isNone) → s ∈ foldingRecords records := by
    intro s hs
    rcases mem_foldedView hs with ⟨s', hs', heq⟩ | ⟨r, -, -, heq⟩
    · cases heq
      exact hs'
    · cases heq
  have hright : ∀ r, .inr r ∈ weave (fun r => r.span.lo) MessageRecord.seq
      (fun r => !coveredBy (effectiveIntervals records) r.seq) (foldingRecords records)
      (records.filter fun r => r.compaction.isNone) → r ∈ records ∧ r.compaction = none := by
    intro r hr
    rcases mem_foldedView hr with ⟨s, -, heq⟩ | ⟨r', hr', hnone, heq⟩
    · cases heq
    · cases heq
      exact ⟨hr', hnone⟩
  have hsome : ∀ s ∈ foldingRecords records, s.compaction.isNone = false := by
    intro s hs
    obtain ⟨-, mark, hmark⟩ := mem_foldingRecords hs
    rw [hmark]
    rfl
  have hmarks : (foldedView records).filterMap MessageRecord.compaction =
      (foldingRecords records).filterMap MessageRecord.compaction := by
    unfold foldedView
    rw [filterMap_elim fun r hr => (hright r hr).2, weave_left]
  constructor
  case raw =>
    unfold foldedView
    rw [filter_elim (fun s hs => hsome s (hleft s hs)) fun r hr => by simp [(hright r hr).2],
      weave_right, List.filter_filter]
    apply List.filter_congr
    intro r hr
    rw [Bool.eq_iff_iff]
    simp only [Bool.and_eq_true, Bool.not_eq_true', coveredBy_eq_false_iff, decide_eq_true_eq]
    exact and_comm
  case subset =>
    intro r hr
    obtain ⟨x, hx, rfl⟩ := List.mem_map.mp hr
    cases x with
    | inl s => exact (mem_foldingRecords (hleft s hx)).1
    | inr r => exact (hright r hx).1
  case marks =>
    intro mark
    rw [hmarks]
    exact mem_folding_marks records mark
  case marks_nodup =>
    rw [hmarks]
    exact nodup_folding_marks records
  case first =>
    intro s hs hissome r hr hmark
    obtain ⟨x, hx, rfl⟩ := List.mem_map.mp hs
    cases x with
    | inl s => exact folding_first hseqs (hleft s hx) hr hmark
    | inr r =>
      have hnone : r.compaction = none := (hright r hx).2
      simp [hnone] at hissome
  case placed =>
    have hascending := foldingRecords_ascending records
    have hnext : (foldingRecords records).Pairwise fun a b => a.span.lo ≤ b.span.lo :=
      hascending.imp fun h => Nat.le_of_lt h.1
    unfold foldedView
    rw [List.pairwise_map]
    apply (weave_pairwise hnext (raw_sorted hseqs)).imp_of_mem
    intro a b ha hb hplaced
    cases a with
    | inl s =>
      obtain ⟨-, mark, hmark⟩ := mem_foldingRecords (hleft s ha)
      simp only [Sum.elim_inl, id_eq, hmark]
      constructor
      · intro mark' hmark' hnone
        cases hmark'
        cases b with
        | inl s' =>
          have hsome' := hsome s' (hleft s' hb)
          simp only [Sum.elim_inl, id_eq] at hnone
          simp [hnone] at hsome'
        | inr r =>
          have hreached : s.span.lo ≤ r.seq := hplaced
          rwa [span_of_some hmark] at hreached
      · simp
    | inr r =>
      have hnone : r.compaction = none := (hright r ha).2
      simp only [Sum.elim_inr, id_eq, hnone]
      constructor
      · simp
      · intro mark' _ hmark'
        cases b with
        | inl s =>
          have hbehind : r.seq < s.span.lo := hplaced
          rwa [span_of_some (r := s) hmark'] at hbehind
        | inr r' =>
          have hnone' := (hright r' hb).2
          simp only [Sum.elim_inr, id_eq, hnone'] at hmark'
          cases hmark'

/-- The fold keeps the record: it is raw and lies in no interval, or it is the first
    summary of a maximal one. -/
def Kept (records : List MessageRecord) (r : MessageRecord) : Prop :=
  r ∈ records ∧
    match r.compaction with
    | none => Uncovered records r.seq
    | some mark => MaximalMark records mark ∧
      ∀ r' ∈ records, r'.compaction = some mark → r.seq ≤ r'.seq

/-- The records of a folded view are the kept ones. -/
theorem FoldedView.mem_iff {records view : List MessageRecord} (h : FoldedView records view)
    (hseqs : (records.map MessageRecord.seq).Nodup) {r : MessageRecord} :
    r ∈ view ↔ Kept records r := by
  unfold Kept
  cases hmark : r.compaction with
  | none =>
    have hraw : r ∈ view.filter (fun r => r.compaction.isNone) ↔
        r ∈ records.filter fun r => r.compaction.isNone ∧ Uncovered records r.seq := by
      rw [h.raw]
    simpa [List.mem_filter, hmark] using hraw
  | some mark =>
    constructor
    · intro hr
      refine ⟨h.subset r hr, (h.marks mark).mp (List.mem_filterMap.mpr ⟨r, hr, hmark⟩), ?_⟩
      intro r' hr' hmark'
      exact h.first r hr (by simp [hmark]) r' hr' (hmark'.trans hmark.symm)
    · rintro ⟨hr, hmaximal, hfirst⟩
      obtain ⟨s, hs, hsmark⟩ := List.mem_filterMap.mp ((h.marks mark).mpr hmaximal)
      have hsr : s.seq ≤ r.seq := h.first s hs (by simp [hsmark]) r hr (hmark.trans hsmark.symm)
      have hrs : r.seq ≤ s.seq := hfirst s (h.subset s hs) hsmark
      obtain rfl := List.inj_on_of_nodup_map hseqs (h.subset s hs) hr (Nat.le_antisymm hsr hrs)
      exact hs

/-- The effective messages are those of the kept records. -/
theorem mem_effectiveMessages {records : List MessageRecord}
    (hseqs : (records.map MessageRecord.seq).Pairwise (· < ·)) {m : Message} :
    m ∈ effectiveMessages records ↔ ∃ r, Kept records r ∧ r.message = m := by
  have hnodup : (records.map MessageRecord.seq).Nodup := hseqs.imp Nat.ne_of_lt
  rw [effectiveMessages_eq hnodup, List.mem_map]
  simp only [(foldedView_spec hseqs).mem_iff hnodup]

/-- The records of a log carry the sequence numbers from 1 on. -/
theorem committedRecords_seqs (threadId : String) (log : List Message)
    (generated : Nat → Uuid) :
    (committedRecords threadId log generated).map MessageRecord.seq =
      List.range' 1 log.length := by
  apply List.ext_getElem
  · simp [committedRecords]
  · intro i hi hi'
    simp [committedRecords, MessageRecord.fromMessage]
    omega

/-! ## Cumulative summaries -/

/-- Every summary of the log covers a prefix of it. -/
def Cumulative (records : List MessageRecord) : Prop :=
  ∀ r ∈ records, ∀ mark, r.compaction = some mark → mark.fromSeq = 1

/-- The first of the summaries that reach furthest, up to `upTo`. -/
structure WidestPrefix (records : List MessageRecord) (widest : MessageRecord) (upTo : Nat) :
    Prop where
  mem : widest ∈ records
  mark : widest.compaction = some ⟨1, upTo⟩
  furthest : ∀ r ∈ records, ∀ mark, r.compaction = some mark → mark.toSeq ≤ upTo
  first : ∀ r ∈ records, r.compaction = widest.compaction → widest.seq ≤ r.seq

/-- With cumulative summaries only the widest one is in the view. -/
theorem FoldedView.widestPrefix {records view : List MessageRecord} (h : FoldedView records view)
    (hcumulative : Cumulative records) {s : MessageRecord} (hs : s ∈ view)
    {mark : CompactionMark} (hmark : s.compaction = some mark) :
    WidestPrefix records s mark.toSeq := by
  have hone : mark.fromSeq = 1 := hcumulative s (h.subset s hs) mark hmark
  have hmaximal : MaximalMark records mark :=
    (h.marks mark).mp (List.mem_filterMap.mpr ⟨s, hs, hmark⟩)
  constructor
  case mem => exact h.subset s hs
  case mark => rw [hmark, ← hone]
  case first => exact h.first s hs (by simp [hmark])
  case furthest =>
    intro r hr mark' hmark'
    have hone' : mark'.fromSeq = 1 := hcumulative r hr mark' hmark'
    cases Nat.le_total mark'.toSeq mark.toSeq with
    | inl hle => exact hle
    | inr hge =>
      have heq := hmaximal.2 r hr mark' hmark' (by omega) hge
      rw [heq]

/-- Behind the widest summary comes the raw tail. -/
theorem FoldedView.eq_widest_cons {records view : List MessageRecord}
    (h : FoldedView records view) (hpos : ∀ r ∈ records, 0 < r.seq) {s : MessageRecord}
    (hs : s ∈ view) {upTo : Nat} (hwidest : WidestPrefix records s upTo)
    (hcumulative : Cumulative records) :
    view = s :: records.filter fun r => r.compaction.isNone ∧ upTo < r.seq := by
  have htail : (records.filter fun r => r.compaction.isNone ∧ Uncovered records r.seq) =
      records.filter fun r => r.compaction.isNone ∧ upTo < r.seq := by
    apply List.filter_congr
    intro r hr
    have huncovered : Uncovered records r.seq ↔ upTo < r.seq := by
      constructor
      · intro huncovered
        have hout := huncovered s hwidest.mem _ hwidest.mark
        have := hpos r hr
        simp only at hout
        omega
      · intro hlt r' hr' mark hmark hcovered
        have := hwidest.furthest r' hr' mark hmark
        omega
    simp [huncovered]
  cases view with
  | nil => cases hs
  | cons x rest =>
    obtain ⟨hx, -⟩ := List.pairwise_cons.mp h.placed
    -- a raw record in front of the summary would have sequence number 0
    have hxs : ∀ t ∈ rest, t.compaction.isSome → x.compaction.isSome := by
      intro t ht hsome
      obtain ⟨mark, hmark⟩ := Option.isSome_iff_exists.mp hsome
      cases hxmark : x.compaction with
      | some mark' => rfl
      | none =>
        have hlt := (hx t ht).2 mark hxmark hmark
        have hone := hcumulative t (h.subset t (List.mem_cons_of_mem _ ht)) mark hmark
        have := hpos x (h.subset x List.mem_cons_self)
        omega
    have hxsome : x.compaction.isSome := by
      cases List.mem_cons.mp hs with
      | inl heq => simp [← heq, hwidest.mark]
      | inr hrest => exact hxs s hrest (by simp [hwidest.mark])
    obtain ⟨xmark, hxmark⟩ := Option.isSome_iff_exists.mp hxsome
    have hfirst := h.widestPrefix hcumulative List.mem_cons_self hxmark
    -- two summaries of the view would both be the widest, and have one mark
    have hmarks : ∀ t ∈ x :: rest, ∀ mark, t.compaction = some mark → mark = xmark := by
      intro t ht mark hmark
      have htwidest := h.widestPrefix hcumulative ht hmark
      have hle := htwidest.furthest x hfirst.mem xmark hxmark
      have hge := hfirst.furthest t htwidest.mem mark hmark
      have hmark' : mark = ⟨1, mark.toSeq⟩ := Option.some.inj (hmark.symm.trans htwidest.mark)
      have hxmark' : xmark = ⟨1, xmark.toSeq⟩ := Option.some.inj (hxmark.symm.trans hfirst.mark)
      rw [hmark', hxmark', Nat.le_antisymm hge hle]
    have hnone : ∀ r ∈ rest, r.compaction.isNone = true := by
      intro r hr
      cases hmark : r.compaction with
      | none => rfl
      | some mark =>
        exfalso
        have hnodup := h.marks_nodup
        rw [List.filterMap_cons_some hxmark, List.nodup_cons] at hnodup
        apply hnodup.1
        have heq := hmarks r (List.mem_cons_of_mem _ hr) mark hmark
        exact List.mem_filterMap.mpr ⟨r, hr, heq ▸ hmark⟩
    have hhead : s = x := by
      cases List.mem_cons.mp hs with
      | inl heq => exact heq
      | inr hrest =>
        have := hnone s hrest
        simp [hwidest.mark] at this
    have hraw := h.raw
    rw [List.filter_cons_of_neg (by simp [hxmark]), List.filter_eq_self.mpr hnone] at hraw
    rw [← htail, ← hraw, hhead]

/-- A log with a summary has one in its view. -/
theorem exists_summary_in_view {records : List MessageRecord}
    (hsome : ∃ r ∈ records, r.compaction.isSome) :
    ∃ s ∈ foldedView records, ∃ mark, s.compaction = some mark := by
  obtain ⟨r, hr, hsome⟩ := hsome
  obtain ⟨mark, hmark⟩ := Option.isSome_iff_exists.mp hsome
  obtain ⟨k, hk, -⟩ := exists_folding hr hmark
  obtain ⟨-, kmark, hkmark⟩ := mem_foldingRecords hk
  have hleft : .inl k ∈ weave (fun r => r.span.lo) MessageRecord.seq
      (fun r => !coveredBy (effectiveIntervals records) r.seq) (foldingRecords records)
      (records.filter fun r => r.compaction.isNone) := by
    rw [← weave_left (fun r => r.span.lo) MessageRecord.seq
      (fun r => !coveredBy (effectiveIntervals records) r.seq) (foldingRecords records)
      (records.filter fun r => r.compaction.isNone)] at hk
    obtain ⟨x, hx, hget⟩ := List.mem_filterMap.mp hk
    cases x with
    | inl k' =>
      cases hget
      exact hx
    | inr r' => cases hget
  exact ⟨k, List.mem_map.mpr ⟨_, hleft, rfl⟩, kmark, hkmark⟩

/-- The effective messages of a log are an interval fold of it; where all summaries
    are cumulative they are the widest summary and the raw tail it leaves. -/
theorem effectiveMessages_folds (records : List MessageRecord)
    (hseqs : records.map MessageRecord.seq = List.range' 1 records.length) :
    (∃ view, effectiveMessages records = view.map MessageRecord.message ∧
      FoldedView records view) ∧
    (Cumulative records → (∃ r ∈ records, r.compaction.isSome) →
      ∃ widest upTo, WidestPrefix records widest upTo ∧
        effectiveMessages records = widest.message ::
          (records.filter fun r => r.compaction.isNone ∧ upTo < r.seq).map
            MessageRecord.message) := by
  have hascending : (records.map MessageRecord.seq).Pairwise (· < ·) := by
    rw [hseqs]
    exact List.pairwise_lt_range' 1
  have hpos : ∀ r ∈ records, 0 < r.seq := by
    intro r hr
    have hmem : r.seq ∈ records.map MessageRecord.seq := List.mem_map_of_mem hr
    rw [hseqs, List.mem_range'_1] at hmem
    omega
  have hview := foldedView_spec hascending
  have heq := effectiveMessages_eq (hascending.imp Nat.ne_of_lt)
  refine ⟨⟨_, heq, hview⟩, ?_⟩
  intro hcumulative hsome
  obtain ⟨s, hs, mark, hmark⟩ := exists_summary_in_view hsome
  have hwidest := hview.widestPrefix hcumulative hs hmark
  refine ⟨s, mark.toSeq, hwidest, ?_⟩
  rw [heq, hview.eq_widest_cons hpos hs hwidest hcumulative, List.map_cons]

/-- A log whose first three messages were summarised twice. -/
def compactedLog : List MessageRecord :=
  let summary (id : String) (upTo : Nat) : Message :=
    { Message.user "summary" id with metadata := some ⟨none, none, some ⟨1, upTo⟩⟩ }
  committedRecords "t" [.user "first" "m-1", .user "second" "m-2", summary "s-1" 2,
    .user "third" "m-3", summary "s-2" 4, .user "fourth" "m-4"] fun _ => .generated

theorem effectiveMessages_folds_compactedLog :
    ∃ widest upTo, WidestPrefix compactedLog widest upTo ∧
      effectiveMessages compactedLog = widest.message ::
        (compactedLog.filter fun r => r.compaction.isNone ∧ upTo < r.seq).map
          MessageRecord.message :=
  (effectiveMessages_folds compactedLog (by decide)).2
    (by simp [Cumulative, compactedLog, committedRecords, MessageRecord.fromMessage, Message.user])
    (by decide)

end Remo
