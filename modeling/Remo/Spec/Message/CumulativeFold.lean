import Remo.Spec.Message.EffectiveView

/-!
# The effective view of a log with cumulative summaries

Every summary covers the log from its start, so the widest one, and of several the first, is
the only one in the view. What follows it are the raw messages behind its mark.

Key results:
* `FoldsTo.append_raw`, `FoldsTo.concat_summary` what an append does to the fold
* `effectiveMessages_foldsTo` the effective view, read off the log
-/

namespace Remo

/-- The compaction mark of a message, if it is a recorded summary. -/
def Message.compactionMark (self : Message) : Option CompactionMark :=
  self.metadata.bind MessageMetadata.compaction

/-- The messages without a mark behind the first `upTo` ones. -/
def rawAfter (log : List Message) (upTo : Nat) : List Message :=
  (log.drop upTo).filter fun m => m.compactionMark.isNone

/-- What a log folds to: without marks to its messages, otherwise to the first of its widest
    summaries and the raw messages behind the mark. -/
inductive FoldsTo (log : List Message) : List Message → Nat → Prop
  | raw : (∀ m ∈ log, m.compactionMark = none) → FoldsTo log [] 0
  | summary {s : Message} {index upTo : Nat} : log[index]? = some s →
      s.compactionMark = some ⟨1, upTo⟩ →
      (∀ m ∈ log, ∀ mark, m.compactionMark = some mark → mark.toSeq ≤ upTo) →
      (∀ (i : Nat) (m : Message), log[i]? = some m → m.compactionMark = some ⟨1, upTo⟩ →
        index ≤ i) →
      FoldsTo log [s] upTo

/-- Every summary of the log covers an initial part of it. -/
def MarksFromStart (log : List Message) : Prop :=
  ∀ m ∈ log, ∀ mark, m.compactionMark = some mark → mark.fromSeq = 1

variable {log new head : List Message} {upTo : Nat}

namespace FoldsTo

theorem length_head (h : FoldsTo log head upTo) : head.length ≤ 1 := by
  cases h with
  | raw _ => exact Nat.zero_le 1
  | summary _ _ _ _ => exact Nat.le_refl 1

theorem marks_le (h : FoldsTo log head upTo) :
    ∀ m ∈ log, ∀ mark, m.compactionMark = some mark → mark.toSeq ≤ upTo := by
  cases h with
  | raw hraw =>
    intro m hm mark hmark
    rw [hraw m hm] at hmark
    cases hmark
  | summary _ _ hle _ => exact hle

theorem mem_head (h : FoldsTo log head upTo) :
    ∀ s ∈ head, s ∈ log ∧ s.compactionMark.isSome = true := by
  intro s hs
  cases h with
  | raw _ => cases hs
  | summary hindex hmark _ _ =>
    obtain rfl := List.mem_singleton.mp hs
    constructor
    · exact List.mem_of_getElem? hindex
    · rw [hmark]
      rfl

/-- Raw messages behind the log leave its summary where it is. -/
theorem append_raw (h : FoldsTo log head upTo) (hnew : ∀ m ∈ new, m.compactionMark = none) :
    FoldsTo (log ++ new) head upTo := by
  cases h with
  | raw hraw =>
    apply FoldsTo.raw
    intro m hm
    cases List.mem_append.mp hm with
    | inl hold => exact hraw m hold
    | inr hlast => exact hnew m hlast
  | @summary s index upTo hindex hmark hle hfirst =>
    obtain ⟨hlt, -⟩ := List.getElem?_eq_some_iff.mp hindex
    apply @FoldsTo.summary _ s index upTo
    · rw [List.getElem?_append_left hlt]
      exact hindex
    · exact hmark
    · intro m hm mark hm'
      cases List.mem_append.mp hm with
      | inl hold => exact hle m hold mark hm'
      | inr hlast =>
        rw [hnew m hlast] at hm'
        cases hm'
    · intro i m hi hm
      by_cases hinside : i < log.length
      · rw [List.getElem?_append_left hinside] at hi
        exact hfirst i m hi hm
      · omega

/-- A summary that no summary of the log is inside, at its end. -/
theorem concat_narrow (h : FoldsTo log head upTo) {m : Message} {mark : CompactionMark}
    (hpos : head ≠ []) (hmark : m.compactionMark = some mark) (hle : mark.toSeq ≤ upTo) :
    FoldsTo (log ++ [m]) head upTo := by
  cases h with
  | raw _ => exact absurd rfl hpos
  | @summary s index upTo hindex hsummary hbound hfirst =>
    obtain ⟨hlt, -⟩ := List.getElem?_eq_some_iff.mp hindex
    apply @FoldsTo.summary _ s index upTo
    · rw [List.getElem?_append_left hlt]
      exact hindex
    · exact hsummary
    · intro m' hm' mark' hmark'
      cases List.mem_append.mp hm' with
      | inl hold => exact hbound m' hold mark' hmark'
      | inr hlast =>
        obtain rfl := List.mem_singleton.mp hlast
        rw [hmark] at hmark'
        cases hmark'
        exact hle
    · intro i m' hi hm'
      by_cases hinside : i < log.length
      · rw [List.getElem?_append_left hinside] at hi
        exact hfirst i m' hi hm'
      · omega

/-- A summary at the end that is wider than all of the log replaces them. -/
theorem concat_summary {s : Message} (hmark : s.compactionMark = some ⟨1, upTo⟩)
    (hlt : ∀ m ∈ log, ∀ mark, m.compactionMark = some mark → mark.toSeq < upTo) :
    FoldsTo (log ++ [s]) [s] upTo := by
  apply @FoldsTo.summary _ s log.length upTo
  · simp
  · exact hmark
  · intro m hm mark hm'
    cases List.mem_append.mp hm with
    | inl hold => exact Nat.le_of_lt (hlt m hold mark hm')
    | inr hlast =>
      obtain rfl := List.mem_singleton.mp hlast
      rw [hmark] at hm'
      cases hm'
      exact Nat.le_refl upTo
  · intro i m hi hm
    by_contra hinside
    rw [List.getElem?_append_left (by omega)] at hi
    have := hlt m (List.mem_of_getElem? hi) _ hm
    dsimp only at this
    omega

end FoldsTo

/-- Every log with cumulative summaries folds. -/
theorem exists_foldsTo (h : MarksFromStart log) : ∃ head upTo, FoldsTo log head upTo := by
  induction log using List.reverseRecOn with
  | nil => exact ⟨[], 0, .raw (by simp)⟩
  | append_singleton log m ih =>
    obtain ⟨head, upTo, hfolds⟩ := ih fun m' hm' => h m' (List.mem_append_left _ hm')
    cases hmark : m.compactionMark with
    | none =>
      use head, upTo
      apply hfolds.append_raw
      intro m' hm'
      rw [List.mem_singleton.mp hm', hmark]
    | some mark =>
      have hone : mark = ⟨1, mark.toSeq⟩ := by
        have := h m (by simp) mark hmark
        rw [← this]
      by_cases hle : head ≠ [] ∧ mark.toSeq ≤ upTo
      · exact ⟨head, upTo, hfolds.concat_narrow hle.1 hmark hle.2⟩
      · use [m], mark.toSeq
        apply FoldsTo.concat_summary
        · rw [hmark, ← hone]
        · intro m' hm' mark' hmark'
          have hbound := hfolds.marks_le m' hm' mark' hmark'
          cases hfolds with
          | raw hraw =>
            rw [hraw m' hm'] at hmark'
            cases hmark'
          | summary _ _ _ _ =>
            have : ¬ mark.toSeq ≤ upTo := fun hbad => hle ⟨by simp, hbad⟩
            omega

/-! ## Raw messages -/

theorem rawAfter_append (hnew : ∀ m ∈ new, m.compactionMark = none) (hle : upTo ≤ log.length) :
    rawAfter (log ++ new) upTo = rawAfter log upTo ++ new := by
  unfold rawAfter
  rw [List.drop_append_of_le_length hle, List.filter_append]
  congr 1
  apply List.filter_eq_self.mpr
  intro m hm
  rw [hnew m hm]
  rfl

/-- A summary at the end is no raw message. -/
theorem rawAfter_concat_summary {s : Message} (hs : s.compactionMark.isSome = true) :
    rawAfter (log ++ [s]) upTo = rawAfter log upTo := by
  obtain ⟨mark, hmark⟩ := Option.isSome_iff_exists.mp hs
  unfold rawAfter
  by_cases hle : upTo ≤ log.length
  · rw [List.drop_append_of_le_length hle, List.filter_append]
    simp [hmark]
  · have hlong : (log ++ [s]).length ≤ upTo := by
      rw [List.length_append, List.length_singleton]
      omega
    rw [List.drop_eq_nil_of_le hlong, List.drop_eq_nil_of_le (by omega)]

theorem mem_rawAfter {m : Message} : m ∈ rawAfter log upTo ↔
    ∃ index, upTo ≤ index ∧ log[index]? = some m ∧ m.compactionMark = none := by
  unfold rawAfter
  rw [List.mem_filter, Option.isNone_iff_eq_none]
  constructor
  · intro h
    obtain ⟨j, hj⟩ := List.mem_iff_getElem?.mp h.1
    rw [List.getElem?_drop] at hj
    exact ⟨upTo + j, by omega, hj, h.2⟩
  · intro h
    obtain ⟨index, hle, hindex, hnone⟩ := h
    constructor
    · apply List.mem_iff_getElem?.mpr
      use index - upTo
      rw [List.getElem?_drop, Nat.add_sub_cancel' hle]
      exact hindex
    · exact hnone

/-- The raw messages before and behind one of them. -/
theorem rawAfter_split {index : Nat} {m : Message} (hle : upTo ≤ index)
    (hindex : log[index]? = some m) (hnone : m.compactionMark = none) :
    rawAfter log upTo = ((log.take index).drop upTo).filter (fun m => m.compactionMark.isNone) ++
      m :: rawAfter log (index + 1) := by
  obtain ⟨hlt, hget⟩ := List.getElem?_eq_some_iff.mp hindex
  unfold rawAfter
  have hlog : log = log.take index ++ m :: log.drop (index + 1) := by
    rw [← hget, ← List.drop_eq_getElem_cons hlt, List.take_append_drop]
  conv_lhs => rw [hlog]
  rw [List.drop_append_of_le_length (by rw [List.length_take]; omega), List.filter_append,
    List.filter_cons_of_pos (by rw [hnone]; rfl)]

/-! ## The effective view -/

theorem compaction_committedRecords {threadId : String} {generated : Nat → Uuid}
    {record : MessageRecord} (h : record ∈ committedRecords threadId log generated) :
    ∃ m, log[record.seq - 1]? = some m ∧ 0 < record.seq ∧
      record.compaction = m.compactionMark := by
  unfold committedRecords at h
  obtain ⟨index, hlt, rfl⟩ := List.mem_mapIdx.mp h
  use log[index]
  constructor
  · show log[index + 1 - 1]? = _
    rw [Nat.add_sub_cancel, List.getElem?_eq_getElem hlt]
  · constructor
    · exact Nat.succ_pos index
    · rfl

theorem fromMessage_message {threadId : String} {seq : Nat} {m : Message} {generated : Uuid}
    (hid : m.id.isSome = true) : (MessageRecord.fromMessage threadId seq m generated).message = m := by
  obtain ⟨id, hid⟩ := Option.isSome_iff_exists.mp hid
  show { m with id := some (m.id.getD generated.text) } = m
  rw [hid]
  cases m
  cases hid
  rfl

/-- The raw records behind a sequence number carry the raw messages behind it. -/
theorem map_message_rawRecords {threadId : String} {generated : Nat → Uuid}
    (hids : ∀ m ∈ log, m.id.isSome = true) :
    ((committedRecords threadId log generated).filter fun r =>
      r.compaction.isNone ∧ upTo < r.seq).map MessageRecord.message = rawAfter log upTo := by
  have hoffset : ∀ (l : List Message) (n : Nat), (∀ m ∈ l, m.id.isSome = true) →
      ((l.zipIdx n).filterMap fun entry =>
        if entry.1.compactionMark.isNone ∧ upTo < entry.2 + 1 then some entry.1 else none) =
        rawAfter l (upTo - n) := by
    intro l
    induction l with
    | nil =>
      intro n _
      simp [rawAfter]
    | cons m l ih =>
      intro n hl
      have hrest := ih (n + 1) fun m' hm' => hl m' (List.mem_cons_of_mem _ hm')
      rw [List.zipIdx_cons, List.filterMap_cons, hrest]
      unfold rawAfter
      by_cases hlt : upTo < n + 1
      · rw [show upTo - n = 0 by omega, show upTo - (n + 1) = 0 by omega]
        cases hmark : m.compactionMark with
        | none => simp [hmark, hlt]
        | some mark => simp [hmark]
      · rw [show upTo - n = (upTo - (n + 1)) + 1 by omega, List.drop_succ_cons]
        simp [hlt]
  have hall := hoffset log 0 hids
  rw [Nat.sub_zero] at hall
  rw [← hall]
  unfold committedRecords
  rw [List.mapIdx_eq_zipIdx_map, List.filter_map, List.map_map]
  rw [← List.filterMap_eq_map, List.filterMap_filter]
  apply List.filterMap_congr
  intro entry hentry
  have hmessage := @fromMessage_message threadId (entry.2 + 1) entry.1 (generated entry.2)
    (hids entry.1 (List.fst_mem_of_mem_zipIdx hentry))
  show (if decide (entry.1.compactionMark.isNone = true ∧ upTo < entry.2 + 1) = true then
    some (MessageRecord.fromMessage threadId (entry.2 + 1) entry.1 (generated entry.2)).message
      else none) = _
  rw [hmessage]
  simp only [decide_eq_true_eq]

/-- The effective view of a log that folds. -/
theorem effectiveMessages_foldsTo {threadId : String} {generated : Nat → Uuid}
    (hids : ∀ m ∈ log, m.id.isSome = true) (hmarks : MarksFromStart log)
    (h : FoldsTo log head upTo) :
    effectiveMessages (committedRecords threadId log generated) = head ++ rawAfter log upTo := by
  have hseqs : ((committedRecords threadId log generated).map MessageRecord.seq).Pairwise
      (· < ·) := by
    rw [committedRecords_seqs]
    exact List.pairwise_lt_range'
  have hview := foldedView_spec hseqs
  have hcumulative : Cumulative (committedRecords threadId log generated) := by
    intro r hr mark hmark
    obtain ⟨m, hm, -, hsame⟩ := compaction_committedRecords hr
    rw [hsame] at hmark
    exact hmarks m (List.mem_of_getElem? hm) mark hmark
  rw [effectiveMessages_eq (hseqs.imp Nat.ne_of_lt)]
  cases h with
  | raw hraw =>
    have hnone : ∀ r ∈ committedRecords threadId log generated, r.compaction = none := by
      intro r hr
      obtain ⟨m, hm, -, hsame⟩ := compaction_committedRecords hr
      rw [hsame]
      exact hraw m (List.mem_of_getElem? hm)
    have hall : foldedView (committedRecords threadId log generated) =
        (committedRecords threadId log generated).filter fun r =>
          r.compaction.isNone ∧ 0 < r.seq := by
      rw [← List.filter_eq_self.mpr (fun r hr => by
        rw [hnone r (hview.subset r hr)]
        rfl : ∀ r ∈ foldedView _, r.compaction.isNone = true), hview.raw]
      apply List.filter_congr
      intro r hr
      obtain ⟨-, -, hpos, -⟩ := compaction_committedRecords hr
      have huncovered : Uncovered (committedRecords threadId log generated) r.seq := by
        intro r' hr' mark hmark
        rw [hnone r' hr'] at hmark
        cases hmark
      simp [huncovered, hpos]
    rw [hall, map_message_rawRecords hids, List.nil_append]
  | @summary s index _ hindex hmark hle hfirst =>
    obtain ⟨hlt, hget⟩ := List.getElem?_eq_some_iff.mp hindex
    have hwidest : WidestPrefix (committedRecords threadId log generated)
        (MessageRecord.fromMessage threadId (index + 1) s (generated index)) upTo := by
      constructor
      case mem =>
        unfold committedRecords
        apply List.mem_mapIdx.mpr
        use index, hlt
        rw [hget]
      case mark => exact hmark
      case furthest =>
        intro r hr mark hmark'
        obtain ⟨m, hm, -, hsame⟩ := compaction_committedRecords hr
        rw [hsame] at hmark'
        exact hle m (List.mem_of_getElem? hm) mark hmark'
      case first =>
        intro r hr hmark'
        obtain ⟨m, hm, hpos, hsame⟩ := compaction_committedRecords hr
        have hsmark : m.compactionMark = some ⟨1, upTo⟩ := by
          rw [← hsame, hmark', ← hmark]
          rfl
        have hbefore := hfirst _ m hm hsmark
        show index + 1 ≤ r.seq
        omega
    have hmem : MessageRecord.fromMessage threadId (index + 1) s (generated index) ∈
        foldedView (committedRecords threadId log generated) := by
      apply (hview.mem_iff (hseqs.imp Nat.ne_of_lt)).mpr
      constructor
      · exact hwidest.mem
      · rw [hwidest.mark]
        constructor
        · constructor
          · exact ⟨_, hwidest.mem, hwidest.mark⟩
          · intro r hr mark hr' hfrom hto
            have hbound := hwidest.furthest r hr mark hr'
            have hone := hcumulative r hr mark hr'
            have hsame : mark.toSeq = upTo := Nat.le_antisymm hbound hto
            rw [← hone, ← hsame]
        · intro r hr hr'
          exact hwidest.first r hr (by rw [hr', hwidest.mark])
    rw [hview.eq_widest_cons _ hmem hwidest hcumulative, List.map_cons,
      map_message_rawRecords hids, fromMessage_message (hids s (List.mem_of_getElem? hindex))]
    · rfl
    · intro r hr
      obtain ⟨-, -, hpos, -⟩ := compaction_committedRecords hr
      exact hpos

end Remo
