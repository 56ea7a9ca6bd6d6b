import Remo.ForStd.Backlog
import Remo.Native.Loop.Checkpoint

/-!
# The delta of a checkpoint

What one checkpoint appends, and the sequence numbers it predicts for the output of the run.

Key results:
* `materialize_delta`     the delta is what is missing in the committed log
* `materialize_produced`  new output is recorded and marked
* `materialize_output`    the range of the output is where its messages will be
-/

namespace Remo

/-! ## Messages up to metadata -/

/-- A message without its metadata. -/
def Message.body (self : Message) : Message := { self with metadata := none }

@[simp] theorem Message.body_id (m : Message) : m.body.id = m.id := rfl

theorem Message.producedByRunId_markProducedBy {m : Message} {runId : String}
    (h : m.producedByRunId = none ∨ m.producedByRunId = some runId)
    (stepIndex : Option UInt32) :
    (m.markProducedBy runId stepIndex).producedByRunId = some runId := by
  unfold Message.producedByRunId Message.markProducedBy at *
  cases hmetadata : m.metadata with
  | none => rfl
  | some metadata =>
    rw [hmetadata] at h
    cases h with
    | inl h => simp_all [Option.bind]
    | inr h => simp_all [Option.bind]

/-- The ids that occur in a log are distinct. -/
def DistinctIds (log : List Message) : Prop := (log.filterMap Message.id).Nodup

/-- The message with the id is committed under the sequence number. -/
def CommittedAt (log : List Message) (seq : Nat) (id : String) : Prop :=
  ∃ index, seq = index + 1 ∧ (log.map Message.id)[index]? = some (some id)

theorem CommittedAt.append {log : List Message} {seq : Nat} {id : String}
    (h : CommittedAt log seq id) (rest : List Message) : CommittedAt (log ++ rest) seq id := by
  obtain ⟨index, rfl, hid⟩ := h
  use index
  constructor
  · rfl
  · obtain ⟨hlt, -⟩ := List.getElem?_eq_some_iff.mp hid
    rw [List.map_append, List.getElem?_append_left hlt, hid]

theorem committedAt_last (log : List Message) {message : Message} {id : String}
    (h : message.id = some id) : CommittedAt (log ++ [message]) (log.length + 1) id := by
  use log.length
  simp [h]

theorem exists_committedAt {log : List Message} {id : String}
    (h : some id ∈ log.map Message.id) : ∃ seq, CommittedAt log seq id := by
  obtain ⟨index, hindex⟩ := List.mem_iff_getElem?.mp h
  exact ⟨index + 1, index, rfl, hindex⟩

/-- A sequence number holds one message. -/
theorem CommittedAt.id_unique {log : List Message} {seq : Nat} {id id' : String}
    (h : CommittedAt log seq id) (h' : CommittedAt log seq id') : id = id' := by
  obtain ⟨index, rfl, hid⟩ := h
  obtain ⟨index', heq, hid'⟩ := h'
  obtain rfl : index = index' := by omega
  rw [hid] at hid'
  simpa using hid'

/-- Where ids are distinct, an id is committed once. -/
theorem CommittedAt.seq_unique {log : List Message} (hdistinct : DistinctIds log)
    {seq seq' : Nat} {id : String} (h : CommittedAt log seq id)
    (h' : CommittedAt log seq' id) : seq = seq' := by
  obtain ⟨i, rfl, hi⟩ := h
  obtain ⟨j, rfl, hj⟩ := h'
  unfold DistinctIds at hdistinct
  rw [List.nodup_iff_pairwise_ne, List.pairwise_filterMap, List.pairwise_iff_getElem] at hdistinct
  rw [List.getElem?_map, Option.map_eq_some_iff] at hi hj
  obtain ⟨a, ha, hida⟩ := hi
  obtain ⟨b, hb, hidb⟩ := hj
  obtain ⟨hilt, rfl⟩ := List.getElem?_eq_some_iff.mp ha
  obtain ⟨hjlt, rfl⟩ := List.getElem?_eq_some_iff.mp hb
  by_contra hne
  cases Nat.lt_or_gt_of_ne hne with
  | inl hlt => exact hdistinct i j hilt hjlt (by omega) id hida id hidb rfl
  | inr hgt => exact hdistinct j i hjlt hilt (by omega) id hidb id hida rfl

/-! ## Lookup in the committed log -/

theorem committedById_eq_none {committed : List Message} {id : String} :
    committedById committed id = none ↔ some id ∉ committed.map Message.id := by
  unfold committedById
  rw [Option.map_eq_none_iff, List.getLast?_eq_none_iff, List.filter_eq_nil_iff]
  constructor
  · intro h hmem
    obtain ⟨m, hm, hid⟩ := List.mem_map.mp hmem
    obtain ⟨index, hindex⟩ := List.mem_iff_getElem?.mp hm
    have hentry : (m, index) ∈ committed.zipIdx :=
      List.mk_mem_zipIdx_iff_getElem?.mpr hindex
    simpa [hid] using h _ hentry
  · intro h entry hentry
    have hm : entry.1 ∈ committed := List.fst_mem_of_mem_zipIdx hentry
    intro hid
    apply h
    rw [← beq_iff_eq.mp hid]
    exact List.mem_map_of_mem hm

theorem committedById_eq_some {committed : List Message} {id : String} {entry : Nat × Message}
    (h : committedById committed id = some entry) : CommittedAt committed entry.1 id := by
  unfold committedById at h
  obtain ⟨found, hfound, rfl⟩ := Option.map_eq_some_iff.mp h
  have hmem := List.mem_of_getLast? hfound
  obtain ⟨hentry, hid⟩ := List.mem_filter.mp hmem
  use found.2
  constructor
  · rfl
  · rw [List.getElem?_map, List.mem_zipIdx_iff_getElem?.mp hentry]
    simpa using hid

/-! ## One message -/

variable {ctx : AppendContext} {state : AppendState} {message : Message} {index : Nat}
  {id : String}

theorem committedEntry_eq_none (hid : message.id = some id) :
    ctx.committedEntry message = none ↔ message.id ∉ ctx.committed.map Message.id := by
  unfold AppendContext.committedEntry
  rw [hid]
  exact committedById_eq_none

@[simp] theorem body_attributed : (ctx.attributed message index).body = message.body := by
  unfold AppendContext.attributed
  dsimp only
  split <;> split <;> rfl

/-- New output is attributed to the run, unless the message names another one. -/
theorem producedByRunId_attributed
    (h : message.producedByRunId = none ∨ message.producedByRunId = some ctx.runId)
    (hnew : ctx.newOutput message index = true) :
    (ctx.attributed message index).producedByRunId = some ctx.runId := by
  have hentry : ctx.committedEntry message = none := by
    simp only [AppendContext.newOutput, Bool.and_eq_true, Option.isNone_iff_eq_none] at hnew
    exact hnew.1.1
  unfold AppendContext.attributed
  dsimp only
  rw [if_pos hnew, hentry]
  split
  next =>
    apply Message.producedByRunId_markProducedBy
    right
    exact Message.producedByRunId_markProducedBy h ctx.stepIndex
  next => exact Message.producedByRunId_markProducedBy h ctx.stepIndex

theorem recordedId_mem {ids : List String} {r : String}
    (h : ctx.recordedId ids message index = some r) : message.id = some r ∧
      (ctx.alreadyRecordedOutput message || ctx.newOutput message index) = true := by
  unfold AppendContext.recordedId at h
  split at h
  next hout => exact ⟨(Option.filter_eq_some_iff.mp h).1, hout⟩
  next => cases h

/-- Output is recorded once it is seen. -/
theorem mem_append_recordedId {ids : List String} (hid : message.id = some id)
    (hout : (ctx.alreadyRecordedOutput message || ctx.newOutput message index) = true) :
    id ∈ ids ++ (ctx.recordedId ids message index).toList := by
  unfold AppendContext.recordedId
  rw [if_pos hout, hid]
  by_cases hmem : id ∈ ids <;> simp [hmem, Option.filter]

theorem outputMessageIds_appendMessage :
    (appendMessage ctx state (message, index)).outputMessageIds = state.outputMessageIds ++
      (ctx.recordedId state.outputMessageIds message index).toList := by
  unfold appendMessage
  cases hrecorded : ctx.recordedId state.outputMessageIds message index with
  | none => cases hentry : ctx.committedEntry message <;> simp [hrecorded, hentry]
  | some r => cases hentry : ctx.committedEntry message <;> simp [hrecorded, hentry]

theorem outputSeqs_appendMessage :
    (appendMessage ctx state (message, index)).outputSeqs = state.outputSeqs ++
      ((ctx.recordedId state.outputMessageIds message index).map fun _ =>
        ((ctx.committedEntry message).map Prod.fst).getD state.nextAppendSeq).toList := by
  unfold appendMessage
  cases hrecorded : ctx.recordedId state.outputMessageIds message index with
  | none => cases hentry : ctx.committedEntry message <;> simp [hrecorded, hentry]
  | some r => cases hentry : ctx.committedEntry message <;> simp [hrecorded, hentry]

theorem delta_appendMessage :
    (appendMessage ctx state (message, index)).delta = state.delta ++
      if (ctx.committedEntry message).isNone then [ctx.attributed message index] else [] := by
  unfold appendMessage
  cases hrecorded : ctx.recordedId state.outputMessageIds message index with
  | none => cases hentry : ctx.committedEntry message <;> simp [hrecorded, hentry]
  | some r => cases hentry : ctx.committedEntry message <;> simp [hrecorded, hentry]

theorem nextAppendSeq_appendMessage :
    (appendMessage ctx state (message, index)).nextAppendSeq = state.nextAppendSeq +
      if (ctx.committedEntry message).isNone then 1 else 0 := by
  unfold appendMessage
  cases hrecorded : ctx.recordedId state.outputMessageIds message index with
  | none => cases hentry : ctx.committedEntry message <;> simp [hrecorded, hentry]
  | some r => cases hentry : ctx.committedEntry message <;> simp [hrecorded, hentry]

/-! ## The loop -/

variable {entries : List (Message × Nat)}

/-- The delta: the messages that are not committed, with their producer. -/
theorem delta_foldl : (entries.foldl (appendMessage ctx) state).delta = state.delta ++
    (entries.filter fun entry => (ctx.committedEntry entry.1).isNone).map fun entry =>
      ctx.attributed entry.1 entry.2 := by
  induction entries generalizing state with
  | nil => simp
  | cons entry entries ih =>
    rw [List.foldl_cons, ih, delta_appendMessage, List.filter_cons, List.append_assoc]
    cases (ctx.committedEntry entry.1).isNone <;> simp

theorem outputMessageIds_foldl_subset :
    state.outputMessageIds ⊆ (entries.foldl (appendMessage ctx) state).outputMessageIds := by
  induction entries generalizing state with
  | nil => simp
  | cons entry entries ih =>
    rw [List.foldl_cons]
    apply List.Subset.trans _ ih
    rw [outputMessageIds_appendMessage]
    exact List.subset_append_left _ _

/-- Output that the loop sees is recorded at its end. -/
theorem mem_outputMessageIds_foldl (hmem : (message, index) ∈ entries) (hid : message.id = some id)
    (hout : (ctx.alreadyRecordedOutput message || ctx.newOutput message index) = true) :
    id ∈ (entries.foldl (appendMessage ctx) state).outputMessageIds := by
  induction entries generalizing state with
  | nil => simp at hmem
  | cons entry entries ih =>
    rw [List.foldl_cons]
    cases List.mem_cons.mp hmem with
    | inl h =>
      subst h
      apply outputMessageIds_foldl_subset
      rw [outputMessageIds_appendMessage]
      exact mem_append_recordedId hid hout
    | inr h => exact ih h

/-- Recorded ids were recorded before, or are those of output that the loop sees. -/
theorem mem_of_mem_outputMessageIds_foldl
    (h : id ∈ (entries.foldl (appendMessage ctx) state).outputMessageIds) :
    id ∈ state.outputMessageIds ∨ ∃ entry ∈ entries, entry.1.id = some id ∧
      (ctx.alreadyRecordedOutput entry.1 || ctx.newOutput entry.1 entry.2) = true := by
  induction entries generalizing state with
  | nil => exact .inl h
  | cons entry entries ih =>
    rw [List.foldl_cons] at h
    cases ih h with
    | inl hold =>
      rw [outputMessageIds_appendMessage, List.mem_append, Option.mem_toList] at hold
      cases hold with
      | inl hold => exact .inl hold
      | inr hnew => exact .inr ⟨entry, List.mem_cons_self, recordedId_mem hnew⟩
    | inr hrest =>
      obtain ⟨entry', hmem, hout⟩ := hrest
      exact .inr ⟨entry', List.mem_cons_of_mem _ hmem, hout⟩

/-- The sequence numbers are those of the ids, and every id has one. -/
structure Located (log : List Message) (ids : List String) (seqs : List Nat) : Prop where
  committed : ∀ id ∈ ids, ∃ seq, CommittedAt log seq id
  mem_seqs : ∀ seq, seq ∈ seqs ↔ ∃ id ∈ ids, CommittedAt log seq id

namespace Located

variable {log rest : List Message} {ids : List String} {seqs : List Nat}

/-- What is committed stays where it is. -/
theorem append (h : Located log ids seqs) (hdistinct : DistinctIds (log ++ rest)) :
    Located (log ++ rest) ids seqs where
  committed id hid := by
    obtain ⟨seq, hseq⟩ := h.committed id hid
    exact ⟨seq, hseq.append rest⟩
  mem_seqs seq := by
    rw [h.mem_seqs]
    constructor
    · intro hex
      obtain ⟨id, hid, hseq⟩ := hex
      exact ⟨id, hid, hseq.append rest⟩
    · intro hex
      obtain ⟨id, hid, hseq⟩ := hex
      obtain ⟨seq', hseq'⟩ := h.committed id hid
      have hsame := hseq.seq_unique hdistinct (hseq'.append rest)
      exact ⟨id, hid, hsame ▸ hseq'⟩

theorem concat (h : Located log ids seqs) (hdistinct : DistinctIds log) {id : String} {seq : Nat}
    (hseq : CommittedAt log seq id) : Located log (ids ++ [id]) (seqs ++ [seq]) where
  committed id' hid' := by
    cases List.mem_append.mp hid' with
    | inl hold => exact h.committed id' hold
    | inr hnew =>
      obtain rfl := List.mem_singleton.mp hnew
      exact ⟨seq, hseq⟩
  mem_seqs seq' := by
    rw [List.mem_append, h.mem_seqs, List.mem_singleton]
    constructor
    · intro hor
      cases hor with
      | inl hex =>
        obtain ⟨id', hid', hseq'⟩ := hex
        exact ⟨id', List.mem_append_left _ hid', hseq'⟩
      | inr heq =>
        subst heq
        exact ⟨id, List.mem_append_right _ List.mem_cons_self, hseq⟩
    · intro hex
      obtain ⟨id', hid', hseq'⟩ := hex
      cases List.mem_append.mp hid' with
      | inl hold => exact .inl ⟨id', hold, hseq'⟩
      | inr hnew =>
        obtain rfl := List.mem_singleton.mp hnew
        exact .inr (hseq'.seq_unique hdistinct hseq)

end Located

/-- While the loop has as many sequence numbers as ids, they belong together. -/
structure AppendInvariant (ctx : AppendContext) (state : AppendState) : Prop where
  next : state.nextAppendSeq = ctx.committed.length + state.delta.length + 1
  output : state.outputSeqs.length = state.outputMessageIds.length →
    Located (ctx.committed ++ state.delta) state.outputMessageIds state.outputSeqs

theorem appendMessage_invariant (h : AppendInvariant ctx state)
    (hdistinct : DistinctIds
      (ctx.committed ++ (appendMessage ctx state (message, index)).delta)) :
    AppendInvariant ctx (appendMessage ctx state (message, index)) where
  next := by
    rw [nextAppendSeq_appendMessage, delta_appendMessage, h.next]
    split
    next => simp only [List.length_append, List.length_singleton]; omega
    next => simp
  output hlength := by
    rw [outputMessageIds_appendMessage, outputSeqs_appendMessage] at hlength ⊢
    rw [delta_appendMessage, ← List.append_assoc] at hdistinct ⊢
    have hbefore : state.outputSeqs.length = state.outputMessageIds.length := by
      simp only [List.length_append, Option.length_toList, Option.isSome_map] at hlength
      omega
    have hlocated := (h.output hbefore).append hdistinct
    cases hrecorded : ctx.recordedId state.outputMessageIds message index with
    | none => simpa using hlocated
    | some r =>
      obtain ⟨hid', -⟩ := recordedId_mem hrecorded
      apply hlocated.concat hdistinct
      cases hentry : ctx.committedEntry message with
      | none =>
        have hlast := committedAt_last (ctx.committed ++ state.delta)
          (show (ctx.attributed message index).id = some r by
            rw [← Message.body_id, body_attributed, Message.body_id, hid'])
        simpa [h.next] using hlast
      | some entry =>
        rw [AppendContext.committedEntry, hid'] at hentry
        have hseq := committedById_eq_some hentry
        exact (hseq.append _).append _

theorem DistinctIds.of_append {log rest : List Message} (h : DistinctIds (log ++ rest)) :
    DistinctIds log := by
  unfold DistinctIds at *
  rw [List.filterMap_append] at h
  exact (List.nodup_append'.mp h).1

theorem foldl_invariant (h : AppendInvariant ctx state)
    (hdistinct : DistinctIds
      (ctx.committed ++ (entries.foldl (appendMessage ctx) state).delta)) :
    AppendInvariant ctx (entries.foldl (appendMessage ctx) state) := by
  induction entries generalizing state with
  | nil => exact h
  | cons entry entries ih =>
    rw [List.foldl_cons] at hdistinct ⊢
    apply ih _ hdistinct
    rw [delta_foldl, ← List.append_assoc] at hdistinct
    exact appendMessage_invariant h hdistinct.of_append

/-! ## Ranges -/

/-- The range of an output, when present, holds exactly the messages of the output. -/
def RunMessageOutput.Placed (log : List Message) (output : RunMessageOutput) : Prop :=
  ∀ range, output.range = some range →
    (∀ id ∈ output.messageIds, ∃ seq, CommittedAt log seq id) ∧
    ∀ seq, (range.fromSeq.toNat ≤ seq ∧ seq ≤ range.toSeq.toNat) ↔
      ∃ id ∈ output.messageIds, CommittedAt log seq id

theorem mem_seqs {range : MessageSeqRange} {seq : Nat} :
    seq ∈ range.seqs ↔ range.fromSeq.toNat ≤ seq ∧ seq ≤ range.toSeq.toNat := by
  unfold MessageSeqRange.seqs
  rw [List.mem_range'_1]
  omega

theorem placed_iff_located {log : List Message} {output : RunMessageOutput} :
    output.Placed log ↔ ∀ range, output.range = some range →
      Located log output.messageIds range.seqs := by
  unfold RunMessageOutput.Placed
  constructor
  · intro h range hrange
    obtain ⟨hcommitted, hseqs⟩ := h range hrange
    exact ⟨hcommitted, fun seq => mem_seqs.trans (hseqs seq)⟩
  · intro h range hrange
    obtain ⟨hcommitted, hseqs⟩ := h range hrange
    exact ⟨hcommitted, fun seq => mem_seqs.symm.trans (hseqs seq)⟩

/-- Appends leave a placed output placed. -/
theorem RunMessageOutput.Placed.append {log rest : List Message} {output : RunMessageOutput}
    (h : output.Placed log) (hdistinct : DistinctIds (log ++ rest)) :
    output.Placed (log ++ rest) := by
  rw [placed_iff_located] at *
  intro range hrange
  exact (h range hrange).append hdistinct

/-- The loop starts with sequence numbers that belong to the recorded ids. -/
theorem located_previous {log : List Message} {previous : Option RunRecord}
    (h : ∀ record ∈ previous, ∀ output ∈ record.output, output.Placed log)
    (hlength : (previousOutputSeqs previous).length =
      (((previous.bind RunRecord.output).map RunMessageOutput.messageIds).getD []).length) :
    Located log (((previous.bind RunRecord.output).map RunMessageOutput.messageIds).getD [])
      (previousOutputSeqs previous) := by
  have hempty : Located log [] [] := ⟨by simp, by simp⟩
  unfold previousOutputSeqs at *
  cases hout : previous.bind RunRecord.output with
  | none => simpa using hempty
  | some output =>
    obtain ⟨record, hrecord, houtput⟩ := Option.bind_eq_some_iff.mp hout
    have hplaced := placed_iff_located.mp (h record hrecord output houtput)
    rw [hout] at hlength
    dsimp only [Option.map_some, Option.getD_some] at hlength ⊢
    cases hrange : output.range with
    | none =>
      rw [hrange] at hlength
      have hids : output.messageIds = [] := List.length_eq_zero_iff.mp hlength.symm
      rw [hids]
      exact hempty
    | some range =>
      rw [hrange] at hlength
      dsimp only at hlength ⊢
      split
      next hne =>
        rw [if_pos hne] at hlength
        have hids : output.messageIds = [] := List.length_eq_zero_iff.mp hlength.symm
        rw [hids]
        exact hempty
      next => exact hplaced range hrange

/-- A sorted list of as many distinct numbers as there are between its ends has them all. -/
theorem mem_of_consecutive {sorted : List Nat} {first last : Nat}
    (hsorted : sorted.Pairwise (· ≤ ·)) (hnodup : sorted.Nodup) (hfirst : sorted.head? = some first)
    (hlast : sorted.getLast? = some last) (hcount : last - first + 1 = sorted.length) (seq : Nat) :
    seq ∈ sorted ↔ first ≤ seq ∧ seq ≤ last := by
  have hbounds : ∀ n ∈ sorted, first ≤ n ∧ n ≤ last := by
    intro n hn
    constructor
    · obtain ⟨rest, rfl⟩ := List.head?_eq_some_iff.mp hfirst
      cases List.mem_cons.mp hn with
      | inl h => omega
      | inr h => exact (List.pairwise_cons.mp hsorted).1 n h
    · obtain ⟨init, rfl⟩ := List.getLast?_eq_some_iff.mp hlast
      cases List.mem_append.mp hn with
      | inl h => exact (List.pairwise_append.mp hsorted).2.2 n h last List.mem_cons_self
      | inr h =>
        have := List.mem_singleton.mp h
        omega
  have hle : first ≤ last := by
    have hmem := List.mem_of_mem_head? (Option.mem_def.mpr hfirst)
    exact (hbounds first hmem).2
  exact (length_eq_iff_mem hnodup hle hbounds).mp hcount.symm seq

/-- The numbers of a contiguous range are exactly those it was made from. -/
theorem contiguousOutputRange_spec {len : Nat} {seqs : List Nat} {range : MessageSeqRange}
    (h : contiguousOutputRange len seqs = some range) (hlt : ∀ seq ∈ seqs, seq < 2 ^ 64) :
    seqs.length = len ∧ ∀ seq, seq ∈ seqs ↔ seq ∈ range.seqs := by
  unfold contiguousOutputRange at h
  split at h
  next => cases h
  next hlen =>
    dsimp only at h
    have hsorted := List.pairwise_insertionSort (· ≤ ·) seqs
    have hperm := List.perm_insertionSort (· ≤ ·) seqs
    have hdedup : (seqs.insertionSort (· ≤ ·)).destutter (· ≠ ·) =
        (seqs.insertionSort (· ≤ ·)).dedup := hsorted.destutter_eq_dedup
    rw [hdedup] at h
    generalize seqs.insertionSort (· ≤ ·) = sorted at *
    split at h
    next => cases h
    next hsame =>
      have hlength : seqs.length = len := by omega
      have heq : sorted.dedup = sorted := by
        apply (List.dedup_sublist sorted).eq_of_length
        rw [hperm.length_eq]
        omega
      rw [heq] at h hsame
      split at h
      next first last hfirst hlast =>
        split at h
        next hcount =>
          have hnodup : sorted.Nodup := heq ▸ List.nodup_dedup sorted
          have hfirst' := hlt first (hperm.mem_iff.mp (List.mem_of_mem_head? hfirst))
          have hlast' := hlt last (hperm.mem_iff.mp (List.mem_of_getLast? hlast))
          unfold MessageSeqRange.new at h
          split at h
          next =>
            cases h
            constructor
            · exact hlength
            · intro seq
              have hends := mem_of_consecutive hsorted hnodup hfirst hlast (by omega) seq
              rw [← hperm.mem_iff, hends, mem_seqs]
              dsimp only
              rw [UInt64.toNat_ofNat_of_lt' hfirst', UInt64.toNat_ofNat_of_lt' hlast']
          next => cases h
        next => cases h
      next => cases h

/-! ## The checkpoint -/

section Materialize

variable {messages committed : List Message} {previous : Option RunRecord}
  {threadId runId : String} {stepCount : UInt32} {inputMessageCount : Nat}

/-- What the loop of a checkpoint reads. -/
def appendContext (committed : List Message) (previous : Option RunRecord) (runId : String)
    (stepCount : UInt32) (inputMessageCount : Nat) : AppendContext where
  committed := committed
  previousOutputIds :=
    ((previous.bind RunRecord.output).map RunMessageOutput.messageIds).getD []
  runId := runId
  stepIndex := if stepCount = 0 then none else some (stepCount - 1)
  inputMessageCount := inputMessageCount

/-- What the loop of a checkpoint starts with. -/
def appendStart (committed : List Message) (previous : Option RunRecord) : AppendState where
  delta := []
  nextAppendSeq := committed.length + 1
  outputMessageIds :=
    ((previous.bind RunRecord.output).map RunMessageOutput.messageIds).getD []
  outputSeqs := previousOutputSeqs previous

theorem materialize_fst :
    (materializeCheckpointAppend messages committed previous threadId runId stepCount
      inputMessageCount).1 =
      (messages.zipIdx.foldl
        (appendMessage (appendContext committed previous runId stepCount inputMessageCount))
        (appendStart committed previous)).delta := rfl

/-- The delta, as far as producers do not count: the messages that are not committed. -/
theorem materialize_map {β : Type} (g : Message → β)
    (hg : ∀ (ctx : AppendContext) (m : Message) (index : Nat), ctx.committedEntry m = none →
      g (ctx.attributed m index) = g m)
    (hids : ∀ m ∈ messages, m.id.isSome = true) :
    (materializeCheckpointAppend messages committed previous threadId runId stepCount
      inputMessageCount).1.map g =
      (messages.filter fun m => decide (m.id ∉ committed.map Message.id)).map g := by
  rw [materialize_fst, delta_foldl]
  generalize hctx : appendContext committed previous runId stepCount inputMessageCount = ctx
  have hcommitted : ctx.committed = committed := by rw [← hctx]; rfl
  have hopen : ∀ entry ∈ messages.zipIdx, (ctx.committedEntry entry.1).isNone =
      decide (entry.1.id ∉ committed.map Message.id) := by
    intro entry hentry
    obtain ⟨id, hid⟩ := Option.isSome_iff_exists.mp
      (hids entry.1 (List.fst_mem_of_mem_zipIdx hentry))
    have hnone : ctx.committedEntry entry.1 = none ↔ _ := committedEntry_eq_none hid
    rw [hcommitted] at hnone
    rw [Bool.eq_iff_iff, Option.isNone_iff_eq_none, hnone, decide_eq_true_eq]
  show ([] ++ _).map g = _
  rw [List.nil_append, List.map_map]
  have hfst : (messages.zipIdx.filter fun entry =>
      decide (entry.1.id ∉ committed.map Message.id)).map Prod.fst =
        messages.filter fun m => decide (m.id ∉ committed.map Message.id) := by
    conv_rhs => rw [← List.zipIdx_map_fst 0 messages, List.filter_map]
    rfl
  rw [← hfst, List.map_map, List.filter_congr hopen]
  apply List.map_congr_left
  intro entry hentry
  rw [← List.filter_congr hopen, List.mem_filter, Option.isNone_iff_eq_none] at hentry
  exact hg ctx entry.1 entry.2 hentry.2

/-- The delta holds what is missing in the committed log, in the order of the list. -/
theorem materialize_delta (hids : ∀ m ∈ messages, m.id.isSome = true) :
    (materializeCheckpointAppend messages committed previous threadId runId stepCount
      inputMessageCount).1.map Message.body =
      missing Message.id (committed.map Message.body) (messages.map Message.body) := by
  rw [materialize_map Message.body (fun _ _ _ _ => body_attributed) hids]
  have hmap : (messages.filter fun m => decide (m.id ∉ committed.map Message.id)).map
      Message.body = (messages.map Message.body).filter fun m =>
        decide (m.id ∉ committed.map Message.id) := by
    rw [List.filter_map]
    rfl
  rw [hmap]
  apply filter_eq_missing
  intro m _
  rw [decide_eq_true_iff, List.map_map]
  rfl

theorem newOutput_appendContext {message : Message} {index : Nat} (hid : message.id = some id)
    (hopen : message.id ∉ committed.map Message.id) (hindex : inputMessageCount ≤ index)
    (hrole : message.isRunOutputMessage = true) :
    (appendContext committed previous runId stepCount inputMessageCount).newOutput message index =
      true := by
  have hnone : (appendContext committed previous runId stepCount
      inputMessageCount).committedEntry message = none := (committedEntry_eq_none hid).mpr hopen
  unfold AppendContext.newOutput
  rw [hnone, hrole]
  simpa [appendContext] using hindex

/-- A message that is appended as new output names the run as its producer. -/
theorem materialize_produced {message : Message} {index : Nat}
    (hmem : messages[index]? = some message) (hid : message.id = some id)
    (hopen : message.id ∉ committed.map Message.id) (hindex : inputMessageCount ≤ index)
    (hrole : message.isRunOutputMessage = true)
    (hproducer : message.producedByRunId = none ∨ message.producedByRunId = some runId) :
    ∃ appended ∈ (materializeCheckpointAppend messages committed previous threadId runId
      stepCount inputMessageCount).1, appended.body = message.body ∧
        appended.producedByRunId = some runId := by
  rw [materialize_fst, delta_foldl]
  use (appendContext committed previous runId stepCount inputMessageCount).attributed message index
  constructor
  · apply List.mem_append_right
    apply List.mem_map.mpr
    refine ⟨(message, index), ?_, rfl⟩
    rw [List.mem_filter, List.mk_mem_zipIdx_iff_getElem?, Option.isNone_iff_eq_none]
    exact ⟨hmem, (committedEntry_eq_none hid).mpr hopen⟩
  · constructor
    · exact body_attributed
    · exact producedByRunId_attributed hproducer
        (newOutput_appendContext hid hopen hindex hrole)

/-- The output of a checkpoint, by the loop. -/
theorem materialize_snd :
    (materializeCheckpointAppend messages committed previous threadId runId stepCount
      inputMessageCount).2 =
      if (messages.zipIdx.foldl
          (appendMessage (appendContext committed previous runId stepCount inputMessageCount))
          (appendStart committed previous)).outputMessageIds.isEmpty then
        previous.bind RunRecord.output
      else
        some
          { threadId := threadId
            range := contiguousOutputRange (messages.zipIdx.foldl
              (appendMessage (appendContext committed previous runId stepCount
                inputMessageCount)) (appendStart committed previous)).outputMessageIds.length
              (messages.zipIdx.foldl (appendMessage (appendContext committed previous runId
                stepCount inputMessageCount)) (appendStart committed previous)).outputSeqs
            messageIds := (messages.zipIdx.foldl (appendMessage (appendContext committed
              previous runId stepCount inputMessageCount))
              (appendStart committed previous)).outputMessageIds } := rfl

/-- New output is recorded. -/
theorem materialize_recorded {message : Message} {index : Nat}
    (hmem : messages[index]? = some message) (hid : message.id = some id)
    (hopen : message.id ∉ committed.map Message.id) (hindex : inputMessageCount ≤ index)
    (hrole : message.isRunOutputMessage = true) :
    ∃ output, (materializeCheckpointAppend messages committed previous threadId runId stepCount
      inputMessageCount).2 = some output ∧ id ∈ output.messageIds := by
  have hmem' : (message, index) ∈ messages.zipIdx := List.mk_mem_zipIdx_iff_getElem?.mpr hmem
  have hnew : (appendContext committed previous runId stepCount inputMessageCount).newOutput
      message index = true := newOutput_appendContext hid hopen hindex hrole
  have hrecorded : id ∈ (messages.zipIdx.foldl
      (appendMessage (appendContext committed previous runId stepCount inputMessageCount))
      (appendStart committed previous)).outputMessageIds :=
    mem_outputMessageIds_foldl hmem' hid (by rw [hnew, Bool.or_true])
  rw [materialize_snd, if_neg]
  · exact ⟨_, rfl, hrecorded⟩
  · intro hempty
    rw [List.isEmpty_iff.mp hempty] at hrecorded
    cases hrecorded

/-- The ids of an output, none when there is no output. -/
def outputIds (output : Option RunMessageOutput) : List String :=
  (output.map RunMessageOutput.messageIds).getD []

/-- Recorded ids were recorded before, or are those of output in the list. -/
theorem mem_materialize_output (h : id ∈ outputIds (materializeCheckpointAppend messages committed
      previous threadId runId stepCount inputMessageCount).2) :
    id ∈ outputIds (previous.bind RunRecord.output) ∨
      ∃ message index, messages[index]? = some message ∧ message.id = some id ∧
        ((appendContext committed previous runId stepCount
            inputMessageCount).alreadyRecordedOutput message ||
          (appendContext committed previous runId stepCount
            inputMessageCount).newOutput message index) = true := by
  rw [materialize_snd] at h
  split at h
  next => exact .inl h
  next =>
    cases mem_of_mem_outputMessageIds_foldl h with
    | inl hold => exact .inl hold
    | inr hnew =>
      obtain ⟨entry, hentry, hid, hout⟩ := hnew
      right
      use entry.1, entry.2
      exact ⟨List.mem_zipIdx_iff_getElem?.mp hentry, hid, hout⟩

/-- The range of the output holds the output once the delta is appended. -/
theorem materialize_output {output : RunMessageOutput}
    (hprevious : ∀ record ∈ previous, ∀ output ∈ record.output, output.Placed committed)
    (hdistinct : DistinctIds (committed ++ (materializeCheckpointAppend messages committed
      previous threadId runId stepCount inputMessageCount).1))
    (hbound : (committed ++ (materializeCheckpointAppend messages committed previous threadId
      runId stepCount inputMessageCount).1).length < 2 ^ 64)
    (h : (materializeCheckpointAppend messages committed previous threadId runId stepCount
      inputMessageCount).2 = some output) :
    output.Placed (committed ++ (materializeCheckpointAppend messages committed previous
      threadId runId stepCount inputMessageCount).1) := by
  have hstart : AppendInvariant
      (appendContext committed previous runId stepCount inputMessageCount)
      (appendStart committed previous) := by
    constructor
    · rfl
    · intro hlength
      show Located (committed ++ []) _ _
      rw [List.append_nil]
      exact located_previous hprevious hlength
  rw [materialize_fst] at hdistinct hbound ⊢
  have hend := foldl_invariant hstart hdistinct
  rw [materialize_snd] at h
  generalize messages.zipIdx.foldl
    (appendMessage (appendContext committed previous runId stepCount inputMessageCount))
    (appendStart committed previous) = state at *
  split at h
  next =>
    obtain ⟨record, hrecord, houtput⟩ := Option.bind_eq_some_iff.mp h
    exact (hprevious record hrecord output houtput).append hdistinct
  next =>
    obtain rfl := Option.some.inj h
    rw [placed_iff_located]
    intro range hrange
    have hlocated : state.outputSeqs.length = state.outputMessageIds.length →
      Located (committed ++ state.delta) state.outputMessageIds state.outputSeqs := hend.output
    by_cases hlength : state.outputSeqs.length = state.outputMessageIds.length
    · have hl := hlocated hlength
      have hlt : ∀ seq ∈ state.outputSeqs, seq < 2 ^ 64 := by
        intro seq hseq
        obtain ⟨id, -, index, rfl, hindex⟩ := (hl.mem_seqs seq).mp hseq
        obtain ⟨hlt, -⟩ := List.getElem?_eq_some_iff.mp hindex
        rw [List.length_map] at hlt
        omega
      obtain ⟨-, hseqs⟩ := contiguousOutputRange_spec hrange hlt
      exact ⟨hl.committed, fun seq => (hseqs seq).symm.trans (hl.mem_seqs seq)⟩
    · unfold contiguousOutputRange at hrange
      rw [if_pos (.inr hlength)] at hrange
      cases hrange

end Materialize

end Remo
