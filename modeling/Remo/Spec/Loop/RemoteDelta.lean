import Remo.Native.Loop.RemoteCheckpoint
import Remo.Spec.Loop.CheckpointLog

/-!
# The delta of a remote checkpoint

What one remote checkpoint appends, and the output it records. The running minimum and maximum are
the first and the last sequence number of the output, so a range is recorded exactly when the output
is all that is between them.

## Key results

- `foldl_remote_ids`: the recorded ids, in list order behind those recorded before.
- `remote_ends`: the loop keeps ends that belong to the output and enclose it.
- `contiguousRemoteRange_iff`: the range is recorded when it holds the output and nothing else.
-/

namespace Remo

variable {ctx : RemoteAppendContext} {state : RemoteAppendState} {entry : Message × Nat}
  {entries : List (Message × Nat)}

namespace RemoteAppendContext

/-- The message is recorded as output of the run. -/
def records (ctx : RemoteAppendContext) (entry : Message × Nat) : Bool :=
  ctx.alreadyRecordedOutput entry.1 || ctx.newOutput entry.1 entry.2

/-- The message as it is appended. -/
def appended (ctx : RemoteAppendContext) (entry : Message × Nat) : Message :=
  if ctx.newOutput entry.1 entry.2 then entry.1.markProducedBy ctx.runId ctx.stepIndex
  else entry.1

@[simp] theorem body_appended (ctx : RemoteAppendContext) (entry : Message × Nat) :
    (ctx.appended entry).body = entry.1.body := by
  unfold appended
  split <;> rfl

@[simp] theorem id_appended (ctx : RemoteAppendContext) (entry : Message × Nat) :
    (ctx.appended entry).id = entry.1.id := by
  rw [← Message.body_id, body_appended, Message.body_id]

theorem committedSeq_eq_none {message : Message} {id : String} (hid : message.id = some id) :
    ctx.committedSeq message = none ↔ message.id ∉ ctx.committed.map Message.id := by
  unfold committedSeq
  rw [hid, Option.map_eq_none_iff]
  exact committedById_eq_none

theorem committedSeq_eq_some {message : Message} {id : String} {seq : Nat}
    (hid : message.id = some id) (h : ctx.committedSeq message = some seq) :
    CommittedAt ctx.committed seq id := by
  unfold committedSeq at h
  rw [hid] at h
  obtain ⟨found, hfound, rfl⟩ := Option.map_eq_some_iff.mp h
  exact committedById_eq_some hfound

end RemoteAppendContext

/-! ## One message -/

theorem delta_appendRemoteMessage : (appendRemoteMessage ctx state entry).delta = state.delta ++
    if (ctx.committedSeq entry.1).isNone then [ctx.appended entry] else [] := by
  unfold appendRemoteMessage RemoteAppendContext.appended
  cases hrecords : ctx.alreadyRecordedOutput entry.1 || ctx.newOutput entry.1 entry.2 <;>
    cases hseq : (ctx.committedSeq entry.1).isNone <;> simp [hrecords, hseq]

theorem nextAppendSeq_appendRemoteMessage : (appendRemoteMessage ctx state entry).nextAppendSeq =
    state.nextAppendSeq + if (ctx.committedSeq entry.1).isNone then 1 else 0 := by
  unfold appendRemoteMessage
  cases hrecords : ctx.alreadyRecordedOutput entry.1 || ctx.newOutput entry.1 entry.2 <;>
    cases hseq : (ctx.committedSeq entry.1).isNone <;> simp [hrecords, hseq]

theorem outputMessageIds_appendRemoteMessage :
    (appendRemoteMessage ctx state entry).outputMessageIds = state.outputMessageIds ++
      if ctx.records entry then
        (entry.1.id.filter fun id => id ∉ state.outputMessageIds).toList
      else [] := by
  unfold appendRemoteMessage RemoteAppendContext.records
  cases hrecords : ctx.alreadyRecordedOutput entry.1 || ctx.newOutput entry.1 entry.2 <;>
    cases hseq : (ctx.committedSeq entry.1).isNone <;> simp [hrecords, hseq]

/-- A recorded message moves the ends of the output. -/
theorem ends_appendRemoteMessage (h : ctx.records entry = true) :
    (appendRemoteMessage ctx state entry).outputFromSeq =
        some (state.outputFromSeq.elim ((ctx.committedSeq entry.1).getD state.nextAppendSeq)
          fun fromSeq => min fromSeq ((ctx.committedSeq entry.1).getD state.nextAppendSeq)) ∧
      (appendRemoteMessage ctx state entry).outputToSeq =
        some (state.outputToSeq.elim ((ctx.committedSeq entry.1).getD state.nextAppendSeq)
          fun toSeq => max toSeq ((ctx.committedSeq entry.1).getD state.nextAppendSeq)) := by
  unfold RemoteAppendContext.records at h
  unfold appendRemoteMessage
  cases hseq : (ctx.committedSeq entry.1).isNone <;> simp [h, hseq]

theorem ends_appendRemoteMessage_of_not (h : ctx.records entry = false) :
    (appendRemoteMessage ctx state entry).outputFromSeq = state.outputFromSeq ∧
      (appendRemoteMessage ctx state entry).outputToSeq = state.outputToSeq := by
  unfold RemoteAppendContext.records at h
  unfold appendRemoteMessage
  cases hseq : (ctx.committedSeq entry.1).isNone <;> simp [h, hseq]

/-! ## The loop -/

/-- The delta: the messages that are not committed. -/
theorem delta_foldl_remote : (entries.foldl (appendRemoteMessage ctx) state).delta = state.delta ++
    (entries.filter fun entry => (ctx.committedSeq entry.1).isNone).map ctx.appended := by
  induction entries generalizing state with
  | nil => simp
  | cons entry entries ih =>
    rw [List.foldl_cons, ih, delta_appendRemoteMessage, List.filter_cons, List.append_assoc]
    cases (ctx.committedSeq entry.1).isNone <;> simp

/-- The recorded ids, in list order behind those recorded before. -/
theorem foldl_remote_ids (hids : ∀ e ∈ entries, e.1.id.isSome = true)
    (hnodup : (entries.map fun e => e.1.id).Nodup) :
    (entries.foldl (appendRemoteMessage ctx) state).outputMessageIds = state.outputMessageIds ++
      (entries.filter fun e => ctx.records e && decide
        (e.1.id ∉ state.outputMessageIds.map some)).filterMap fun e => e.1.id := by
  induction entries generalizing state with
  | nil => simp
  | cons entry entries ih =>
    obtain ⟨hhead, htail⟩ := List.nodup_cons.mp hnodup
    obtain ⟨id, hid⟩ := Option.isSome_iff_exists.mp (hids entry List.mem_cons_self)
    rw [List.foldl_cons, ih (fun e he => hids e (List.mem_cons_of_mem _ he)) htail]
    -- the id of this entry is none of the later ones
    have hlater : (entries.filter fun e => ctx.records e && decide (e.1.id ∉
          (appendRemoteMessage ctx state entry).outputMessageIds.map some)) =
        entries.filter fun e => ctx.records e && decide
          (e.1.id ∉ state.outputMessageIds.map some) := by
      apply List.filter_congr
      intro e he
      have hne : e.1.id ≠ some id := by
        intro heq
        apply hhead
        show entry.1.id ∈ _
        rw [hid, ← heq]
        exact List.mem_map_of_mem he
      rw [outputMessageIds_appendRemoteMessage, hid]
      cases ctx.records entry with
      | false => simp
      | true =>
        by_cases hmem : id ∈ state.outputMessageIds <;>
          simp [Option.filter, hmem, hne]
    rw [hlater, outputMessageIds_appendRemoteMessage, List.append_assoc, List.filter_cons]
    congr 1
    cases hrecords : ctx.records entry with
    | false => simp
    | true =>
      by_cases hmem : id ∈ state.outputMessageIds <;> simp [hid, Option.filter, hmem]

/-- The ids that the loop has recorded have their numbers between the ends, and the ends are numbers
    of the output. -/
structure RemoteInvariant (ctx : RemoteAppendContext) (state : RemoteAppendState)
    (seen : List String) : Prop where
  next : state.nextAppendSeq = ctx.committed.length + state.delta.length + 1
  first : ∀ a, state.outputFromSeq = some a →
    ∃ id ∈ state.outputMessageIds, CommittedAt (ctx.committed ++ state.delta) a id
  last : ∀ b, state.outputToSeq = some b →
    ∃ id ∈ state.outputMessageIds, CommittedAt (ctx.committed ++ state.delta) b id
  bounds : ∀ id ∈ seen, ∃ a seq b, state.outputFromSeq = some a ∧ state.outputToSeq = some b ∧
    CommittedAt (ctx.committed ++ state.delta) seq id ∧ a ≤ seq ∧ seq ≤ b

theorem appendRemoteMessage_invariant {seen : List String} (h : RemoteInvariant ctx state seen)
    {id : String} (hid : entry.1.id = some id) :
    RemoteInvariant ctx (appendRemoteMessage ctx state entry)
      (seen ++ if ctx.records entry then [id] else []) := by
  have hlog : ctx.committed ++ (appendRemoteMessage ctx state entry).delta =
      ctx.committed ++ state.delta ++
        if (ctx.committedSeq entry.1).isNone then [ctx.appended entry] else [] := by
    rw [delta_appendRemoteMessage, List.append_assoc]
  -- the sequence number of this message is where it is or will be committed
  have hseq : CommittedAt (ctx.committed ++ (appendRemoteMessage ctx state entry).delta)
      ((ctx.committedSeq entry.1).getD state.nextAppendSeq) id := by
    rw [hlog]
    cases hcommitted : ctx.committedSeq entry.1 with
    | some seq => exact ((ctx.committedSeq_eq_some hid hcommitted).append _).append _
    | none =>
      have hlast := committedAt_last (ctx.committed ++ state.delta)
        ((ctx.id_appended entry).trans hid)
      simpa [h.next] using hlast
  have hkeep : ∀ {seq : Nat} {id : String}, CommittedAt (ctx.committed ++ state.delta) seq id →
      CommittedAt (ctx.committed ++ (appendRemoteMessage ctx state entry).delta) seq id := by
    intro seq id hseq
    rw [hlog]
    exact hseq.append _
  have hsubset : state.outputMessageIds ⊆
      (appendRemoteMessage ctx state entry).outputMessageIds := by
    rw [outputMessageIds_appendRemoteMessage]
    exact List.subset_append_left _ _
  have hnext : (appendRemoteMessage ctx state entry).nextAppendSeq =
      ctx.committed.length + (appendRemoteMessage ctx state entry).delta.length + 1 := by
    rw [nextAppendSeq_appendRemoteMessage, delta_appendRemoteMessage, h.next]
    cases (ctx.committedSeq entry.1).isNone with
    | false => simp
    | true =>
      rw [if_pos rfl, if_pos rfl, List.length_append, List.length_singleton]
      omega
  cases hrecords : ctx.records entry with
  | false =>
    obtain ⟨hfrom, hto⟩ := @ends_appendRemoteMessage_of_not _ state _ hrecords
    refine ⟨hnext, ?_, ?_, ?_⟩
    · intro a ha
      rw [hfrom] at ha
      obtain ⟨id', hmem, hat⟩ := h.first a ha
      exact ⟨id', hsubset hmem, hkeep hat⟩
    · intro b hb
      rw [hto] at hb
      obtain ⟨id', hmem, hat⟩ := h.last b hb
      exact ⟨id', hsubset hmem, hkeep hat⟩
    · intro id' hmem
      rw [if_neg Bool.false_ne_true, List.append_nil] at hmem
      obtain ⟨a, seq, b, ha, hb, hat, hle⟩ := h.bounds id' hmem
      exact ⟨a, seq, b, hfrom.trans ha, hto.trans hb, hkeep hat, hle⟩
  | true =>
    obtain ⟨hfrom, hto⟩ := @ends_appendRemoteMessage _ state _ hrecords
    generalize (ctx.committedSeq entry.1).getD state.nextAppendSeq = own at hseq hfrom hto
    have hown : id ∈ (appendRemoteMessage ctx state entry).outputMessageIds := by
      rw [outputMessageIds_appendRemoteMessage, if_pos hrecords, hid]
      by_cases hmem : id ∈ state.outputMessageIds <;> simp [Option.filter, hmem]
    refine ⟨hnext, ?_, ?_, ?_⟩
    · intro a ha
      rw [hfrom] at ha
      obtain rfl := Option.some.inj ha
      cases hold : state.outputFromSeq with
      | none => exact ⟨id, hown, hseq⟩
      | some a =>
        show ∃ id ∈ _, CommittedAt _ (min a own) id
        cases Nat.le_total a own with
        | inl hle =>
          rw [Nat.min_eq_left hle]
          obtain ⟨id', hmem, hat⟩ := h.first a hold
          exact ⟨id', hsubset hmem, hkeep hat⟩
        | inr hle =>
          rw [Nat.min_eq_right hle]
          exact ⟨id, hown, hseq⟩
    · intro b hb
      rw [hto] at hb
      obtain rfl := Option.some.inj hb
      cases hold : state.outputToSeq with
      | none => exact ⟨id, hown, hseq⟩
      | some b =>
        show ∃ id ∈ _, CommittedAt _ (max b own) id
        cases Nat.le_total b own with
        | inl hle =>
          rw [Nat.max_eq_right hle]
          exact ⟨id, hown, hseq⟩
        | inr hle =>
          rw [Nat.max_eq_left hle]
          obtain ⟨id', hmem, hat⟩ := h.last b hold
          exact ⟨id', hsubset hmem, hkeep hat⟩
    · intro id' hmem
      rw [if_pos rfl] at hmem
      cases List.mem_append.mp hmem with
      | inl hold =>
        obtain ⟨a, seq, b, ha, hb, hat, hle⟩ := h.bounds id' hold
        rw [ha] at hfrom
        rw [hb] at hto
        refine ⟨_, seq, _, hfrom, hto, hkeep hat, ?_, ?_⟩
        · exact Nat.le_trans (Nat.min_le_left a own) hle.1
        · exact Nat.le_trans hle.2 (Nat.le_max_left b own)
      | inr hnew =>
        rw [List.mem_singleton.mp hnew]
        refine ⟨_, own, _, hfrom, hto, hseq, ?_, ?_⟩
        · cases state.outputFromSeq with
          | none => exact Nat.le_refl own
          | some a => exact Nat.min_le_right a own
        · cases state.outputToSeq with
          | none => exact Nat.le_refl own
          | some b => exact Nat.le_max_right b own

/-- The ids of the recorded messages. -/
def recordedIds (ctx : RemoteAppendContext) (entries : List (Message × Nat)) : List String :=
  (entries.filter ctx.records).filterMap fun e => e.1.id

/-- The loop keeps ends that belong to the output and enclose it. -/
theorem foldl_remote_invariant {seen : List String} (h : RemoteInvariant ctx state seen)
    (hids : ∀ e ∈ entries, e.1.id.isSome = true) :
    RemoteInvariant ctx (entries.foldl (appendRemoteMessage ctx) state)
      (seen ++ recordedIds ctx entries) := by
  induction entries generalizing state seen with
  | nil =>
    rw [show recordedIds ctx [] = [] from rfl, List.append_nil]
    exact h
  | cons entry entries ih =>
    obtain ⟨id, hid⟩ := Option.isSome_iff_exists.mp (hids entry List.mem_cons_self)
    have hstep := ih (appendRemoteMessage_invariant h hid)
      fun e he => hids e (List.mem_cons_of_mem _ he)
    have hseen : recordedIds ctx (entry :: entries) =
        (if ctx.records entry then [id] else []) ++ recordedIds ctx entries := by
      unfold recordedIds
      rw [List.filter_cons]
      cases ctx.records entry <;> simp [hid]
    rw [hseen, ← List.append_assoc]
    exact hstep

/-! ## Ranges -/

/-- The range holds the messages with the ids, and no others. -/
def MessageSeqRange.Holds (range : MessageSeqRange) (log : List Message) (ids : List String) :
    Prop :=
  range.fromSeq ≤ range.toSeq ∧ ∀ seq,
    (range.fromSeq.toNat ≤ seq ∧ seq ≤ range.toSeq.toNat) ↔ ∃ id ∈ ids, CommittedAt log seq id

/-- Where the message with the id is committed. -/
def seqOf (log : List Message) (id : String) : Nat := (log.map Message.id).idxOf (some id) + 1

theorem committedAt_seqOf {log : List Message} {id : String}
    (h : some id ∈ log.map Message.id) : CommittedAt log (seqOf log id) id := by
  refine ⟨(log.map Message.id).idxOf (some id), rfl, ?_⟩
  have hlt := List.idxOf_lt_length_iff.mpr h
  rw [List.getElem?_eq_getElem hlt, List.getElem_idxOf]

/-- The numbers of the output. -/
theorem mem_map_seqOf {log : List Message} (hdistinct : DistinctIds log) {ids : List String}
    (hlog : ∀ id ∈ ids, some id ∈ log.map Message.id) (seq : Nat) :
    seq ∈ ids.map (seqOf log) ↔ ∃ id ∈ ids, CommittedAt log seq id := by
  rw [List.mem_map]
  constructor
  · intro h
    obtain ⟨id, hid, rfl⟩ := h
    exact ⟨id, hid, committedAt_seqOf (hlog id hid)⟩
  · intro h
    obtain ⟨id, hid, hat⟩ := h
    exact ⟨id, hid, (committedAt_seqOf (hlog id hid)).seq_unique hdistinct hat⟩

theorem nodup_map_seqOf {log : List Message} {ids : List String} (hnodup : ids.Nodup)
    (hlog : ∀ id ∈ ids, some id ∈ log.map Message.id) : (ids.map (seqOf log)).Nodup := by
  apply (List.nodup_map_iff_inj_on hnodup).mpr
  intro id hid id' hid' heq
  have hat := committedAt_seqOf (hlog id hid)
  rw [heq] at hat
  exact hat.id_unique (committedAt_seqOf (hlog id' hid'))

theorem CommittedAt.bounds {log : List Message} {seq : Nat} {id : String}
    (h : CommittedAt log seq id) : 0 < seq ∧ seq ≤ log.length := by
  obtain ⟨index, rfl, hindex⟩ := h
  obtain ⟨hlt, -⟩ := List.getElem?_eq_some_iff.mp hindex
  rw [List.length_map] at hlt
  omega

/-- A range is recorded when it holds the output and nothing else. -/
theorem contiguousRemoteRange_iff {log : List Message} (hdistinct : DistinctIds log)
    (hbound : log.length < 2 ^ 64) {ids : List String} (hnodup : ids.Nodup)
    (hlog : ∀ id ∈ ids, some id ∈ log.map Message.id) {a b : Nat}
    (hfirst : ∃ id ∈ ids, CommittedAt log a id) (hlast : ∃ id ∈ ids, CommittedAt log b id)
    (hends : ∀ id ∈ ids, ∃ seq, CommittedAt log seq id ∧ a ≤ seq ∧ seq ≤ b)
    (range : MessageSeqRange) :
    contiguousRemoteRange (some a) (some b) ids = some range ↔ range.Holds log ids := by
  have hmem := mem_map_seqOf hdistinct hlog
  have hseqs : ∀ seq ∈ ids.map (seqOf log), a ≤ seq ∧ seq ≤ b := by
    intro seq hseq
    obtain ⟨id, hid, hat⟩ := (hmem seq).mp hseq
    obtain ⟨seq', hat', hle⟩ := hends id hid
    rw [hat.seq_unique hdistinct hat']
    exact hle
  have ha : 0 < a ∧ a ≤ log.length := by
    obtain ⟨id, -, hat⟩ := hfirst
    exact hat.bounds
  have hb : 0 < b ∧ b ≤ log.length := by
    obtain ⟨id, -, hat⟩ := hlast
    exact hat.bounds
  have hle : a ≤ b := (hseqs a ((hmem a).mpr hfirst)).2
  have hatoNat : (UInt64.ofNat a).toNat = a := UInt64.toNat_ofNat_of_lt' (Nat.lt_of_le_of_lt ha.2 hbound)
  have hbtoNat : (UInt64.ofNat b).toNat = b :=
    UInt64.toNat_ofNat_of_lt' (Nat.lt_of_le_of_lt hb.2 hbound)
  have hpos : 0 < UInt64.ofNat a := by
    rw [UInt64.lt_iff_toNat_lt, hatoNat]
    exact ha.1
  have hlele : UInt64.ofNat a ≤ UInt64.ofNat b := by
    rw [UInt64.le_iff_toNat_le, hatoNat, hbtoNat]
    exact hle
  have hlen : (MessageSeqRange.len ⟨UInt64.ofNat a, UInt64.ofNat b⟩).toNat = b - a + 1 := by
    unfold MessageSeqRange.len
    rw [UInt64.toNat_add, UInt64.toNat_sub_of_le _ _ hlele, hatoNat, hbtoNat]
    show (b - a + 1) % 2 ^ 64 = b - a + 1
    exact Nat.mod_eq_of_lt (by omega)
  have hall := length_eq_iff_mem (nodup_map_seqOf hnodup hlog) hle hseqs
  rw [List.length_map] at hall
  have hnew : contiguousRemoteRange (some a) (some b) ids =
      if ids.length = b - a + 1 then some ⟨UInt64.ofNat a, UInt64.ofNat b⟩ else none := by
    unfold contiguousRemoteRange MessageSeqRange.new
    rw [Option.bind_some, Option.bind_some, if_pos ⟨hpos, hlele⟩, Option.filter_some, hlen]
    by_cases hcount : ids.length = b - a + 1
    · rw [if_pos hcount, hcount, beq_self_eq_true]
      rfl
    · rw [if_neg hcount, if_neg]
      exact fun heq => hcount (beq_iff_eq.mp heq).symm
  rw [hnew]
  constructor
  · intro h
    split at h
    next hcount =>
      obtain rfl := Option.some.inj h
      refine ⟨hlele, ?_⟩
      intro seq
      show ((UInt64.ofNat a).toNat ≤ seq ∧ seq ≤ (UInt64.ofNat b).toNat) ↔ _
      rw [hatoNat, hbtoNat, ← hall.mp hcount seq]
      exact hmem seq
    next => cases h
  · intro h
    obtain ⟨hends', hholds⟩ := h
    rw [UInt64.le_iff_toNat_le] at hends'
    -- the range starts and ends where the output does
    have hfrom : range.fromSeq.toNat = a := by
      have hin := (hholds a).mpr hfirst
      have hout := hseqs _ ((hmem _).mpr ((hholds range.fromSeq.toNat).mp ⟨Nat.le_refl _, hends'⟩))
      omega
    have hto : range.toSeq.toNat = b := by
      have hin := (hholds b).mpr hlast
      have hout := hseqs _ ((hmem _).mpr ((hholds range.toSeq.toNat).mp ⟨hends', Nat.le_refl _⟩))
      omega
    have hcount : ids.length = b - a + 1 := by
      apply hall.mpr
      intro seq
      rw [hmem seq, ← hholds seq, hfrom, hto]
    rw [if_pos hcount, ← hfrom, ← hto, UInt64.ofNat_toNat, UInt64.ofNat_toNat]

/-! ## The checkpoint -/

section Materialize

variable {messages committed : List Message} {previous : Option RunRecord}
  {runIdentity : RunIdentity} {steps inputMessageCount : Nat}

/-- What the loop of a remote checkpoint reads. -/
def remoteContext (committed : List Message) (previous : Option RunRecord)
    (runIdentity : RunIdentity) (steps inputMessageCount : Nat) : RemoteAppendContext where
  committed := committed
  previousOutputIds := outputIds (previous.bind RunRecord.output)
  runId := runIdentity.runId
  stepIndex := if 0 < steps then some (UInt32.ofNat (steps - 1)) else none
  inputMessageCount := inputMessageCount

/-- What the loop of a remote checkpoint starts with. -/
def remoteStart (committed : List Message) (previous : Option RunRecord) : RemoteAppendState where
  delta := []
  nextAppendSeq := committed.length + 1
  outputMessageIds := outputIds (previous.bind RunRecord.output)
  outputFromSeq := ((previous.bind RunRecord.output).bind RunMessageOutput.range).map fun range =>
    range.fromSeq.toNat
  outputToSeq := ((previous.bind RunRecord.output).bind RunMessageOutput.range).map fun range =>
    range.toSeq.toNat
  hasNewOutput := false

/-- The state at the end of the loop. -/
def remoteEnd (messages committed : List Message) (previous : Option RunRecord)
    (runIdentity : RunIdentity) (steps inputMessageCount : Nat) : RemoteAppendState :=
  messages.zipIdx.foldl
    (appendRemoteMessage (remoteContext committed previous runIdentity steps inputMessageCount))
    (remoteStart committed previous)

theorem materializeRemote_fst :
    (materializeRemoteMessageAppend messages committed previous runIdentity steps
      inputMessageCount).1 =
      (remoteEnd messages committed previous runIdentity steps inputMessageCount).delta := rfl

/-- Without output the record keeps what it has. -/
theorem materializeRemote_snd_of_none
    (hends : (remoteEnd messages committed previous runIdentity steps
      inputMessageCount).outputFromSeq = none) :
    (materializeRemoteMessageAppend messages committed previous runIdentity steps
      inputMessageCount).2 = previous.bind RunRecord.output := by
  show (if (remoteEnd messages committed previous runIdentity steps
      inputMessageCount).outputFromSeq.isNone || _ then _ else _) = _
  rw [hends]
  rfl

theorem materializeRemote_snd_of_some {a : Nat}
    (h : (remoteEnd messages committed previous runIdentity steps
      inputMessageCount).outputMessageIds ≠ [])
    (hends : (remoteEnd messages committed previous runIdentity steps
      inputMessageCount).outputFromSeq = some a) :
    (materializeRemoteMessageAppend messages committed previous runIdentity steps
      inputMessageCount).2 =
      some
        { threadId := runIdentity.threadId
          range := contiguousRemoteRange (some a) (remoteEnd messages committed previous
            runIdentity steps inputMessageCount).outputToSeq (remoteEnd messages committed
            previous runIdentity steps inputMessageCount).outputMessageIds
          messageIds := (remoteEnd messages committed previous runIdentity steps
            inputMessageCount).outputMessageIds } := by
  have hempty : (remoteEnd messages committed previous runIdentity steps
      inputMessageCount).outputMessageIds.isEmpty = false := by
    rw [List.isEmpty_eq_false_iff]
    exact h
  show (if (remoteEnd messages committed previous runIdentity steps
      inputMessageCount).outputFromSeq.isNone || (_ && (remoteEnd messages committed previous
      runIdentity steps inputMessageCount).outputMessageIds.isEmpty) then _ else some
        (RunMessageOutput.mk _ (contiguousRemoteRange (remoteEnd messages committed previous
          runIdentity steps inputMessageCount).outputFromSeq _ _) _)) = _
  rw [hends, hempty, Bool.and_false]
  rfl

/-- The delta holds what is missing in the committed log, in the order of the list. -/
theorem materializeRemote_delta (hids : ∀ m ∈ messages, m.id.isSome = true) :
    (materializeRemoteMessageAppend messages committed previous runIdentity steps
      inputMessageCount).1.map Message.body =
      missing Message.id (committed.map Message.body) (messages.map Message.body) := by
  rw [materializeRemote_fst]
  unfold remoteEnd
  rw [delta_foldl_remote]
  show ([] ++ _).map Message.body = _
  have hbody : Message.body ∘ (remoteContext committed previous runIdentity steps
      inputMessageCount).appended = Message.body ∘ Prod.fst := by
    funext entry
    exact RemoteAppendContext.body_appended _ entry
  have hopen : ∀ entry ∈ messages.zipIdx, ((remoteContext committed previous runIdentity steps
      inputMessageCount).committedSeq entry.1).isNone =
        decide (entry.1.body.id ∉ (committed.map Message.body).map Message.id) := by
    intro entry hentry
    obtain ⟨id, hid⟩ := Option.isSome_iff_exists.mp
      (hids entry.1 (List.fst_mem_of_mem_zipIdx hentry))
    rw [Bool.eq_iff_iff, Option.isNone_iff_eq_none, decide_eq_true_eq, map_id_map_body]
    exact RemoteAppendContext.committedSeq_eq_none hid
  rw [List.nil_append, List.map_map, hbody, List.filter_congr hopen]
  have hentries : messages.map Message.body = messages.zipIdx.map (Message.body ∘ Prod.fst) := by
    rw [← List.map_map, List.zipIdx_map_fst]
  unfold missing
  rw [hentries, List.filter_map]
  apply congrArg
  apply List.filter_congr
  intro entry _
  exact decide_eq_decide.mpr Iff.rfl

end Materialize

end Remo
