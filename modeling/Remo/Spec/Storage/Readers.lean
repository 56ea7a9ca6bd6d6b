import Remo.ForStd.Inserted
import Remo.Spec.Storage.CommittedLog

/-!
# What the readers report

Writers number and check a message where it stands in the committed log. The readers
take the log through the filter for unpaired tool calls and number what is left;
`listMessageRecords` checks the numbered records again. Readers and writers agree as
long as nothing is retracted in front of a message.

## Key results

- `getElem?_strip`: where the filter puts the messages of a log
- `run_logs_readable_iff`: every log reads back exactly when retracted messages do not
  move a summary up into its own interval
- `run_one_seq_iff`: a message has one sequence number exactly when only the end of the
  log is retracted
-/

namespace Remo

/-! ## The filtered log -/

/-- The message is a tool message for a call that has an internal tool message in the
    log, and may be that message. -/
def retractedIn (log : List Message) (m : Message) : Bool :=
  m.role == .tool && m.toolCallId.any fun callId => decide (callId ∈ toolCallIdsAt .internal log)

/-- The filter keeps the message. -/
def keptIn (log : List Message) (m : Message) : Bool := !retractedIn log m

/-- What the filter leaves of a message, given the whole log. -/
def shownIn (log : List Message) (m : Message) : Message :=
  retainAnswered (toolCallIdsAt .all log) (toolCallIdsAt .internal log) m

/-- The filter keeps what is not retracted: an internal tool message retracts its own call. -/
theorem keepsInView_eq_keptIn {log : List Message} {m : Message} (hm : m ∈ log) :
    keepsInView (toolCallIdsAt .internal log) m = keptIn log m := by
  unfold keepsInView keptIn retractedIn
  by_cases hrole : m.role = .tool
  · cases hcall : m.toolCallId with
    | none => simp
    | some callId =>
      cases hvisibility : m.visibility with
      | all => simp [hrole]
      | internal =>
        have hmem : callId ∈ toolCallIdsAt .internal log :=
          mem_toolCallIdsAt.mpr ⟨m, hm, hrole, hvisibility, hcall⟩
        simp [hrole, hmem]
  · simp [hrole]

@[simp] theorem retainAnswered_mark (answered retracted : List String) (m : Message) :
    (retainAnswered answered retracted m).mark = m.mark := by
  unfold retainAnswered
  repeat' split <;> try rfl

@[simp] theorem keepsInView_retainAnswered (answered retracted : List String) (m : Message) :
    keepsInView retracted (retainAnswered answered retracted m) = keepsInView retracted m := by
  unfold keepsInView
  rw [retainAnswered_role, retainAnswered_toolCallId, retainAnswered_visibility]

/-- The filter first drops messages, then takes calls out of those that are left. -/
theorem strip_eq (log : List Message) :
    stripUnpairedToolCallsFromView log = (log.filter (keptIn log)).map (shownIn log) := by
  unfold stripUnpairedToolCallsFromView
  dsimp only
  rw [List.filter_map]
  apply congrArg
  apply List.filter_congr
  intro m hm
  exact (keepsInView_retainAnswered _ _ m).trans (keepsInView_eq_keptIn hm)

/-- Where the filter puts the messages of a log. -/
theorem getElem?_strip {log : List Message} {k : Nat} {x : Message} :
    (stripUnpairedToolCallsFromView log)[k]? = some x ↔
      ∃ i m, log[i]? = some m ∧ keptIn log m = true ∧
        (log.take i).countP (keptIn log) = k ∧ x = shownIn log m := by
  rw [strip_eq, List.getElem?_map, Option.map_eq_some_iff]
  constructor
  · rintro ⟨m, hm, hx⟩
    obtain ⟨i, hi, hkept, hk⟩ := exists_of_getElem?_filter hm
    exact ⟨i, m, hi, hkept, hk, hx.symm⟩
  · rintro ⟨i, m, hi, hkept, rfl, hx⟩
    exact ⟨m, getElem?_filter_countP hi hkept, hx.symm⟩

/-- The filter leaves a message well shaped. -/
theorem WellShaped.retainAnswered {m : Message} (h : WellShaped m)
    (answered retracted : List String) : WellShaped (retainAnswered answered retracted m) := by
  by_cases hrole : m.role = .assistant
  · have hcalls := toolCalls_retainAnswered answered retracted m hrole
    constructor
    case id => rw [retainAnswered_id]; exact h.id
    case tool => rw [retainAnswered_role, retainAnswered_toolCallId]; exact h.tool
    case nonTool => rw [retainAnswered_role, retainAnswered_toolCallId]; exact h.nonTool
    case toolCalls =>
      rw [retainAnswered_role]
      exact fun hne => absurd hrole hne
    case calls =>
      rw [hcalls]
      intro call hcall
      exact h.calls call (List.mem_of_mem_filter hcall)
    case callIds =>
      rw [hcalls]
      exact (List.filter_sublist.map ToolCall.id).nodup h.callIds
  · rw [retainAnswered_of_ne answered retracted m hrole]
    exact h

/-- The ids of the filtered view are ids of the log, in its order. -/
theorem logIds_strip_sublist (log : List Message) :
    (logIds (stripUnpairedToolCallsFromView log)).Sublist (logIds log) := by
  have hids : logIds (stripUnpairedToolCallsFromView log) = logIds (log.filter (keptIn log)) := by
    rw [strip_eq, logIds, List.filterMap_map]
    apply List.filterMap_congr
    intro m _
    exact retainAnswered_id _ _ m
  rw [hids]
  exact List.filter_sublist.filterMap Message.id

/-! ## Summaries behind the filter -/

/-- In front of no summary are more messages retracted than lie between the summary and
    the end of its interval. -/
def SummariesFit (log : List Message) : Prop :=
  ∀ i m mark, log[i]? = some m → retractedIn log m = false → m.mark = some mark →
    mark.toSeq + (log.take i).countP (retractedIn log) ≤ i

/-- The messages in front of a position are kept or retracted. -/
theorem countP_keptIn_add {log : List Message} {i : Nat} {m : Message} (h : log[i]? = some m) :
    (log.take i).countP (keptIn log) + (log.take i).countP (retractedIn log) = i := by
  have hlt : i < log.length := (List.getElem?_eq_some_iff.mp h).1
  have hlength := (log.take i).length_eq_countP_add_countP (keptIn log)
  rw [List.length_take_of_le hlt.le] at hlength
  have hretracted : (fun m => decide ¬keptIn log m = true) = retractedIn log := by
    funext m
    simp [keptIn]
  rw [hretracted] at hlength
  exact hlength.symm

/-- A view of a well-formed log is well formed when its summaries fit. -/
theorem wellFormedLog_strip_iff {log : List Message} (h : WellFormedLog log) :
    WellFormedLog (stripUnpairedToolCallsFromView log) ↔ SummariesFit log := by
  constructor
  · intro hview i m mark hi hkept hmark
    have hkept' : keptIn log m = true := by simp [keptIn, hkept]
    have hvalid := hview.valid _ _ (getElem?_strip.mpr ⟨i, m, hi, hkept', rfl, rfl⟩)
    have hfits := (validateMessageForAppend_iff.mp hvalid).2 mark
      ((retainAnswered_mark _ _ m).trans hmark)
    have hcount := countP_keptIn_add hi
    omega
  · intro hfit
    constructor
    case valid =>
      intro k x hk
      obtain ⟨i, m, hi, hkept, rfl, rfl⟩ := getElem?_strip.mp hk
      obtain ⟨hshape, hfits⟩ := validateMessageForAppend_iff.mp (h.valid i m hi)
      apply validateMessageForAppend_iff.mpr
      refine ⟨hshape.retainAnswered _ _, fun mark hmark => ?_⟩
      have hmark' : m.mark = some mark := (retainAnswered_mark _ _ m).symm.trans hmark
      have hle := hfit i m mark hi (by simpa [keptIn] using hkept) hmark'
      have hcount := countP_keptIn_add hi
      obtain ⟨hone, hord, -⟩ := hfits mark hmark'
      omega
    case nodup => exact (logIds_strip_sublist log).nodup h.nodup

/-! ## Records -/

theorem MessageRecord.fromMessage_message {threadId : String} {seq : Nat} {m : Message}
    {id : String} (h : m.id = some id) (generated : Uuid) :
    (MessageRecord.fromMessage threadId seq m generated).message = m := by
  show { m with id := some (m.id.getD generated.text) } = m
  rw [h, Option.getD_some, ← h]

/-- The records of well-shaped messages carry the messages as they are. -/
theorem committedRecords_messages {view : List Message} (h : ∀ m ∈ view, WellShaped m)
    (threadId : String) (generated : Nat → Uuid) :
    (committedRecords threadId view generated).map MessageRecord.message = view := by
  apply List.ext_getElem?
  intro k
  unfold committedRecords
  rw [List.getElem?_map, List.getElem?_mapIdx]
  cases hk : view[k]? with
  | none => rfl
  | some m =>
    obtain ⟨id, hid, -⟩ := (h m (List.mem_of_getElem? hk)).id
    simp [MessageRecord.fromMessage_message hid]

/-- A record passes its check under its own number. -/
theorem validateCommittedMessageRecord_fromMessage {threadId : String} {seq : Nat} {m : Message}
    (generated : Uuid) :
    validateCommittedMessageRecord threadId seq
      (MessageRecord.fromMessage threadId seq m generated) = .ok () := by
  simp [validateCommittedMessageRecord, MessageRecord.fromMessage, pure, Except.pure]

/-- Records numbered from 1 pass their checks when their messages do. -/
theorem validateCommittedMessageRecords_iff {view : List Message} (h : ∀ m ∈ view, WellShaped m)
    (threadId : String) (generated : Nat → Uuid) :
    validateCommittedMessageRecords threadId (committedRecords threadId view generated) =
      .ok () ↔ WellFormedLog view := by
  unfold validateCommittedMessageRecords
  rw [bind_ok, committedRecords_messages h, InMemoryStore.validateCommittedMessages_iff]
  apply and_iff_right
  apply forM_ok.mpr
  intro p hp
  obtain ⟨k, hk⟩ := List.mem_iff_getElem?.mp hp
  rw [List.getElem?_zipIdx, committedRecords, List.getElem?_mapIdx, Option.map_map,
    Option.map_eq_some_iff] at hk
  obtain ⟨m, -, rfl⟩ := hk
  show validateCommittedMessageRecord threadId (0 + k + 1) _ = _
  rw [Nat.zero_add]
  exact validateCommittedMessageRecord_fromMessage _

namespace InMemoryStore

/-! ## Every log reads back -/

variable {s : InMemoryStore} {threadId : String}

theorem loadMessages_eq (h : s.LogsWellFormed) :
    s.loadMessages threadId =
      .ok ((s.messages.get? threadId).map stripUnpairedToolCallsFromView) := by
  have hlog := validateCommittedMessages_iff.mpr (h threadId)
  unfold committed at hlog
  unfold loadMessages
  cases hget : s.messages.get? threadId with
  | none => rfl
  | some messages =>
    rw [hget, Option.getD_some] at hlog
    dsimp only
    rw [hlog]
    rfl

theorem loadCommittedMessages_eq (h : s.LogsWellFormed) :
    s.loadCommittedMessages threadId = .ok (s.messages.get? threadId) := by
  have hlog := validateCommittedMessages_iff.mpr (h threadId)
  unfold committed at hlog
  unfold loadCommittedMessages
  cases hget : s.messages.get? threadId with
  | none => rfl
  | some messages =>
    rw [hget, Option.getD_some] at hlog
    dsimp only
    rw [hlog]
    rfl

/-- The checked records of a thread are listed when its summaries fit. -/
theorem listMessageRecords_isOk_iff (h : s.LogsWellFormed) (query : MessageQuery)
    (generated : Nat → Uuid) :
    (∃ page, s.listMessageRecords threadId query generated = .ok page) ↔
      SummariesFit (s.committed threadId) := by
  have hlog := h threadId
  unfold committed at hlog ⊢
  unfold listMessageRecords
  cases hget : s.messages.get? threadId with
  | none =>
    apply iff_of_true ⟨_, rfl⟩
    intro i m mark hi
    cases hi
  | some messages =>
    rw [hget, Option.getD_some] at hlog
    rw [Option.getD_some, ← wellFormedLog_strip_iff hlog]
    have hshape : ∀ m ∈ stripUnpairedToolCallsFromView messages, WellShaped m := by
      intro x hx
      obtain ⟨m, hm, rfl, -⟩ := mem_strip.mp hx
      exact (hlog.wellShaped hm).retainAnswered _ _
    rw [← validateCommittedMessageRecords_iff hshape threadId generated]
    have hvalid := validateCommittedMessages_iff.mpr hlog
    dsimp only
    simp only [bind_ok]
    constructor
    · rintro ⟨page, -, hrecords, -⟩
      exact hrecords
    · intro hrecords
      exact ⟨_, hvalid, hrecords, rfl⟩

/-- All readers of the messages of a thread return. -/
structure Readable (s : InMemoryStore) (threadId : String) : Prop where
  load : ∃ messages, s.loadMessages threadId = .ok messages
  committed : ∃ messages, s.loadCommittedMessages threadId = .ok messages
  list : ∀ query generated, ∃ page, s.listMessageRecords threadId query generated = .ok page

/-- A query for everything. -/
def anyQuery : MessageQuery where
  offset := 0
  limit := 200
  after := none
  before := none
  order := .asc
  visibility := .any
  runId := none

theorem readable_iff (h : s.LogsWellFormed) :
    Readable s threadId ↔ SummariesFit (s.committed threadId) := by
  constructor
  · intro hread
    exact (listMessageRecords_isOk_iff h anyQuery fun _ => .generated).mp (hread.list _ _)
  · intro hfit
    constructor
    case load => exact ⟨_, loadMessages_eq h⟩
    case committed => exact ⟨_, loadCommittedMessages_eq h⟩
    case list =>
      intro query generated
      exact (listMessageRecords_isOk_iff h query generated).mpr hfit

/-- Along every run of the store a log reads back at all times exactly when retracted
    messages never move one of its summaries up into its own interval. -/
theorem run_logs_readable_iff (ops : List StoreOp) (threadId : String) :
    (∀ pre, pre <+: ops → Readable (storeMachine.run new pre) threadId) ↔
      ∀ pre, pre <+: ops → SummariesFit ((storeMachine.run new pre).committed threadId) := by
  apply forall_congr'
  intro pre
  apply imp_congr_right
  intro _
  exact readable_iff (run_logs pre)

/-- A call, its pending result and the marker that retracts both. -/
def retractedCall : List Message :=
  [.user "question" "m-1",
    { Message.user "calling" "m-2" with
      role := .assistant
      toolCalls := some [⟨"call-1", "search", ⟨"\x7b\x7d"⟩⟩] },
    { Message.user "waiting" "m-3" with
      role := .tool
      toolCallId := some "call-1" },
    { Message.user "abandoned" "m-4" with
      role := .tool
      toolCallId := some "call-1"
      visibility := .internal }]

/-- Retraction moves a summary of the whole log up into its own interval. -/
theorem listMessageRecords_rejects_summary :
    let summary : Message :=
      { Message.user "summary" "m-5" with metadata := some ⟨none, none, some ⟨1, 4⟩⟩ }
    let s := storeMachine.run new
      [.appendMessageRecords "t" (retractedCall ++ [summary]) fun _ => .generated]
    ¬Readable s "t" ∧ s.committed "t" = retractedCall ++ [summary] := by
  intro summary s
  constructor
  · intro hread
    obtain ⟨page, hpage⟩ := hread.list anyQuery fun _ => .generated
    have hfails : (s.listMessageRecords "t" anyQuery fun _ => .generated).isOk = false := by decide
    rw [hpage] at hfails
    cases hfails
  · decide

/-! ## One sequence number per message -/

/-- A reader reports the record for the thread. -/
inductive Reported (s : InMemoryStore) (threadId : String) (r : MessageRecord) : Prop where
  | list (query : MessageQuery) (generated : Nat → Uuid) (page : MessagePage) :
      s.listMessageRecords threadId query generated = .ok page → r ∈ page.records →
        Reported s threadId r
  | load (generated : Nat → Uuid) (records : List MessageRecord) :
      s.loadMessageRecords threadId generated = .ok (some records) → r ∈ records →
        Reported s threadId r
  | range (range : MessageSeqRange) (generated : Nat → Uuid) (records : List MessageRecord) :
      s.loadMessageRecordsRange threadId range generated = .ok records → r ∈ records →
        Reported s threadId r

/-- The record has the 1-based position of its message in the log. -/
def AtPosition (log : List Message) (r : MessageRecord) : Prop :=
  ∃ i m, log[i]? = some m ∧ m.id = some r.messageId ∧ r.seq = i + 1

/-- Behind a retracted message there are only retracted messages. -/
def RetractsTail (log : List Message) : Prop :=
  log.Pairwise fun a b => retractedIn log a = true → retractedIn log b = true

theorem mem_paginate {records : List MessageRecord} {query : MessageQuery} {r : MessageRecord}
    (h : r ∈ (paginateMessageRecords records query).records) : r ∈ records := by
  have hsorted := List.mem_of_mem_drop (List.mem_of_mem_take h)
  apply List.mem_of_mem_filter
  cases horder : query.normalized.order with
  | asc =>
    simp only [horder] at hsorted
    exact (List.mem_insertionSort _).mp hsorted
  | desc =>
    simp only [horder] at hsorted
    exact (List.mem_insertionSort _).mp hsorted

theorem loadMessageRecords_eq (h : s.LogsWellFormed) (generated : Nat → Uuid) :
    s.loadMessageRecords threadId generated =
      .ok ((s.messages.get? threadId).map fun messages =>
        committedRecords threadId (stripUnpairedToolCallsFromView messages) generated) := by
  unfold loadMessageRecords
  rw [loadMessages_eq h]
  show Except.ok (Option.map _ (Option.map _ _)) = _
  rw [Option.map_map]
  rfl

/-- The readers report the records of the filtered view. -/
theorem reported_iff (h : s.LogsWellFormed) {r : MessageRecord} :
    Reported s threadId r ↔
      ∃ generated, r ∈ committedRecords threadId
        (stripUnpairedToolCallsFromView (s.committed threadId)) generated := by
  constructor
  · intro hr
    unfold committed
    cases hr with
    | list query generated page hpage hmem =>
      unfold listMessageRecords at hpage
      cases hget : s.messages.get? threadId with
      | none =>
        rw [hget] at hpage
        cases hpage
        cases hmem
      | some messages =>
        rw [hget] at hpage
        dsimp only at hpage
        simp only [bind_ok] at hpage
        obtain ⟨-, -, heq⟩ := hpage
        cases heq
        exact ⟨generated, mem_paginate hmem⟩
    | load generated records hrecords hmem =>
      rw [loadMessageRecords_eq h] at hrecords
      cases hget : s.messages.get? threadId with
      | none =>
        rw [hget] at hrecords
        cases hrecords
      | some messages =>
        rw [hget] at hrecords
        cases hrecords
        exact ⟨generated, hmem⟩
    | range range generated records hrecords hmem =>
      unfold loadMessageRecordsRange at hrecords
      rw [loadMessageRecords_eq h] at hrecords
      cases hrecords
      have hmem' := List.mem_of_mem_filter hmem
      cases hget : s.messages.get? threadId with
      | none =>
        rw [hget] at hmem'
        cases hmem'
      | some messages =>
        rw [hget] at hmem'
        exact ⟨generated, hmem'⟩
  · rintro ⟨generated, hmem⟩
    unfold committed at hmem
    cases hget : s.messages.get? threadId with
    | none =>
      rw [hget] at hmem
      cases hmem
    | some messages =>
      rw [hget] at hmem
      apply Reported.load generated _ _ hmem
      rw [loadMessageRecords_eq h, hget]
      rfl

/-- Two messages with one id stand at one position. -/
theorem position_unique {log : List Message} (h : WellFormedLog log) {i j : Nat}
    {m m' : Message} (hi : log[i]? = some m) (hj : log[j]? = some m') (hid : m.id = m'.id) :
    i = j := by
  have hids : log.map Message.id = (logIds log).map some := by
    have hsome : ∀ m ∈ log, ∃ id, m.id = some id := by
      intro m hm
      obtain ⟨id, hid, -⟩ := (h.wellShaped hm).id
      exact ⟨id, hid⟩
    clear h hi hj
    induction log with
    | nil => rfl
    | cons m log ih =>
      obtain ⟨id, hid⟩ := hsome m List.mem_cons_self
      have htail := ih fun m' hm' => hsome m' (List.mem_cons_of_mem _ hm')
      rw [List.map_cons, htail, logIds, logIds, List.filterMap_cons_some hid, hid]
      rfl
  have hnodup : (log.map Message.id).Nodup := by
    rw [hids]
    exact h.nodup.map (Option.some_injective _)
  have hlt : i < (log.map Message.id).length := by
    rw [List.length_map]
    exact (List.getElem?_eq_some_iff.mp hi).1
  apply (List.getElem?_inj hlt hnodup).mp
  rw [List.getElem?_map, List.getElem?_map, hi, hj]
  exact congrArg some hid

/-- The reported records are numbered as they stand in the log exactly when only the end
    of the log is retracted. -/
theorem reported_atPosition_iff (h : s.LogsWellFormed) :
    (∀ r, Reported s threadId r → AtPosition (s.committed threadId) r) ↔
      RetractsTail (s.committed threadId) := by
  have hlog := h threadId
  simp only [reported_iff h]
  generalize s.committed threadId = log at hlog
  have htail : RetractsTail log ↔ log.filter (keptIn log) <+: log := by
    rw [filter_prefix_iff]
    apply List.Pairwise.iff
    intro a b
    unfold keptIn
    cases retractedIn log a <;> cases retractedIn log b <;> simp
  rw [htail]
  constructor
  · intro hreported
    apply List.prefix_iff_getElem?.mpr
    intro k hk
    obtain ⟨i, hi, hkept, hcount⟩ := exists_of_getElem?_filter (List.getElem?_eq_getElem hk)
    generalize (log.filter (keptIn log))[k] = m at hi hkept
    have hview : (stripUnpairedToolCallsFromView log)[k]? = some (shownIn log m) :=
      getElem?_strip.mpr ⟨i, m, hi, hkept, hcount, rfl⟩
    obtain ⟨id, hid, -⟩ := (hlog.wellShaped (List.mem_of_getElem? hi)).id
    -- the record of the message has the number of its place in the view
    have hmem : MessageRecord.fromMessage threadId (k + 1) (shownIn log m) .generated ∈
        committedRecords threadId (stripUnpairedToolCallsFromView log) fun _ => .generated := by
      obtain ⟨hlt, hget⟩ := List.getElem?_eq_some_iff.mp hview
      apply List.mem_mapIdx.mpr
      exact ⟨k, hlt, by rw [hget]⟩
    obtain ⟨j, m', hj, hid', hseq⟩ := hreported _ ⟨_, hmem⟩
    have hshown : (shownIn log m).id = some id := (retainAnswered_id _ _ m).trans hid
    have hsame : m'.id = m.id := by
      rw [hid', hid]
      show some ((shownIn log m).id.getD _) = _
      rw [hshown]
      rfl
    obtain rfl : i = j := position_unique hlog hi hj hsame.symm
    have hki : k = i := Nat.succ.inj hseq
    rw [hki]
    exact hi
  · rintro hfront r ⟨generated, hmem⟩
    obtain ⟨k, hlt, rfl⟩ := List.mem_mapIdx.mp hmem
    have hview := List.getElem?_eq_getElem hlt
    generalize (stripUnpairedToolCallsFromView log)[k] = x at hview
    rw [strip_eq, List.getElem?_map, Option.map_eq_some_iff] at hview
    obtain ⟨m, hfilter, rfl⟩ := hview
    have hk : log[k]? = some m := by
      obtain ⟨hlt', hget⟩ := List.getElem?_eq_some_iff.mp hfilter
      have hsame := List.prefix_iff_getElem?.mp hfront k hlt'
      rw [hget] at hsame
      exact hsame
    obtain ⟨id, hid, -⟩ := (hlog.wellShaped (List.mem_of_getElem? hk)).id
    have hshown : (shownIn log m).id = some id := (retainAnswered_id _ _ m).trans hid
    refine ⟨k, m, hk, ?_, rfl⟩
    show m.id = some ((shownIn log m).id.getD _)
    rw [hshown, hid]
    rfl

theorem AtPosition.mono {log log' : List Message} {r : MessageRecord} (h : AtPosition log r)
    (hfront : log <+: log') : AtPosition log' r := by
  obtain ⟨i, m, hi, hid, hseq⟩ := h
  refine ⟨i, m, ?_, hid, hseq⟩
  obtain ⟨hlt, hget⟩ := List.getElem?_eq_some_iff.mp hi
  rw [List.prefix_iff_getElem?.mp hfront i hlt, hget]

/-- Records of one message are numbered alike when both are numbered by their position. -/
theorem AtPosition.seq_eq {log : List Message} (hlog : WellFormedLog log) {r r' : MessageRecord}
    (h : AtPosition log r) (h' : AtPosition log r') (hid : r.messageId = r'.messageId) :
    r.seq = r'.seq := by
  obtain ⟨i, m, hi, hm, hseq⟩ := h
  obtain ⟨j, m', hj, hm', hseq'⟩ := h'
  have hij : i = j := position_unique hlog hi hj (by rw [hm, hm', hid])
  rw [hseq, hseq', hij]

/-- A call returns the records of the messages it commits under their positions. -/
theorem returnedRecords_atPosition {s : InMemoryStore} (h : s.LogsWellFormed) {op : StoreOp}
    (hop : op.appends = true) {threadId : String} {r : MessageRecord}
    (hr : r ∈ returnedRecords threadId (storeStep s op)) :
    AtPosition ((callStore op s).2.committed threadId) r := by
  obtain ⟨delta, hstep⟩ := callStore_logStep s hop threadId
  have hcommitted : (callStore op s).2.committed threadId = s.committed threadId ++ delta :=
    hstep.committed
  obtain ⟨i, m, generated, hi, rfl⟩ := hstep.records r hr
  have hget : ((callStore op s).2.committed threadId)[(s.committed threadId).length + i]? =
      some m := by
    rw [hcommitted, List.getElem?_append_right (Nat.le_add_right _ _), Nat.add_sub_cancel_left]
    exact hi
  obtain ⟨id, hid, -⟩ := ((callStore_logs h op threadId).wellShaped (List.mem_of_getElem? hget)).id
  refine ⟨_, m, hget, ?_, ?_⟩
  · show m.id = some (m.id.getD _)
    rw [hid]
    rfl
  · show (s.committed threadId).length + 1 + i = (s.committed threadId).length + i + 1
    omega

/-- Along a run, a message has one sequence number: its position in the log, which is
    what the call that committed it returned and what the readers report at all times. -/
structure OneSeq (s : InMemoryStore) (ops : List StoreOp) (threadId : String) : Prop where
  position : ∀ pre, pre <+: ops → ∀ r, Reported (storeMachine.run s pre) threadId r →
    AtPosition ((storeMachine.run s pre).committed threadId) r
  returned : ∀ pre, pre <+: ops → ∀ r, Reported (storeMachine.run s pre) threadId r →
    ∀ t ∈ storeMachine.trace s pre, ∀ r' ∈ returnedRecords threadId t,
      r'.messageId = r.messageId → r'.seq = r.seq
  stable : ∀ pre pre', pre <+: pre' → pre' <+: ops →
    ∀ r r', Reported (storeMachine.run s pre) threadId r →
      Reported (storeMachine.run s pre') threadId r' → r.messageId = r'.messageId → r.seq = r'.seq

/-- From any reachable state, appending calls keep one sequence number per message
    exactly when at all times only the end of the log is retracted. -/
theorem run_one_seq_iff (setup ops : List StoreOp) (hops : ∀ op ∈ ops, op.appends = true)
    (threadId : String) :
    OneSeq (storeMachine.run new setup) ops threadId ↔
      ∀ pre, pre <+: ops →
        RetractsTail ((storeMachine.run (storeMachine.run new setup) pre).committed threadId) := by
  have hlogs : ∀ pre, (storeMachine.run (storeMachine.run new setup) pre).LogsWellFormed :=
    fun pre => run_logs_from (run_logs setup) pre
  generalize storeMachine.run new setup = s at hlogs ⊢
  constructor
  · intro h pre hpre
    exact (reported_atPosition_iff (hlogs pre)).mp (h.position pre hpre)
  · intro htail
    have hposition := fun pre hpre => (reported_atPosition_iff (hlogs pre)).mpr (htail pre hpre)
    constructor
    case position => exact hposition
    case returned =>
      intro pre hpre r hr t ht r' hr' hid
      obtain ⟨heq, hevent⟩ := eq_storeStep_of_mem ht
      obtain ⟨before, post, hsplit, hbefore, -, hafter⟩ := storeMachine.mem_trace ht
      have hcalls : ∀ op ∈ pre, op.appends = true := fun op hop => hops op (hpre.subset hop)
      have hstate : t.before.LogsWellFormed := by
        rw [hbefore]
        exact hlogs before
      -- the log the call left is a prefix of the one the record is read from
      have hrun : storeMachine.run s pre = storeMachine.run t.after post := by
        rw [hsplit, Machine.run_append, ← hbefore, hafter]
        rfl
      have hgrow : LogsGrow t.after (storeMachine.run s pre) := by
        rw [hrun]
        apply run_logsGrow
        intro op hop
        apply hcalls
        rw [hsplit]
        exact List.mem_append_right _ (List.mem_cons_of_mem _ hop)
      rw [heq] at hr'
      have hat := returnedRecords_atPosition hstate (hcalls _ hevent) hr'
      rw [← storeStep_after, ← heq] at hat
      exact (hat.mono (hgrow threadId)).seq_eq (hlogs pre threadId) (hposition pre hpre r hr) hid
    case stable =>
      intro pre pre' hpre hpre' r r' hr hr' hid
      obtain ⟨post, rfl⟩ := hpre
      have hat := hposition pre ((List.prefix_append pre post).trans hpre') r hr
      have hgrow : LogsGrow (storeMachine.run s pre) (storeMachine.run s (pre ++ post)) := by
        rw [Machine.run_append]
        apply run_logsGrow
        intro op hop
        exact hops op (hpre'.subset (List.mem_append_right _ hop))
      exact (hat.mono (hgrow threadId)).seq_eq (hlogs _ threadId) (hposition _ hpre' r' hr') hid

/-- Messages of the user are never retracted. -/
theorem run_one_seq_of_append :
    let ops : List StoreOp := [.appendMessageRecords "t" [.user "first" "m-1"] fun _ => .generated]
    OneSeq (storeMachine.run new []) ops "t" := by
  intro ops
  apply (run_one_seq_iff [] ops (by decide) "t").mpr
  intro pre hpre
  rcases List.prefix_cons_iff.mp hpre with rfl | ⟨rest, rfl, hrest⟩
  · exact List.Pairwise.nil
  · rw [List.prefix_nil.mp hrest]
    exact List.pairwise_singleton _ _

/-- Behind a retracted call the readers report other numbers than the append returned. -/
theorem retraction_renumbers :
    let first : StoreOp := .appendMessageRecords "t" retractedCall fun _ => .generated
    let second : StoreOp := .appendMessageRecords "t" [.user "next" "m-5"] fun _ => .generated
    let record := fun seq => MessageRecord.fromMessage "t" seq (.user "next" "m-5") .generated
    (callStore second (storeMachine.run new [first])).1 = .ok (.records [record 5]) ∧
      Reported (storeMachine.run new [first, second]) "t" (record 3) ∧
      ¬OneSeq new [first, second] "t" := by
  intro first second record
  have hrecords : ((storeMachine.run new [first, second]).loadMessageRecords "t"
      fun _ => .generated) = .ok (some (committedRecords "t"
        [.user "question" "m-1", { Message.user "calling" "m-2" with role := .assistant },
          .user "next" "m-5"] fun _ => .generated)) := by decide
  have hreported : Reported (storeMachine.run new [first, second]) "t" (record 3) :=
    Reported.load _ _ hrecords (by decide)
  refine ⟨by decide, hreported, fun h => ?_⟩
  obtain ⟨i, m, hi, hid, hseq⟩ := h.position _ List.prefix_rfl _ hreported
  have hi2 : i = 2 := (Nat.succ.inj hseq).symm
  subst hi2
  have hthird : ((storeMachine.run new [first, second]).committed "t")[2]?.bind Message.id =
      some "m-3" := by decide
  rw [hi, Option.bind_some, hid] at hthird
  exact absurd hthird (by decide)

end InMemoryStore

end Remo
