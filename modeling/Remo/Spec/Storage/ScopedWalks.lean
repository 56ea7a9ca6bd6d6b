import Mathlib.Logic.Equiv.List
import Remo.Spec.Storage.CursorWalks
import Remo.Spec.Storage.Readers
import Remo.Spec.Storage.Transparency

/-!
# Walks through the scoped store

The scoped store scans its threads and pages through what it loaded, so a walk over the threads of
a scope visits them once. A message query that names a run goes to the inner store under the run
id of the scope: the cursor of a page is bound to that id, and records are found by it alone.

## Key results

- `scanThreads_perm`: the scan loads the threads of the scope
- `scopedMessages_visitsOnce_iff`: when a walk over the messages of a scoped thread is complete
- `visitsOnce_iff`: the listings a walk of which visits everything once
-/

namespace Remo

open OffsetPaging

/-! ## What a store holds -/

/-- Every thread is stored under its own id, and every log was checked when it was written. -/
structure InMemoryStore.Listable (s : InMemoryStore) : Prop where
  keyed : ∀ id thread, s.threads.get? id = some thread → thread.id = id
  logs : s.LogsWellFormed

/-- The calls of the store lead to such stores. -/
theorem InMemoryStore.run_listable (ops : List StoreOp) : (storeMachine.run new ops).Listable := by
  have hthreads : Hierarchical (storeMachine.run new ops).threads := by
    apply storeMachine.run_invariant (fun s => Hierarchical s.threads)
    · intro s op h
      exact callStore_hierarchical h op
    · exact hierarchical_empty
  exact ⟨hthreads.keyed, run_logs ops⟩

namespace ScopedThreadRunStore

variable (self : ScopedThreadRunStore) (inner : InMemoryStore)

/-! ## The listing of a scope -/

theorem startsWith_scopePrefix (id : String) :
    Str.startsWith self.scopePrefix id = (self.unscopedId id).isSome := by
  have hstart : self.scopePrefix.toList = self.scopeId.keyStart.toList := by
    simp [scopePrefix, scopedKey]
  unfold Str.startsWith unscopedId unscopedKey Str.stripPrefix
  rw [hstart]
  by_cases h : self.scopeId.keyStart.toList <+: id.toList
  · rw [if_pos h, decide_eq_true h]
    rfl
  · rw [if_neg h, decide_eq_false h]
    rfl

/-- A scope reads its own keys back, and no key of another scope starts as its keys do. -/
theorem scopedKeys_apart (scope : ScopeId) (value : String) :
    unscopedKey self.scopeId (scopedKey scope value) =
        (if self.scopeId = scope then some value else none) ∧
      (Str.startsWith self.scopePrefix (scopedKey scope value) = true ↔ self.scopeId = scope) ∧
      ∀ other, scopedKey self.scopeId other = scopedKey scope value ↔
        self.scopeId = scope ∧ other = value := by
  have hread := unscopedKey_scopedKey self.scopeId scope value
  refine ⟨hread, ?_, ?_⟩
  · rw [startsWith_scopePrefix]
    show (unscopedKey self.scopeId (scopedKey scope value)).isSome = true ↔ _
    rw [hread]
    by_cases hscope : self.scopeId = scope
    · rw [if_pos hscope]
      exact ⟨fun _ => hscope, fun _ => rfl⟩
    · rw [if_neg hscope]
      exact ⟨fun h => absurd h Bool.false_ne_true, fun h => absurd h hscope⟩
  · intro other
    constructor
    · intro heq
      have hown := unscopedKey_scopedKey self.scopeId self.scopeId other
      rw [heq, hread, if_pos rfl] at hown
      by_cases hscope : self.scopeId = scope
      · rw [if_pos hscope] at hown
        exact ⟨hscope, (Option.some.inj hown).symm⟩
      · rw [if_neg hscope] at hown
        cases hown
    · intro h
      rw [h.1, h.2]

/-- A key of the scope is the key of the id it is read as. -/
theorem scopedId_of_unscopedId {key id : String} (h : self.unscopedId key = some id) :
    self.scopedId id = key := by
  unfold unscopedId unscopedKey Str.stripPrefix at h
  split at h
  · rename_i hstart
    obtain ⟨rest, hrest⟩ := hstart
    rw [Option.some.injEq] at h
    subst h
    apply String.toList_inj.mp
    simp [scopedId, scopedKey, ← hrest]
  · cases h

/-- The stored threads with a key of the scope, in the order of the listing. -/
def scopeThreads : List Thread :=
  (sortThreadsByRecentActivity inner.threads.values).filter fun thread =>
    (self.unscopedId thread.id).isSome

/-- The ids of those threads in the scope. -/
def scopeIds : List String :=
  (self.scopeThreads inner).map fun thread => (self.unscopedId thread.id).getD thread.id

theorem matchingThreads_scopeQuery (offset limit : Nat) :
    matchingThreads inner.threads.values (self.scopeQuery offset limit) =
      self.scopeThreads inner := by
  unfold matchingThreads scopeThreads
  apply List.filter_congr
  intro thread _
  have hmatches : (self.scopeQuery offset limit).matchesThread thread =
      if !Str.startsWith self.scopePrefix thread.id then false else true := rfl
  rw [hmatches, startsWith_scopePrefix]
  cases (self.unscopedId thread.id).isSome <;> rfl

/-- A page of keys of the scope reads as a window of its ids. -/
theorem filterMap_unscopedId_window (offset size : Nat) :
    ((((self.scopeThreads inner).drop offset).take size).map Thread.id).filterMap
        self.unscopedId = ((self.scopeIds inner).drop offset).take size := by
  have hread : ∀ threads : List Thread,
      (∀ thread ∈ threads, (self.unscopedId thread.id).isSome = true) →
      (threads.map Thread.id).filterMap self.unscopedId =
        threads.map fun thread => (self.unscopedId thread.id).getD thread.id := by
    intro threads hthreads
    rw [List.filterMap_map, ← List.filterMap_eq_map]
    apply List.filterMap_congr
    intro thread hthread
    obtain ⟨id, hid⟩ := Option.isSome_iff_exists.mp (hthreads thread hthread)
    simp [hid]
  unfold scopeIds
  rw [← List.map_drop, ← List.map_take]
  apply hread
  intro thread hthread
  have hmem : thread ∈ self.scopeThreads inner :=
    List.mem_of_mem_drop (List.mem_of_mem_take hthread)
  unfold scopeThreads at hmem
  have hscope := List.of_mem_filter hmem
  exact hscope

theorem length_scopeIds : (self.scopeIds inner).length = (self.scopeThreads inner).length :=
  List.length_map _

/-- One page of the listing of a scope. -/
theorem scopePage (offset limit : Nat) (hlimit : 1 ≤ limit) :
    let page := inner.listThreadsQuery (self.scopeQuery offset (min limit 200))
    page.items.filterMap self.unscopedId =
        ((self.scopeIds inner).drop offset).take (min limit 200) ∧
      page.items.length = min (min limit 200) ((self.scopeIds inner).length - offset) ∧
      page.hasMore = decide (offset + page.items.length < (self.scopeIds inner).length) := by
  intro page
  have hsize : min (min limit 200) 200 = min limit 200 := by omega
  have hitems : page.items =
      ((((self.scopeThreads inner).drop offset).take (min limit 200))).map Thread.id := by
    have h := paginateThreads_items inner.threads.values
      (self.scopeQuery offset (min limit 200))
    rw [matchingThreads_scopeQuery] at h
    change _ = List.map Thread.id (((self.scopeThreads inner).drop offset).take
      (min (min limit 200) 200)) at h
    rwa [hsize] at h
  have hroom : 1 ≤ (self.scopeQuery offset (min limit 200)).limit := by
    show 1 ≤ min limit 200
    omega
  have hmore := paginateThreads_hasMore inner.threads.values
    (self.scopeQuery offset (min limit 200)) hroom
  rw [matchingThreads_scopeQuery] at hmore
  rw [length_scopeIds]
  constructor
  · rw [hitems]
    exact self.filterMap_unscopedId_window inner offset (min limit 200)
  · constructor
    · rw [hitems, List.length_map, List.length_take, List.length_drop]
    · exact hmore

/-- The loop of the listing collects the ids behind its offset up to its limit. -/
theorem listThreadsFrom_eq (limit nextOffset : Nat) (items : List String) :
    self.listThreadsFrom inner limit nextOffset items =
      items ++ ((self.scopeIds inner).drop nextOffset).take (limit - items.length) := by
  induction nextOffset, items using listThreadsFrom.induct self inner limit with
  | case1 nextOffset items hlt page hstop =>
    obtain ⟨hread, hlength, hmore⟩ := self.scopePage inner nextOffset (limit - items.length)
      (by omega)
    rw [listThreadsFrom, if_pos hlt]
    dsimp only
    rw [dif_pos hstop, hread, List.append_cancel_left_eq, List.take_eq_take_iff, List.length_drop]
    -- the page is the rest, or there is no rest
    cases hstop with
    | inl hlast =>
      have hend : ¬nextOffset + page.items.length < (self.scopeIds inner).length := by
        intro hgoes
        rw [show page.hasMore = true from hmore.trans (decide_eq_true hgoes)] at hlast
        cases hlast
      change page.items.length = _ at hlength
      omega
    | inr hnone =>
      have hzero : page.items.length = 0 := by rw [hnone, List.length_nil]
      change page.items.length = _ at hlength
      omega
  | case2 nextOffset items hlt page items' hstop _ ih =>
    obtain ⟨hread, hlength, hmore⟩ := self.scopePage inner nextOffset (limit - items.length)
      (by omega)
    change page.items.length = _ at hlength
    change page.hasMore = _ at hmore
    have hgoes : nextOffset + page.items.length < (self.scopeIds inner).length := by
      have hleads : page.hasMore = true := Bool.not_eq_false _ ▸ (not_or.mp hstop).1
      rw [hmore, decide_eq_true_eq] at hleads
      exact hleads
    have hfull : page.items.length = min (limit - items.length) 200 := by omega
    have hitems : items' = items ++ ((self.scopeIds inner).drop nextOffset).take
        page.items.length := by
      rw [hfull, ← hread]
    have hlen : items'.length = items.length + page.items.length := by
      rw [hitems, List.length_append, List.length_take, List.length_drop]
      omega
    rw [listThreadsFrom, if_pos hlt]
    dsimp only
    rw [dif_neg hstop]
    show self.listThreadsFrom inner limit (nextOffset + page.items.length) items' = _
    have hrest : limit - items.length = page.items.length + (limit - items'.length) := by omega
    rw [ih, hrest, List.take_add, List.drop_drop, ← List.append_assoc, ← hitems]
  | case3 nextOffset items hlt =>
    rw [listThreadsFrom, if_neg hlt, Nat.sub_eq_zero_of_le (Nat.not_lt.mp hlt), List.take_zero,
      List.append_nil]

theorem listThreads_eq (offset limit : Nat) :
    self.listThreads inner offset limit = ((self.scopeIds inner).drop offset).take limit := by
  unfold listThreads
  split
  · rename_i hzero
    rw [hzero, List.take_zero]
  · rw [listThreadsFrom_eq]
    rfl

/-- The scan loads the threads of the ids behind its offset. -/
theorem scanThreads_eq (offset : Nat) (threads : List Thread) :
    self.scanThreads inner offset threads =
      threads ++ ((self.scopeIds inner).drop offset).filterMap fun id =>
        self.loadThread id inner := by
  induction offset, threads using scanThreads.induct self inner with
  | case1 offset threads ids hids =>
    have hrest : (self.scopeIds inner).drop offset = [] := by
      have h : ids = ((self.scopeIds inner).drop offset).take scanLimit :=
        self.listThreads_eq inner offset scanLimit
      rw [hids] at h
      cases List.take_eq_nil_iff.mp h.symm with
      | inl hzero => cases hzero
      | inr hnil => exact hnil
    rw [scanThreads]
    dsimp only
    rw [dif_pos hids, hrest, List.filterMap_nil, List.append_nil]
  | case2 offset threads ids hids hlt =>
    have h : ids = ((self.scopeIds inner).drop offset).take scanLimit :=
      self.listThreads_eq inner offset scanLimit
    have hall : ids = (self.scopeIds inner).drop offset := by
      have hlength := congrArg List.length h
      rw [List.length_take] at hlength
      rw [h, List.take_of_length_le]
      omega
    rw [scanThreads]
    dsimp only
    rw [dif_neg hids, if_pos hlt]
    show threads ++ ids.filterMap _ = _
    rw [hall]
  | case3 offset threads ids hids threads' hge _ ih =>
    have h : ids = ((self.scopeIds inner).drop offset).take scanLimit :=
      self.listThreads_eq inner offset scanLimit
    have hsplit : (self.scopeIds inner).drop offset =
        ids ++ (self.scopeIds inner).drop (offset + ids.length) := by
      have hlength := congrArg List.length h
      rw [List.length_take] at hlength
      have hfull : ids.length = scanLimit := by omega
      rw [hfull, h, ← List.drop_drop, List.take_append_drop]
    rw [scanThreads]
    dsimp only
    rw [dif_neg hids, if_neg hge]
    show self.scanThreads inner (offset + ids.length) threads' = _
    rw [ih, hsplit, List.filterMap_append, ← List.append_assoc]

/-- The threads a caller can load through the scope. -/
def visibleThreads : List Thread := inner.threads.values.filterMap self.decodeThread

variable {inner}

/-- The scan loads the threads of the scope. -/
theorem scanThreads_perm (h : inner.Listable) :
    (self.scanThreads inner 0 []).Perm (self.visibleThreads inner) := by
  have hscan : self.scanThreads inner 0 [] =
      (self.scopeThreads inner).filterMap self.decodeThread := by
    rw [scanThreads_eq, List.nil_append, List.drop_zero, scopeIds, List.filterMap_map]
    apply List.filterMap_congr
    intro thread hthread
    unfold scopeThreads sortThreadsByRecentActivity at hthread
    have hscope := List.of_mem_filter hthread
    obtain ⟨id, hid⟩ := Option.isSome_iff_exists.mp hscope
    obtain ⟨key, hget⟩ := AssocMap.mem_values.mp
      ((List.mem_insertionSort _).mp (List.mem_of_mem_filter hthread))
    have hkey : self.scopedId id = key := by
      rw [self.scopedId_of_unscopedId hid]
      exact h.keyed key thread hget
    show self.loadThread ((self.unscopedId thread.id).getD thread.id) inner = _
    rw [hid, Option.getD_some]
    unfold loadThread
    rw [hkey, hget, Option.bind_some]
  have hnone : ∀ thread : Thread, (self.unscopedId thread.id).isSome = false →
      self.decodeThread thread = none := by
    intro thread hforeign
    unfold decodeThread
    rw [Option.isSome_eq_false_iff, Option.isNone_iff_eq_none] at hforeign
    rw [hforeign]
    rfl
  rw [hscan, scopeThreads, List.filterMap_filter_of_none hnone]
  exact (List.perm_insertionSort Thread.recentLe inner.threads.values).filterMap _

/-- A caller's reads of the pages of a thread query through the scope. -/
def readScopeThreads (store : ScopedThreadRunStore) (text : TokenText ThreadCursorToken)
    (inner : InMemoryStore) (query : ThreadQuery) (offset : Nat) : Option (Page String String) :=
  some ((store.listThreadsQuery inner (query.startingAt offset)).read text)

/-- A walk over the threads of a scope visits the matching ones once. -/
theorem readScopeThreads_visitsOnce (text : TokenText ThreadCursorToken) (h : inner.Listable)
    (query : ThreadQuery) (hlimit : 1 ≤ query.limit) :
    VisitsOnce (self.readScopeThreads text inner query)
      (fun cursor => (query.decodeCursor text cursor).toOption)
      Thread.id Thread.recentLe ((self.visibleThreads inner).filter query.matchesThread) := by
  have hscan := readThreads_visitsOnce text (self.scanThreads inner 0 []) query hlimit
  exact hscan.perm ((self.scanThreads_perm h).filter _)

end ScopedThreadRunStore

/-! ## The messages of a thread -/

/-- Records of messages with ids do not depend on the generated ids. -/
theorem committedRecords_congr {view : List Message} (h : ∀ m ∈ view, WellShaped m)
    (threadId : String) (generated generated' : Nat → Uuid) :
    committedRecords threadId view generated = committedRecords threadId view generated' := by
  apply List.ext_getElem?
  intro k
  unfold committedRecords
  rw [List.getElem?_mapIdx, List.getElem?_mapIdx]
  cases hk : view[k]? with
  | none => rfl
  | some m =>
    obtain ⟨id, hid, -⟩ := (h m (List.mem_of_getElem? hk)).id
    simp [MessageRecord.fromMessage, hid]

namespace InMemoryStore

/-- The records a thread is listed with. -/
def threadRecords (s : InMemoryStore) (threadId : String) : List MessageRecord :=
  committedRecords threadId (stripUnpairedToolCallsFromView (s.committed threadId))
    fun _ => .generated

theorem listMessageRecords_eq {s : InMemoryStore} (h : s.LogsWellFormed) {threadId : String}
    (hfit : SummariesFit (s.committed threadId)) (query : MessageQuery)
    (generated : Nat → Uuid) :
    s.listMessageRecords threadId query generated =
      .ok (paginateMessageRecords (s.threadRecords threadId) query) := by
  have hlog := h threadId
  obtain ⟨page, hpage⟩ := (listMessageRecords_isOk_iff h query generated).mpr hfit
  rw [hpage]
  unfold listMessageRecords at hpage
  unfold threadRecords
  unfold committed at hlog ⊢
  cases hget : s.messages.get? threadId with
  | none =>
    rw [hget] at hpage
    cases hpage
    rw [paginateMessageRecords_eq]
    simp [matchingRecords, committedRecords, stripUnpairedToolCallsFromView, MessagePage.empty]
  | some messages =>
    rw [hget] at hpage hlog
    rw [Option.getD_some] at hlog ⊢
    have hshape : ∀ m ∈ stripUnpairedToolCallsFromView messages, WellShaped m := by
      intro x hx
      obtain ⟨m, hm, rfl, -⟩ := mem_strip.mp hx
      exact (hlog.wellShaped hm).retainAnswered _ _
    dsimp only at hpage
    simp only [bind_ok] at hpage
    obtain ⟨-, -, hpage⟩ := hpage
    rw [committedRecords_congr hshape threadId generated fun _ => .generated] at hpage
    exact hpage.symm

end InMemoryStore

namespace ScopedThreadRunStore

variable (self : ScopedThreadRunStore) {inner : InMemoryStore} {threadId : String}

/-- A record of a thread as the scope shows it. -/
def shownRecord (threadId : String) (record : MessageRecord) : MessageRecord :=
  { record with
    threadId := threadId
    producedByRunId := record.producedByRunId.map fun runId =>
      (self.unscopedId runId).getD runId }

theorem decodeMessageRecord_eq {record : MessageRecord}
    (h : record.threadId = self.scopedId threadId) :
    self.decodeMessageRecord record = some (self.shownRecord threadId record) := by
  unfold decodeMessageRecord
  rw [h, unscopedId_scopedId]
  rfl

theorem threadId_of_mem_threadRecords {key : String} {record : MessageRecord}
    (h : record ∈ inner.threadRecords key) : record.threadId = key := by
  unfold InMemoryStore.threadRecords committedRecords at h
  rw [List.mem_mapIdx] at h
  obtain ⟨index, hindex, rfl⟩ := h
  rfl

/-- The records of a thread a caller sees through the scope. -/
def visibleRecords (inner : InMemoryStore) (threadId : String) : List MessageRecord :=
  (inner.threadRecords (self.scopedId threadId)).filterMap self.decodeMessageRecord

theorem filterMap_decodeMessageRecord {records : List MessageRecord}
    (h : ∀ record ∈ records, record.threadId = self.scopedId threadId) :
    records.filterMap self.decodeMessageRecord = records.map (self.shownRecord threadId) := by
  rw [← List.filterMap_eq_map]
  apply List.filterMap_congr
  intro record hrecord
  exact self.decodeMessageRecord_eq (h record hrecord)

theorem visibleRecords_eq :
    self.visibleRecords inner threadId =
      (inner.threadRecords (self.scopedId threadId)).map (self.shownRecord threadId) :=
  self.filterMap_decodeMessageRecord fun _ => threadId_of_mem_threadRecords

/-- A caller's reads of the pages of a message query through the scope. -/
def readScopeRecords (text : TokenText MessageCursorToken) (inner : InMemoryStore)
    (threadId : String) (query : MessageQuery) (generated : Nat → Nat → Uuid) (offset : Nat) :
    Option (Page MessageRecord String) :=
  (self.listMessageRecords inner threadId (query.startingAt offset)
    (generated offset)).toOption.map fun page => page.read text

/-- A record and what the scope shows of it pass a query without a run together. -/
theorem matchesRecord_shownRecord {query : MessageQuery} (hrun : query.runId = none)
    (record : MessageRecord) :
    query.matchesRecord (self.shownRecord threadId record) = query.matchesRecord record := by
  unfold MessageQuery.matchesRecord
  rw [hrun]
  rfl

/-- What the scope shows of a record kept under the run id of the scope passes the query. -/
theorem matchesRecord_of_encoded {query : MessageQuery} {runId : String}
    (hrun : query.runId = some runId) (record : MessageRecord) :
    (self.encodeMessageQuery query).matchesRecord record = true ↔
      query.matchesRecord (self.shownRecord threadId record) = true ∧
        record.producedByRunId = some (self.scopedId runId) := by
  have hencoded : (self.encodeMessageQuery query).runId = some (self.scopedId runId) := by
    show query.runId.map self.scopedId = _
    rw [hrun]
    rfl
  have hafter : (self.encodeMessageQuery query).after = query.after := rfl
  have hbefore : (self.encodeMessageQuery query).before = query.before := rfl
  have hvisibility : (self.encodeMessageQuery query).visibility = query.visibility := rfl
  unfold MessageQuery.matchesRecord
  rw [hencoded, hafter, hbefore, hvisibility, hrun]
  by_cases hproduced : record.producedByRunId = some (self.scopedId runId)
  · have hshown : (self.shownRecord threadId record).producedByRunId = some runId := by
      show record.producedByRunId.map _ = _
      rw [hproduced, Option.map_some, unscopedId_scopedId]
      rfl
    have hseq : (self.shownRecord threadId record).seq = record.seq := rfl
    have hmessage : (self.shownRecord threadId record).message = record.message := rfl
    rw [hshown, hproduced, hseq, hmessage]
    simp
  · simp [hproduced]

/-- A query that names a run finds all its records, and on one page. -/
def RunFits (inner : InMemoryStore) (threadId : String) (query : MessageQuery) : Prop :=
  ∀ runId, query.runId = some runId →
    ((self.visibleRecords inner threadId).filter query.matchesRecord).length ≤ query.pageSize ∧
      ∀ record ∈ inner.threadRecords (self.scopedId threadId),
        query.matchesRecord (self.shownRecord threadId record) = true →
          record.producedByRunId = some (self.scopedId runId)

/-- The first page that is listed for a query, at any offset. -/
theorem readScopeRecords_eq (h : inner.LogsWellFormed)
    (hfit : SummariesFit (inner.committed (self.scopedId threadId)))
    (text : TokenText MessageCursorToken) (query : MessageQuery) (generated : Nat → Nat → Uuid)
    {offset : Nat} {page : Page MessageRecord String}
    (hpage : readRecords text (inner.threadRecords (self.scopedId threadId))
      (self.encodeMessageQuery query) offset = some page) :
    self.readScopeRecords text inner threadId query generated offset =
      some ⟨page.items.map (self.shownRecord threadId), page.hasMore, page.next⟩ := by
  have hlist := InMemoryStore.listMessageRecords_eq h hfit
    (self.encodeMessageQuery (query.startingAt offset)) (generated offset)
  have hitems : ∀ record ∈ (paginateMessageRecords (inner.threadRecords (self.scopedId threadId))
      (self.encodeMessageQuery (query.startingAt offset))).records,
      record.threadId = self.scopedId threadId := by
    intro record hrecord
    exact threadId_of_mem_threadRecords (InMemoryStore.mem_paginate hrecord)
  unfold readScopeRecords listMessageRecords
  rw [hlist]
  cases hpage
  show some (MessagePage.read text _) = _
  unfold MessagePage.read
  dsimp only
  rw [self.filterMap_decodeMessageRecord hitems]
  rfl

theorem filter_visibleRecords (query : MessageQuery) :
    (self.visibleRecords inner threadId).filter query.matchesRecord =
      ((inner.threadRecords (self.scopedId threadId)).filter fun record =>
        query.matchesRecord (self.shownRecord threadId record)).map
          (self.shownRecord threadId) := by
  rw [visibleRecords_eq, List.filter_map]
  rfl

/-- A query without a run reads the windows of what the scope shows. -/
theorem readScopeRecords_visitsOnce (h : inner.LogsWellFormed)
    (hfit : SummariesFit (inner.committed (self.scopedId threadId)))
    (hlength : (inner.threadRecords (self.scopedId threadId)).length < 0x10000000000000000)
    (text : TokenText MessageCursorToken) (query : MessageQuery) (hlimit : 1 ≤ query.limit)
    (hrun : query.runId = none) (generated : Nat → Nat → Uuid) :
    VisitsOnce (self.readScopeRecords text inner threadId query generated)
      (fun cursor => (query.decodeCursor text cursor).toOption)
      id query.order.before ((self.visibleRecords inner threadId).filter query.matchesRecord) := by
  have hsame : self.encodeMessageQuery query = query := by
    unfold encodeMessageQuery
    rw [hrun, Option.map_none, ← hrun]
  have hwindows := readRecords_windows text _ hlength query hlimit
  have hshown : Windows (self.readScopeRecords text inner threadId query generated)
      (fun cursor => (query.decodeCursor text cursor).toOption)
      ((matchingRecords (inner.threadRecords (self.scopedId threadId)) query).map
        (self.shownRecord threadId)) query.pageSize := by
    apply hwindows.map
    intro offset page hpage
    rw [← hsame] at hpage
    exact self.readScopeRecords_eq h hfit text query generated hpage
  rw [← List.map_id (List.map _ _)] at hshown
  apply hshown.visitsOnce
  · rw [filter_visibleRecords]
    apply List.Perm.map
    have hmatches : (fun record => query.matchesRecord (self.shownRecord threadId record)) =
        query.matchesRecord := funext (self.matchesRecord_shownRecord hrun)
    rw [hmatches]
    exact perm_matchingRecords _ query
  · rw [List.pairwise_map]
    apply (pairwise_matchingRecords _ query).imp
    intro a b hab
    -- the scope leaves the sequence numbers alone
    cases horder : query.order <;> rw [horder] at hab <;> exact hab

/-- A query that names a run reads one page, or a cursor that it does not take back. -/
theorem readScopeRecords_run (h : inner.LogsWellFormed)
    (hfit : SummariesFit (inner.committed (self.scopedId threadId)))
    (hlength : (inner.threadRecords (self.scopedId threadId)).length < 0x10000000000000000)
    (text : TokenText MessageCursorToken) (query : MessageQuery) (hlimit : 1 ≤ query.limit)
    {runId : String} (hrun : query.runId = some runId) (generated : Nat → Nat → Uuid)
    (items : List MessageRecord) :
    let matching := matchingRecords (inner.threadRecords (self.scopedId threadId))
      (self.encodeMessageQuery query)
    Walk (self.readScopeRecords text inner threadId query generated)
        (fun cursor => (query.decodeCursor text cursor).toOption) 0 items ↔
      matching.length ≤ query.pageSize ∧ items = matching.map (self.shownRecord threadId) := by
  intro matching
  have hwindows := readRecords_windows text _ hlength (self.encodeMessageQuery query) hlimit
  obtain ⟨page, hpage, hitems, hmore, -⟩ := hwindows.page 0 (Nat.zero_le _)
  have hread := self.readScopeRecords_eq h hfit text query generated hpage
  change page.items = (matching.drop 0).take query.pageSize at hitems
  change page.hasMore = decide (0 + page.items.length < matching.length) at hmore
  rw [List.drop_zero] at hitems
  have hcount : page.items.length = min query.pageSize matching.length := by
    rw [hitems, List.length_take]
  by_cases hfew : matching.length ≤ query.pageSize
  · have hlast : page.hasMore = false := by
      rw [hmore, decide_eq_false_iff_not]
      omega
    have hall : page.items = matching := by rw [hitems, List.take_of_length_le hfew]
    rw [walk_single_iff hread hlast, hall]
    simp [hfew]
  · have hleads : page.hasMore = true := by
      rw [hmore, decide_eq_true_eq]
      omega
    apply iff_of_false _ (fun hboth => hfew hboth.1)
    have hnext : page.next = some (encodeCursorToken text messageCursorPrefix
        (((self.encodeMessageQuery query).startingAt 0).normalized.encodeCursor
          page.items.length)) := by
      cases hpage
      have hcursor := paginateMessageRecords_nextCursor
        (inner.threadRecords (self.scopedId threadId))
        ((self.encodeMessageQuery query).startingAt 0) hlimit hleads
      have hzero : ((self.encodeMessageQuery query).startingAt 0).offset.toNat = 0 := rfl
      rw [hzero, Nat.zero_add] at hcursor
      exact congrArg (Option.map (encodeCursorToken text messageCursorPrefix)) hcursor
    apply not_walk_of_decode hread hleads hnext
    -- the cursor carries the run id of the scope
    have hforeign : query.bindsToken (((self.encodeMessageQuery query).startingAt
        0).normalized.encodeCursor page.items.length) = false := by
      have hne : ((query.runId.map self.scopedId) == query.runId) = false := by
        rw [hrun, Option.map_some, beq_eq_false_iff_ne]
        intro heq
        exact self.scopedId_ne runId (Option.some.inj heq)
      show (_ && ((query.runId.map self.scopedId) == query.runId)) = false
      rw [hne, Bool.and_false]
    rw [query.decodeCursor_encode text, hforeign]
    rfl

/-- When a walk over the messages of a thread of the scope visits the matching ones once. -/
theorem scopedMessages_visitsOnce_iff (h : inner.LogsWellFormed)
    (hlength : (inner.threadRecords (self.scopedId threadId)).length < 0x10000000000000000)
    (text : TokenText MessageCursorToken) (query : MessageQuery) (hlimit : 1 ≤ query.limit)
    (generated : Nat → Nat → Uuid) :
    VisitsOnce (self.readScopeRecords text inner threadId query generated)
        (fun cursor => (query.decodeCursor text cursor).toOption)
        id query.order.before ((self.visibleRecords inner threadId).filter query.matchesRecord) ↔
      SummariesFit (inner.committed (self.scopedId threadId)) ∧
        self.RunFits inner threadId query := by
  have hsublist : ∀ {runId}, query.runId = some runId →
      ((inner.threadRecords (self.scopedId threadId)).filter
        (self.encodeMessageQuery query).matchesRecord).Sublist
      ((inner.threadRecords (self.scopedId threadId)).filter fun record =>
        query.matchesRecord (self.shownRecord threadId record)) := by
    intro runId hrun
    apply List.monotone_filter_right
    intro record hrecord
    exact ((self.matchesRecord_of_encoded hrun record).mp hrecord).1
  constructor
  · intro hvisits
    obtain ⟨sorted, hperm, -, hwalk⟩ := hvisits
    have hfit : SummariesFit (inner.committed (self.scopedId threadId)) := by
      obtain ⟨page, hpage, -⟩ := hwalk.first
      unfold readScopeRecords listMessageRecords at hpage
      cases hlist : inner.listMessageRecords (self.scopedId threadId)
          (self.encodeMessageQuery (query.startingAt 0)) (generated 0) with
      | ok listed => exact (InMemoryStore.listMessageRecords_isOk_iff h _ _).mp ⟨listed, hlist⟩
      | error e =>
        rw [hlist] at hpage
        cases hpage
    refine ⟨hfit, ?_⟩
    intro runId hrun
    obtain ⟨hfew, hitems⟩ :=
      (self.readScopeRecords_run h hfit hlength text query hlimit hrun generated _).mp hwalk
    rw [List.map_id] at hitems
    have hcount : (matchingRecords (inner.threadRecords (self.scopedId threadId))
        (self.encodeMessageQuery query)).length =
          ((self.visibleRecords inner threadId).filter query.matchesRecord).length := by
      rw [← hperm.length_eq, hitems, List.length_map]
    constructor
    · rw [← hcount]
      exact hfew
    · intro record hrecord hmatches
      rw [(perm_matchingRecords _ _).length_eq, filter_visibleRecords, List.length_map] at hcount
      have hsame := (hsublist hrun).eq_of_length hcount
      have hmem : record ∈ (inner.threadRecords (self.scopedId threadId)).filter
          (self.encodeMessageQuery query).matchesRecord := by
        rw [hsame, List.mem_filter]
        exact ⟨hrecord, hmatches⟩
      have hfound : query.matchesRecord (self.shownRecord threadId record) = true ∧
          record.producedByRunId = some (self.scopedId runId) :=
        (self.matchesRecord_of_encoded hrun record).mp (List.mem_filter.mp hmem).2
      exact hfound.2
  · intro hboth
    obtain ⟨hfit, hruns⟩ := hboth
    cases hrun : query.runId with
    | none =>
      exact self.readScopeRecords_visitsOnce h hfit hlength text query hlimit hrun generated
    | some runId =>
      obtain ⟨hfew, hall⟩ := hruns runId hrun
      have hsame : ((inner.threadRecords (self.scopedId threadId)).filter
          (self.encodeMessageQuery query).matchesRecord) =
          (inner.threadRecords (self.scopedId threadId)).filter fun record =>
            query.matchesRecord (self.shownRecord threadId record) := by
        apply List.filter_congr
        intro record hrecord
        rw [Bool.eq_iff_iff, self.matchesRecord_of_encoded hrun record]
        constructor
        · exact And.left
        · intro hmatches
          exact ⟨hmatches, hall record hrecord hmatches⟩
      have hperm := perm_matchingRecords (inner.threadRecords (self.scopedId threadId))
        (self.encodeMessageQuery query)
      rw [hsame] at hperm
      have hshown := hperm.map (self.shownRecord threadId)
      rw [← filter_visibleRecords] at hshown
      refine ⟨_, hshown, ?_, ?_⟩
      · rw [List.pairwise_map]
        apply (pairwise_matchingRecords _ (self.encodeMessageQuery query)).imp
        intro a b hab
        change query.order.before a b at hab
        cases horder : query.order <;> rw [horder] at hab <;> exact hab
      · rw [List.map_id]
        apply (self.readScopeRecords_run h hfit hlength text query hlimit hrun generated _).mpr
        refine ⟨?_, rfl⟩
        rw [← hshown.length_eq, List.length_map] at hfew
        exact hfew

end ScopedThreadRunStore

/-! ## Listings -/

/-- The texts of the two kinds of cursor tokens. -/
structure CursorTexts where
  messages : TokenText MessageCursorToken
  threads : TokenText ThreadCursorToken

/-- A paged listing, over a set or through the scoped store. The listing of messages carries the
    ids generated for its pages. -/
inductive Listing where
  | threads (threads : List Thread) (query : ThreadQuery)
  | messages (records : List MessageRecord) (query : MessageQuery)
  | scopedThreads (store : ScopedThreadRunStore) (inner : InMemoryStore) (query : ThreadQuery)
  | scopedMessages (store : ScopedThreadRunStore) (inner : InMemoryStore) (threadId : String)
      (query : MessageQuery) (generated : Nat → Nat → Uuid)

namespace Listing

/-- The largest page the caller asks for. -/
def limit : Listing → Nat
  | .threads _ query => query.limit
  | .messages _ query => query.limit.toNat
  | .scopedThreads _ _ query => query.limit
  | .scopedMessages _ _ _ query _ => query.limit.toNat

/-- What a set or a store can hold: an array has less than 2^64 elements, and a store is one the
    calls lead to. -/
def Held : Listing → Prop
  | .threads _ _ => True
  | .messages records _ => records.length < 0x10000000000000000
  | .scopedThreads _ inner _ => inner.Listable
  | .scopedMessages store inner threadId _ _ =>
    inner.Listable ∧
      (inner.threadRecords (store.scopedId threadId)).length < 0x10000000000000000

/-- From the first page on, the caller re-issues the query at the offset that the query itself
    decodes from the cursor of each page. The pages end, and hold what matches in the documented
    order. -/
def VisitsOnce (text : CursorTexts) : Listing → Prop
  | .threads held query =>
    OffsetPaging.VisitsOnce (readThreads text.threads held query)
      (fun cursor => (query.decodeCursor text.threads cursor).toOption)
      Thread.id Thread.recentLe (held.filter query.matchesThread)
  | .messages records query =>
    OffsetPaging.VisitsOnce (readRecords text.messages records query)
      (fun cursor => (query.decodeCursor text.messages cursor).toOption)
      id query.order.before (records.filter query.matchesRecord)
  | .scopedThreads store inner query =>
    OffsetPaging.VisitsOnce (store.readScopeThreads text.threads inner query)
      (fun cursor => (query.decodeCursor text.threads cursor).toOption)
      Thread.id Thread.recentLe ((store.visibleThreads inner).filter query.matchesThread)
  | .scopedMessages store inner threadId query generated =>
    OffsetPaging.VisitsOnce (store.readScopeRecords text.messages inner threadId query generated)
      (fun cursor => (query.decodeCursor text.messages cursor).toOption)
      id query.order.before ((store.visibleRecords inner threadId).filter query.matchesRecord)

/-- Through the scope, the log of the thread can be listed, and a query that names a run finds
    all its records under the run id of the scope, and on one page. -/
def Fits : Listing → Prop
  | .threads _ _ => True
  | .messages _ _ => True
  | .scopedThreads _ _ _ => True
  | .scopedMessages store inner threadId query _ =>
    SummariesFit (inner.committed (store.scopedId threadId)) ∧ store.RunFits inner threadId query

/-- A walk over a listing visits everything once exactly when the listing fits. -/
theorem visitsOnce_iff (text : CursorTexts) (listing : Listing) (hheld : listing.Held)
    (hlimit : 1 ≤ listing.limit) : listing.VisitsOnce text ↔ listing.Fits := by
  cases listing with
  | threads threads query =>
    exact iff_of_true (readThreads_visitsOnce text.threads threads query hlimit) trivial
  | messages records query =>
    exact iff_of_true (readRecords_visitsOnce text.messages records hheld query
      (UInt64.le_iff_toNat_le.mpr hlimit)) trivial
  | scopedThreads store inner query =>
    exact iff_of_true (store.readScopeThreads_visitsOnce text.threads hheld query hlimit) trivial
  | scopedMessages store inner threadId query generated =>
    exact store.scopedMessages_visitsOnce_iff hheld.1.logs hheld.2 text.messages query
      (UInt64.le_iff_toNat_le.mpr hlimit) generated

end Listing

/-! ## Texts that agree with the real one on a token -/

instance encodableString : Encodable String :=
  Encodable.ofLeftInverse (fun s => s.toList.map Char.toNat)
    (fun codes => String.ofList (codes.map Char.ofNat)) (by
      intro s
      simp [Function.comp_def, Char.ofNat_toNat])

instance encodableUInt64 : Encodable UInt64 :=
  Encodable.ofLeftInverse UInt64.toNat UInt64.ofNat (by intro n; simp)

instance encodableMessageToken : Encodable MessageCursorToken :=
  Encodable.ofLeftInverse
    (fun token : MessageCursorToken => (token.offset, token.after, token.before,
      decide (token.order = .asc), decide (token.visibility = .any),
      decide (token.visibility = .external), token.runId))
    (fun code => ⟨code.1, code.2.1, code.2.2.1, if code.2.2.2.1 then .asc else .desc,
      if code.2.2.2.2.1 then .any else if code.2.2.2.2.2.1 then .external else .internal,
      code.2.2.2.2.2.2⟩) (by
      intro token
      obtain ⟨offset, after, before, order, visibility, runId⟩ := token
      cases order <;> cases visibility <;> rfl)

/-- A parent filter as a root flag and a parent. -/
def ThreadParentFilter.code : ThreadParentFilter → Bool × Option String
  | .any => (false, none)
  | .root => (true, none)
  | .parent parentThreadId => (false, some parentThreadId)

def ThreadParentFilter.ofCode (code : Bool × Option String) : ThreadParentFilter :=
  if code.1 then .root else (code.2.map .parent).getD .any

theorem ThreadParentFilter.ofCode_code (filter : ThreadParentFilter) :
    ofCode filter.code = filter := by
  cases filter <;> rfl

instance encodableParentFilter : Encodable ThreadParentFilter :=
  Encodable.ofLeftInverse ThreadParentFilter.code ThreadParentFilter.ofCode
    ThreadParentFilter.ofCode_code

instance encodableThreadToken : Encodable ThreadCursorToken :=
  Encodable.ofLeftInverse
    (fun token : ThreadCursorToken =>
      (token.offset, token.resourceId, token.parentFilter, token.idPrefix))
    (fun code => ⟨code.1, code.2.1, code.2.2.1, code.2.2.2⟩) (by
      intro token
      rfl)

section

variable {τ : Type*} [Encodable τ] [DecidableEq τ] (known : τ) (payload : String)

/-- The payload of one token, and for any other token as many letters as its code says. -/
def encodeKnown (token : τ) : String :=
  if token = known then payload
  else String.ofList (List.replicate (Encodable.encode token) 'A')

def decodeKnown (text : String) : Option τ :=
  if text = payload then some known else Encodable.decode text.toList.length

theorem decodeKnown_encodeKnown {payload : String} (hpayload : 'e' ∈ payload.toList) (token : τ) :
    decodeKnown known payload (encodeKnown known payload token) = some token := by
  unfold decodeKnown encodeKnown
  by_cases htoken : token = known
  · rw [if_pos htoken, if_pos rfl, htoken]
  · have hother : String.ofList (List.replicate (Encodable.encode token) 'A') ≠ payload := by
      intro heq
      rw [← heq, String.toList_ofList] at hpayload
      cases List.eq_of_mem_replicate hpayload
    rw [if_neg htoken, if_neg hother, String.toList_ofList, List.length_replicate]
    exact Encodable.encodek token

/-- A text that agrees with the real one on a token. -/
def TokenText.knowing (hpayload : 'e' ∈ payload.toList) : TokenText τ where
  encode := encodeKnown known payload
  decode := decodeKnown known payload
  decode_encode := decodeKnown_encodeKnown known hpayload

end

/-- The cursors of second pages of one item. -/
def secondPages : CursorTexts where
  messages := TokenText.knowing ⟨1, none, none, .asc, .any, some "scope:6:tenant:r"⟩
    ("eyJvZmZzZXQiOjEsImFmdGVyIjpudWxsLCJiZWZvcmUiOm51bGwsIm9yZGVyIjoiYXNjIiwidmlzaWJpbGl0eSI6"
      ++ "ImFueSIsInJ1bl9pZCI6InNjb3BlOjY6dGVuYW50OnIifQ") (by decide +kernel)
  threads := TokenText.knowing ⟨1, none, .any, none⟩
    ("eyJvZmZzZXQiOjEsInJlc291cmNlX2lkIjpudWxsLCJwYXJlbnRfZmlsdGVyIjoiYW55IiwiaWRfcHJlZml4Ijpu"
      ++ "dWxsfQ") (by decide +kernel)

/-- Two threads on two pages. -/
theorem Listing.visitsOnce_twoPages :
    (Listing.threads [Thread.withId "a", Thread.withId "b"] ⟨0, 1, none, .any, none⟩).VisitsOnce
      secondPages :=
  (Listing.visitsOnce_iff secondPages (.threads [Thread.withId "a", Thread.withId "b"]
    ⟨0, 1, none, .any, none⟩) trivial Nat.le.refl).mpr trivial

/-- A thread of the scope saved with messages of runs. -/
def runStore (messages : List (String × String)) : InMemoryStore :=
  InMemoryStore.storeMachine.run .new [.saveMessages (ScopedThreadRunStore.tenant.scopedId "t")
    (messages.map fun message =>
      { Message.user "hello" message.1 with metadata := some ⟨some message.2, none, none⟩ })]

def runQuery (limit : UInt64) : MessageQuery := ⟨0, limit, none, none, .asc, .any, some "r"⟩

theorem not_visitsOnce_of_not_runFits (text : CursorTexts) (messages : List (String × String))
    (hlength : ((runStore messages).threadRecords
      (ScopedThreadRunStore.tenant.scopedId "t")).length < 0x10000000000000000)
    (limit : UInt64) (hlimit : 1 ≤ limit)
    (hruns : ¬ScopedThreadRunStore.tenant.RunFits (runStore messages) "t" (runQuery limit))
    (generated : Nat → Nat → Uuid) :
    ¬(Listing.scopedMessages ScopedThreadRunStore.tenant (runStore messages) "t" (runQuery limit)
      generated).VisitsOnce text := by
  intro hvisits
  have hiff := ScopedThreadRunStore.tenant.scopedMessages_visitsOnce_iff
    (InMemoryStore.run_listable _).logs hlength text.messages (runQuery limit) hlimit generated
  exact hruns (hiff.mp hvisits).2

/-- A message kept under the run id of the caller is not found, and the cursor of a page of
    messages kept under the run id of the scope is not taken back. -/
theorem scopedMessages_loses :
    ¬(Listing.scopedMessages ScopedThreadRunStore.tenant (runStore [("m-1", "r")]) "t"
        (runQuery 50) fun _ _ => .generated).VisitsOnce secondPages ∧
      ¬(Listing.scopedMessages ScopedThreadRunStore.tenant
        (runStore [("m-1", "scope:6:tenant:r"), ("m-2", "scope:6:tenant:r")]) "t"
        (runQuery 1) fun _ _ => .generated).VisitsOnce secondPages := by
  constructor
  · apply not_visitsOnce_of_not_runFits
    · decide +kernel
    · decide
    · intro hfits
      obtain ⟨-, hall⟩ := hfits "r" rfl
      have hproduced := hall ⟨"m-1", "scope:6:tenant:t", 1,
        { Message.user "hello" "m-1" with metadata := some ⟨some "r", none, none⟩ }, some "r", none,
        none, none, none⟩ (by decide +kernel) (by decide +kernel)
      exact absurd hproduced (by decide +kernel)
  · apply not_visitsOnce_of_not_runFits
    · decide +kernel
    · decide
    · intro hfits
      obtain ⟨hfew, -⟩ := hfits "r" rfl
      have hmany : ¬((ScopedThreadRunStore.tenant.visibleRecords
          (runStore [("m-1", "scope:6:tenant:r"), ("m-2", "scope:6:tenant:r")]) "t").filter
          (runQuery 1).matchesRecord).length ≤ (runQuery 1).pageSize := by decide +kernel
      exact hmany hfew

end Remo
