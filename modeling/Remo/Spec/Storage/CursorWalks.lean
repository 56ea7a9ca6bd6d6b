import Remo.ForStd.Paging
import Remo.Native.Storage.Cursors
import Remo.Spec.Storage.Hierarchy

/-!
# Walks along cursors

The cursor of a page decodes under the query it was made for, also after the filters were
normalized, and under no query with other filters. So a reader who goes on from cursor to cursor
sees the windows of one filtered and sorted list.

## Key results

- `MessageQuery.decodeCursor_encode`, `ThreadQuery.decodeCursor_encode`: when a cursor decodes
- `paginateThreads_visitsOnce`, `paginateMessageRecords_visitsOnce`: a walk over a set visits what
  matches once, in the documented order
-/

namespace Remo

open OffsetPaging

/-! ## Cursors -/

/-- The query at another offset. -/
def MessageQuery.startingAt (query : MessageQuery) (offset : Nat) : MessageQuery :=
  { query with offset := UInt64.ofNat offset }

/-- The query at another offset. -/
def ThreadQuery.startingAt (query : ThreadQuery) (offset : Nat) : ThreadQuery :=
  { query with offset := offset }

theorem Str.stripPrefix_append (pre s : String) : Str.stripPrefix pre (pre ++ s) = some s := by
  unfold Str.stripPrefix
  have hstart : pre.toList <+: (pre ++ s).toList := by simp
  rw [if_pos hstart]
  simp

/-- A text that starts with a letter is no number. -/
theorem parseU64_of_letter {pre : String} {c : Char} (hhead : pre.toList.head? = some c)
    (hplus : c ≠ '+') (hdigit : c.isDigit = false) (s : String) : parseU64 (pre ++ s) = none := by
  unfold parseU64
  have htext : (pre ++ s).toList.head? = some c := by
    rw [String.toList_append, List.head?_append, hhead]
    rfl
  have hne : ¬(pre ++ s).toList.head? = some '+' := by
    rw [htext]
    simpa using hplus
  rw [if_neg hne]
  dsimp only
  apply if_pos
  right
  left
  rw [List.all_eq_false]
  exact ⟨c, List.mem_of_mem_head? htext, by simp [hdigit]⟩

theorem decodeCursorToken_encode {τ : Type*} (text : TokenText τ) (pre : String) (token : τ) :
    decodeCursorToken text pre (encodeCursorToken text pre token) = .ok token := by
  unfold decodeCursorToken encodeCursorToken
  rw [Str.stripPrefix_append, Option.bind_some, text.decode_encode]

/-- A query takes back the cursors made for its filters, and only those. -/
theorem MessageQuery.decodeCursor_encode (text : TokenText MessageCursorToken)
    (query : MessageQuery) (token : MessageCursorToken) :
    query.decodeCursor text (encodeCursorToken text messageCursorPrefix token) =
      if query.bindsToken token then .ok token.offset
      else .error "cursor does not match message query filters" := by
  have hnumber : parseU64 (encodeCursorToken text messageCursorPrefix token) = none :=
    @parseU64_of_letter _ 'm' (by decide) (by decide) (by decide) _
  unfold decodeCursor
  rw [hnumber]
  dsimp only
  rw [decodeCursorToken_encode]
  rfl

/-- The cursors of a page belong to the query at every other offset. -/
theorem MessageQuery.bindsToken_encodeCursor (query : MessageQuery) (start offset : Nat) :
    query.bindsToken ((query.startingAt start).normalized.encodeCursor offset) = true := by
  simp [bindsToken, encodeCursor, normalized, startingAt]

/-- A query takes back the cursors made for its normalized filters, and only those. -/
theorem ThreadQuery.decodeCursor_encode (text : TokenText ThreadCursorToken)
    (query : ThreadQuery) (token : ThreadCursorToken) :
    query.decodeCursor text (encodeCursorToken text threadCursorPrefix token) =
      if query.normalized.bindsToken token then .ok token.offset
      else .error "cursor does not match thread query filters" := by
  have hnumber : parseU64 (encodeCursorToken text threadCursorPrefix token) = none :=
    @parseU64_of_letter _ 't' (by decide) (by decide) (by decide) _
  unfold decodeCursor
  rw [hnumber]
  dsimp only
  rw [decodeCursorToken_encode]
  rfl

theorem ThreadParentFilter.normalized_parent (parentThreadId : String) :
    (parent parentThreadId).normalized =
      ((normalizeLineageId (some parentThreadId)).map parent).getD any := rfl

theorem ThreadParentFilter.normalized_idem (filter : ThreadParentFilter) :
    filter.normalized.normalized = filter.normalized := by
  cases filter with
  | any => rfl
  | root => rfl
  | parent parentThreadId =>
    have hidem := normalizeLineageId_idem (some parentThreadId)
    rw [normalized_parent]
    cases hid : normalizeLineageId (some parentThreadId) with
    | none => rfl
    | some id =>
      rw [hid] at hidem
      show (parent id).normalized = parent id
      rw [normalized_parent, hidem]
      rfl

/-- Normalizing again changes nothing. -/
theorem ThreadQuery.normalized_idem (query : ThreadQuery) :
    query.normalized.normalized = query.normalized := by
  have hlimit : min (min query.limit 200) 200 = min query.limit 200 := by omega
  unfold normalized
  simp only [normalizeLineageId_idem, ThreadParentFilter.normalized_idem, hlimit]

theorem ThreadQuery.matchesThread_normalized (query : ThreadQuery) :
    query.normalized.matchesThread = query.matchesThread := by
  funext thread
  unfold matchesThread
  rw [normalized_idem]

/-- The cursors of a page belong to the query at every other offset. -/
theorem ThreadQuery.bindsToken_encodeCursor (query : ThreadQuery) (start offset : Nat) :
    query.normalized.bindsToken
      ((query.startingAt start).normalized.encodeCursor offset) = true := by
  have hidem := (query.startingAt start).normalized_idem
  unfold encodeCursor
  rw [hidem]
  simp [bindsToken, normalized, startingAt]

/-! ## The documented orders -/

instance : IsTrans Thread Thread.recentLe where
  trans a b c hab hbc := by
    unfold Thread.recentLe at hab hbc ⊢
    simp only [UInt64.lt_iff_toNat_lt, ← UInt64.toNat_inj] at hab hbc ⊢
    cases hab with
    | inl hlt =>
      left
      omega
    | inr heq =>
      cases hbc with
      | inl hlt =>
        left
        omega
      | inr heq' => exact .inr ⟨by omega, String.le_trans heq.2 heq'.2⟩

instance : Std.Total Thread.recentLe where
  total a b := by
    unfold Thread.recentLe
    simp only [UInt64.lt_iff_toNat_lt, ← UInt64.toNat_inj]
    have hids := String.le_total a.id b.id
    by_cases heq : b.recentActivity.toNat = a.recentActivity.toNat
    · cases hids with
      | inl hle => exact .inl (.inr ⟨heq, hle⟩)
      | inr hle => exact .inr (.inr ⟨heq.symm, hle⟩)
    · by_cases hlt : b.recentActivity.toNat < a.recentActivity.toNat
      · exact .inl (.inl hlt)
      · exact .inr (.inl (by omega))

/-- Message records stand in the order of the query. -/
def MessageOrder.before : MessageOrder → MessageRecord → MessageRecord → Prop
  | .asc, a, b => a.seq ≤ b.seq
  | .desc, a, b => b.seq ≤ a.seq

instance (order : MessageOrder) : DecidableRel order.before := fun a b =>
  match order with
  | .asc => inferInstanceAs (Decidable (a.seq ≤ b.seq))
  | .desc => inferInstanceAs (Decidable (b.seq ≤ a.seq))

instance (order : MessageOrder) : IsTrans MessageRecord order.before where
  trans a b c hab hbc := by
    cases order with
    | asc => exact Nat.le_trans hab hbc
    | desc => exact Nat.le_trans hbc hab

instance (order : MessageOrder) : Std.Total order.before where
  total a b := by
    cases order with
    | asc => exact Nat.le_total a.seq b.seq
    | desc => exact Nat.le_total b.seq a.seq

/-! ## Windows -/

/-- What a caller sees of a page of threads. -/
def ThreadPage.read (text : TokenText ThreadCursorToken) (page : ThreadPage) :
    Page String String where
  items := page.items
  hasMore := page.hasMore
  next := page.nextCursor.map (encodeCursorToken text threadCursorPrefix)

/-- What a caller sees of a page of message records. -/
def MessagePage.read (text : TokenText MessageCursorToken) (page : MessagePage) :
    Page MessageRecord String where
  items := page.records
  hasMore := page.hasMore
  next := page.nextCursor.map (encodeCursorToken text messageCursorPrefix)

section

variable (threads : List Thread) (query : ThreadQuery)

/-- The matching threads in the documented order. -/
def matchingThreads (threads : List Thread) (query : ThreadQuery) : List Thread :=
  (sortThreadsByRecentActivity threads).filter query.matchesThread

theorem matchingThreads_normalized :
    matchingThreads threads query.normalized = matchingThreads threads query := by
  unfold matchingThreads
  rw [query.matchesThread_normalized]

theorem paginateThreads_items :
    (paginateThreads threads query).items =
      (((matchingThreads threads query).drop query.offset).take (min query.limit 200)).map
        Thread.id := by
  have hpage : (paginateThreads threads query).items =
      (((matchingThreads threads query.normalized).drop
        (min query.offset (matchingThreads threads query.normalized).length)).take
          (min query.limit 200)).map Thread.id := rfl
  rw [hpage, matchingThreads_normalized, ← List.drop_eq_drop_min]

theorem paginateThreads_hasMore (hlimit : 1 ≤ query.limit) :
    (paginateThreads threads query).hasMore =
      decide (query.offset + (paginateThreads threads query).items.length <
        (matchingThreads threads query).length) := by
  have hpage : (paginateThreads threads query).hasMore =
      (decide (0 < min query.limit 200) &&
        decide (min query.offset (matchingThreads threads query.normalized).length +
          (paginateThreads threads query).items.length <
            (matchingThreads threads query.normalized).length)) := rfl
  have hroom : decide (0 < min query.limit 200) = true := decide_eq_true (by omega)
  rw [hpage, matchingThreads_normalized, hroom, Bool.true_and, decide_eq_decide]
  omega

theorem paginateThreads_nextCursor (hlimit : 1 ≤ query.limit)
    (hmore : (paginateThreads threads query).hasMore = true) :
    (paginateThreads threads query).nextCursor =
      some (query.normalized.encodeCursor
        (query.offset + (paginateThreads threads query).items.length)) := by
  have hpage : (paginateThreads threads query).nextCursor =
      if (paginateThreads threads query).hasMore then
        some (query.normalized.encodeCursor
          (min query.offset (matchingThreads threads query.normalized).length +
            (paginateThreads threads query).items.length))
      else none := rfl
  have hlt := paginateThreads_hasMore threads query hlimit ▸ hmore
  rw [decide_eq_true_eq] at hlt
  rw [hpage, if_pos hmore, matchingThreads_normalized, Nat.min_eq_left (by omega)]

end

/-- A caller's reads of the pages of a thread query. -/
def readThreads (text : TokenText ThreadCursorToken) (threads : List Thread) (query : ThreadQuery)
    (offset : Nat) : Option (Page String String) :=
  some ((paginateThreads threads (query.startingAt offset)).read text)

/-- The pages of a thread query are windows of the matching threads. -/
theorem readThreads_windows (text : TokenText ThreadCursorToken) (threads : List Thread)
    (query : ThreadQuery) (hlimit : 1 ≤ query.limit) :
    Windows (readThreads text threads query)
      (fun cursor => (query.decodeCursor text cursor).toOption)
      ((matchingThreads threads query).map Thread.id) (min query.limit 200) := by
  constructor
  case size_pos => omega
  case page =>
    intro offset hoffset
    -- the filters do not look at the offset
    have hitems := paginateThreads_items threads (query.startingAt offset)
    have hmore := paginateThreads_hasMore threads (query.startingAt offset) hlimit
    refine ⟨_, rfl, ?_, ?_, ?_⟩
    · rw [← List.map_drop, ← List.map_take]
      exact hitems
    · rw [List.length_map]
      exact hmore
    · intro hleads
      have hnext := paginateThreads_nextCursor threads (query.startingAt offset) hlimit hleads
      refine ⟨_, congrArg (Option.map (encodeCursorToken text threadCursorPrefix)) hnext, ?_⟩
      rw [query.decodeCursor_encode text, if_pos (query.bindsToken_encodeCursor offset _)]
      rfl

/-- A walk over a set of threads visits the matching ones once, the most recent first. -/
theorem readThreads_visitsOnce (text : TokenText ThreadCursorToken) (threads : List Thread)
    (query : ThreadQuery) (hlimit : 1 ≤ query.limit) :
    VisitsOnce (readThreads text threads query)
      (fun cursor => (query.decodeCursor text cursor).toOption)
      Thread.id Thread.recentLe (threads.filter query.matchesThread) := by
  have hsort := List.perm_insertionSort Thread.recentLe threads
  have hsorted := List.pairwise_insertionSort Thread.recentLe threads
  apply (readThreads_windows text threads query hlimit).visitsOnce
  · exact hsort.filter query.matchesThread
  · exact hsorted.sublist List.filter_sublist

/-! ## Message records -/

/-- The page size of a message query. -/
def MessageQuery.pageSize (query : MessageQuery) : Nat := query.normalized.limit.toNat

theorem MessageQuery.pageSize_eq (query : MessageQuery) :
    query.pageSize = min query.limit.toNat 200 := by
  show (min query.limit 200).toNat = _
  have h200 : (200 : UInt64).toNat = 200 := rfl
  by_cases hle : query.limit ≤ 200
  · have hnat := UInt64.le_iff_toNat_le.mp hle
    rw [h200] at hnat
    rw [show min query.limit 200 = query.limit from if_pos hle]
    omega
  · have hnat := UInt64.lt_iff_toNat_lt.mp (UInt64.not_le.mp hle)
    rw [h200] at hnat
    rw [show min query.limit 200 = 200 from if_neg hle, h200]
    omega

section

variable (records : List MessageRecord) (query : MessageQuery)

/-- The matching records in the order of the query. -/
def matchingRecords (records : List MessageRecord) (query : MessageQuery) : List MessageRecord :=
  (records.filter query.matchesRecord).insertionSort query.order.before

theorem length_matchingRecords_le : (matchingRecords records query).length ≤ records.length := by
  unfold matchingRecords
  rw [List.length_insertionSort]
  exact List.length_filter_le _ _

/-- What the pagination computes, with the order of the query as one relation. -/
theorem paginateMessageRecords_eq :
    paginateMessageRecords records query =
      let start := min query.offset.toNat (matchingRecords records query).length
      let pageRecords := ((matchingRecords records query).drop start).take query.pageSize
      let nextOffset := start + pageRecords.length
      let hasMore := decide (0 < query.normalized.limit) &&
        decide (nextOffset < (matchingRecords records query).length)
      { records := pageRecords
        total := (matchingRecords records query).length
        hasMore := hasMore
        nextCursor := if hasMore then some (query.normalized.encodeCursor nextOffset) else none
        prevCursor :=
          if 0 < query.normalized.limit ∧ 0 < start then
            some (query.normalized.encodeCursor (start - query.pageSize))
          else none } := by
  obtain ⟨offset, limit, after, before, order, visibility, runId⟩ := query
  cases order with
  | asc => rfl
  | desc => rfl

theorem paginateMessageRecords_records :
    (paginateMessageRecords records query).records =
      ((matchingRecords records query).drop query.offset.toNat).take query.pageSize := by
  rw [paginateMessageRecords_eq]
  dsimp only
  rw [← List.drop_eq_drop_min]

theorem paginateMessageRecords_hasMore (hlimit : 1 ≤ query.limit) :
    (paginateMessageRecords records query).hasMore =
      decide (query.offset.toNat + (paginateMessageRecords records query).records.length <
        (matchingRecords records query).length) := by
  have hroom : decide (0 < query.normalized.limit) = true := by
    rw [decide_eq_true_eq, UInt64.lt_iff_toNat_lt]
    have hsize := query.pageSize_eq
    have hnat := UInt64.le_iff_toNat_le.mp hlimit
    unfold MessageQuery.pageSize at hsize
    rw [hsize]
    show 0 < _
    change 1 ≤ _ at hnat
    omega
  have hpage : (paginateMessageRecords records query).hasMore =
      (decide (0 < query.normalized.limit) &&
        decide (min query.offset.toNat (matchingRecords records query).length +
          (paginateMessageRecords records query).records.length <
            (matchingRecords records query).length)) := by
    rw [paginateMessageRecords_eq]
  rw [hpage, hroom, Bool.true_and, decide_eq_decide]
  omega

theorem paginateMessageRecords_nextCursor (hlimit : 1 ≤ query.limit)
    (hmore : (paginateMessageRecords records query).hasMore = true) :
    (paginateMessageRecords records query).nextCursor =
      some (query.normalized.encodeCursor
        (query.offset.toNat + (paginateMessageRecords records query).records.length)) := by
  have hnext : (paginateMessageRecords records query).nextCursor =
      if (paginateMessageRecords records query).hasMore then
        some (query.normalized.encodeCursor
          (min query.offset.toNat (matchingRecords records query).length +
            (paginateMessageRecords records query).records.length))
      else none := by
    rw [paginateMessageRecords_eq]
  have hlt := paginateMessageRecords_hasMore records query hlimit ▸ hmore
  rw [decide_eq_true_eq] at hlt
  rw [hnext, if_pos hmore, Nat.min_eq_left (by omega)]

end

/-- A caller's reads of the pages of a message query. -/
def readRecords (text : TokenText MessageCursorToken) (records : List MessageRecord)
    (query : MessageQuery) (offset : Nat) : Option (Page MessageRecord String) :=
  some ((paginateMessageRecords records (query.startingAt offset)).read text)

/-- The pages of a message query are windows of the matching records. -/
theorem readRecords_windows (text : TokenText MessageCursorToken) (records : List MessageRecord)
    (hlength : records.length < 0x10000000000000000) (query : MessageQuery)
    (hlimit : 1 ≤ query.limit) :
    Windows (readRecords text records query)
      (fun cursor => (query.decodeCursor text cursor).toOption)
      (matchingRecords records query) query.pageSize := by
  constructor
  case size_pos =>
    have hnat := UInt64.le_iff_toNat_le.mp hlimit
    change 1 ≤ _ at hnat
    rw [query.pageSize_eq]
    omega
  case page =>
    intro offset hoffset
    have hmatching : matchingRecords records (query.startingAt offset) =
        matchingRecords records query := rfl
    have htotal := length_matchingRecords_le records query
    have hstart : (query.startingAt offset).offset.toNat = offset := by
      show (UInt64.ofNat offset).toNat = offset
      rw [UInt64.toNat_ofNat']
      omega
    have hitems := paginateMessageRecords_records records (query.startingAt offset)
    have hmore := paginateMessageRecords_hasMore records (query.startingAt offset) hlimit
    rw [hstart, hmatching] at hitems hmore
    refine ⟨_, rfl, hitems, hmore, ?_⟩
    intro hleads
    have hnext := paginateMessageRecords_nextCursor records (query.startingAt offset) hlimit
        hleads
    rw [hstart] at hnext
    refine ⟨_, congrArg (Option.map (encodeCursorToken text messageCursorPrefix)) hnext, ?_⟩
    have hbinds : query.bindsToken ((query.startingAt offset).normalized.encodeCursor
        (offset + (paginateMessageRecords records (query.startingAt offset)).records.length)) =
          true :=
      query.bindsToken_encodeCursor _ _
    rw [query.decodeCursor_encode text, if_pos hbinds]
    rfl

/-- The matching records stand in the order of the query. -/
theorem pairwise_matchingRecords (records : List MessageRecord) (query : MessageQuery) :
    (matchingRecords records query).Pairwise query.order.before :=
  List.pairwise_insertionSort query.order.before _

theorem perm_matchingRecords (records : List MessageRecord) (query : MessageQuery) :
    (matchingRecords records query).Perm (records.filter query.matchesRecord) :=
  List.perm_insertionSort query.order.before _

/-- A walk over a set of records visits the matching ones once, in the order of the query. -/
theorem readRecords_visitsOnce (text : TokenText MessageCursorToken) (records : List MessageRecord)
    (hlength : records.length < 0x10000000000000000) (query : MessageQuery)
    (hlimit : 1 ≤ query.limit) :
    VisitsOnce (readRecords text records query)
      (fun cursor => (query.decodeCursor text cursor).toOption)
      id query.order.before (records.filter query.matchesRecord) := by
  have hwindows := readRecords_windows text records hlength query hlimit
  rw [← List.map_id (matchingRecords records query)] at hwindows
  exact hwindows.visitsOnce (perm_matchingRecords records query)
    (pairwise_matchingRecords records query)

end Remo
