import Remo.Native.Storage.Messages

/-!
# Thread queries and pagination cursors

A cursor is a prefix and the text of a token. The token carries the offset to go on from and the
filters of the query it was made for; a query only takes back cursors of its own filters.
-/

namespace Remo

/-! ## Cursor tokens -/

/-- The text of a token: its JSON in URL-safe base64. -/
structure TokenText (τ : Type*) where
  encode : τ → String
  decode : String → Option τ
  decode_encode : ∀ token, decode (encode token) = some token

variable {τ : Type*}

def encodeCursorToken (text : TokenText τ) (pre : String) (token : τ) : String :=
  pre ++ text.encode token

def decodeCursorToken (text : TokenText τ) (pre cursor : String) : Except String τ :=
  match (Str.stripPrefix pre cursor).bind text.decode with
  | some token => .ok token
  | none => .error "cursor must be a valid pagination token"

def messageCursorPrefix : String := "msg_"

def threadCursorPrefix : String := "thr_"

namespace MessageQuery

/-- Whether a token was made for the filters of the query. -/
def bindsToken (self : MessageQuery) (token : MessageCursorToken) : Bool :=
  token.after == self.after && token.before == self.before && token.order == self.order &&
    token.visibility == self.visibility && token.runId == self.runId

/-- Decode a cursor and verify it belongs to this exact query shape. -/
def decodeCursor (self : MessageQuery) (text : TokenText MessageCursorToken) (cursor : String) :
    Except String Nat :=
  match parseU64 cursor with
  | some offset => .ok offset.toNat
  | none => do
    let normalized := self.normalized
    let token ← decodeCursorToken text messageCursorPrefix cursor
    if normalized.bindsToken token then pure token.offset
    else throw "cursor does not match message query filters"

end MessageQuery

/-! ## Thread queries -/

/-- Parent/root lineage filter for thread queries. -/
inductive ThreadParentFilter where
  | any
  | root
  | parent (parentThreadId : String)
deriving Repr, DecidableEq

namespace ThreadParentFilter

def isAny (self : ThreadParentFilter) : Bool := self == .any

/-- A blank parent does not filter. -/
def normalized : ThreadParentFilter → ThreadParentFilter
  | .any => .any
  | .root => .root
  | .parent parentThreadId =>
    ((normalizeLineageId (some parentThreadId)).map .parent).getD .any

end ThreadParentFilter

/-- What a thread cursor stands for. -/
structure ThreadCursorToken where
  offset : Nat
  resourceId : Option String
  parentFilter : ThreadParentFilter
  idPrefix : Option String
deriving Repr, DecidableEq

/-- Pagination/filter query for listing threads. -/
structure ThreadQuery where
  offset : Nat
  limit : Nat
  resourceId : Option String
  parentFilter : ThreadParentFilter
  /-- Keep only thread ids that start with this prefix. -/
  idPrefix : Option String
deriving Repr, DecidableEq

namespace ThreadQuery

/-- The query carries a filter that is not pagination. -/
def hasFilters (self : ThreadQuery) : Bool :=
  (normalizeLineageId self.resourceId).isSome || !self.parentFilter.isAny || self.idPrefix.isSome

/-- The query with normalized lineage filters and the page limit applied. -/
def normalized (self : ThreadQuery) : ThreadQuery where
  offset := self.offset
  limit := min self.limit 200
  resourceId := normalizeLineageId self.resourceId
  parentFilter := self.parentFilter.normalized
  idPrefix := self.idPrefix

/-- The cursor for continuing this exact query. -/
def encodeCursor (self : ThreadQuery) (offset : Nat) : ThreadCursorToken :=
  let normalized := self.normalized
  ⟨offset, normalized.resourceId, normalized.parentFilter, normalized.idPrefix⟩

/-- Whether a token was made for the filters of the query. -/
def bindsToken (self : ThreadQuery) (token : ThreadCursorToken) : Bool :=
  token.resourceId == self.resourceId && token.parentFilter == self.parentFilter &&
    token.idPrefix == self.idPrefix

/-- Decode a cursor and verify it belongs to this exact query shape. A plain number belongs to
    the query without filters. -/
def decodeCursor (self : ThreadQuery) (text : TokenText ThreadCursorToken) (cursor : String) :
    Except String Nat :=
  let normalized := self.normalized
  match parseU64 cursor with
  | some offset =>
    if normalized.hasFilters then .error "cursor does not match thread query filters"
    else .ok offset.toNat
  | none => do
    let token ← decodeCursorToken text threadCursorPrefix cursor
    if normalized.bindsToken token then pure token.offset
    else throw "cursor does not match thread query filters"

/-- The parent of a thread passes a filter. -/
def matchesParent (thread : Thread) : ThreadParentFilter → Bool
  | .any => true
  | .root => (normalizeLineageId thread.parentThreadId).isNone
  | .parent parentThreadId =>
    decide (normalizeLineageId thread.parentThreadId = some parentThreadId)

/-- A thread passes the query filters. -/
def matchesThread (self : ThreadQuery) (thread : Thread) : Bool :=
  let normalized := self.normalized
  if normalized.idPrefix.any fun pre => !Str.startsWith pre thread.id then false
  else if normalized.resourceId.any fun resourceId =>
      decide (normalizeLineageId thread.resourceId ≠ some resourceId) then false
  else matchesParent thread normalized.parentFilter

end ThreadQuery

/-! ## Pages of threads -/

/-- Paginated thread id response. The cursors are given by what they encode. -/
structure ThreadPage where
  items : List String
  total : Nat
  hasMore : Bool
  nextCursor : Option ThreadCursorToken
  prevCursor : Option ThreadCursorToken
deriving Repr, DecidableEq

namespace Thread

/-- The time of the last activity. -/
def recentActivity (self : Thread) : UInt64 :=
  (self.metadata.updatedAt.or self.metadata.createdAt).getD 0

/-- Later activity comes first, then the smaller id. -/
def recentLe (a b : Thread) : Prop :=
  b.recentActivity < a.recentActivity ∨ b.recentActivity = a.recentActivity ∧ a.id ≤ b.id

instance : DecidableRel recentLe := fun a b =>
  inferInstanceAs (Decidable (b.recentActivity < a.recentActivity ∨
    b.recentActivity = a.recentActivity ∧ a.id ≤ b.id))

end Thread

/-- Sort threads by recent activity, then id for deterministic ties. -/
def sortThreadsByRecentActivity (threads : List Thread) : List Thread :=
  threads.insertionSort Thread.recentLe

/-- Apply thread filters and offset pagination to a thread set. -/
def paginateThreads (threads : List Thread) (query : ThreadQuery) : ThreadPage :=
  let query := query.normalized
  let filtered := (sortThreadsByRecentActivity threads).filter query.matchesThread
  let total := filtered.length
  let start := min query.offset total
  let items := ((filtered.drop start).take query.limit).map Thread.id
  let nextOffset := start + items.length
  let hasMore := decide (0 < query.limit) && decide (nextOffset < total)
  { items := items
    total := total
    hasMore := hasMore
    nextCursor := if hasMore then some (query.encodeCursor nextOffset) else none
    prevCursor :=
      if 0 < query.limit ∧ 0 < start then
        some (query.encodeCursor (start - query.limit))
      else none }

theorem length_sortThreadsByRecentActivity (threads : List Thread) :
    (sortThreadsByRecentActivity threads).length = threads.length :=
  List.length_insertionSort _ _

/-- A page has no more ids than there are threads behind its offset. -/
theorem length_items_le (threads : List Thread) (query : ThreadQuery) :
    (paginateThreads threads query).items.length ≤ threads.length - query.offset := by
  have hfiltered := List.length_filter_le query.normalized.matchesThread
    (sortThreadsByRecentActivity threads)
  rw [length_sortThreadsByRecentActivity] at hfiltered
  have hoffset : query.normalized.offset = query.offset := rfl
  show (List.map Thread.id _).length ≤ _
  rw [List.length_map, List.length_take, List.length_drop, hoffset]
  omega

/-- A page that leads on ends before the threads do. -/
theorem lt_of_hasMore {threads : List Thread} {query : ThreadQuery}
    (h : (paginateThreads threads query).hasMore = true) :
    query.offset + (paginateThreads threads query).items.length < threads.length := by
  have hfiltered := List.length_filter_le query.normalized.matchesThread
    (sortThreadsByRecentActivity threads)
  rw [length_sortThreadsByRecentActivity] at hfiltered
  have hoffset : query.normalized.offset = query.offset := rfl
  have hlt := (Bool.and_eq_true_iff.mp h).2
  rw [decide_eq_true_eq, hoffset] at hlt
  show query.offset + (List.map Thread.id _).length < _
  rw [hoffset]
  omega

namespace InMemoryStore

/-- List thread ids with filters and page metadata. -/
def listThreadsQuery (s : InMemoryStore) (query : ThreadQuery) : ThreadPage :=
  paginateThreads s.threads.values query

end InMemoryStore

end Remo
