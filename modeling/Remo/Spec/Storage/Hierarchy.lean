import Remo.ForStd.ParentTree
import Remo.Native.Storage.Store
import Remo.Spec.Pending.QueueSteps

/-!
# The thread hierarchy

A parent is set by a save, or by the projection of a run, after a walk up from it;
it is cleared by a detaching delete. The stored threads stay a forest under all of
them.

## Key results

- `walkAncestors_ok`: a walk that ends found a root and passed no visited thread
- `run_forest`: in every state the parents form a forest
-/

namespace Remo

/-! ## Lineage ids -/

/-- What is trimmed starts with no white space any more. -/
theorem Str.dropWhile_trimmed (l : List Char) :
    ((l.dropWhile Str.isWhitespace).rdropWhile Str.isWhitespace).dropWhile Str.isWhitespace =
      (l.dropWhile Str.isWhitespace).rdropWhile Str.isWhitespace := by
  have hfront := List.rdropWhile_prefix Str.isWhitespace (l := l.dropWhile Str.isWhitespace)
  cases hr : (l.dropWhile Str.isWhitespace).rdropWhile Str.isWhitespace with
  | nil => rfl
  | cons c cs =>
    rw [hr] at hfront
    obtain ⟨rest, hrest⟩ := hfront
    have hne : l.dropWhile Str.isWhitespace ≠ [] := by
      rw [← hrest]
      simp
    have hhead := List.head_dropWhile_not Str.isWhitespace hne
    simp only [← hrest, List.cons_append, List.head_cons] at hhead
    exact List.dropWhile_cons_of_neg (by simp [hhead])

theorem Str.trim_trim (s : String) : Str.trim (Str.trim s) = Str.trim s := by
  unfold Str.trim
  rw [String.toList_ofList, Str.dropWhile_trimmed, List.rdropWhile_idempotent]

theorem normalizeLineageId_idem (value : Option String) :
    normalizeLineageId (normalizeLineageId value) = normalizeLineageId value := by
  cases value with
  | none => rfl
  | some v =>
    unfold normalizeLineageId
    rw [Option.map_some]
    cases hblank : (Str.trim v).isEmpty with
    | true => simp [Option.filter, hblank]
    | false => simp [Option.filter, hblank, Str.trim_trim]

@[simp] theorem normalizeLineageId_none : normalizeLineageId none = none := rfl

/-! ## The parents of the stored threads -/

/-- The parent pointers of the stored threads. -/
def parentOf (threads : AssocMap String Thread) (id : String) : Option (Option String) :=
  (threads.get? id).map Thread.parentThreadId

/-- Threads are stored under their ids and with trimmed parents, and form a forest. -/
structure Hierarchical (threads : AssocMap String Thread) : Prop where
  keyed : ∀ id thread, threads.get? id = some thread → thread.id = id
  normalized : ∀ id thread, threads.get? id = some thread →
    normalizeLineageId thread.parentThreadId = thread.parentThreadId
  forest : Forest (parentOf threads)

/-- A walk up that ends reached a root and came by no visited thread. -/
theorem walkAncestors_ok {threads : AssocMap String Thread} (h : Hierarchical threads)
    {rootParentThreadId : String} {visited : List String} {current : String}
    (hok : walkAncestors threads rootParentThreadId visited current = .ok ()) :
    ∃ path, Ancestry (parentOf threads) current path ∧ ∀ x ∈ path, x ∉ visited := by
  fun_induction walkAncestors threads rootParentThreadId visited current with
  | case1 => cases hok
  | case2 => cases hok
  | case3 visited current hnew thread hthread hroot =>
    have hparent : thread.parentThreadId = none := by
      rw [← h.normalized current thread hthread, hroot]
    refine ⟨[current], .root (by rw [parentOf, hthread, Option.map_some, hparent]), ?_⟩
    intro x hx
    rw [List.mem_singleton.mp hx]
    exact hnew
  | case4 visited current hnew thread hthread next hnext _ ih =>
    obtain ⟨path, hpath, havoids⟩ := ih hok
    have hparent : thread.parentThreadId = some next := by
      rw [← h.normalized current thread hthread, hnext]
    have hup : parentOf threads current = some (some next) := by
      rw [parentOf, hthread, Option.map_some, hparent]
    refine ⟨current :: path, .child hup hpath, ?_⟩
    intro x hx
    cases List.mem_cons.mp hx with
    | inl heq => exact heq ▸ hnew
    | inr hmem => exact fun hvisited => havoids x hmem (List.mem_cons_of_mem _ hvisited)

/-- A parent that passes the check is absent, or its walk does not pass the thread. -/
theorem validateThreadHierarchyMap_ok {threads : AssocMap String Thread}
    (h : Hierarchical threads) {threadId : String} {parentThreadId : Option String}
    (hok : validateThreadHierarchyMap threads threadId parentThreadId = .ok ()) :
    ∀ parent, normalizeLineageId parentThreadId = some parent →
      ∃ path, Ancestry (parentOf threads) parent path ∧ threadId ∉ path := by
  intro parent hparent
  unfold validateThreadHierarchyMap at hok
  rw [hparent] at hok
  dsimp only at hok
  split at hok
  · cases hok
  · obtain ⟨path, hpath, havoids⟩ := walkAncestors_ok h hok
    exact ⟨path, hpath, fun hmem => havoids threadId hmem (List.mem_singleton_self _)⟩

/-- Walking up from any stored thread ends at a root, comes to no thread twice and to
    stored threads only. -/
def WalksUp (threads : AssocMap String Thread) : Prop :=
  ∀ id thread, threads.get? id = some thread →
    ∃ path, Ancestry (parentOf threads) id path ∧ path.Nodup ∧
      ∀ x ∈ path, (threads.get? x).isSome

theorem Hierarchical.walksUp {threads : AssocMap String Thread} (h : Hierarchical threads) :
    WalksUp threads := by
  intro id thread hthread
  have hstored : parentOf threads id ≠ none := by simp [parentOf, hthread]
  obtain ⟨path, hpath⟩ := h.forest id hstored
  refine ⟨path, hpath, hpath.nodup, ?_⟩
  intro x hx
  have hisSome := hpath.isSome x hx
  rwa [parentOf, Option.isSome_map] at hisSome

/-! ## Storing a thread -/

theorem parentOf_insert (threads : AssocMap String Thread) (id : String) (thread : Thread)
    (x : String) : parentOf (threads.insert id thread) x =
      if x = id then some thread.parentThreadId else parentOf threads x := by
  unfold parentOf
  rw [AssocMap.get?_insert]
  split <;> rfl

/-- A thread can be stored when it is a root or the walk from its parent does not pass it. -/
theorem Hierarchical.insert {threads : AssocMap String Thread} (h : Hierarchical threads)
    {thread : Thread}
    (hnormalized : normalizeLineageId thread.parentThreadId = thread.parentThreadId)
    (hparent : ∀ parent, thread.parentThreadId = some parent →
      ∃ path, Ancestry (parentOf threads) parent path ∧ thread.id ∉ path) :
    Hierarchical (threads.insert thread.id thread) := by
  have hsame : ∀ x, x ≠ thread.id →
      parentOf (threads.insert thread.id thread) x = parentOf threads x := by
    intro x hx
    rw [parentOf_insert, if_neg hx]
  have hself : parentOf (threads.insert thread.id thread) thread.id =
      some thread.parentThreadId := by
    rw [parentOf_insert, if_pos rfl]
  constructor
  case keyed =>
    intro id stored hstored
    rw [AssocMap.get?_insert] at hstored
    split at hstored
    · rename_i hid
      rw [← Option.some.inj hstored, hid]
    · exact h.keyed id stored hstored
  case normalized =>
    intro id stored hstored
    rw [AssocMap.get?_insert] at hstored
    split at hstored
    · rw [← Option.some.inj hstored, hnormalized]
    · exact h.normalized id stored hstored
  case forest =>
    cases hup : thread.parentThreadId with
    | none => exact h.forest.detach (hself.trans (by rw [hup])) hsame
    | some parent =>
      obtain ⟨path, hpath, hthread⟩ := hparent parent hup
      exact h.forest.point hpath hthread (hself.trans (by rw [hup])) hsame

theorem Hierarchical.saveThreadValidated {s : InMemoryStore} (h : Hierarchical s.threads)
    (thread : Thread) :
    Hierarchical (InMemoryStore.saveThreadValidated thread s).2.threads := by
  have hnormalized : normalizeLineageId thread.normalizeLineage.parentThreadId =
      thread.normalizeLineage.parentThreadId := normalizeLineageId_idem _
  unfold InMemoryStore.saveThreadValidated
  dsimp only
  split
  · exact h
  · rename_i hchecked
    obtain ⟨-, hhierarchy⟩ := bind_ok.mp hchecked
    apply h.insert hnormalized
    intro parent hparent
    exact validateThreadHierarchyMap_ok h hhierarchy parent (hnormalized.trans hparent)

/-! ## The projection of a run -/

/-- The stored threads after a run of the thread was stored. -/
def projectedThreads (threads : AssocMap String Thread) (threadId : String) (run : RunRecord)
    (now : UInt64) : AssocMap String Thread :=
  threads.insert threadId
    ((((threads.get? threadId).getD (Thread.withId threadId)).touch now).applyRunProjection
      run).normalizeLineage

theorem applyRunProjection_id (thread : Thread) (run : RunRecord) :
    (thread.applyRunProjection run).id = thread.id := by
  unfold Thread.applyRunProjection
  repeat' split <;> try rfl

/-- The projection keeps a parent, and takes that of the run at most when there is none. -/
theorem applyRunProjection_parent (thread : Thread) (run : RunRecord) :
    (thread.applyRunProjection run).parentThreadId = thread.parentThreadId ∨
      thread.parentThreadId = none ∧ (thread.applyRunProjection run).parentThreadId =
        normalizeLineageId (run.request.bind RunRequestSnapshot.parentThreadId) := by
  have hor : thread.parentThreadId.or
        (normalizeLineageId (run.request.bind RunRequestSnapshot.parentThreadId)) =
          thread.parentThreadId ∨
      thread.parentThreadId = none ∧ thread.parentThreadId.or
        (normalizeLineageId (run.request.bind RunRequestSnapshot.parentThreadId)) =
          normalizeLineageId (run.request.bind RunRequestSnapshot.parentThreadId) := by
    cases thread.parentThreadId <;> simp
  unfold Thread.applyRunProjection
  split
  · dsimp only
    split <;> exact hor
  · split <;> exact .inl rfl

/-- A run whose parent was checked leaves a hierarchy. -/
theorem Hierarchical.projected {threads : AssocMap String Thread} (h : Hierarchical threads)
    {threadId : String} {run : RunRecord} (now : UInt64)
    (hok : validateThreadHierarchyMap threads threadId
      (checkpointParentThreadId (threads.get? threadId) run) = .ok ()) :
    Hierarchical (projectedThreads threads threadId run now) := by
  have hchecked := validateThreadHierarchyMap_ok h hok
  let existing := ((threads.get? threadId).getD (Thread.withId threadId)).touch now
  have hexisting : existing.id = threadId ∧
      normalizeLineageId existing.parentThreadId = existing.parentThreadId ∧
      checkpointParentThreadId (threads.get? threadId) run = existing.parentThreadId.or
        (run.request.bind RunRequestSnapshot.parentThreadId) := by
    show (Thread.touch _ now).id = threadId ∧ normalizeLineageId (Thread.touch _ now).parentThreadId
      = (Thread.touch _ now).parentThreadId ∧ _ = (Thread.touch _ now).parentThreadId.or _
    cases hthread : threads.get? threadId with
    | none => exact ⟨rfl, rfl, rfl⟩
    | some thread =>
      have hkeyed : thread.id = threadId := h.keyed threadId thread hthread
      have hnormal := h.normalized threadId thread hthread
      exact ⟨hkeyed, hnormal, rfl⟩
  obtain ⟨hid, hnormalized, hcheckpoint⟩ := hexisting
  have hthreadId : ((existing.applyRunProjection run).normalizeLineage).id = threadId :=
    (applyRunProjection_id existing run).trans hid
  have hinsert : projectedThreads threads threadId run now =
      threads.insert ((existing.applyRunProjection run).normalizeLineage).id
        (existing.applyRunProjection run).normalizeLineage := by
    rw [hthreadId]
    rfl
  rw [hinsert]
  apply h.insert (normalizeLineageId_idem _)
  intro parent hparent
  rw [hthreadId]
  apply hchecked
  rw [hcheckpoint]
  have hprojected : normalizeLineageId (existing.applyRunProjection run).parentThreadId =
      some parent := hparent
  cases applyRunProjection_parent existing run with
  | inl hkept =>
    rw [hkept, hnormalized] at hprojected
    rw [hprojected, Option.some_or, ← hprojected, hnormalized]
  | inr htaken =>
    rw [htaken.2, normalizeLineageId_idem] at hprojected
    rw [htaken.1, Option.none_or, hprojected]

/-! ## Deleting a thread -/

/-- Threads can be taken out when their children go with them. -/
theorem Hierarchical.restrict {threads threads' : AssocMap String Thread}
    (h : Hierarchical threads) (gone : String → Prop)
    (hgone : ∀ id, gone id → threads'.get? id = none)
    (hstays : ∀ id, ¬gone id → threads'.get? id = threads.get? id)
    (hclosed : ∀ id thread parent, threads.get? id = some thread →
      thread.parentThreadId = some parent → gone parent → gone id) :
    Hierarchical threads' := by
  have hget : ∀ id thread, threads'.get? id = some thread → threads.get? id = some thread := by
    intro id thread hthread
    have hnot : ¬gone id := by
      intro hid
      rw [hgone id hid] at hthread
      cases hthread
    rw [← hstays id hnot, hthread]
  constructor
  case keyed => exact fun id thread hthread => h.keyed id thread (hget id thread hthread)
  case normalized => exact fun id thread hthread => h.normalized id thread (hget id thread hthread)
  case forest =>
    apply h.forest.restrict gone
    · intro x hx
      rw [parentOf, hgone x hx]
      rfl
    · intro x hx
      rw [parentOf, hstays x hx]
      rfl
    · intro x parent hup hparent
      obtain ⟨thread, hthread, heq⟩ := Option.map_eq_some_iff.mp hup
      exact hclosed x thread parent hthread heq hparent

theorem removeThread_threads (s : InMemoryStore) (threadId id : String) :
    (s.removeThread threadId).threads.get? id =
      if id = threadId then none else s.threads.get? id := by
  show (s.threads.retain fun k _ => decide (k ≠ threadId)).get? id = _
  rw [AssocMap.get?_retain_keys s.threads (fun k => decide (k ≠ threadId)) id]
  by_cases hid : id = threadId <;> simp [hid]

/-- A thread without children can be removed. -/
theorem Hierarchical.removeThread {s : InMemoryStore} (h : Hierarchical s.threads)
    {threadId : String}
    (hnone : ∀ id thread, s.threads.get? id = some thread →
      thread.parentThreadId ≠ some threadId) :
    Hierarchical (s.removeThread threadId).threads := by
  apply h.restrict (fun id => id = threadId)
  · intro id hid
    rw [removeThread_threads, if_pos hid]
  · intro id hid
    rw [removeThread_threads, if_neg hid]
  · intro id thread parent hthread hparent heq
    exact absurd (heq ▸ hparent) (hnone id thread hthread)

/-- The children of a stored thread, by their own ids. -/
theorem Hierarchical.mem_collectChildIds {threads : AssocMap String Thread}
    (h : Hierarchical threads) {parentId childId : String} :
    childId ∈ collectChildIds threads parentId ↔
      ∃ child, threads.get? childId = some child ∧ child.parentThreadId = some parentId := by
  unfold collectChildIds
  rw [List.mem_insertionSort, List.mem_map]
  constructor
  · rintro ⟨child, hchild, rfl⟩
    obtain ⟨hstored, hparent⟩ := List.mem_filter.mp hchild
    obtain ⟨id, hid⟩ := AssocMap.mem_values.mp hstored
    obtain rfl := h.keyed id child hid
    exact ⟨child, hid, by simpa using hparent⟩
  · rintro ⟨child, hchild, hparent⟩
    refine ⟨child, List.mem_filter.mpr ⟨AssocMap.mem_values.mpr ⟨childId, hchild⟩, ?_⟩,
      h.keyed childId child hchild⟩
    simp [hparent]

/-- Making a child a root leaves a hierarchy. -/
theorem Hierarchical.detach {threads : AssocMap String Thread} (h : Hierarchical threads)
    (childId : String) (now : UInt64) :
    Hierarchical (threads.modify childId (InMemoryStore.detachThread now)) := by
  have hget : ∀ id thread,
      (threads.modify childId (InMemoryStore.detachThread now)).get? id = some thread →
      ∃ stored, threads.get? id = some stored ∧
        (thread = stored ∨ thread = InMemoryStore.detachThread now stored) := by
    intro id thread hthread
    rw [AssocMap.get?_modify] at hthread
    split at hthread
    · rename_i hid
      obtain ⟨stored, hstored, rfl⟩ := Option.map_eq_some_iff.mp hthread
      exact ⟨stored, hid ▸ hstored, .inr rfl⟩
    · exact ⟨thread, hthread, .inl rfl⟩
  constructor
  case keyed =>
    intro id thread hthread
    obtain ⟨stored, hstored, heq⟩ := hget id thread hthread
    have hid := h.keyed id stored hstored
    cases heq with
    | inl heq => rw [heq, hid]
    | inr heq =>
      rw [heq]
      exact hid
  case normalized =>
    intro id thread hthread
    obtain ⟨stored, hstored, heq⟩ := hget id thread hthread
    cases heq with
    | inl heq => rw [heq, h.normalized id stored hstored]
    | inr heq =>
      rw [heq]
      rfl
  case forest =>
    have hsame : ∀ x, x ≠ childId →
        parentOf (threads.modify childId (InMemoryStore.detachThread now)) x =
          parentOf threads x := by
      intro x hx
      unfold parentOf
      rw [AssocMap.get?_modify_of_ne _ _ hx]
    have hself : parentOf (threads.modify childId (InMemoryStore.detachThread now)) childId =
        (threads.get? childId).map fun _ => none := by
      unfold parentOf
      rw [AssocMap.get?_modify_self, Option.map_map]
      rfl
    cases hchild : threads.get? childId with
    | none =>
      have hall : parentOf (threads.modify childId (InMemoryStore.detachThread now)) =
          parentOf threads := by
        funext x
        by_cases hx : x = childId
        · rw [hx, hself, parentOf, hchild]
          rfl
        · exact hsame x hx
      rw [hall]
      exact h.forest
    | some child => exact h.forest.detach (hself.trans (by rw [hchild]; rfl)) hsame

/-- The loop over the children makes roots of them and leaves the other threads alone. -/
theorem foldl_detach_get? {now : UInt64} {ids : List String} {threads : AssocMap String Thread}
    {id : String} {thread : Thread}
    (hget : (ids.foldl (fun threads childId =>
      threads.modify childId (InMemoryStore.detachThread now)) threads).get? id = some thread) :
    ∃ stored, threads.get? id = some stored ∧
      (thread.parentThreadId = none ∨ thread = stored ∧ id ∉ ids) := by
  induction ids generalizing threads with
  | nil => exact ⟨thread, hget, .inr ⟨rfl, List.not_mem_nil⟩⟩
  | cons childId ids ih =>
    obtain ⟨stored, hstored, hleft⟩ := ih hget
    rw [AssocMap.get?_modify] at hstored
    split at hstored
    · rename_i hid
      obtain ⟨before, hbefore, rfl⟩ := Option.map_eq_some_iff.mp hstored
      refine ⟨before, hid ▸ hbefore, .inl ?_⟩
      cases hleft with
      | inl hnone => exact hnone
      | inr heq =>
        rw [heq.1]
        rfl
    · rename_i hid
      refine ⟨stored, hstored, hleft.imp_right fun heq => ⟨heq.1, ?_⟩⟩
      simp [hid, heq.2]

theorem Hierarchical.foldl_detach {threads : AssocMap String Thread} (h : Hierarchical threads)
    (now : UInt64) (ids : List String) :
    Hierarchical (ids.foldl (fun threads childId =>
      threads.modify childId (InMemoryStore.detachThread now)) threads) := by
  induction ids generalizing threads with
  | nil => exact h
  | cons childId ids ih => exact ih (h.detach childId now)

/-! ## Deleting with descendants -/

/-- What holds between the passes of the stack loop: a visited id is done or has its
    second entry on the stack, and its children were visited or are on the stack. -/
structure CascadeProgress (threads : AssocMap String Thread) (threadId : String)
    (visited : List String) (stack : List (CascadeEntry threads threadId))
    (deleteOrder : List String) : Prop where
  done : ∀ id ∈ deleteOrder, id ∈ visited
  expanded : ∀ entry ∈ stack, entry.2 = true → entry.1.1 ∈ visited
  marked : ∀ id ∈ visited, id ∈ deleteOrder ∨ ∃ entry ∈ stack, entry.1.1 = id ∧ entry.2 = true
  children : ∀ id ∈ visited, ∀ childId ∈ collectChildIds threads id,
    childId ∈ visited ∨ ∃ entry ∈ stack, entry.1.1 = childId ∧ entry.2 = false

/-- A cascading delete takes the children of what it takes. -/
theorem cascadeOrder_closed {threads : AssocMap String Thread} {threadId : String}
    {visited : List String} {stack : List (CascadeEntry threads threadId)}
    {deleteOrder ids : List String}
    (hprogress : CascadeProgress threads threadId visited stack deleteOrder)
    (hok : cascadeOrder threads threadId visited stack deleteOrder = .ok ids) :
    ∀ id ∈ ids, ∀ childId ∈ collectChildIds threads id, childId ∈ ids := by
  fun_induction cascadeOrder threads threadId visited stack deleteOrder with
  | case1 visited deleteOrder =>
    rw [← Except.ok.inj hok]
    have hvisited : ∀ id ∈ visited, id ∈ deleteOrder := by
      intro id hid
      cases hprogress.marked id hid with
      | inl hdone => exact hdone
      | inr hentry =>
        obtain ⟨entry, hmem, -⟩ := hentry
        cases hmem
    intro id hid childId hchild
    cases hprogress.children id (hprogress.done id hid) childId hchild with
    | inl hin => exact hvisited childId hin
    | inr hentry =>
      obtain ⟨entry, hmem, -⟩ := hentry
      cases hmem
  | case2 visited deleteOrder current stack ih =>
    -- the second entry of an id moves the id to the done ones
    apply ih _ hok
    have hvisited : current.1 ∈ visited := hprogress.expanded _ List.mem_cons_self rfl
    constructor
    case done =>
      intro id hid
      cases List.mem_append.mp hid with
      | inl hdone => exact hprogress.done id hdone
      | inr hcurrent =>
        rw [List.mem_singleton.mp hcurrent]
        exact hvisited
    case expanded =>
      intro entry hentry hexpanded
      exact hprogress.expanded entry (List.mem_cons_of_mem _ hentry) hexpanded
    case marked =>
      intro id hid
      cases hprogress.marked id hid with
      | inl hdone => exact .inl (List.mem_append_left _ hdone)
      | inr hexists =>
        obtain ⟨entry, hentry, heq, hexpanded⟩ := hexists
        cases List.mem_cons.mp hentry with
        | inl hhead =>
          left
          rw [← heq, hhead]
          simp
        | inr htail => exact .inr ⟨entry, htail, heq, hexpanded⟩
    case children =>
      intro id hid childId hchild
      cases hprogress.children id hid childId hchild with
      | inl hin => exact .inl hin
      | inr hexists =>
        obtain ⟨entry, hentry, heq, hpushed⟩ := hexists
        cases List.mem_cons.mp hentry with
        | inl hhead =>
          rw [hhead] at hpushed
          cases hpushed
        | inr htail => exact .inr ⟨entry, htail, heq, hpushed⟩
  | case3 => cases hok
  | case4 visited deleteOrder current stack hnew _ ih =>
    -- a new id is visited, its children are pushed in front of its second entry
    apply ih _ hok
    constructor
    case done => exact fun id hid => List.mem_cons_of_mem _ (hprogress.done id hid)
    case expanded =>
      intro entry hentry hexpanded
      cases List.mem_append.mp hentry with
      | inl hpushed =>
        obtain ⟨child, -, rfl⟩ := List.mem_map.mp hpushed
        cases hexpanded
      | inr hrest =>
        cases List.mem_cons.mp hrest with
        | inl hhead =>
          rw [hhead]
          exact List.mem_cons_self
        | inr htail =>
          have hvisited := hprogress.expanded entry (List.mem_cons_of_mem _ htail) hexpanded
          exact List.mem_cons_of_mem _ hvisited
    case marked =>
      intro id hid
      cases List.mem_cons.mp hid with
      | inl hcurrent =>
        exact .inr ⟨(current, true), by simp, hcurrent.symm, rfl⟩
      | inr hin =>
        cases hprogress.marked id hin with
        | inl hdone => exact .inl hdone
        | inr hexists =>
          obtain ⟨entry, hentry, heq, hexpanded⟩ := hexists
          cases List.mem_cons.mp hentry with
          | inl hhead =>
            rw [hhead] at hexpanded
            cases hexpanded
          | inr htail => exact .inr ⟨entry, by simp [htail], heq, hexpanded⟩
    case children =>
      intro id hid childId hchild
      cases List.mem_cons.mp hid with
      | inl hcurrent =>
        subst hcurrent
        refine .inr ⟨(⟨childId, mem_cascadeIds_of_child hchild⟩, false), ?_, rfl, rfl⟩
        apply List.mem_append_left
        exact List.mem_map.mpr ⟨⟨childId, hchild⟩, List.mem_attach _ _, rfl⟩
      | inr hin =>
        cases hprogress.children id hin childId hchild with
        | inl hvisited => exact .inl (List.mem_cons_of_mem _ hvisited)
        | inr hexists =>
          obtain ⟨entry, hentry, heq, hpushed⟩ := hexists
          cases List.mem_cons.mp hentry with
          | inl hhead =>
            left
            rw [← heq, hhead]
            exact List.mem_cons_self
          | inr htail => exact .inr ⟨entry, by simp [htail], heq, hpushed⟩

theorem cascadeProgress_start (threads : AssocMap String Thread) (threadId : String) :
    CascadeProgress threads threadId [] [(⟨threadId, List.mem_cons_self⟩, false)] [] := by
  constructor <;> simp

theorem foldl_removeThread_threads (ids : List String) (s : InMemoryStore) (id : String) :
    (ids.foldl InMemoryStore.removeThread s).threads.get? id =
      if id ∈ ids then none else s.threads.get? id := by
  induction ids generalizing s with
  | nil => simp
  | cons removed ids ih =>
    rw [List.foldl_cons, ih, removeThread_threads]
    by_cases hid : id = removed <;> simp [hid]

/-- A delete leaves a hierarchy, whatever it does with the children. -/
theorem Hierarchical.deleteThreadWithStrategy {s : InMemoryStore} (h : Hierarchical s.threads)
    (threadId : String) (strategy : ChildThreadDeleteStrategy) (now : UInt64) :
    Hierarchical (InMemoryStore.deleteThreadWithStrategy threadId strategy now s).2.threads := by
  unfold InMemoryStore.deleteThreadWithStrategy
  split
  · exact h
  · cases strategy with
    | reject =>
      dsimp only
      split
      · exact h
      · rename_i hchildren
        have hnil : collectChildIds s.threads threadId = [] := by simpa using hchildren
        apply h.removeThread
        intro id thread hthread hparent
        have hmem : id ∈ collectChildIds s.threads threadId :=
          h.mem_collectChildIds.mpr ⟨thread, hthread, hparent⟩
        rw [hnil] at hmem
        cases hmem
    | detach =>
      have hdetached := h.foldl_detach now (collectChildIds s.threads threadId)
      apply Hierarchical.removeThread hdetached
      intro id thread hthread hparent
      obtain ⟨stored, hstored, hleft⟩ := foldl_detach_get? hthread
      cases hleft with
      | inl hnone =>
        rw [hnone] at hparent
        cases hparent
      | inr heq =>
        apply heq.2
        exact h.mem_collectChildIds.mpr ⟨stored, hstored, by rw [← heq.1, hparent]⟩
    | cascade =>
      dsimp only
      split
      · exact h
      · rename_i ids hids
        have hclosed := cascadeOrder_closed (cascadeProgress_start s.threads threadId) hids
        apply h.restrict (fun id => id ∈ ids)
        · intro id hid
          rw [foldl_removeThread_threads, if_pos hid]
        · intro id hid
          rw [foldl_removeThread_threads, if_neg hid]
        · intro id thread parent hthread hparent hgone
          exact hclosed parent hgone id (h.mem_collectChildIds.mpr ⟨thread, hthread, hparent⟩)

/-! ## Runs -/

namespace InMemoryStore

theorem moveSelected_threads (s : InMemoryStore) (threadId : String) (selectedIndexes : List Nat)
    (generated : Nat → Uuid) :
    (moveSelected threadId selectedIndexes generated s).2.threads = s.threads := by
  unfold moveSelected
  dsimp only
  split <;> rfl

theorem appendPending_threads (s : InMemoryStore) (threadId : String) (messages : List Message)
    (deliveryMode : DeliveryMode) (now : UInt64) (generated : Nat → Uuid) :
    (appendPendingMessageRecords threadId messages deliveryMode now generated s).2.threads =
      s.threads := by
  unfold appendPendingMessageRecords
  dsimp only
  split <;> rfl

/-- A freeze for a run stores the run or leaves the threads alone. -/
theorem freezeSelectionWithRun_threads (s : InMemoryStore) (threadId : String)
    (boundary : DeliveryBoundary) (expectedPendingIds : List String) (run : RunRecord)
    (now : UInt64) (generated : Nat → Uuid) :
    (freezeSelectionWithRun threadId boundary expectedPendingIds run now generated s).2.threads =
        s.threads ∨
      (freezeSelectionWithRun threadId boundary expectedPendingIds run now generated s).2.threads =
        projectedThreads s.threads threadId run now := by
  unfold freezeSelectionWithRun
  dsimp only
  split
  · exact .inl rfl
  · unfold Method.bind
    have hmoved := moveSelected_threads (s.messagesEntry threadId) threadId
      (selectPendingForFreezeForRun (s.pending threadId) boundary (some run.runId)) generated
    split
    · rename_i heq
      rw [heq] at hmoved
      exact .inl hmoved
    · rename_i s' heq
      rw [heq] at hmoved
      right
      show projectedThreads s'.threads threadId run now = _
      rw [show s'.threads = s.threads from hmoved]

/-- A call leaves the threads alone, or stores a run whose parent it checked before. -/
def KeepsOrProjects (threads threads' : AssocMap String Thread) : Prop :=
  threads' = threads ∨
    ∃ threadId run now, validateThreadHierarchyMap threads threadId
        (checkpointParentThreadId (threads.get? threadId) run) = .ok () ∧
      threads' = projectedThreads threads threadId run now

theorem KeepsOrProjects.hierarchical {threads threads' : AssocMap String Thread}
    (h : KeepsOrProjects threads threads') (hthreads : Hierarchical threads) :
    Hierarchical threads' := by
  cases h with
  | inl hkept => exact hkept ▸ hthreads
  | inr hprojected =>
    obtain ⟨threadId, run, now, hok, heq⟩ := hprojected
    exact heq ▸ hthreads.projected now hok

theorem checkFreezeWithRun_hierarchy {s : InMemoryStore} {threadId : String}
    {expectedMessageVersion : Option UInt64} {run : RunRecord}
    (hok : s.checkFreezeWithRun threadId expectedMessageVersion run = .ok ()) :
    validateThreadHierarchyMap s.threads threadId
      (checkpointParentThreadId (s.threads.get? threadId) run) = .ok () := by
  obtain ⟨-, hrest⟩ := bind_ok.mp hok
  exact (bind_ok.mp hrest).1

theorem callPending_threads (s : InMemoryStore) (op : PendingOp) :
    KeepsOrProjects s.threads (callPending op s).2.threads := by
  cases op with
  | load => exact .inl rfl
  | listThreads => exact .inl rfl
  | append threadId messages deliveryMode now generated =>
    exact .inl (appendPending_threads s threadId messages deliveryMode now generated)
  | update threadId pendingId expectedRevision message now =>
    left
    show (updatePendingMessageRecordChecked threadId pendingId expectedRevision message now
      s).2.threads = _
    unfold updatePendingMessageRecordChecked
    dsimp only
    split
    · rfl
    · split <;> rfl
  | retract threadId pendingId expectedRevision =>
    left
    show (retractPendingMessageRecordChecked threadId pendingId expectedRevision s).2.threads = _
    unfold retractPendingMessageRecordChecked
    dsimp only
    split
    · rfl
    · split <;> rfl
  | reorder threadId expectedQueueRevision orderedPendingIds now =>
    left
    show (reorderPendingMessageRecordsChecked threadId expectedQueueRevision orderedPendingIds now
      s).2.threads = _
    unfold reorderPendingMessageRecordsChecked
    split
    · split <;> rfl
    · split <;> rfl
  | freeze threadId boundary expectedMessageVersion generated =>
    left
    show (freezePendingMessageRecords threadId boundary expectedMessageVersion generated
      s).2.threads = _
    unfold freezePendingMessageRecords
    dsimp only
    split
    · rfl
    · split
      · rfl
      · exact moveSelected_threads _ _ _ _
  | freezeWithRun threadId boundary expectedMessageVersion expectedPendingIds run now generated =>
    show KeepsOrProjects s.threads (freezePendingMessageRecordsWithRun threadId boundary
      expectedMessageVersion expectedPendingIds run now generated s).2.threads
    unfold freezePendingMessageRecordsWithRun
    split
    · exact .inl rfl
    · rename_i hchecked
      have hhierarchy := checkFreezeWithRun_hierarchy hchecked
      exact (freezeSelectionWithRun_threads (s.pendingEntry threadId) threadId boundary
        expectedPendingIds run now generated).imp_right fun h => ⟨_, _, _, hhierarchy, h⟩
  | appendAndFreezeWithRun threadId newMessages deliveryMode boundary expectedMessageVersion
      expectedPendingIds run now generated =>
    show KeepsOrProjects s.threads (appendAndFreezePendingMessageRecordsWithRun threadId
      newMessages deliveryMode boundary expectedMessageVersion expectedPendingIds run now generated
      s).2.threads
    unfold appendAndFreezePendingMessageRecordsWithRun
    split
    · exact .inl rfl
    · rename_i hchecked
      have hhierarchy := checkFreezeWithRun_hierarchy hchecked
      have happended := appendPending_threads s threadId newMessages deliveryMode now generated
      unfold Method.bind
      split
      · rename_i heq
        rw [heq] at happended
        exact .inl happended
      · rename_i s' heq
        rw [heq] at happended
        have hfrozen := freezeSelectionWithRun_threads s' threadId boundary expectedPendingIds run
          now generated
        rw [show s'.threads = s.threads from happended] at hfrozen
        exact hfrozen.imp_right fun h => ⟨_, _, _, hhierarchy, h⟩

theorem checkpoint_threads (s : InMemoryStore) (threadId : String) (messages : List Message)
    (run : RunRecord) (now : UInt64) :
    KeepsOrProjects s.threads (checkpoint threadId messages run now s).2.threads := by
  unfold checkpoint
  dsimp only
  split
  · exact .inl rfl
  · rename_i hchecked
    obtain ⟨-, hrest⟩ := bind_ok.mp hchecked
    exact .inr ⟨threadId, run, now, (bind_ok.mp hrest).2, rfl⟩

theorem checkpointAppend_threads (s : InMemoryStore) (threadId : String)
    (messages : List Message) (expectedVersion : Option UInt64) (run : RunRecord)
    (now : UInt64) :
    KeepsOrProjects s.threads
      (checkpointAppend threadId messages expectedVersion run now s).2.threads := by
  unfold checkpointAppend
  dsimp only
  split
  · exact .inl rfl
  · rename_i hchecked
    obtain ⟨-, hrest⟩ := bind_ok.mp hchecked
    split
    · exact .inl rfl
    · exact .inr ⟨threadId, run, now, (bind_ok.mp hrest).1, rfl⟩

/-- Every call keeps the hierarchy of the stored threads. -/
theorem callStore_hierarchical {s : InMemoryStore} (h : Hierarchical s.threads) (op : StoreOp) :
    Hierarchical (callStore op s).2.threads := by
  cases op with
  | saveThreadValidated thread =>
    rw [callStore, Method.map_snd]
    exact h.saveThreadValidated thread
  | deleteThreadWithStrategy threadId strategy now =>
    rw [callStore, Method.map_snd]
    exact h.deleteThreadWithStrategy threadId strategy now
  | saveMessages threadId messages =>
    rw [callStore, Method.map_snd]
    unfold saveMessages
    split <;> exact h
  | appendMessageRecords threadId messages generated =>
    rw [callStore, Method.map_snd]
    unfold appendMessageRecords
    dsimp only
    split <;> exact h
  | checkpoint threadId messages run now =>
    rw [callStore, Method.map_snd]
    exact (checkpoint_threads s threadId messages run now).hierarchical h
  | checkpointAppend threadId messages expectedVersion run now =>
    rw [callStore, Method.map_snd]
    exact (checkpointAppend_threads s threadId messages expectedVersion run now).hierarchical h
  | pending op =>
    rw [callStore, Method.map_snd]
    exact (callPending_threads s op).hierarchical h

theorem hierarchical_empty : Hierarchical (AssocMap.empty : AssocMap String Thread) where
  keyed := by simp
  normalized := by simp
  forest := by
    intro k hk
    simp [parentOf] at hk

/-- In every state the calls can lead to, walking up from any stored thread ends at a
    root, comes to no thread twice and to no thread that is not stored. -/
theorem run_forest (ops : List StoreOp) : WalksUp (storeMachine.run new ops).threads := by
  apply Hierarchical.walksUp
  apply storeMachine.run_invariant (fun s => Hierarchical s.threads)
  · intro s op h
    exact callStore_hierarchical h op
  · exact hierarchical_empty

end InMemoryStore

end Remo
