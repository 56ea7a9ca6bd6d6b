import Mathlib.Data.List.Perm.Basic
import Remo.ForStd.Except
import Remo.Native.Storage.Pending

/-!
# What the pending calls do

The records a freeze selects, the pieces of the pending calls, and for every call the queue and
the committed log it leaves.

## Key results

- `select_pairwise`, `lt_length_of_mem_select`: selected indexes ascend and are in range
- `drainSelected_fst`, `drainSelected_snd`: what a freeze takes and what it leaves
- `drainSelected_perm`: no record is lost or doubled
- `checkNewRecords_ok`: accepted ids are new and pairwise distinct
- `reorderedRecords_ok`: a reorder permutes the queue
-/

/-! ## Selected records

A freeze selects indexes in ascending order and removes the records highest index
first. What it collects are the selected records in queue order, what stays are
the others.
-/

namespace Remo

/-! ## Selection -/

/-- The loop only adds ascending indexes of the entries it has not looked at. -/
theorem selectPendingFrom_spec (boundary : DeliveryBoundary) (currentRunId : Option String)
    (pending : List PendingMessageRecord) (index : Nat) (skippedPrior : Bool)
    (selected : List Nat) :
    ∃ new, selectPendingFrom boundary currentRunId index skippedPrior selected pending =
        selected ++ new ∧
      new.Pairwise (· < ·) ∧ ∀ i ∈ new, index ≤ i ∧ i < index + pending.length := by
  induction pending generalizing index skippedPrior selected with
  | nil => exact ⟨[], (List.append_nil _).symm, .nil, by simp⟩
  | cons entry rest ih =>
    have hstop : ∃ new, selected = selected ++ new ∧ new.Pairwise (· < ·) ∧
        ∀ i ∈ new, index ≤ i ∧ i < index + (entry :: rest).length :=
      ⟨[], (List.append_nil _).symm, .nil, by simp⟩
    unfold selectPendingFrom
    split
    · split
      · exact hstop
      · split
        · obtain ⟨new, heq, hpair, hrange⟩ := ih (index + 1) true selected
          refine ⟨new, heq, hpair, fun i hi => ?_⟩
          have := hrange i hi
          simp only [List.length_cons]
          omega
        · exact hstop
    · split
      · exact hstop
      · split
        · exact hstop
        · split
          · exact ⟨[index], rfl, List.pairwise_singleton _ _, by simp⟩
          · obtain ⟨new, heq, hpair, hrange⟩ := ih (index + 1) skippedPrior (selected ++ [index])
            refine ⟨index :: new, by rw [heq, List.append_assoc]; rfl, ?_, fun i hi => ?_⟩
            · exact List.pairwise_cons.mpr ⟨fun i hi => (hrange i hi).1, hpair⟩
            · simp only [List.length_cons]
              rcases List.mem_cons.mp hi with rfl | hi
              · omega
              · have := hrange i hi
                omega

/-- Selected indexes ascend. -/
theorem select_pairwise (pending : List PendingMessageRecord) (boundary : DeliveryBoundary)
    (currentRunId : Option String) :
    (selectPendingForFreezeForRun pending boundary currentRunId).Pairwise (· < ·) := by
  obtain ⟨new, heq, hpair, -⟩ := selectPendingFrom_spec boundary currentRunId pending 0 false []
  rw [selectPendingForFreezeForRun, heq]
  exact hpair

/-- Selected indexes are indexes of the queue. -/
theorem lt_length_of_mem_select {pending : List PendingMessageRecord}
    {boundary : DeliveryBoundary} {currentRunId : Option String} {i : Nat}
    (hi : i ∈ selectPendingForFreezeForRun pending boundary currentRunId) : i < pending.length := by
  obtain ⟨new, heq, -, hrange⟩ := selectPendingFrom_spec boundary currentRunId pending 0 false []
  rw [selectPendingForFreezeForRun, heq] at hi
  simpa using (hrange i hi).2

namespace InMemoryStore

/-! ## Removal -/

/-- The records at the selected indexes. -/
def selectedRecords (queue : List PendingMessageRecord) (selectedIndexes : List Nat) :
    List PendingMessageRecord :=
  selectedIndexes.filterMap fun index => queue[index]?

/-- The records of a queue that are not at the selected indexes, in queue order. -/
def unselected (queue : List PendingMessageRecord) (selectedIndexes : List Nat) :
    List PendingMessageRecord :=
  (queue.zipIdx.filter fun p => p.2 ∉ selectedIndexes).map Prod.fst

theorem selectedMessages_eq (queue : List PendingMessageRecord) (selectedIndexes : List Nat) :
    selectedMessages queue selectedIndexes =
      (selectedRecords queue selectedIndexes).map PendingMessageRecord.message := by
  simp [selectedMessages, selectedRecords, List.map_filterMap]

theorem selectedPendingIds_eq (queue : List PendingMessageRecord) (selectedIndexes : List Nat) :
    selectedPendingIds queue selectedIndexes =
      (selectedRecords queue selectedIndexes).map PendingMessageRecord.pendingId := by
  simp [selectedPendingIds, selectedRecords, List.map_filterMap]

@[simp] theorem unselected_nil (queue : List PendingMessageRecord) : unselected queue [] = queue := by
  simp [unselected]

/-- A list is unselected entirely when the indexes lie before it. -/
theorem map_fst_filter_zipIdx (rest : List PendingMessageRecord) (n : Nat) (indexes : List Nat)
    (hbefore : ∀ i ∈ indexes, i < n) :
    ((rest.zipIdx n).filter fun p => p.2 ∉ indexes).map Prod.fst = rest := by
  rw [List.filter_eq_self.mpr, List.zipIdx_map_fst]
  rintro ⟨r, i⟩ hmem
  have hge : n ≤ i := (List.mem_zipIdx hmem).1
  simp only [decide_eq_true_eq]
  exact fun hi => absurd (hbefore i hi) (by omega)

/-- Removing the highest selected record first leaves the same records unselected. -/
theorem unselected_eraseIdx {queue : List PendingMessageRecord} {index : Nat}
    {indexes : List Nat} (hindex : index < queue.length) (hlower : ∀ i ∈ indexes, i < index) :
    unselected (queue.eraseIdx index) indexes = unselected queue (index :: indexes) := by
  obtain ⟨front, r, back, rfl, rfl⟩ : ∃ front r back, queue = front ++ r :: back ∧
      front.length = index :=
    ⟨queue.take index, queue[index], queue.drop (index + 1),
      by rw [← List.drop_eq_getElem_cons hindex, List.take_append_drop], by simp; omega⟩
  have hfront : (front.zipIdx.filter fun p => p.2 ∉ front.length :: indexes) =
      front.zipIdx.filter fun p => p.2 ∉ indexes := by
    refine List.filter_congr ?_
    rintro ⟨x, i⟩ hmem
    have hlt : i < front.length := by simpa using (List.mem_zipIdx hmem).2.1
    simp [Nat.ne_of_lt hlt]
  have hback : ∀ i ∈ front.length :: indexes, i < front.length + 1 := by
    intro i hi
    rcases List.mem_cons.mp hi with rfl | hi
    · omega
    · have := hlower i hi
      omega
  rw [List.eraseIdx_append_of_length_le (Nat.le_refl _), Nat.sub_self, List.eraseIdx_cons_zero]
  simp only [unselected, List.zipIdx_append, List.filter_append, List.map_append,
    Nat.zero_add, List.zipIdx_cons, hfront]
  congr 1
  rw [map_fst_filter_zipIdx _ _ _ hlower, List.filter_cons_of_neg (by simp),
    map_fst_filter_zipIdx _ _ _ hback]

section Descending

variable {queue : List PendingMessageRecord} {index : Nat} {indexes : List Nat}
  (hdesc : (index :: indexes).Pairwise (· > ·)) (hrange : ∀ i ∈ index :: indexes, i < queue.length)

include hdesc hrange

/-- The lower indexes are in range after the removal of the highest. -/
theorem lt_length_eraseIdx : ∀ i ∈ indexes, i < (queue.eraseIdx index).length := by
  intro i hi
  have hlower := (List.pairwise_cons.mp hdesc).1 i hi
  have hindex := hrange index List.mem_cons_self
  rw [List.length_eraseIdx_of_lt hindex]
  omega

/-- The lower indexes name the same records after the removal of the highest. -/
theorem cons_selectedRecords_eraseIdx :
    (queue[index]?).toList ++ selectedRecords (queue.eraseIdx index) indexes =
      selectedRecords queue (index :: indexes) := by
  have hindex := hrange index List.mem_cons_self
  have hsame : selectedRecords (queue.eraseIdx index) indexes = selectedRecords queue indexes :=
    List.filterMap_congr fun i hi =>
      List.getElem?_eraseIdx_of_lt ((List.pairwise_cons.mp hdesc).1 i hi)
  rw [hsame]
  simp [selectedRecords, List.getElem?_eq_getElem hindex]

end Descending

/-- Removal at descending indexes collects the records at these indexes. -/
theorem removeRecords_eq (indexes : List Nat) (selected queue : List PendingMessageRecord)
    (hdesc : indexes.Pairwise (· > ·)) (hrange : ∀ i ∈ indexes, i < queue.length) :
    removeRecords indexes (selected, queue) =
      (selected ++ selectedRecords queue indexes, unselected queue indexes) := by
  induction indexes generalizing selected queue with
  | nil => simp [removeRecords, selectedRecords]
  | cons index indexes ih =>
    obtain ⟨hlower, hdesc'⟩ := List.pairwise_cons.mp hdesc
    have hindex := hrange index List.mem_cons_self
    rw [removeRecords, ih _ _ hdesc' (lt_length_eraseIdx hdesc hrange), List.append_assoc,
      cons_selectedRecords_eraseIdx hdesc hrange, unselected_eraseIdx hindex hlower]

/-- Selected and unselected records make up the queue. -/
theorem selected_append_unselected_perm {queue : List PendingMessageRecord} {indexes : List Nat}
    (hdesc : indexes.Pairwise (· > ·)) (hrange : ∀ i ∈ indexes, i < queue.length) :
    (selectedRecords queue indexes ++ unselected queue indexes).Perm queue := by
  induction indexes generalizing queue with
  | nil => simp [selectedRecords]
  | cons index indexes ih =>
    obtain ⟨hlower, hdesc'⟩ := List.pairwise_cons.mp hdesc
    have hindex := hrange index List.mem_cons_self
    have hperm := ih hdesc' (lt_length_eraseIdx hdesc hrange)
    rw [unselected_eraseIdx hindex hlower] at hperm
    rw [← cons_selectedRecords_eraseIdx hdesc hrange, List.getElem?_eq_getElem hindex,
      Option.toList_some, List.singleton_append, List.cons_append]
    exact (hperm.cons _).trans (List.getElem_cons_eraseIdx_perm hindex)

theorem mem_unselected_congr {queue : List PendingMessageRecord} {indexes indexes' : List Nat}
    (h : ∀ i, i ∈ indexes ↔ i ∈ indexes') : unselected queue indexes = unselected queue indexes' := by
  simp only [unselected, h]

section Ascending

variable {queue : List PendingMessageRecord} {selectedIndexes : List Nat}
  (hasc : selectedIndexes.Pairwise (· < ·)) (hrange : ∀ i ∈ selectedIndexes, i < queue.length)

include hasc hrange

/-- A freeze collects the selected records in queue order. -/
theorem drainSelected_fst :
    (drainSelected queue selectedIndexes).1 = selectedRecords queue selectedIndexes := by
  have hdesc : selectedIndexes.reverse.Pairwise (· > ·) := List.pairwise_reverse.mpr hasc
  have hrange' : ∀ i ∈ selectedIndexes.reverse, i < queue.length := by simpa using hrange
  rw [drainSelected, removeRecords_eq _ _ _ hdesc hrange']
  simp [selectedRecords, List.filterMap_reverse]

/-- A freeze leaves the records that are not selected. -/
theorem drainSelected_snd :
    (drainSelected queue selectedIndexes).2 = unselected queue selectedIndexes := by
  have hdesc : selectedIndexes.reverse.Pairwise (· > ·) := List.pairwise_reverse.mpr hasc
  have hrange' : ∀ i ∈ selectedIndexes.reverse, i < queue.length := by simpa using hrange
  rw [drainSelected, removeRecords_eq _ _ _ hdesc hrange']
  exact mem_unselected_congr fun i => List.mem_reverse

/-- A freeze neither loses nor doubles a record. -/
theorem drainSelected_perm :
    queue.Perm ((drainSelected queue selectedIndexes).1 ++
      (drainSelected queue selectedIndexes).2) := by
  have hdesc : selectedIndexes.reverse.Pairwise (· > ·) := List.pairwise_reverse.mpr hasc
  have hrange' : ∀ i ∈ selectedIndexes.reverse, i < queue.length := by simpa using hrange
  rw [drainSelected, removeRecords_eq _ _ _ hdesc hrange', List.nil_append]
  exact (selected_append_unselected_perm hdesc hrange').symm.trans
    ((List.reverse_perm _).symm.append_right _)

end Ascending

end InMemoryStore

end Remo

/-! ## Pending queues

What the pieces of the pending calls do to a queue: numbering, new records,
rewritten records and reordering. A queue is `Arranged` when its positions count
from 1 and every record carries a message of its own id.
-/

namespace Remo.InMemoryStore

/-- Positions count from 1 in queue order, and every message has the id of its record. -/
structure Arranged (queue : List PendingMessageRecord) : Prop where
  positions : queue.map PendingMessageRecord.position = List.range' 1 queue.length
  named : ∀ r ∈ queue, r.message.id = some r.pendingId

theorem arranged_nil : Arranged [] := ⟨rfl, by simp⟩

/-! ## Numbering -/

@[simp] theorem length_normalizePendingPositions (queue : List PendingMessageRecord) :
    (normalizePendingPositions queue).length = queue.length := by
  simp [normalizePendingPositions]

/-- Numbering does not show in what does not read the position. -/
theorem map_normalizePendingPositions {β : Type} {g : PendingMessageRecord → β}
    (hg : ∀ r position, g { r with position := position } = g r)
    (queue : List PendingMessageRecord) :
    (normalizePendingPositions queue).map g = queue.map g := by
  refine List.ext_getElem (by simp) fun i hi hi' => ?_
  simpa [normalizePendingPositions] using hg _ _

@[simp] theorem map_pendingId_normalizePendingPositions (queue : List PendingMessageRecord) :
    (normalizePendingPositions queue).map PendingMessageRecord.pendingId =
      queue.map PendingMessageRecord.pendingId :=
  map_normalizePendingPositions (fun _ _ => rfl) queue

@[simp] theorem map_position_normalizePendingPositions (queue : List PendingMessageRecord) :
    (normalizePendingPositions queue).map PendingMessageRecord.position =
      List.range' 1 queue.length := by
  refine List.ext_getElem (by simp) fun i hi hi' => ?_
  simp [normalizePendingPositions, Nat.add_comm]

/-- Numbered records that keep their names are arranged. -/
theorem arranged_normalizePendingPositions {queue : List PendingMessageRecord}
    (h : ∀ r ∈ queue, r.message.id = some r.pendingId) :
    Arranged (normalizePendingPositions queue) := by
  refine ⟨by simp, fun r hr => ?_⟩
  obtain ⟨i, hi, rfl⟩ := List.mem_iff_getElem.mp hr
  rw [length_normalizePendingPositions] at hi
  simpa [normalizePendingPositions] using h _ (List.getElem_mem hi)

/-! ## Lookup -/

/-- A located record stands at its index and has the id. -/
theorem locate_eq_some {queue : List PendingMessageRecord} {pendingId : String}
    {r : PendingMessageRecord} {i : Nat} (h : locate queue pendingId = some (r, i)) :
    queue[i]? = some r ∧ r.pendingId = pendingId :=
  ⟨List.mem_zipIdx_iff_getElem?.mp (List.mem_of_find?_eq_some h),
    by simpa using List.find?_some h⟩

/-! ## New records -/

section NewRecords

variable (threadId : String) (queued : Nat) (messages : List Message) (deliveryMode : DeliveryMode)
  (now : UInt64) (generated : Nat → Uuid)

@[simp] theorem length_newRecords :
    (newRecords threadId queued messages deliveryMode now generated).length = messages.length := by
  simp [newRecords]

/-- New records are numbered on behind the queue. -/
theorem map_position_newRecords :
    (newRecords threadId queued messages deliveryMode now generated).map
      PendingMessageRecord.position = List.range' (queued + 1) messages.length := by
  refine List.ext_getElem (by simp) fun i hi hi' => ?_
  simp [newRecords, PendingMessageRecord.fromMessage]

/-- A new record takes the id of its message, or the generated one. -/
theorem map_pendingId_newRecords :
    (newRecords threadId queued messages deliveryMode now generated).map
      PendingMessageRecord.pendingId =
        messages.mapIdx fun index message => message.id.getD (generated index).text := by
  refine List.ext_getElem (by simp) fun i hi hi' => ?_
  simp [newRecords, PendingMessageRecord.fromMessage]

theorem named_newRecords :
    ∀ r ∈ newRecords threadId queued messages deliveryMode now generated,
      r.message.id = some r.pendingId := by
  intro r hr
  obtain ⟨i, hi, rfl⟩ := List.mem_mapIdx.mp hr
  rfl

end NewRecords

/-- Records that pass the checks have new and pairwise distinct ids. -/
theorem checkNewRecords_ok {committed : List Message} {seen : List String}
    {records : List PendingMessageRecord} (h : checkNewRecords committed seen records = .ok ()) :
    (records.map PendingMessageRecord.pendingId).Nodup ∧
      ∀ r ∈ records, r.pendingId ∉ seen ∧ ∀ m ∈ committed, m.id ≠ some r.pendingId := by
  induction records generalizing seen with
  | nil => simp
  | cons record records ih =>
    simp only [checkNewRecords, bind_ok, throw_or_ok] at h
    obtain ⟨-, hseen, hcommitted, hrest⟩ := h
    obtain ⟨hnodup, hnew⟩ := ih hrest
    have hrecord : ∀ m ∈ committed, m.id ≠ some record.pendingId := by simpa using hcommitted
    refine ⟨?_, fun r hr => ?_⟩
    · rw [List.map_cons, List.nodup_cons]
      refine ⟨fun hmem => ?_, hnodup⟩
      obtain ⟨r, hr, hid⟩ := List.mem_map.mp hmem
      exact (hnew r hr).1 (hid ▸ List.mem_cons_self)
    · rcases List.mem_cons.mp hr with rfl | hr
      · exact ⟨hseen, hrecord⟩
      · exact ⟨fun hmem => (hnew r hr).1 (List.mem_cons_of_mem _ hmem), (hnew r hr).2⟩

/-! ## Rewritten records -/

/-- A rewritten record keeps its id and its place, whether or not its revision
    could be counted up. -/
theorem rewriteRecord_snd (message : Message) (now : UInt64) (record : PendingMessageRecord) :
    (rewriteRecord message now record).2.pendingId = record.pendingId ∧
      (rewriteRecord message now record).2.position = record.position ∧
      (rewriteRecord message now record).2.message = message := by
  unfold rewriteRecord
  dsimp only
  cases Outcome.addU64 record.revision 1 <;> exact ⟨rfl, rfl, rfl⟩

/-- An adopted payload names the pending record. -/
theorem adoptPendingId_ok {pendingId : String} {message adopted : Message}
    (h : adoptPendingId pendingId message = .ok adopted) : adopted.id = some pendingId := by
  unfold adoptPendingId at h
  cases hid : message.id with
  | none =>
    rw [hid] at h
    cases h
    rfl
  | some messageId =>
    rw [hid] at h
    dsimp only at h
    split at h
    · cases h
    · rename_i heq
      cases h
      rw [hid, not_not.mp heq]

/-- Writing a record of the same id, place and message name leaves the queue arranged. -/
theorem Arranged.set {queue : List PendingMessageRecord} (h : Arranged queue) {i : Nat}
    {r r' : PendingMessageRecord} (hr : queue[i]? = some r) (hposition : r'.position = r.position)
    (hnamed : r'.message.id = some r'.pendingId) : Arranged (queue.set i r') := by
  obtain ⟨hi, hget⟩ := List.getElem?_eq_some_iff.mp hr
  refine ⟨?_, fun x hx => ?_⟩
  · rw [List.map_set, hposition, List.length_set, ← h.positions, ← hget,
      ← List.getElem_map PendingMessageRecord.position (h := by simpa using hi)]
    exact List.set_getElem_self _
  · rcases List.mem_or_eq_of_mem_set hx with hx | rfl
    · exact h.named x hx
    · exact hnamed

/-- Writing a record of the same id keeps the ids of the queue. -/
theorem map_pendingId_set {queue : List PendingMessageRecord} {i : Nat}
    {r r' : PendingMessageRecord} (hr : queue[i]? = some r) (hid : r'.pendingId = r.pendingId) :
    (queue.set i r').map PendingMessageRecord.pendingId =
      queue.map PendingMessageRecord.pendingId := by
  obtain ⟨hi, hget⟩ := List.getElem?_eq_some_iff.mp hr
  rw [List.map_set, hid, ← hget,
    ← List.getElem_map PendingMessageRecord.pendingId (h := by simpa using hi)]
  exact List.set_getElem_self _

/-! ## Reordering -/

/-- Every record of the map stands under its own id. -/
def Keyed (byId : AssocMap String PendingMessageRecord) : Prop :=
  ∀ id r, byId.get? id = some r → r.pendingId = id

theorem Keyed.insert {byId : AssocMap String PendingMessageRecord} (h : Keyed byId)
    (r : PendingMessageRecord) : Keyed (byId.insert r.pendingId r) := by
  intro id r' hget
  rw [AssocMap.get?_insert] at hget
  split at hget
  · rename_i heq
    cases hget
    exact heq.symm
  · exact h id r' hget

/-- Inserting records with new and distinct ids adds them at the end. -/
theorem foldl_insert_values {queue : List PendingMessageRecord}
    {byId : AssocMap String PendingMessageRecord} (hkeyed : Keyed byId)
    (hnodup : (queue.map PendingMessageRecord.pendingId).Nodup)
    (hnew : ∀ r ∈ queue, byId.get? r.pendingId = none) :
    let byId' := queue.foldl (fun byId r => byId.insert r.pendingId r) byId
    Keyed byId' ∧ byId'.values = byId.values ++ queue := by
  induction queue generalizing byId with
  | nil => exact ⟨hkeyed, (List.append_nil _).symm⟩
  | cons r queue ih =>
    obtain ⟨hr, hnodup'⟩ := List.nodup_cons.mp hnodup
    have hnew' : ∀ r' ∈ queue, (byId.insert r.pendingId r).get? r'.pendingId = none := by
      intro r' hr'
      have hne : r'.pendingId ≠ r.pendingId := fun h =>
        hr (h ▸ List.mem_map.mpr ⟨r', hr', rfl⟩)
      rw [AssocMap.get?_insert_of_ne _ _ hne]
      exact hnew r' (List.mem_cons_of_mem _ hr')
    obtain ⟨hkeyed', hvalues⟩ := ih (hkeyed.insert r) hnodup' hnew'
    refine ⟨hkeyed', hvalues.trans ?_⟩
    rw [AssocMap.values_insert_of_none (hnew r List.mem_cons_self), List.append_assoc]
    rfl

/-- The records of a queue with distinct ids, by id. -/
theorem recordsById_spec {queue : List PendingMessageRecord}
    (hnodup : (queue.map PendingMessageRecord.pendingId).Nodup) :
    Keyed (recordsById queue) ∧ (recordsById queue).values = queue := by
  have hempty : Keyed AssocMap.empty := fun id r h => nomatch h
  obtain ⟨hkeyed, hvalues⟩ := foldl_insert_values hempty hnodup fun _ _ => rfl
  exact ⟨hkeyed, hvalues.trans (List.nil_append _)⟩

/-- The records taken out of a map have the given ids, and with those left they
    are the records of the map. -/
theorem takeRecords_ok {ids : List String} {byId : AssocMap String PendingMessageRecord}
    (hkeyed : Keyed byId) {taken : List PendingMessageRecord}
    {left : AssocMap String PendingMessageRecord}
    (h : takeRecords ids byId = .ok (taken, left)) :
    taken.map PendingMessageRecord.pendingId = ids ∧
      byId.values.Perm (taken ++ left.values) := by
  induction ids generalizing byId taken left with
  | nil =>
    cases h
    exact ⟨rfl, List.Perm.refl _⟩
  | cons id ids ih =>
    unfold takeRecords at h
    cases hget : byId.get? id with
    | none => rw [hget] at h; cases h
    | some r =>
      rw [hget] at h
      obtain ⟨⟨taken', left'⟩, hrest, hok⟩ := exists_of_bind_ok h
      cases hok
      have hkeyed' : Keyed (byId.retain fun k _ => k ≠ id) := by
        intro k r' hr'
        rw [AssocMap.get?_retain] at hr'
        exact hkeyed k r' (Option.eq_some_of_filter_eq_some hr')
      obtain ⟨hids, hperm⟩ := ih hkeyed' hrest
      refine ⟨by rw [List.map_cons, hkeyed id r hget, hids], ?_⟩
      exact (AssocMap.values_perm_of_get? hget).trans (hperm.cons r)

/-- Counting up the revision keeps id, place and message. -/
theorem bumpRevision_ok {now : UInt64} {r r' : PendingMessageRecord}
    (h : bumpRevision now r = .ok r') :
    r'.pendingId = r.pendingId ∧ r'.position = r.position ∧ r'.message = r.message := by
  unfold bumpRevision at h
  cases hadd : Outcome.addU64 r.revision 1 with
  | error f => rw [hadd] at h; cases h
  | ok revision => rw [hadd] at h; cases h; exact ⟨rfl, rfl, rfl⟩

/-- Counting up the revisions of an arranged queue leaves it arranged. -/
theorem mapM_bumpRevision_ok {now : UInt64} {queue bumped : List PendingMessageRecord}
    (h : queue.mapM (bumpRevision now) = .ok bumped) (hqueue : Arranged queue) :
    bumped.map PendingMessageRecord.pendingId = queue.map PendingMessageRecord.pendingId ∧
      Arranged bumped := by
  have hids := map_of_mapM_ok (fun a b hb => (bumpRevision_ok hb).1) h
  have hpositions := map_of_mapM_ok (fun a b hb => (bumpRevision_ok hb).2.1) h
  have hmessages := map_of_mapM_ok (g := fun r => (r.message.id, r.pendingId))
    (h := fun r => (r.message.id, r.pendingId))
    (fun a b hb => by rw [(bumpRevision_ok hb).1, (bumpRevision_ok hb).2.2]) h
  have hlength : bumped.length = queue.length := by simpa using congrArg List.length hids
  refine ⟨hids, by rw [hpositions, hlength, hqueue.positions], fun r hr => ?_⟩
  have hmem : (r.message.id, r.pendingId) ∈ queue.map fun r => (r.message.id, r.pendingId) :=
    hmessages ▸ List.mem_map.mpr ⟨r, hr, rfl⟩
  obtain ⟨r', hr', heq⟩ := List.mem_map.mp hmem
  rw [← (Prod.mk.inj heq).1, ← (Prod.mk.inj heq).2]
  exact hqueue.named r' hr'

/-- Permuted records have the given ids and are the records of the queue. -/
theorem permuteRecords_ok {threadId : String} {queue reordered : List PendingMessageRecord}
    {orderedPendingIds : List String}
    (hnodup : (queue.map PendingMessageRecord.pendingId).Nodup)
    (h : permuteRecords threadId queue orderedPendingIds = .ok reordered) :
    reordered.map PendingMessageRecord.pendingId = orderedPendingIds ∧ queue.Perm reordered := by
  unfold permuteRecords at h
  obtain ⟨hkeyed, hvalues⟩ := recordsById_spec hnodup
  cases htaken : takeRecords orderedPendingIds (recordsById queue) with
  | error e => rw [htaken] at h; cases h
  | ok p =>
    obtain ⟨taken, left⟩ := p
    rw [htaken] at h
    dsimp only at h
    split at h
    · rename_i hempty
      cases h
      obtain ⟨hids, hperm⟩ := takeRecords_ok hkeyed htaken
      have hleft : left.values = [] := by
        rw [AssocMap.values, List.isEmpty_iff.mp hempty, List.map_nil]
      rw [hvalues, hleft, List.append_nil] at hperm
      exact ⟨hids, hperm⟩
    · cases h

/-- A reorder permutes the ids of a queue and numbers the records anew. -/
theorem reorderedRecords_ok {s : InMemoryStore} {threadId : String}
    {queue : List PendingMessageRecord} {expectedQueueRevision : Option UInt64}
    {orderedPendingIds : List String} {now : UInt64} {reordered : List PendingMessageRecord}
    (hnodup : (queue.map PendingMessageRecord.pendingId).Nodup) (hqueue : Arranged queue)
    (h : s.reorderedRecords threadId queue expectedQueueRevision orderedPendingIds now =
      .ok reordered) :
    reordered.map PendingMessageRecord.pendingId = orderedPendingIds ∧
      (queue.map PendingMessageRecord.pendingId).Perm
        (reordered.map PendingMessageRecord.pendingId) ∧
      Arranged reordered := by
  unfold reorderedRecords at h
  obtain ⟨-, -, h⟩ := exists_of_bind_ok h
  obtain ⟨permuted, hpermuted, h⟩ := exists_of_bind_ok h
  have hpermuted' : permuteRecords threadId queue orderedPendingIds = .ok permuted := by
    cases hp : permuteRecords threadId queue orderedPendingIds with
    | error e => rw [hp] at hpermuted; cases hpermuted
    | ok records => rw [hp] at hpermuted; cases hpermuted; rfl
  obtain ⟨hids, hperm⟩ := permuteRecords_ok hnodup hpermuted'
  have hnumbered : Arranged (normalizePendingPositions permuted) :=
    arranged_normalizePendingPositions fun r hr => hqueue.named r (hperm.mem_iff.mpr hr)
  obtain ⟨hsame, harranged⟩ := mapM_bumpRevision_ok h hnumbered
  rw [map_pendingId_normalizePendingPositions] at hsame
  exact ⟨hsame.trans hids, hsame ▸ hperm.map _, harranged⟩

end Remo.InMemoryStore

/-! ## What the pending calls do

For every pending call, the queue and the committed log it leaves and what it
returns: one case for each way a call can end. No call touches another thread.
-/

namespace Remo.InMemoryStore

/-! ## Reading a changed store -/

section Access

variable (s : InMemoryStore) (threadId threadId' : String)

@[simp] theorem pending_messagesEntry :
    (s.messagesEntry threadId).pending threadId' = s.pending threadId' := rfl

@[simp] theorem committed_pendingEntry :
    (s.pendingEntry threadId).committed threadId' = s.committed threadId' := rfl

@[simp] theorem committed_messagesEntry :
    (s.messagesEntry threadId).committed threadId' = s.committed threadId' := by
  simp only [committed, messagesEntry, AssocMap.get?_orInsert]
  split
  · rename_i h
    rw [h, Option.getD_some]
  · rfl

@[simp] theorem pending_pendingEntry :
    (s.pendingEntry threadId).pending threadId' = s.pending threadId' := by
  simp only [pending, pendingEntry, AssocMap.get?_orInsert]
  split
  · rename_i h
    rw [h, Option.getD_some]
  · rfl

@[simp] theorem committed_setPending (queue : List PendingMessageRecord) :
    (s.setPending threadId queue).committed threadId' = s.committed threadId' := rfl

@[simp] theorem pending_setCommitted (messages : List Message) :
    (s.setCommitted threadId messages).pending threadId' = s.pending threadId' := rfl

@[simp] theorem pending_setPending (queue : List PendingMessageRecord) :
    (s.setPending threadId queue).pending threadId' =
      if threadId' = threadId then queue else s.pending threadId' := by
  simp only [pending, setPending, AssocMap.get?_insert]
  split <;> rfl

@[simp] theorem committed_setCommitted (messages : List Message) :
    (s.setCommitted threadId messages).committed threadId' =
      if threadId' = threadId then messages else s.committed threadId' := by
  simp only [committed, setCommitted, AssocMap.get?_insert]
  split <;> rfl

@[simp] theorem pending_recordRun (run : RunRecord) (now : UInt64) :
    (s.recordRun threadId run now).pending threadId' = s.pending threadId' := rfl

@[simp] theorem committed_recordRun (run : RunRecord) (now : UInt64) :
    (s.recordRun threadId run now).committed threadId' = s.committed threadId' := rfl

end Access

/-- Of the message lists only those of one thread are written, and these are left
    as given. -/
structure Writes (s s' : InMemoryStore) (threadId : String) (queue : List PendingMessageRecord)
    (messages : List Message) : Prop where
  pending : s'.pending threadId = queue
  committed : s'.committed threadId = messages
  frame : ∀ t, t ≠ threadId → s'.pending t = s.pending t ∧ s'.committed t = s.committed t

theorem Writes.trans {s s' s'' : InMemoryStore} {threadId : String}
    {queue queue' : List PendingMessageRecord} {messages messages' : List Message}
    (h : Writes s s' threadId queue messages) (h' : Writes s' s'' threadId queue' messages') :
    Writes s s'' threadId queue' messages' where
  pending := h'.pending
  committed := h'.committed
  frame t ht :=
    ⟨(h'.frame t ht).1.trans (h.frame t ht).1, (h'.frame t ht).2.trans (h.frame t ht).2⟩

/-- The call failed and left all message lists as they were. -/
def FailsUnchanged {α : Type} (m : Method Fault InMemoryStore α) (s : InMemoryStore)
    (threadId : String) : Prop :=
  (∃ f, (m s).1 = .error f) ∧
    Writes s (m s).2 threadId (s.pending threadId) (s.committed threadId)

/-- What a freeze of the selected records returns and leaves: the selected messages
    go to the end of the log under the next sequence numbers. -/
structure Freezes (s s' : InMemoryStore) (threadId : String) (queue : List PendingMessageRecord)
    (selectedIndexes : List Nat) (generated : Nat → Uuid) (records : List MessageRecord) :
    Prop where
  records : records = (selectedMessages queue selectedIndexes).mapIdx fun index message =>
    MessageRecord.fromMessage threadId ((s.committed threadId).length + 1 + index) message
      (generated index)
  writes : Writes s s' threadId (normalizePendingPositions (unselected queue selectedIndexes))
    (s.committed threadId ++ selectedMessages queue selectedIndexes)

/-! ## Append -/

theorem append_cases (s : InMemoryStore) (threadId : String) (messages : List Message)
    (deliveryMode : DeliveryMode) (now : UInt64) (generated : Nat → Uuid) :
    let m := appendPendingMessageRecords threadId messages deliveryMode now generated
    let records := newRecords threadId (s.pending threadId).length messages deliveryMode
      (now / 1000) generated
    FailsUnchanged m s threadId ∨
      (checkNewRecords (s.committed threadId)
          ((s.pending threadId).map PendingMessageRecord.pendingId) records = .ok () ∧
        (m s).1 = .ok records ∧
        Writes s (m s).2 threadId (s.pending threadId ++ records) (s.committed threadId)) := by
  intro m records
  cases hcheck : checkNewRecords (s.committed threadId)
      ((s.pending threadId).map PendingMessageRecord.pendingId) records with
  | error e =>
    have hm : m s = (Outcome.fail e, s.pendingEntry threadId) := by
      simp only [m, appendPendingMessageRecords, pending_pendingEntry, committed_pendingEntry]
      rw [hcheck]
    refine .inl ⟨⟨_, by rw [hm]; rfl⟩, ?_⟩
    rw [hm]
    exact ⟨by simp, by simp, fun t _ => by simp⟩
  | ok _ =>
    have hm : m s = (.ok records,
        (s.pendingEntry threadId).setPending threadId (s.pending threadId ++ records)) := by
      simp only [m, appendPendingMessageRecords, pending_pendingEntry, committed_pendingEntry]
      rw [hcheck]
    refine .inr ⟨rfl, by rw [hm], ?_⟩
    rw [hm]
    exact ⟨by simp, by simp, fun t ht => by simp [ht]⟩

/-! ## Update, retract, reorder -/

theorem update_cases (s : InMemoryStore) (threadId pendingId : String)
    (expectedRevision : Option UInt64) (message : Message) (now : UInt64) :
    let m := updatePendingMessageRecordChecked threadId pendingId expectedRevision message now
    FailsUnchanged m s threadId ∨
      ∃ i r r', (s.pending threadId)[i]? = some r ∧ r'.pendingId = r.pendingId ∧
        r'.position = r.position ∧ r'.message.id = some r'.pendingId ∧
        Writes s (m s).2 threadId ((s.pending threadId).set i r') (s.committed threadId) := by
  intro m
  have hsame : Writes s s threadId (s.pending threadId) (s.committed threadId) :=
    ⟨rfl, rfl, fun _ _ => ⟨rfl, rfl⟩⟩
  unfold FailsUnchanged
  simp only [m, updatePendingMessageRecordChecked]
  cases hlocate : locate (s.pending threadId) pendingId with
  | none => exact .inl ⟨⟨_, rfl⟩, hsame⟩
  | some p =>
    obtain ⟨record, index⟩ := p
    obtain ⟨hget, hid⟩ := locate_eq_some hlocate
    dsimp only
    split
    · exact .inl ⟨⟨_, rfl⟩, hsame⟩
    · rename_i adopted hchecked
      right
      obtain ⟨-, -, hchecked⟩ := exists_of_bind_ok hchecked
      obtain ⟨adopted', hadopt, hchecked⟩ := exists_of_bind_ok hchecked
      obtain ⟨-, -, hchecked⟩ := exists_of_bind_ok hchecked
      cases hchecked
      obtain ⟨hid', hposition, hmessage⟩ := rewriteRecord_snd adopted now record
      refine ⟨index, record, _, hget, hid', hposition, ?_, ⟨by simp, by simp, fun t ht => ?_⟩⟩
      · rw [hmessage, hid', hid]
        exact adoptPendingId_ok hadopt
      · simp [ht]

theorem retract_cases (s : InMemoryStore) (threadId pendingId : String)
    (expectedRevision : Option UInt64) :
    let m := retractPendingMessageRecordChecked threadId pendingId expectedRevision
    FailsUnchanged m s threadId ∨
      ∃ i r, (s.pending threadId)[i]? = some r ∧ r.pendingId = pendingId ∧ (m s).1 = .ok r ∧
        Writes s (m s).2 threadId (normalizePendingPositions ((s.pending threadId).eraseIdx i))
          (s.committed threadId) := by
  intro m
  have hsame : Writes s s threadId (s.pending threadId) (s.committed threadId) :=
    ⟨rfl, rfl, fun _ _ => ⟨rfl, rfl⟩⟩
  unfold FailsUnchanged
  simp only [m, retractPendingMessageRecordChecked]
  cases hlocate : locate (s.pending threadId) pendingId with
  | none => exact .inl ⟨⟨_, rfl⟩, hsame⟩
  | some p =>
    obtain ⟨record, index⟩ := p
    obtain ⟨hget, hid⟩ := locate_eq_some hlocate
    dsimp only
    cases checkExpected expectedRevision record.revision with
    | error e => exact .inl ⟨⟨_, rfl⟩, hsame⟩
    | ok _ =>
      refine .inr ⟨index, record, hget, hid, rfl, ⟨by simp, by simp, fun t ht => ?_⟩⟩
      simp [ht]

theorem reorder_cases (s : InMemoryStore) (threadId : String)
    (expectedQueueRevision : Option UInt64) (orderedPendingIds : List String) (now : UInt64) :
    let m := reorderPendingMessageRecordsChecked threadId expectedQueueRevision
      orderedPendingIds now
    FailsUnchanged m s threadId ∨
      ∃ reordered, s.reorderedRecords threadId (s.pending threadId) expectedQueueRevision
          orderedPendingIds now = .ok reordered ∧
        (m s).1 = .ok reordered ∧
        Writes s (m s).2 threadId reordered (s.committed threadId) := by
  intro m
  have hsame : Writes s s threadId (s.pending threadId) (s.committed threadId) :=
    ⟨rfl, rfl, fun _ _ => ⟨rfl, rfl⟩⟩
  unfold FailsUnchanged
  simp only [m, reorderPendingMessageRecordsChecked]
  cases hget : s.pendingMessages.get? threadId with
  | none =>
    dsimp only
    split <;> exact .inl ⟨⟨_, rfl⟩, hsame⟩
  | some queue =>
    have hqueue : s.pending threadId = queue := by rw [pending, hget, Option.getD_some]
    rw [hqueue] at hsame ⊢
    dsimp only
    cases hreordered : s.reorderedRecords threadId queue expectedQueueRevision orderedPendingIds
        now with
    | error f => exact .inl ⟨⟨f, rfl⟩, hsame⟩
    | ok reordered =>
      refine .inr ⟨reordered, rfl, rfl, ⟨by simp, by simp, fun t ht => ?_⟩⟩
      simp [ht]

/-! ## Freeze -/

theorem moveSelected_cases (s : InMemoryStore) (threadId : String) {selectedIndexes : List Nat}
    (hasc : selectedIndexes.Pairwise (· < ·))
    (hrange : ∀ i ∈ selectedIndexes, i < (s.pending threadId).length) (generated : Nat → Uuid) :
    let m := moveSelected threadId selectedIndexes generated
    FailsUnchanged m s threadId ∨
      ∃ records, (m s).1 = .ok records ∧
        Freezes s (m s).2 threadId (s.pending threadId) selectedIndexes generated records := by
  intro m
  have hsame : Writes s s threadId (s.pending threadId) (s.committed threadId) :=
    ⟨rfl, rfl, fun _ _ => ⟨rfl, rfl⟩⟩
  unfold FailsUnchanged
  simp only [m, moveSelected]
  cases validateAppendOnlyDelta (s.committed threadId)
      (selectedMessages (s.pending threadId) selectedIndexes) with
  | error e => exact .inl ⟨⟨_, rfl⟩, hsame⟩
  | ok _ =>
    right
    rw [drainSelected_fst hasc hrange, drainSelected_snd hasc hrange, ← selectedMessages_eq]
    exact ⟨_, rfl, rfl, ⟨by simp, by simp, fun t ht => by simp [ht]⟩⟩

/-- An arranged queue is numbered already. -/
theorem Arranged.normalizePendingPositions_eq {queue : List PendingMessageRecord}
    (h : Arranged queue) : normalizePendingPositions queue = queue := by
  refine List.ext_getElem (by simp) fun i hi hi' => ?_
  have hposition : queue[i].position = i + 1 := by
    have hlt : i < (queue.map PendingMessageRecord.position).length := by simpa using hi'
    have := List.getElem_of_eq h.positions hlt
    rw [List.getElem_map, List.getElem_range'] at this
    omega
  simp [normalizePendingPositions, ← hposition]

/-- A freeze that selects nothing does not even number the queue anew. -/
theorem freeze_cases (s : InMemoryStore) (threadId : String) (boundary : DeliveryBoundary)
    (expectedMessageVersion : Option UInt64) (generated : Nat → Uuid) :
    let m := freezePendingMessageRecords threadId boundary expectedMessageVersion generated
    let selectedIndexes := selectPendingForFreezeForRun (s.pending threadId) boundary none
    FailsUnchanged m s threadId ∨
      (selectedIndexes = [] ∧ (m s).1 = .ok [] ∧
        Writes s (m s).2 threadId (s.pending threadId) (s.committed threadId)) ∨
      ∃ records, (m s).1 = .ok records ∧
        Freezes s (m s).2 threadId (s.pending threadId) selectedIndexes generated records := by
  intro m selectedIndexes
  have hsame : Writes s (s.messagesEntry threadId) threadId (s.pending threadId)
      (s.committed threadId) := ⟨by simp, by simp, fun t _ => by simp⟩
  unfold FailsUnchanged
  cases hcheck : checkMessageVersion expectedMessageVersion (s.committed threadId).length with
  | error e =>
    have hm : m s = (Outcome.fail e, s.messagesEntry threadId) := by
      simp [m, freezePendingMessageRecords, hcheck]
    rw [hm]
    exact .inl ⟨⟨_, rfl⟩, hsame⟩
  | ok _ =>
    by_cases hempty : (selectPendingForFreeze (s.pending threadId) boundary).isEmpty = true
    · have hm : m s = (.ok [], s.messagesEntry threadId) := by
        simp [m, freezePendingMessageRecords, hcheck, hempty]
      rw [hm]
      exact .inr (.inl ⟨List.isEmpty_iff.mp hempty, rfl, hsame⟩)
    · have hm : m s = moveSelected threadId selectedIndexes generated
          (s.messagesEntry threadId) := by
        simp only [m, freezePendingMessageRecords, pending_messagesEntry, committed_messagesEntry,
          hcheck]
        exact if_neg hempty
      have hcases := moveSelected_cases (s.messagesEntry threadId) threadId
        (select_pairwise (s.pending threadId) boundary none)
        (fun i hi => lt_length_of_mem_select hi) generated
      rw [hm]
      rcases hcases with ⟨hfail, hwrites⟩ | ⟨records, hok, hrecords, hwrites⟩
      · rw [pending_messagesEntry, committed_messagesEntry] at hwrites
        exact .inl ⟨hfail, hsame.trans hwrites⟩
      · rw [pending_messagesEntry, committed_messagesEntry] at hrecords hwrites
        exact .inr (.inr ⟨records, hok, hrecords, hsame.trans hwrites⟩)

/-- On an arranged queue a freeze that selects nothing is like any other. -/
theorem freeze_cases_of_arranged (s : InMemoryStore) (threadId : String)
    (boundary : DeliveryBoundary) (expectedMessageVersion : Option UInt64)
    (generated : Nat → Uuid) (harranged : Arranged (s.pending threadId)) :
    let m := freezePendingMessageRecords threadId boundary expectedMessageVersion generated
    FailsUnchanged m s threadId ∨
      ∃ records, (m s).1 = .ok records ∧
        Freezes s (m s).2 threadId (s.pending threadId)
          (selectPendingForFreezeForRun (s.pending threadId) boundary none) generated records := by
  rcases freeze_cases s threadId boundary expectedMessageVersion generated with
    h | ⟨hnone, hok, hwrites⟩ | h
  · exact .inl h
  · refine .inr ⟨[], hok, ?_, ?_⟩
    · rw [hnone]
      rfl
    · rw [hnone, unselected_nil, harranged.normalizePendingPositions_eq, selectedMessages,
        List.filterMap_nil, List.append_nil]
      exact hwrites
  · exact .inr h

theorem freezeSelectionWithRun_cases (s : InMemoryStore) (threadId : String)
    (boundary : DeliveryBoundary) (expectedPendingIds : List String) (run : RunRecord)
    (now : UInt64) (generated : Nat → Uuid) :
    let m := freezeSelectionWithRun threadId boundary expectedPendingIds run now generated
    FailsUnchanged m s threadId ∨
      ∃ records, (m s).1 = .ok records ∧
        Freezes s (m s).2 threadId (s.pending threadId)
          (selectPendingForFreezeForRun (s.pending threadId) boundary (some run.runId))
          generated records := by
  intro m
  have hsame : Writes s (s.messagesEntry threadId) threadId (s.pending threadId)
      (s.committed threadId) := ⟨by simp, by simp, fun t _ => by simp⟩
  unfold FailsUnchanged
  simp only [m, freezeSelectionWithRun]
  split
  · exact .inl ⟨⟨_, rfl⟩, ⟨rfl, rfl, fun _ _ => ⟨rfl, rfl⟩⟩⟩
  · have hcases := moveSelected_cases (s.messagesEntry threadId) threadId
      (select_pairwise (s.pending threadId) boundary (some run.runId))
      (fun i hi => lt_length_of_mem_select hi) generated
    unfold Method.bind
    rcases hmoved : moveSelected threadId
      (selectPendingForFreezeForRun (s.pending threadId) boundary (some run.runId)) generated
      (s.messagesEntry threadId) with ⟨reply, s'⟩
    unfold FailsUnchanged at hcases
    simp only [hmoved, pending_messagesEntry] at hcases
    rcases hcases with ⟨⟨f, rfl⟩, hwrites⟩ | ⟨records, rfl, hrecords, hwrites⟩
    · rw [committed_messagesEntry] at hwrites
      exact .inl ⟨⟨f, rfl⟩, hsame.trans hwrites⟩
    · rw [committed_messagesEntry] at hrecords hwrites
      refine .inr ⟨records, rfl, hrecords, (hsame.trans hwrites).trans ?_⟩
      exact ⟨by simpa using hwrites.pending, by simpa using hwrites.committed, fun t _ => by simp⟩

theorem freezeWithRun_cases (s : InMemoryStore) (threadId : String) (boundary : DeliveryBoundary)
    (expectedMessageVersion : Option UInt64) (expectedPendingIds : List String) (run : RunRecord)
    (now : UInt64) (generated : Nat → Uuid) :
    let m := freezePendingMessageRecordsWithRun threadId boundary expectedMessageVersion
      expectedPendingIds run now generated
    FailsUnchanged m s threadId ∨
      ∃ records, (m s).1 = .ok records ∧
        Freezes s (m s).2 threadId (s.pending threadId)
          (selectPendingForFreezeForRun (s.pending threadId) boundary (some run.runId))
          generated records := by
  intro m
  have hentry : Writes s (s.pendingEntry threadId) threadId (s.pending threadId)
      (s.committed threadId) := ⟨by simp, by simp, fun t _ => by simp⟩
  unfold FailsUnchanged
  simp only [m, freezePendingMessageRecordsWithRun]
  split
  · exact .inl ⟨⟨_, rfl⟩, ⟨rfl, rfl, fun _ _ => ⟨rfl, rfl⟩⟩⟩
  · have hcases := freezeSelectionWithRun_cases (s.pendingEntry threadId) threadId boundary
      expectedPendingIds run now generated
    rcases hcases with ⟨hfail, hwrites⟩ | ⟨records, hok, hrecords, hwrites⟩
    · rw [pending_pendingEntry, committed_pendingEntry] at hwrites
      exact .inl ⟨hfail, hentry.trans hwrites⟩
    · rw [pending_pendingEntry, committed_pendingEntry] at hrecords hwrites
      exact .inr ⟨records, hok, hrecords, by simpa using hentry.trans hwrites⟩

/-- An append with freeze fails without a trace, fails with its new messages left in
    the queue, or freezes the queue with the new messages behind it. -/
theorem appendAndFreezeWithRun_cases (s : InMemoryStore) (threadId : String)
    (newMessages : List Message) (deliveryMode : DeliveryMode) (boundary : DeliveryBoundary)
    (expectedMessageVersion : Option UInt64) (expectedPendingIds : List String) (run : RunRecord)
    (now : UInt64) (generated : Nat → Uuid) :
    let m := appendAndFreezePendingMessageRecordsWithRun threadId newMessages deliveryMode
      boundary expectedMessageVersion expectedPendingIds run now generated
    let records := newRecords threadId (s.pending threadId).length newMessages deliveryMode
      (now / 1000) generated
    let queue := s.pending threadId ++ records
    FailsUnchanged m s threadId ∨
      (checkNewRecords (s.committed threadId)
          ((s.pending threadId).map PendingMessageRecord.pendingId) records = .ok () ∧
        (((∃ f, (m s).1 = .error f) ∧
            Writes s (m s).2 threadId queue (s.committed threadId)) ∨
          ∃ frozen, (m s).1 = .ok frozen ∧
            Freezes s (m s).2 threadId queue
              (selectPendingForFreezeForRun queue boundary (some run.runId)) generated
              frozen)) := by
  intro m records queue
  unfold FailsUnchanged
  simp only [m, appendAndFreezePendingMessageRecordsWithRun]
  split
  · exact .inl ⟨⟨_, rfl⟩, ⟨rfl, rfl, fun _ _ => ⟨rfl, rfl⟩⟩⟩
  · unfold Method.bind
    have happend := append_cases s threadId newMessages deliveryMode now generated
    unfold FailsUnchanged at happend
    rcases happended : appendPendingMessageRecords threadId newMessages deliveryMode now
      generated s with ⟨reply, s'⟩
    simp only [happended] at happend
    rcases happend with ⟨⟨f, rfl⟩, hwrites⟩ | ⟨hcheck, rfl, hwrites⟩
    · exact .inl ⟨⟨f, rfl⟩, hwrites⟩
    · right
      have hcases := freezeSelectionWithRun_cases s' threadId boundary expectedPendingIds run now
        generated
      unfold FailsUnchanged at hcases
      rcases hcases with ⟨hfail, hwrites'⟩ | ⟨frozen, hok, hrecords, hwrites'⟩
      · rw [hwrites.pending, hwrites.committed] at hwrites'
        exact ⟨hcheck, .inl ⟨hfail, hwrites.trans hwrites'⟩⟩
      · rw [hwrites.pending, hwrites.committed] at hrecords hwrites'
        exact ⟨hcheck, .inr ⟨frozen, by simpa [hwrites.pending] using hok,
          ⟨hrecords, by simpa [hwrites.pending] using hwrites.trans hwrites'⟩⟩⟩

end Remo.InMemoryStore
