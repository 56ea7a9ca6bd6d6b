import Remo.Native.Storage.Scoped
import Remo.Spec.Scope
import Remo.Spec.Storage.Hierarchy

/-!
# When the scoped store is transparent

The wrapper rewrites ids and lets the inner store check, trim and project the rewritten
record. A record comes back as it would from an inner store of its own as long as the
checks, the trimming and the projection do not look at what the rewriting changed.

## Key results

- `decodeRun_encodeRun`: records are read back as they were
- `transparent_iff`: which saves are transparent
-/

namespace Remo

/-! ## Trimming a key -/

namespace Str

/-- A string without the white space at its end. -/
def trimEnd (s : String) : String := String.ofList (s.toList.rdropWhile isWhitespace)

/-- The string starts with a character that is not white space. -/
def startsVisible (s : String) : Bool := s.toList.head?.any fun c => !isWhitespace c

/-- Trimming at the end stops in front of a list that ends visibly. -/
theorem rdropWhile_append_of_getLast {l : List Char} {c : Char} (hl : l.getLast? = some c)
    (hc : isWhitespace c = false) (m : List Char) :
    (l ++ m).rdropWhile isWhitespace = l ++ m.rdropWhile isWhitespace := by
  induction m using List.reverseRecOn with
  | nil =>
    rw [List.append_nil, List.rdropWhile_nil, List.append_nil, List.rdropWhile_eq_self_iff]
    intro hne
    rw [List.getLast?_eq_some_getLast hne] at hl
    rw [Option.some.inj hl, hc]
    simp
  | append_singleton m x ih =>
    rw [← List.append_assoc, List.rdropWhile_concat, List.rdropWhile_concat]
    split
    · exact ih
    · rw [List.append_assoc]

theorem trim_scopedKey (scope : ScopeId) (value : String) :
    trim (scopedKey scope value) = scopedKey scope (trimEnd value) := by
  have hstart : ∃ cs, (scopedKey scope value).toList = 's' :: cs := by
    exact ⟨_, by simp [scopedKey, ScopeId.keyStart]; rfl⟩
  have hlast : scope.keyStart.toList.getLast? = some ':' := by
    rw [ScopeId.keyStart, String.toList_append]
    exact List.getLast?_concat
  unfold trim
  obtain ⟨cs, hcs⟩ := hstart
  rw [hcs, List.dropWhile_cons_of_neg (by decide), ← hcs, scopedKey, String.toList_append,
    rdropWhile_append_of_getLast hlast (by decide)]
  simp [scopedKey, trimEnd, String.ofList_append]

/-- A text that starts visibly is only trimmed at its end. -/
theorem trim_of_startsVisible {s : String} (h : startsVisible s = true) : trim s = trimEnd s := by
  unfold trim trimEnd
  cases hs : s.toList with
  | nil => rfl
  | cons c cs =>
    have hc : isWhitespace c = false := by simpa [startsVisible, hs] using h
    rw [List.dropWhile_cons_of_neg (by simp [hc])]

/-- White space at the end is trimmed either way. -/
theorem rdropWhile_append_of_all (l : List Char) {m : List Char}
    (hm : ∀ c ∈ m, isWhitespace c = true) :
    (l ++ m).rdropWhile isWhitespace = l.rdropWhile isWhitespace := by
  induction m using List.reverseRecOn with
  | nil => rw [List.append_nil]
  | append_singleton m x ih =>
    rw [← List.append_assoc, List.rdropWhile_concat, if_pos (hm x (by simp))]
    exact ih fun c hc => hm c (by simp [hc])

/-- Texts that agree up to white space at their ends are trimmed to the same text. -/
theorem trim_trimEnd (s : String) : trim (trimEnd s) = trim s := by
  unfold trim trimEnd
  rw [String.toList_ofList]
  have hsplit : s.toList.rdropWhile isWhitespace ++ s.toList.rtakeWhile isWhitespace =
      s.toList := List.rdropWhile_append_rtakeWhile
  have hall : ∀ c ∈ s.toList.rtakeWhile isWhitespace, isWhitespace c = true :=
    fun c hc => List.mem_rtakeWhile_imp hc
  generalize s.toList.rtakeWhile isWhitespace = m at hsplit hall
  generalize s.toList.rdropWhile isWhitespace = l at hsplit
  rw [← hsplit, List.dropWhile_append]
  split
  · rename_i hempty
    rw [List.isEmpty_iff.mp hempty, List.dropWhile_eq_nil_iff.mpr hall]
  · rw [rdropWhile_append_of_all _ hall]

end Str

theorem normalizeLineageId_scopedKey (scope : ScopeId) (value : String) :
    normalizeLineageId (some (scopedKey scope value)) =
      some (scopedKey scope (Str.trimEnd value)) := by
  have hne : (scopedKey scope (Str.trimEnd value)).isEmpty = false := by
    rw [Bool.eq_false_iff]
    intro hempty
    simp [scopedKey, ScopeId.keyStart] at hempty
  unfold normalizeLineageId
  rw [Option.map_some, Str.trim_scopedKey]
  simp [Option.filter, hne]

/-- An id is normalized as the end of a key is exactly when it starts visibly. -/
theorem normalizeLineageId_eq_trimEnd_iff (value : String) :
    normalizeLineageId (some value) = some (Str.trimEnd value) ↔
      Str.startsVisible value = true := by
  have hnormalize : normalizeLineageId (some value) = some (Str.trimEnd value) ↔
      Str.trim value = Str.trimEnd value ∧ (Str.trim value).toList ≠ [] := by
    unfold normalizeLineageId
    rw [Option.map_some, Option.filter_eq_some_iff]
    simp only [Option.some.injEq, Bool.not_eq_true', ne_eq, String.toList_eq_nil_iff]
    constructor
    · rintro ⟨heq, hne⟩
      rw [← heq] at hne ⊢
      exact ⟨rfl, by simpa using hne⟩
    · rintro ⟨heq, hne⟩
      rw [← heq]
      exact ⟨rfl, by simpa using hne⟩
  rw [hnormalize]
  constructor
  · rintro ⟨heq, hne⟩
    obtain ⟨c, cs, hcs⟩ := List.exists_cons_of_ne_nil hne
    -- the first character survived both trims, so it is the first of the whole text
    have hc : Str.isWhitespace c = false := by
      have hdrop := Str.dropWhile_trimmed value.toList
      rw [Str.trim, String.toList_ofList] at hcs
      rw [hcs] at hdrop
      by_contra hw
      rw [List.dropWhile_cons_of_pos (by simpa using hw)] at hdrop
      have hlength := congrArg List.length hdrop
      have hle := (List.dropWhile_suffix Str.isWhitespace (l := cs)).length_le
      rw [List.length_cons] at hlength
      omega
    have hfront := List.rdropWhile_prefix Str.isWhitespace (l := value.toList)
    rw [heq, Str.trimEnd, String.toList_ofList] at hcs
    rw [hcs] at hfront
    obtain ⟨rest, hrest⟩ := hfront
    simp [Str.startsVisible, ← hrest, hc]
  · intro hstarts
    refine ⟨Str.trim_of_startsVisible hstarts, ?_⟩
    rw [Str.trim_of_startsVisible hstarts, Str.trimEnd, String.toList_ofList, ne_eq,
      List.rdropWhile_eq_nil_iff]
    intro hall
    cases hs : value.toList with
    | nil => simp [Str.startsVisible, hs] at hstarts
    | cons c cs =>
      have hc : Str.isWhitespace c = false := by simpa [Str.startsVisible, hs] using hstarts
      have hw := hall c (by rw [hs]; exact List.mem_cons_self)
      rw [hc] at hw
      cases hw

/-- A normalized id is not trimmed at its end. -/
theorem trimEnd_of_normalized {value : String}
    (h : normalizeLineageId (some value) = some value) : Str.trimEnd value = value := by
  unfold normalizeLineageId at h
  rw [Option.map_some, Option.filter_eq_some_iff] at h
  have htrim : Str.trim value = value := Option.some.inj h.1
  have hlist : (value.toList.dropWhile Str.isWhitespace).rdropWhile Str.isWhitespace =
      value.toList := by
    have hchars := congrArg String.toList htrim
    rwa [Str.trim, String.toList_ofList] at hchars
  have hsuffix := List.dropWhile_suffix Str.isWhitespace (l := value.toList)
  have hfront := List.rdropWhile_prefix Str.isWhitespace
    (l := value.toList.dropWhile Str.isWhitespace)
  have hdrop : value.toList.dropWhile Str.isWhitespace = value.toList := by
    apply hsuffix.eq_of_length_le
    rw [hlist] at hfront
    exact hfront.length_le
  rw [hdrop] at hlist
  rw [Str.trimEnd, hlist, String.ofList_toList]

namespace ScopedThreadRunStore

variable (self : ScopedThreadRunStore)

/-! ## Records are read back -/

@[simp] theorem unscopedId_scopedId (id : String) :
    self.unscopedId (self.scopedId id) = some id := by
  unfold unscopedId scopedId
  rw [unscopedKey_scopedKey, if_pos rfl]

theorem normalizeLineageId_scopedId (id : String) :
    normalizeLineageId (some (self.scopedId id)) = some (self.scopedId (Str.trimEnd id)) :=
  normalizeLineageId_scopedKey self.scopeId id

theorem scopedId_inj {id id' : String} : self.scopedId id = self.scopedId id' ↔ id = id' := by
  constructor
  · intro h
    have hread := self.unscopedId_scopedId id
    rw [h, unscopedId_scopedId] at hread
    exact (Option.some.inj hread).symm
  · rintro rfl
    rfl

/-- A key is longer than the id in it. -/
theorem scopedId_ne (id : String) : self.scopedId id ≠ id := by
  intro h
  have hlength := congrArg (fun s : String => s.toList.length) h
  simp [scopedId, scopedKey, ScopeId.keyStart] at hlength
  omega

@[simp] theorem unscopedParent_map (id : Option String) :
    self.unscopedParent (id.map self.scopedId) = some id := by
  cases id with
  | none => rfl
  | some id =>
    show (self.unscopedId (self.scopedId id)).map some = _
    rw [unscopedId_scopedId]
    rfl

/-- An encoded run is read back as it was. -/
theorem decodeRun_encodeRun (run : RunRecord) :
    self.decodeRun (self.encodeRun run) = some run := by
  have hinput : self.decodeInput (self.encodeRun run).input = some run.input := by
    cases hrun : run.input <;> simp [encodeRun, decodeInput, hrun]
  have houtput : self.decodeOutput (self.encodeRun run).output = some run.output := by
    cases hrun : run.output <;> simp [encodeRun, decodeOutput, hrun]
  have hrequest : self.decodeRequest (self.encodeRun run).request = some run.request := by
    cases hrun : run.request <;> simp [encodeRun, decodeRequest, hrun]
  unfold decodeRun
  rw [hinput, houtput, hrequest]
  simp [encodeRun]

/-! ## Checks on encoded records -/

theorem isBlank_scopedId (id : String) : Str.isBlank (self.scopedId id) = false := by
  have hmem : 's' ∈ (self.scopedId id).toList := by
    simp [scopedId, scopedKey, ScopeId.keyStart]
  exact Str.isBlank_eq_false hmem (by decide)

theorem validateInput_encode {threadId : String} {input : RunMessageInput} :
    RunRecord.validateInput (self.scopedId threadId)
        { input with threadId := self.scopedId input.threadId } = .ok () ↔
      RunRecord.validateInput threadId input = .ok () := by
  unfold RunRecord.validateInput
  simp only [ne_eq, throw_or_ok, scopedId_inj]

theorem validateOutput_encode {threadId : String} {output : RunMessageOutput} :
    RunRecord.validateOutput (self.scopedId threadId)
        { output with threadId := self.scopedId output.threadId } = .ok () ↔
      RunRecord.validateOutput threadId output = .ok () := by
  unfold RunRecord.validateOutput
  simp only [ne_eq, throw_or_ok, scopedId_inj]

/-- The check of a run against its status. -/
def validateStatus (run : RunRecord) : Except StorageError Unit :=
  match run.status with
  | .created => run.validateOpen "Created"
  | .running => run.validateOpen "Running"
  | .waiting => run.validateWaiting
  | .done => run.validateDone

/-- The checks of a run one by one. -/
theorem validateForPersist_iff {run : RunRecord} :
    run.validateForPersist = .ok () ↔
      Str.isBlank run.runId = false ∧ Str.isBlank run.threadId = false ∧
        Str.isBlank run.agentId = false ∧
        (∀ activation, run.activation = some activation →
          activation.validate = .ok () ∧ activation.intent.threadId = run.threadId) ∧
        (∀ input, run.input = some input → RunRecord.validateInput run.threadId input = .ok ()) ∧
        (∀ output, run.output = some output →
          RunRecord.validateOutput run.threadId output = .ok ()) ∧
        validateStatus run = .ok () := by
  unfold RunRecord.validateForPersist validateStatus
  simp only [bind_ok, requireNonEmpty_ok]
  cases run.activation <;> cases run.input <;> cases run.output <;> cases run.status <;>
    simp only [bind_ok, throw_or_ok, ne_eq, not_not] <;> simp [and_assoc]

/-- The check against the status looks at no id. -/
theorem validateStatus_encodeRun {run : RunRecord} :
    validateStatus (self.encodeRun run) = .ok () ↔ validateStatus run = .ok () := by
  have hstatus : (self.encodeRun run).status = run.status := rfl
  unfold validateStatus
  rw [hstatus]
  cases run.status with
  | created =>
    simp only [RunRecord.validateOpen, throw_or_ok, throw_unless_ok]
    rfl
  | running =>
    simp only [RunRecord.validateOpen, throw_or_ok, throw_unless_ok]
    rfl
  | waiting =>
    simp only [RunRecord.validateWaiting, throw_or_ok, throw_unless_ok]
    rfl
  | done =>
    have houtcome : (self.encodeRun run).outcome = run.outcome := rfl
    simp only [RunRecord.validateDone, throw_or_ok, houtcome]
    cases run.outcome with
    | none => exact Iff.rfl
    | some outcome =>
      simp only [throw_or_ok, throw_unless_ok]
      exact Iff.rfl

/-- The rewriting keeps a run valid exactly when it carries no activation: the
    activation still names the thread by its own id. -/
theorem validateForPersist_encodeRun_iff {run : RunRecord}
    (hvalid : run.validateForPersist = .ok ()) :
    (self.encodeRun run).validateForPersist = .ok () ↔ run.activation = none := by
  obtain ⟨-, -, hagent, hactivation, hinput, houtput, hstatus⟩ := validateForPersist_iff.mp hvalid
  rw [validateForPersist_iff]
  constructor
  · rintro ⟨-, -, -, hencoded, -⟩
    cases hrun : run.activation with
    | none => rfl
    | some activation =>
      -- the thread id of the activation would have to be both ids
      have hraw := (hactivation activation hrun).2
      have hscoped : activation.intent.threadId = self.scopedId run.threadId :=
        (hencoded activation hrun).2
      exact absurd (hscoped.symm.trans hraw) (self.scopedId_ne run.threadId)
  · intro hnone
    refine ⟨self.isBlank_scopedId _, self.isBlank_scopedId _, hagent, ?_, ?_, ?_,
      (self.validateStatus_encodeRun).mpr hstatus⟩
    · intro activation hsome
      have hsome' : run.activation = some activation := hsome
      rw [hnone] at hsome'
      cases hsome'
    · intro input hsome
      obtain ⟨original, horiginal, rfl⟩ := Option.map_eq_some_iff.mp hsome
      exact (self.validateInput_encode).mpr (hinput original horiginal)
    · intro output hsome
      obtain ⟨original, horiginal, rfl⟩ := Option.map_eq_some_iff.mp hsome
      exact (self.validateOutput_encode).mpr (houtput original horiginal)

/-! ## The hierarchy check -/

/-- The inner store holds under the scope what another store holds. -/
structure Holds (store : ScopedThreadRunStore) (inner own : InMemoryStore) : Prop where
  threads : ∀ id, inner.threads.get? (store.scopedId id) =
    (own.threads.get? id).map store.encodeThread
  runs : ∀ id, inner.runs.get? (store.scopedId id) = (own.runs.get? id).map store.encodeRun
  messages : ∀ id, inner.messages.get? (store.scopedId id) = own.messages.get? id

/-- The parents of the stored threads are normalized. -/
def Normalized (threads : AssocMap String Thread) : Prop :=
  ∀ id thread, threads.get? id = some thread →
    normalizeLineageId thread.parentThreadId = thread.parentThreadId

/-- The hierarchy check from a parent that is not normalized any more. -/
def checkHierarchy (threads : AssocMap String Thread) (threadId : String) :
    Option String → Except StorageError Unit
  | none => .ok ()
  | some parentThreadId =>
    if parentThreadId = threadId then
      .error (.validation s!"thread '{threadId}' cannot parent itself")
    else walkAncestors threads parentThreadId [threadId] parentThreadId

theorem validateThreadHierarchyMap_eq (threads : AssocMap String Thread) (threadId : String)
    (parentThreadId : Option String) :
    validateThreadHierarchyMap threads threadId parentThreadId =
      checkHierarchy threads threadId (normalizeLineageId parentThreadId) := by
  unfold validateThreadHierarchyMap checkHierarchy
  cases normalizeLineageId parentThreadId <;> rfl

variable {self} {inner own : InMemoryStore}

/-- The walk up through the keys of the scope ends as the walk up through the ids does. -/
theorem walkAncestors_scoped (hholds : self.Holds inner own) (hown : Normalized own.threads)
    (root : String) (visited : List String) (current : String) :
    walkAncestors inner.threads (self.scopedId root) (visited.map self.scopedId)
        (self.scopedId current) = .ok () ↔
      walkAncestors own.threads root visited current = .ok () := by
  have hmem : ∀ (visited : List String) id,
      self.scopedId id ∈ visited.map self.scopedId ↔ id ∈ visited := by
    intro visited id
    rw [List.mem_map]
    constructor
    · rintro ⟨id', hid', heq⟩
      rwa [← self.scopedId_inj.mp heq]
    · exact fun h => ⟨id, h, rfl⟩
  fun_induction walkAncestors own.threads root visited current with
  | case1 visited current hvisited =>
    rw [walkAncestors, dif_pos ((hmem visited current).mpr hvisited)]
    simp
  | case2 visited current hvisited hthread =>
    have hnone : inner.threads.get? (self.scopedId current) = none := by
      rw [hholds.threads, hthread]
      rfl
    rw [walkAncestors, dif_neg (mt (hmem visited current).mp hvisited)]
    split
    · simp
    · rename_i stored hstored
      rw [hnone] at hstored
      cases hstored
  | case3 visited current hvisited thread hthread hroot =>
    have hparent : thread.parentThreadId = none := by
      rw [← hown current thread hthread, hroot]
    have hget : inner.threads.get? (self.scopedId current) = some (self.encodeThread thread) := by
      rw [hholds.threads, hthread]
      rfl
    rw [walkAncestors, dif_neg (mt (hmem visited current).mp hvisited)]
    split
    · rename_i hnone
      rw [hget] at hnone
      cases hnone
    · rename_i stored hstored
      rw [hget] at hstored
      cases hstored
      have hnormal : normalizeLineageId (self.encodeThread thread).parentThreadId = none := by
        show normalizeLineageId (thread.parentThreadId.map self.scopedId) = none
        rw [hparent]
        rfl
      rw [hnormal]
  | case4 visited current hvisited thread hthread next hnext _ ih =>
    have hparent : thread.parentThreadId = some next := by
      rw [← hown current thread hthread, hnext]
    have hget : inner.threads.get? (self.scopedId current) = some (self.encodeThread thread) := by
      rw [hholds.threads, hthread]
      rfl
    rw [walkAncestors, dif_neg (mt (hmem visited current).mp hvisited)]
    split
    · rename_i hnone
      rw [hget] at hnone
      cases hnone
    · rename_i stored hstored
      rw [hget] at hstored
      cases hstored
      have hnormal : normalizeLineageId (self.encodeThread thread).parentThreadId =
          some (self.scopedId next) := by
        show normalizeLineageId (thread.parentThreadId.map self.scopedId) = _
        rw [hparent, Option.map_some, normalizeLineageId_scopedId,
          trimEnd_of_normalized (by rw [← hparent, hown current thread hthread])]
      split
      · rename_i hnone
        rw [hnormal] at hnone
        cases hnone
      · rename_i parent hparent
        rw [hnormal] at hparent
        cases hparent
        exact ih

/-- The check through the keys of the scope sees the parent with its end trimmed only. -/
theorem validateThreadHierarchyMap_scoped (hholds : self.Holds inner own)
    (hown : Normalized own.threads) (threadId : String) (parentThreadId : Option String) :
    validateThreadHierarchyMap inner.threads (self.scopedId threadId)
        (parentThreadId.map self.scopedId) = .ok () ↔
      checkHierarchy own.threads threadId (parentThreadId.map Str.trimEnd) = .ok () := by
  rw [validateThreadHierarchyMap_eq]
  cases parentThreadId with
  | none => exact Iff.rfl
  | some parent =>
    rw [Option.map_some, Option.map_some, normalizeLineageId_scopedId]
    show checkHierarchy inner.threads (self.scopedId threadId)
      (some (self.scopedId (Str.trimEnd parent))) = .ok () ↔ _
    unfold checkHierarchy
    simp only [self.scopedId_inj]
    split
    · simp
    · exact walkAncestors_scoped hholds hown _ [threadId] _

end ScopedThreadRunStore

/-! ## Saving and loading back -/

namespace SaveOp

/-- The run a call saves. -/
def run : SaveOp → Option RunRecord
  | saveThread _ => none
  | createRun record => some record
  | checkpoint _ _ run _ => some run
  | checkpointAppend _ _ _ run _ => some run

/-- The id of the thread a call saves. -/
def threadId : SaveOp → Option String
  | saveThread thread => some thread.id
  | createRun _ => none
  | checkpoint threadId _ _ _ => some threadId
  | checkpointAppend threadId _ _ _ _ => some threadId

end SaveOp

namespace ScopedThreadRunStore

/-- The call through the wrapper succeeds. It reads the saved run back as it was, and the
    saved thread as a store of its own would return it: with its lineage ids trimmed, and
    with the run projected onto it by a checkpoint. -/
structure Transparent (store : ScopedThreadRunStore) (inner own : InMemoryStore) (op : SaveOp) :
    Prop where
  saves : (store.callSave op inner).1 = .ok ()
  run : ∀ run, op.run = some run →
    store.loadRun run.runId (store.callSave op inner).2 = some run
  thread : ∀ id, op.threadId = some id →
    store.loadThread id (store.callSave op inner).2 =
      (InMemoryStore.callSave op own).2.threads.get? id

/-- A run that is older than the projection of its thread, and does not clear other
    pointers under its key than under its id when it is done. -/
def LeavesPointers (store : ScopedThreadRunStore) (own : InMemoryStore) (threadId : String)
    (run : RunRecord) : Prop :=
  ∃ thread latest, own.threads.get? threadId = some thread ∧
    thread.latestRunUpdatedAt = some latest ∧ run.updatedAt < latest ∧
      (run.status = .done → ∀ pointer ∈ [thread.activeRunId, thread.openRunId],
        pointer ≠ some run.runId ∧ pointer ≠ some (store.scopedId run.runId))

/-- The checks and the projection of a checkpoint do not look at what the rewriting
    changes. -/
def CheckpointsCleanly (store : ScopedThreadRunStore) (own : InMemoryStore) (threadId : String)
    (run : RunRecord) : Prop :=
  run.activation = none ∧
    checkHierarchy own.threads threadId
        ((checkpointParentThreadId (own.threads.get? threadId) run).map Str.trimEnd) = .ok () ∧
      LeavesPointers store own threadId run

/-- The inner store does not look at what the rewriting changes. -/
def Clean (store : ScopedThreadRunStore) (own : InMemoryStore) : SaveOp → Prop
  | .saveThread thread =>
    ∀ parent, thread.parentThreadId = some parent → Str.startsVisible parent = true
  | .createRun record => record.activation = none
  | .checkpoint threadId _ run _ => CheckpointsCleanly store own threadId run
  | .checkpointAppend threadId _ _ run _ => CheckpointsCleanly store own threadId run

variable {self : ScopedThreadRunStore} {inner own : InMemoryStore}

/-- The inner store trims the parent of an encoded thread at its end only. -/
theorem normalizeLineage_encodeThread (thread : Thread) :
    (self.encodeThread thread).normalizeLineage =
      { thread with
        id := self.scopedId thread.id
        resourceId := normalizeLineageId thread.resourceId
        parentThreadId := thread.parentThreadId.map fun id => self.scopedId (Str.trimEnd id) } := by
  unfold Thread.normalizeLineage encodeThread
  cases thread.parentThreadId with
  | none => rfl
  | some parent =>
    dsimp only [Option.map_some]
    rw [normalizeLineageId_scopedId]

/-- What the wrapper reads of a thread that it saved. -/
theorem decodeThread_normalizeLineage (thread : Thread) :
    self.decodeThread (self.encodeThread thread).normalizeLineage =
      some { thread with
        resourceId := normalizeLineageId thread.resourceId
        parentThreadId := thread.parentThreadId.map Str.trimEnd } := by
  rw [normalizeLineage_encodeThread]
  have hparent : self.unscopedParent
      (thread.parentThreadId.map fun id => self.scopedId (Str.trimEnd id)) =
        some (thread.parentThreadId.map Str.trimEnd) := by
    rw [← unscopedParent_map, Option.map_map]
    rfl
  unfold decodeThread
  dsimp only
  rw [hparent, unscopedId_scopedId]
  rfl

/-! ### Threads -/

/-- A thread that the inner store accepts is accepted under its key. -/
theorem validateForPersist_encodeThread (self : ScopedThreadRunStore) {thread : Thread}
    (hvalid : thread.normalizeLineage.validateForPersist = .ok ()) :
    (self.encodeThread thread).normalizeLineage.validateForPersist = .ok () := by
  rw [normalizeLineage_encodeThread]
  simp only [Thread.validateForPersist, Thread.normalizeLineage, bind_ok, throw_unless_ok,
    requireNonEmpty_ok] at hvalid ⊢
  obtain ⟨hid, hresource, -, hactive, hopen, hlatest, hself⟩ := hvalid
  refine ⟨self.isBlank_scopedId _, hresource, ?_, hactive, hopen, hlatest, ?_⟩
  · cases thread.parentThreadId with
    | none => rfl
    | some parent => exact requireNonEmpty_ok.mpr (self.isBlank_scopedId _)
  · cases hparent : thread.parentThreadId with
    | none => simp
    | some parent =>
      rw [Option.map_some, normalizeLineageId_scopedId, scopedId, scopedId, Str.trim_scopedKey]
      intro hkeys
      apply throw_unless_ok.mp hself
      -- the keys agree up to white space at their ends, so the ids trim to the same text
      have hends : Str.trimEnd (Str.trimEnd parent) = Str.trimEnd thread.id :=
        self.scopedId_inj.mp (Option.some.inj hkeys)
      have htrim : Str.trim parent = Str.trim thread.id := by
        rw [← Str.trim_trimEnd parent, ← Str.trim_trimEnd (Str.trimEnd parent), hends,
          Str.trim_trimEnd]
      rw [normalizeLineageId_idem, hparent, normalizeLineageId, Option.map_some, htrim]
      have hne : (Str.trim thread.id).isEmpty = false := hid
      simp [Option.filter, hne]

theorem saveThread_transparent_iff {thread : Thread}
    (haccepts : (InMemoryStore.callSave (.saveThread thread) own).1 = .ok ()) :
    self.Transparent inner own (.saveThread thread) ↔ self.Clean own (.saveThread thread) := by
  have hvalid : thread.normalizeLineage.validateForPersist = .ok () := by
    simp only [InMemoryStore.callSave, InMemoryStore.saveThread] at haccepts
    cases hcheck : thread.normalizeLineage.validateForPersist with
    | ok v => rfl
    | error e =>
      rw [hcheck] at haccepts
      cases haccepts
  have hencoded := validateForPersist_encodeThread self hvalid
  have hown : (InMemoryStore.callSave (.saveThread thread) own).2.threads.get? thread.id =
      some thread.normalizeLineage := by
    simp only [InMemoryStore.callSave, InMemoryStore.saveThread, hvalid]
    exact AssocMap.get?_insert_self ..
  have hinner : self.callSave (.saveThread thread) inner = (.ok (), { inner with
      threads := inner.threads.insert (self.scopedId thread.id)
        (self.encodeThread thread).normalizeLineage }) := by
    simp only [callSave, encodeSave, InMemoryStore.callSave, InMemoryStore.saveThread, hencoded]
    rfl
  have hload : self.loadThread thread.id (self.callSave (.saveThread thread) inner).2 =
      some { thread with
        resourceId := normalizeLineageId thread.resourceId
        parentThreadId := thread.parentThreadId.map Str.trimEnd } := by
    rw [hinner, loadThread, AssocMap.get?_insert_self]
    exact decodeThread_normalizeLineage thread
  -- the only field that can differ is the parent
  have hsame : (some { thread with
      resourceId := normalizeLineageId thread.resourceId
      parentThreadId := thread.parentThreadId.map Str.trimEnd } : Option Thread) =
        some thread.normalizeLineage ↔
      ∀ parent, thread.parentThreadId = some parent → Str.startsVisible parent = true := by
    have hfields : (some { thread with
        resourceId := normalizeLineageId thread.resourceId
        parentThreadId := thread.parentThreadId.map Str.trimEnd } : Option Thread) =
          some thread.normalizeLineage ↔
        thread.parentThreadId.map Str.trimEnd = normalizeLineageId thread.parentThreadId := by
      simp [Thread.normalizeLineage]
    rw [hfields]
    cases thread.parentThreadId with
    | none => simp
    | some parent =>
      rw [Option.map_some, eq_comm, normalizeLineageId_eq_trimEnd_iff]
      simp
  constructor
  · intro h
    have hread := h.thread thread.id rfl
    rw [hload, hown] at hread
    exact hsame.mp hread
  · intro hclean
    constructor
    case saves => rw [hinner]
    case run =>
      intro run hrun
      cases hrun
    case thread =>
      intro id hid
      cases hid
      rw [hload, hown]
      exact hsame.mpr hclean

/-! ### Runs -/

theorem createRun_transparent_iff (hholds : self.Holds inner own) {record : RunRecord}
    (haccepts : (InMemoryStore.callSave (.createRun record) own).1 = .ok ()) :
    self.Transparent inner own (.createRun record) ↔ self.Clean own (.createRun record) := by
  have hchecks : record.validateForPersist = .ok () ∧ own.runs.get? record.runId = none := by
    simp only [InMemoryStore.callSave, InMemoryStore.createRun] at haccepts
    cases hcheck : record.validateForPersist with
    | error e =>
      rw [hcheck] at haccepts
      cases haccepts
    | ok v =>
      rw [hcheck] at haccepts
      cases hrun : own.runs.get? record.runId with
      | none => exact ⟨rfl, rfl⟩
      | some stored =>
        rw [hrun] at haccepts
        cases haccepts
  have hfree : inner.runs.get? (self.encodeRun record).runId = none := by
    show inner.runs.get? (self.scopedId record.runId) = none
    rw [Holds.runs hholds, hchecks.2]
    rfl
  have hencoded := self.validateForPersist_encodeRun_iff hchecks.1
  show self.Transparent inner own (.createRun record) ↔ record.activation = none
  rw [← hencoded]
  constructor
  · intro h
    have hsaves := h.saves
    simp only [callSave, encodeSave, InMemoryStore.callSave, InMemoryStore.createRun] at hsaves
    cases hcheck : (self.encodeRun record).validateForPersist with
    | ok v => rfl
    | error e =>
      rw [hcheck] at hsaves
      cases hsaves
  · intro hcheck
    have hinner : self.callSave (.createRun record) inner = (.ok (), { inner with
        runs := inner.runs.insert (self.scopedId record.runId) (self.encodeRun record)
        runInsertion := inner.runInsertion.insert (self.scopedId record.runId) inner.runSeq
        runSeq := inner.runSeq + 1 }) := by
      simp only [callSave, encodeSave, InMemoryStore.callSave, InMemoryStore.createRun, hcheck,
        hfree]
      rfl
    constructor
    case saves => rw [hinner]
    case run =>
      intro run hrun
      cases hrun
      rw [hinner, loadRun, AssocMap.get?_insert_self]
      exact self.decodeRun_encodeRun record
    case thread =>
      intro id hid
      cases hid

/-! ### Checkpoints -/

theorem checkpointParentThreadId_encode (existing : Option Thread) (run : RunRecord) :
    checkpointParentThreadId (existing.map self.encodeThread) (self.encodeRun run) =
      (checkpointParentThreadId existing run).map self.scopedId := by
  have hrequest : (self.encodeRun run).request.bind RunRequestSnapshot.parentThreadId =
      (run.request.bind RunRequestSnapshot.parentThreadId).map self.scopedId := by
    show (run.request.map _).bind RunRequestSnapshot.parentThreadId = _
    cases run.request <;> rfl
  unfold checkpointParentThreadId
  rw [hrequest]
  cases existing with
  | none => rfl
  | some thread =>
    show (thread.parentThreadId.map self.scopedId).or _ = (thread.parentThreadId.or _).map _
    cases thread.parentThreadId <;> rfl

/-- The hierarchy check of a checkpoint through the wrapper. -/
theorem checkRun_encode (hholds : self.Holds inner own) (hown : Normalized own.threads)
    (threadId : String) (run : RunRecord) :
    inner.checkRun (self.scopedId threadId) (self.encodeRun run) = .ok () ↔
      checkHierarchy own.threads threadId
        ((checkpointParentThreadId (own.threads.get? threadId) run).map Str.trimEnd) = .ok () := by
  unfold InMemoryStore.checkRun
  rw [Holds.threads hholds, checkpointParentThreadId_encode]
  exact validateThreadHierarchyMap_scoped hholds hown threadId _

theorem loadRun_recordRun (s : InMemoryStore) (threadId : String) (run : RunRecord)
    (now : UInt64) :
    self.loadRun run.runId (s.recordRun threadId (self.encodeRun run) now) = some run := by
  have hget : (s.recordRun threadId (self.encodeRun run) now).runs.get?
      (self.scopedId run.runId) = some (self.encodeRun run) := AssocMap.get?_insert_self ..
  rw [loadRun, hget]
  exact self.decodeRun_encodeRun run

/-- A run that is not older than the projection becomes the latest run. -/
theorem latestRunId_applyRunProjection {thread : Thread} {run : RunRecord}
    (h : (thread.latestRunUpdatedAt.all fun latest => decide (latest ≤ run.updatedAt)) = true) :
    (thread.applyRunProjection run).latestRunId = some run.runId := by
  unfold Thread.applyRunProjection
  rw [if_pos h]
  cases run.status <;> rfl

/-- An older run at most clears pointers. -/
theorem applyRunProjection_of_older (thread : Thread) (run : RunRecord)
    (h : (thread.latestRunUpdatedAt.all fun latest => decide (latest ≤ run.updatedAt)) = false) :
    thread.applyRunProjection run =
      if run.status = .done then thread.clearRunProjectionIfMatches run.runId else thread := by
  unfold Thread.applyRunProjection
  rw [if_neg (by simp [h])]

theorem decodeThread_latestRunId {thread decoded : Thread}
    (h : self.decodeThread thread = some decoded) : decoded.latestRunId = thread.latestRunId := by
  unfold decodeThread at h
  cases hid : self.unscopedId thread.id with
  | none =>
    rw [hid] at h
    cases h
  | some id =>
    cases hparent : self.unscopedParent thread.parentThreadId with
    | none =>
      rw [hid, hparent] at h
      cases h
    | some parent =>
      rw [hid, hparent] at h
      cases h
      rfl

/-- Clearing under another id changes the thread exactly when a pointer has one of the
    ids. -/
theorem clearRunProjectionIfMatches_eq_iff {thread : Thread} {runId key : String}
    (hne : key ≠ runId) :
    thread.clearRunProjectionIfMatches key = thread.clearRunProjectionIfMatches runId ↔
      ∀ pointer ∈ [thread.activeRunId, thread.openRunId],
        pointer ≠ some runId ∧ pointer ≠ some key := by
  have hpointer : ∀ pointer : Option String,
      ((if pointer = some key then none else pointer) =
        (if pointer = some runId then none else pointer)) ↔
      pointer ≠ some runId ∧ pointer ≠ some key := by
    intro pointer
    by_cases hkey : pointer = some key
    · have hrun : pointer ≠ some runId := fun h => hne (Option.some.inj (hkey.symm.trans h))
      rw [if_pos hkey, if_neg hrun]
      simp [hkey]
    · rw [if_neg hkey]
      by_cases hrun : pointer = some runId
      · rw [if_pos hrun]
        simp [hrun]
      · rw [if_neg hrun]
        simp [hkey, hrun]
  unfold Thread.clearRunProjectionIfMatches
  simp only [Thread.mk.injEq, true_and, and_true, hpointer, List.forall_mem_cons,
    List.not_mem_nil, false_imp_iff, implies_true]

/-- A thread with a normalized parent comes back as the inner store normalizes it. -/
theorem decodeThread_of_normalized (thread : Thread)
    (h : normalizeLineageId thread.parentThreadId = thread.parentThreadId) :
    self.decodeThread (self.encodeThread thread).normalizeLineage =
      some thread.normalizeLineage := by
  have hparent : thread.parentThreadId.map Str.trimEnd = thread.parentThreadId := by
    cases hp : thread.parentThreadId with
    | none => rfl
    | some parent => rw [Option.map_some, trimEnd_of_normalized (by rw [← hp, h])]
  rw [decodeThread_normalizeLineage, hparent, Thread.normalizeLineage, h]

/-- A thread whose latest run the run becomes does not come back: it points at the key. -/
theorem decodeThread_ne_of_current {thread : Thread} {run : RunRecord}
    (h : (thread.latestRunUpdatedAt.all fun latest => decide (latest ≤ run.updatedAt)) = true)
    (now : UInt64) :
    self.decodeThread (((self.encodeThread thread).touch now).applyRunProjection
        (self.encodeRun run)).normalizeLineage ≠
      some ((thread.touch now).applyRunProjection run).normalizeLineage := by
  have hlatest : (((thread.touch now).applyRunProjection run).normalizeLineage).latestRunId =
      some run.runId := latestRunId_applyRunProjection h
  have hkey : ((((self.encodeThread thread).touch now).applyRunProjection
      (self.encodeRun run)).normalizeLineage).latestRunId = some (self.scopedId run.runId) :=
    latestRunId_applyRunProjection h
  intro heq
  have hread := hlatest.symm.trans ((decodeThread_latestRunId heq).trans hkey)
  exact self.scopedId_ne run.runId (Option.some.inj hread).symm

/-- After a checkpoint the wrapper reads the thread as a store of its own would return it
    exactly when the run left the pointers alone. -/
theorem loadThread_recordRun_iff (hholds : self.Holds inner own)
    (hown : Normalized own.threads) {s s' : InMemoryStore} (hs : s.threads = inner.threads)
    (hs' : s'.threads = own.threads) (threadId : String) (run : RunRecord) (now : UInt64) :
    self.loadThread threadId
        (s.recordRun (self.scopedId threadId) (self.encodeRun run) now) =
      (s'.recordRun threadId run now).threads.get? threadId ↔
      LeavesPointers self own threadId run := by
  have hload : self.loadThread threadId
      (s.recordRun (self.scopedId threadId) (self.encodeRun run) now) =
      self.decodeThread (((self.encodeThread ((own.threads.get? threadId).getD
        (Thread.withId threadId))).touch now).applyRunProjection
          (self.encodeRun run)).normalizeLineage := by
    rw [loadThread]
    show (AssocMap.get? (AssocMap.insert _ _ _) _).bind _ = _
    rw [AssocMap.get?_insert_self, hs, Holds.threads hholds]
    cases own.threads.get? threadId <;> rfl
  have hget : (s'.recordRun threadId run now).threads.get? threadId =
      some ((((own.threads.get? threadId).getD (Thread.withId threadId)).touch
        now).applyRunProjection run).normalizeLineage := by
    show AssocMap.get? (AssocMap.insert _ _ _) _ = _
    rw [AssocMap.get?_insert_self, hs']
  rw [hload, hget]
  cases hthread : own.threads.get? threadId with
  | none =>
    rw [Option.getD_none]
    constructor
    · intro heq
      exact absurd heq (decodeThread_ne_of_current rfl now)
    · rintro ⟨thread, latest, hsome, -⟩
      rw [hthread] at hsome
      cases hsome
  | some thread =>
    rw [Option.getD_some]
    cases hcurrent : thread.latestRunUpdatedAt.all fun latest => decide (latest ≤ run.updatedAt) with
    | true =>
      constructor
      · intro heq
        exact absurd heq (decodeThread_ne_of_current hcurrent now)
      · rintro ⟨stored, latest, hsome, hupdated, holder, -⟩
        rw [hthread] at hsome
        cases hsome
        rw [hupdated, Option.all_some, decide_eq_true_eq] at hcurrent
        exact absurd holder (UInt64.not_lt.mpr hcurrent)
    | false =>
      have hnormal := hown threadId thread hthread
      obtain ⟨latest, hupdated, holder⟩ : ∃ latest, thread.latestRunUpdatedAt = some latest ∧
          run.updatedAt < latest := by
        cases hupdated : thread.latestRunUpdatedAt with
        | none =>
          rw [hupdated] at hcurrent
          cases hcurrent
        | some latest =>
          rw [hupdated, Option.all_some, decide_eq_false_iff_not] at hcurrent
          exact ⟨latest, rfl, UInt64.not_le.mp hcurrent⟩
      have hleaves : LeavesPointers self own threadId run ↔
          (run.status = .done → ∀ pointer ∈ [thread.activeRunId, thread.openRunId],
            pointer ≠ some run.runId ∧ pointer ≠ some (self.scopedId run.runId)) := by
        constructor
        · rintro ⟨stored, latest', hsome, -, -, hpointers⟩
          rw [hthread] at hsome
          cases hsome
          exact hpointers
        · exact fun hpointers => ⟨thread, latest, hthread, hupdated, holder, hpointers⟩
      rw [hleaves, applyRunProjection_of_older (thread.touch now) run hcurrent,
        applyRunProjection_of_older ((self.encodeThread thread).touch now) (self.encodeRun run)
          hcurrent]
      by_cases hdone : run.status = .done
      · have hdone' : (self.encodeRun run).status = .done := hdone
        rw [if_pos hdone, if_pos hdone']
        have hdecode : self.decodeThread
            (((self.encodeThread thread).touch now).clearRunProjectionIfMatches
              (self.encodeRun run).runId).normalizeLineage =
            some ((thread.touch now).clearRunProjectionIfMatches
              (self.scopedId run.runId)).normalizeLineage :=
          decodeThread_of_normalized
            ((thread.touch now).clearRunProjectionIfMatches (self.scopedId run.runId)) hnormal
        have hpointers : ((thread.touch now).clearRunProjectionIfMatches
              (self.scopedId run.runId)).normalizeLineage =
            ((thread.touch now).clearRunProjectionIfMatches run.runId).normalizeLineage ↔
            thread.clearRunProjectionIfMatches (self.scopedId run.runId) =
              thread.clearRunProjectionIfMatches run.runId := by
          simp [Thread.normalizeLineage, Thread.clearRunProjectionIfMatches, Thread.touch]
        rw [hdecode, Option.some.injEq, hpointers,
          clearRunProjectionIfMatches_eq_iff (self.scopedId_ne run.runId)]
        exact ⟨fun h _ => h, fun h => h hdone⟩
      · have hdone' : (self.encodeRun run).status ≠ .done := hdone
        rw [if_neg hdone, if_neg hdone']
        have hdecode : self.decodeThread ((self.encodeThread thread).touch now).normalizeLineage =
            some (thread.touch now).normalizeLineage :=
          decodeThread_of_normalized (thread.touch now) hnormal
        rw [hdecode]
        exact iff_of_true rfl fun h => absurd h hdone

/-- What both checkpoints share: the checks of the run and of the hierarchy decide whether
    the wrapped call succeeds, and the projection whether the thread comes back. -/
theorem checkpoints_transparent_iff (hholds : self.Holds inner own)
    (hown : Normalized own.threads) {op : SaveOp} {threadId : String} {run : RunRecord}
    (now : UInt64) (hrun : op.run = some run) (hthread : op.threadId = some threadId)
    (hvalid : run.validateForPersist = .ok ())
    (hfails : (self.callSave op inner).1 = .ok () →
      (self.encodeRun run).validateForPersist = .ok () ∧
        inner.checkRun (self.scopedId threadId) (self.encodeRun run) = .ok ())
    (hsaves : (self.encodeRun run).validateForPersist = .ok () →
      inner.checkRun (self.scopedId threadId) (self.encodeRun run) = .ok () →
      ∃ s : InMemoryStore, s.threads = inner.threads ∧ self.callSave op inner =
        (.ok (), s.recordRun (self.scopedId threadId) (self.encodeRun run) now))
    (hafter : ∃ s : InMemoryStore, s.threads = own.threads ∧
      (InMemoryStore.callSave op own).2 = s.recordRun threadId run now) :
    self.Transparent inner own op ↔ self.CheckpointsCleanly own threadId run := by
  rw [validateForPersist_encodeRun_iff self hvalid, checkRun_encode hholds hown] at hfails
  rw [validateForPersist_encodeRun_iff self hvalid, checkRun_encode hholds hown] at hsaves
  obtain ⟨s', hs', hafter⟩ := hafter
  constructor
  · intro h
    obtain ⟨hactivation, hhierarchy⟩ := hfails h.saves
    obtain ⟨s, hs, hcall⟩ := hsaves hactivation hhierarchy
    refine ⟨hactivation, hhierarchy, ?_⟩
    have hread := h.thread threadId hthread
    rw [hcall, hafter] at hread
    exact (loadThread_recordRun_iff hholds hown hs hs' threadId run now).mp hread
  · rintro ⟨hactivation, hhierarchy, hleaves⟩
    obtain ⟨s, hs, hcall⟩ := hsaves hactivation hhierarchy
    constructor
    case saves => rw [hcall]
    case run =>
      intro saved hsaved
      obtain rfl := Option.some.inj (hrun.symm.trans hsaved)
      rw [hcall]
      exact loadRun_recordRun s _ run now
    case thread =>
      intro id hid
      obtain rfl := Option.some.inj (hthread.symm.trans hid)
      rw [hcall, hafter]
      exact (loadThread_recordRun_iff hholds hown hs hs' threadId run now).mpr hleaves

theorem checkpoint_transparent_iff (hholds : self.Holds inner own)
    (hown : Normalized own.threads) {threadId : String} {messages : List Message}
    {run : RunRecord} {now : UInt64}
    (haccepts : (InMemoryStore.callSave (.checkpoint threadId messages run now) own).1 = .ok ()) :
    self.Transparent inner own (.checkpoint threadId messages run now) ↔
      self.Clean own (.checkpoint threadId messages run now) := by
  have hown' : InMemoryStore.callSave (.checkpoint threadId messages run now) own =
      (.ok (), (own.setCommitted threadId messages).recordRun threadId run now) ∧
      run.validateForPersist = .ok () ∧ validateCommittedMessages messages = .ok () := by
    simp only [InMemoryStore.callSave, InMemoryStore.checkpoint] at haccepts ⊢
    split at haccepts
    · cases haccepts
    · rename_i hchecked
      obtain ⟨hvalid, hrest⟩ := bind_ok.mp hchecked
      exact ⟨rfl, hvalid, (bind_ok.mp hrest).1⟩
  obtain ⟨hcall, hvalid, hmessages⟩ := hown'
  apply checkpoints_transparent_iff hholds hown now rfl rfl hvalid
  case hfails =>
    intro hok
    simp only [callSave, encodeSave, InMemoryStore.callSave, InMemoryStore.checkpoint] at hok
    split at hok
    · cases hok
    · rename_i hchecked
      obtain ⟨hencoded, hrest⟩ := bind_ok.mp hchecked
      exact ⟨hencoded, (bind_ok.mp hrest).2⟩
  case hsaves =>
    intro hencoded hhierarchy
    refine ⟨inner.setCommitted (self.scopedId threadId) messages, rfl, ?_⟩
    have hchecked : ((do
        (self.encodeRun run).validateForPersist
        validateCommittedMessages messages
        inner.checkRun (self.scopedId threadId) (self.encodeRun run)) :
          Except StorageError Unit) = .ok () :=
      bind_ok.mpr ⟨hencoded, bind_ok.mpr ⟨hmessages, hhierarchy⟩⟩
    simp only [callSave, encodeSave, InMemoryStore.callSave, InMemoryStore.checkpoint, hchecked]
  case hafter => exact ⟨own.setCommitted threadId messages, rfl, by rw [hcall]⟩

theorem checkpointAppend_transparent_iff (hholds : self.Holds inner own)
    (hown : Normalized own.threads) {threadId : String} {messages : List Message}
    {expectedVersion : Option UInt64} {run : RunRecord} {now : UInt64}
    (haccepts : (InMemoryStore.callSave
      (.checkpointAppend threadId messages expectedVersion run now) own).1 = .ok ()) :
    self.Transparent inner own (.checkpointAppend threadId messages expectedVersion run now) ↔
      self.Clean own (.checkpointAppend threadId messages expectedVersion run now) := by
  have hcommitted : inner.committed (self.scopedId threadId) = own.committed threadId := by
    unfold InMemoryStore.committed
    rw [Holds.messages hholds]
  have hown' : ∃ committed, mergeCheckpointAppendMessages (own.committed threadId) messages =
        .ok committed ∧
      InMemoryStore.callSave (.checkpointAppend threadId messages expectedVersion run now) own =
        (.ok (), ((own.messagesEntry threadId).setCommitted threadId committed).recordRun threadId
          run now) ∧
      run.validateForPersist = .ok () ∧ InMemoryStore.checkMessageVersion expectedVersion
        (own.committed threadId).length = .ok () := by
    simp only [InMemoryStore.callSave, InMemoryStore.checkpointAppend, Method.map,
      InMemoryStore.committed_messagesEntry] at haccepts ⊢
    split at haccepts
    · cases haccepts
    · rename_i hchecked
      obtain ⟨hvalid, hrest⟩ := bind_ok.mp hchecked
      cases hmerged : mergeCheckpointAppendMessages (own.committed threadId) messages with
      | error e =>
        rw [hmerged] at haccepts
        cases haccepts
      | ok committed => exact ⟨committed, rfl, rfl, hvalid, (bind_ok.mp hrest).2⟩
  obtain ⟨committed, hmerged, hcall, hvalid, hversion⟩ := hown'
  apply checkpoints_transparent_iff hholds hown now rfl rfl hvalid
  case hfails =>
    intro hok
    simp only [callSave, encodeSave, InMemoryStore.callSave, InMemoryStore.checkpointAppend,
      Method.map] at hok
    split at hok
    · cases hok
    · rename_i hchecked
      obtain ⟨hencoded, hrest⟩ := bind_ok.mp hchecked
      exact ⟨hencoded, (bind_ok.mp hrest).1⟩
  case hsaves =>
    intro hencoded hhierarchy
    refine ⟨(inner.messagesEntry (self.scopedId threadId)).setCommitted (self.scopedId threadId)
      committed, rfl, ?_⟩
    have hchecked : ((do
        (self.encodeRun run).validateForPersist
        inner.checkRun (self.scopedId threadId) (self.encodeRun run)
        InMemoryStore.checkMessageVersion expectedVersion (own.committed threadId).length) :
          Except StorageError Unit) = .ok () :=
      bind_ok.mpr ⟨hencoded, bind_ok.mpr ⟨hhierarchy, hversion⟩⟩
    simp only [callSave, encodeSave, InMemoryStore.callSave, InMemoryStore.checkpointAppend,
      Method.map, InMemoryStore.committed_messagesEntry, hcommitted, hchecked, hmerged]
    rfl
  case hafter =>
    exact ⟨(own.messagesEntry threadId).setCommitted threadId committed, rfl, by rw [hcall]⟩

/-! ## Stores of any history -/

theorem Normalized.insert {threads : AssocMap String Thread} (h : Normalized threads)
    (id : String) {thread : Thread}
    (hthread : normalizeLineageId thread.parentThreadId = thread.parentThreadId) :
    Normalized (threads.insert id thread) := by
  intro id' stored hstored
  rw [AssocMap.get?_insert] at hstored
  split at hstored
  · cases hstored
    exact hthread
  · exact h id' stored hstored

/-- Removing threads leaves the others. -/
theorem Normalized.of_get? {threads threads' : AssocMap String Thread} (h : Normalized threads)
    (hget : ∀ id thread, threads'.get? id = some thread → threads.get? id = some thread) :
    Normalized threads' := by
  intro id thread hthread
  exact h id thread (hget id thread hthread)

theorem Normalized.removeThread {s : InMemoryStore} (h : Normalized s.threads)
    (threadId : String) : Normalized (s.removeThread threadId).threads := by
  apply h.of_get?
  intro id thread hthread
  rw [removeThread_threads] at hthread
  split at hthread
  · cases hthread
  · exact hthread

theorem Normalized.deleteThreadWithStrategy {s : InMemoryStore} (h : Normalized s.threads)
    (threadId : String) (strategy : ChildThreadDeleteStrategy) (now : UInt64) :
    Normalized (InMemoryStore.deleteThreadWithStrategy threadId strategy now s).2.threads := by
  unfold InMemoryStore.deleteThreadWithStrategy
  split
  · exact h
  · cases strategy with
    | reject =>
      dsimp only
      split
      · exact h
      · exact h.removeThread threadId
    | detach =>
      apply Normalized.removeThread
      intro id thread hthread
      obtain ⟨stored, hstored, hleft⟩ := foldl_detach_get? hthread
      cases hleft with
      | inl hnone =>
        rw [hnone]
        rfl
      | inr heq =>
        rw [heq.1]
        exact h id stored hstored
    | cascade =>
      dsimp only
      split
      · exact h
      · apply h.of_get?
        intro id thread hthread
        rw [foldl_removeThread_threads] at hthread
        split at hthread
        · cases hthread
        · exact hthread

theorem Normalized.of_keepsOrProjects {threads threads' : AssocMap String Thread}
    (h : Normalized threads) (hkeeps : InMemoryStore.KeepsOrProjects threads threads') :
    Normalized threads' := by
  cases hkeeps with
  | inl hkept => exact hkept ▸ h
  | inr hprojected =>
    obtain ⟨threadId, run, now, -, rfl⟩ := hprojected
    exact h.insert threadId (normalizeLineageId_idem _)

theorem callStore_normalized {s : InMemoryStore} (h : Normalized s.threads) (op : StoreOp) :
    Normalized (InMemoryStore.callStore op s).2.threads := by
  cases op with
  | saveThreadValidated thread =>
    rw [InMemoryStore.callStore, Method.map_snd]
    unfold InMemoryStore.saveThreadValidated
    dsimp only
    split
    · exact h
    · exact h.insert _ (normalizeLineageId_idem _)
  | deleteThreadWithStrategy threadId strategy now =>
    rw [InMemoryStore.callStore, Method.map_snd]
    exact h.deleteThreadWithStrategy threadId strategy now
  | saveMessages threadId messages =>
    rw [InMemoryStore.callStore, Method.map_snd]
    unfold InMemoryStore.saveMessages
    split <;> exact h
  | appendMessageRecords threadId messages generated =>
    rw [InMemoryStore.callStore, Method.map_snd]
    unfold InMemoryStore.appendMessageRecords
    dsimp only
    split <;> exact h
  | checkpoint threadId messages run now =>
    rw [InMemoryStore.callStore, Method.map_snd]
    exact h.of_keepsOrProjects (InMemoryStore.checkpoint_threads s threadId messages run now)
  | checkpointAppend threadId messages expectedVersion run now =>
    rw [InMemoryStore.callStore, Method.map_snd]
    exact h.of_keepsOrProjects
      (InMemoryStore.checkpointAppend_threads s threadId messages expectedVersion run now)
  | pending op =>
    rw [InMemoryStore.callStore, Method.map_snd]
    exact h.of_keepsOrProjects (InMemoryStore.callPending_threads s op)

theorem callSave_normalized {s : InMemoryStore} (h : Normalized s.threads) (op : SaveOp) :
    Normalized (InMemoryStore.callSave op s).2.threads := by
  cases op with
  | saveThread thread =>
    show Normalized (InMemoryStore.saveThread thread s).2.threads
    unfold InMemoryStore.saveThread
    dsimp only
    split
    · exact h
    · exact h.insert _ (normalizeLineageId_idem _)
  | createRun record =>
    show Normalized (InMemoryStore.createRun record s).2.threads
    unfold InMemoryStore.createRun
    split
    · exact h
    · split <;> exact h
  | checkpoint threadId messages run now =>
    exact h.of_keepsOrProjects (InMemoryStore.checkpoint_threads s threadId messages run now)
  | checkpointAppend threadId messages expectedVersion run now =>
    rw [InMemoryStore.callSave, Method.map_snd]
    exact h.of_keepsOrProjects
      (InMemoryStore.checkpointAppend_threads s threadId messages expectedVersion run now)

/-- In every state the stored parents are normalized. -/
theorem run_normalized (history : List (StoreOp ⊕ SaveOp)) :
    Normalized (InMemoryStore.threadRunMachine.run .new history).threads := by
  apply InMemoryStore.threadRunMachine.run_invariant fun s => Normalized s.threads
  · intro s op h
    cases op with
    | inl op => exact callStore_normalized h op
    | inr op => exact callSave_normalized h op
  · intro id thread hthread
    cases hthread

/-- A scope over an empty store holds an empty store. -/
theorem holds_new (self : ScopedThreadRunStore) : self.Holds .new .new where
  threads _ := rfl
  runs _ := rfl
  messages _ := rfl

/-- The scope of one tenant. -/
def tenant : ScopedThreadRunStore := ⟨⟨"tenant", by decide, by decide, by decide⟩⟩

/-- A run with the activation it was started by. -/
def activatedRun : RunRecord :=
  { RunRecord.new "r-1" "t" "agent" with
    activation := some
      { intent := ⟨none, "t", .newIntent⟩
        input := ⟨"t", none, [], [], none, none⟩
        trace := ⟨none, none, none, none, none, none⟩
        seededDecisions := []
        resolutionId := none } }

end ScopedThreadRunStore

end Remo
