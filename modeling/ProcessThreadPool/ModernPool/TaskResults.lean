import ProcessThreadPool.Lib.OwnedBlocks
import ProcessThreadPool.Lib.Transition
import ProcessThreadPool.ModernPool.Task

/-!
# The memory of the results of a task

`task_set_result` and `task_set_error` keep copies in blocks of their own, `task_get_result`
copies these into blocks for its caller, and `task_result_cleanup` frees the caller's. Seen
through its pointers the memory is the task with its result and the records of the callers,
whatever addresses `malloc` returns. A caller has to clean up a record before it is filled
again: `task_get_result` overwrites its pointers.
-/

namespace ProcessThreadPool

namespace ModernPool

namespace TaskResults

open OwnedBlocks Transition

/-- What a block contains. -/
inductive Contents where
  | data (bytes : List UInt8)
  | text (message : String)
  deriving DecidableEq

/-- The pointers of a `task_result_t`. -/
inductive Field where
  | outputData
  | errorMessage
  deriving DecidableEq

/-- The `task_result_t` in the task, and those of the callers. -/
inductive Holder (ι : Type*) where
  | task
  | caller (i : ι)
  deriving DecidableEq

/-- A task with its result, and the records of the callers. `alive` says that the task has not
been destroyed. -/
structure Results (ι α : Type*) where
  alive : Bool
  state : TaskState
  memory : Memory (Holder ι × Field) α Contents
  errorCode : Holder ι → ℤ
  outputSize : Holder ι → ℕ

/-- A call, with what `malloc` returns during it. -/
inductive Call (ι α : Type*) where
  | setState (state : TaskState)
  | setResult (output : Option (List UInt8)) (answer : Option α)
  | setError (errorCode : ℤ) (message : Option String) (answer : Option α)
  | getResult (i : ι) (dataAnswer textAnswer : Option α)
  | cleanup (i : ι)
  | destroy

section Functions

variable {ι α : Type*} [DecidableEq ι] [DecidableEq α]

/-- `output_size` after the previous output data of the task was freed. -/
def clearedSize (s : Results ι α) : Holder ι → ℕ :=
  match s.memory.pointers (.task, .outputData) with
  | .null => s.outputSize
  | _ => Function.update s.outputSize .task 0

/-- `task_set_result`. -/
def taskSetResult (s : Results ι α) (output : Option (List UInt8)) (answer : Option α) :
    Option (PoolError × Results ι α) :=
  (s.memory.release (.task, .outputData)).map fun memory =>
    let cleared := { s with
      memory := memory
      outputSize := clearedSize s }
    match output with
    | none | some [] =>
        (.success, { cleared with errorCode := Function.update s.errorCode .task 0 })
    | some data =>
        let stored := { cleared with
          memory := memory.allocate (.task, .outputData) (.data data) answer }
        if answer.isNone then (.outOfMemory, stored)
        else
          (.success, { stored with
            outputSize := Function.update stored.outputSize .task data.length
            errorCode := Function.update s.errorCode .task 0 })

/-- The copy of the error message in `task_set_error`. -/
def storeText (memory : Memory (Holder ι × Field) α Contents) (message : Option String)
    (answer : Option α) : Memory (Holder ι × Field) α Contents :=
  match message with
  | none => memory
  | some text => memory.allocate (.task, .errorMessage) (.text text) answer

/-- `task_set_error`. -/
def taskSetError (s : Results ι α) (errorCode : ℤ) (message : Option String)
    (answer : Option α) : Option (PoolError × Results ι α) :=
  (s.memory.release (.task, .errorMessage)).map fun memory =>
    (.success, { s with
      memory := storeText memory message answer
      errorCode := Function.update s.errorCode .task errorCode })

/-- The part of `task_get_result` that copies the output data, and whether it goes on. -/
def copyData (s : Results ι α) (i : ι) (answer : Option α) : Option (Bool × Results ι α) :=
  match s.memory.pointers (.task, .outputData) with
  | .indeterminate => none
  | .null => some (true, { s with
      memory := s.memory.setNull (.caller i, .outputData)
      outputSize := Function.update s.outputSize (.caller i) 0 })
  | .block a =>
      if s.outputSize .task = 0 then some (true, { s with
        memory := s.memory.setNull (.caller i, .outputData)
        outputSize := Function.update s.outputSize (.caller i) 0 })
      else
        match s.memory.blocks a with
        | some (.data bytes) =>
            -- `memcpy` reads `output_size` bytes.
            if bytes.length < s.outputSize .task then none
            else
              let copied := { s with
                memory := s.memory.allocate (.caller i, .outputData)
                  (.data (bytes.take (s.outputSize .task))) answer }
              if answer.isNone then some (false, copied)
              else some (true, { copied with
                outputSize := Function.update s.outputSize (.caller i) (s.outputSize .task) })
        | _ => none

/-- The part of `task_get_result` that copies the error message. -/
def copyText (s : Results ι α) (i : ι) (answer : Option α) : Option (Results ι α) :=
  match s.memory.pointers (.task, .errorMessage) with
  | .indeterminate => none
  | .null => some { s with memory := s.memory.setNull (.caller i, .errorMessage) }
  | .block a =>
      match s.memory.blocks a with
      | some (.text message) => some { s with
          memory := s.memory.allocate (.caller i, .errorMessage) (.text message) answer }
      | _ => none

/-- `task_is_completed`, of the state. -/
def completed (state : TaskState) : Bool := taskIsCompleted { taskCreate with state := state }

/-- `result->error_code = task->result.error_code`. -/
def copyCode (s : Results ι α) (i : ι) : Results ι α :=
  { s with errorCode := Function.update s.errorCode (.caller i) (s.errorCode .task) }

/-- `task_get_result`. -/
def taskGetResult (s : Results ι α) (i : ι) (dataAnswer textAnswer : Option α) :
    Option (PoolError × Results ι α) :=
  if completed s.state = false then some (.invalidParam, s)
  else
    (copyData (copyCode s i) i dataAnswer).bind fun copied =>
      if copied.1 then (copyText copied.2 i textAnswer).map fun t => (.success, t)
      else some (.outOfMemory, copied.2)

/-- `task_result_cleanup`. -/
def taskResultCleanup (s : Results ι α) (i : ι) : Option (Results ι α) :=
  (s.memory.release (.caller i, .outputData)).bind fun memory =>
    (memory.release (.caller i, .errorMessage)).map fun memory => { s with
      memory := memory
      outputSize := Function.update s.outputSize (.caller i) 0
      errorCode := Function.update s.errorCode (.caller i) 0 }

/-- `task_destroy` of the last reference. -/
def taskDestroy (s : Results ι α) : Option (Results ι α) :=
  (s.memory.release (.task, .outputData)).bind fun memory =>
    (memory.release (.task, .errorMessage)).map fun memory => { s with
      alive := false
      memory := memory }

/-- One call, and what it returns. A call on a task that has been destroyed is undefined. -/
def Results.call (s : Results ι α) : Call ι α → Option (Option PoolError × Results ι α)
  | .setState state => if s.alive then some (none, { s with state := state }) else none
  | .setResult output answer =>
      if s.alive then (taskSetResult s output answer).map fun r => (some r.1, r.2) else none
  | .setError errorCode message answer =>
      if s.alive then (taskSetError s errorCode message answer).map fun r => (some r.1, r.2)
      else none
  | .getResult i dataAnswer textAnswer =>
      if s.alive then (taskGetResult s i dataAnswer textAnswer).map fun r => (some r.1, r.2)
      else none
  | .cleanup i => (taskResultCleanup s i).map fun t => (none, t)
  | .destroy => if s.alive then (taskDestroy s).map fun t => (none, t) else none

/-- A task that was just created, and records that their callers have filled with zeros or
left uninitialised. -/
def start (zeroed : ι → Bool) : Results ι α where
  alive := true
  state := .pending
  memory := {
    pointers := fun
      | (.task, _) => .null
      | (.caller i, _) => if zeroed i then .null else .indeterminate
    blocks := fun _ => none }
  errorCode := fun _ => 0
  outputSize := fun _ => 0

/-- `malloc` returns blocks that are not in use. -/
def Allocates (s : Results ι α) : Call ι α → Prop
  | .setResult _ answer =>
      ∀ memory, s.memory.release (.task, .outputData) = some memory → memory.Fresh answer
  | .setError _ _ answer =>
      ∀ memory, s.memory.release (.task, .errorMessage) = some memory → memory.Fresh answer
  | .getResult _ dataAnswer textAnswer =>
      s.memory.Fresh dataAnswer ∧ s.memory.Fresh textAnswer ∧
        ∀ a, dataAnswer = some a → textAnswer ≠ some a
  | _ => True

/-- All sequences of calls on one task. -/
def results (α : Type*) [DecidableEq α] (zeroed : ι → Bool) :
    System (Results ι α) (Call ι α) where
  init := fun s => s = start zeroed
  step := fun s l t => Allocates s l ∧ ∃ answer, s.call l = some (answer, t)

end Functions

/-! ## The values -/

/-- A `task_result_t` of a caller. -/
structure Record where
  errorCode : ℤ
  errorMessage : Pointer String
  outputData : Pointer (List UInt8)
  outputSize : ℕ

/-- What the pointers see. -/
structure Values (ι : Type*) where
  alive : Bool
  task : Task
  records : ι → Record

/-- The record after it was filled with the result of a task. The flags are the outcomes of
`malloc`. -/
def Record.fill (r : Record) (result : TaskResult) (dataOk textOk : Bool) :
    PoolError × Record :=
  let errorMessage :=
    match result.errorMessage with
    | none => .null
    | some text => if textOk then .block text else .null
  match result.outputData with
  | none => (.success, ⟨result.errorCode, errorMessage, .null, 0⟩)
  | some data =>
      if dataOk then (.success, ⟨result.errorCode, errorMessage, .block data, data.length⟩)
      else (.outOfMemory, { r with errorCode := result.errorCode, outputData := .null })

/-- One call on the values. Only the use of a destroyed task and the cleanup of a record that
is not initialised are undefined. -/
def Values.call {ι α : Type*} [DecidableEq ι] (v : Values ι) :
    Call ι α → Option (Option PoolError × Values ι)
  | .setState state =>
      if v.alive then some (none, { v with task := { v.task with state := state } }) else none
  | .setResult output answer =>
      if v.alive then
        let r := ModernPool.taskSetResult v.task output answer.isSome
        some (some r.1, { v with task := r.2 })
      else none
  | .setError errorCode message answer =>
      if v.alive then
        some (some .success, { v with
          task := ModernPool.taskSetError v.task errorCode (message.getD "")
            (message.isSome && answer.isSome) })
      else none
  | .getResult i dataAnswer textAnswer =>
      if v.alive then
        if taskIsCompleted v.task then
          let r := (v.records i).fill v.task.result dataAnswer.isSome textAnswer.isSome
          some (some r.1, { v with records := Function.update v.records i r.2 })
        else some (some .invalidParam, v)
      else none
  | .cleanup i =>
      if (v.records i).outputData = .indeterminate ∨
          (v.records i).errorMessage = .indeterminate then none
      else some (none, { v with records := Function.update v.records i ⟨0, .null, .null, 0⟩ })
  | .destroy =>
      if v.alive then
        some (none, { v with
          alive := false
          task := { v.task with
            result := { v.task.result with errorMessage := none, outputData := none } } })
      else none

/-- The values in the beginning. -/
def Values.start {ι : Type*} (zeroed : ι → Bool) : Values ι where
  alive := true
  task := taskCreate
  records := fun i =>
    if zeroed i then ⟨0, .null, .null, 0⟩ else ⟨0, .indeterminate, .indeterminate, 0⟩

/-! ## What the pointers see -/

/-- The pointer through which the contents are reached. -/
def Contents.field : Contents → Field
  | .data _ => .outputData
  | .text _ => .errorMessage

/-- A pointer to a block, seen as an error message. -/
def asText : Pointer Contents → Pointer String
  | .block (.text message) => .block message
  | .null => .null
  | _ => .indeterminate

/-- A pointer to a block, seen as output data. -/
def asData : Pointer Contents → Pointer (List UInt8)
  | .block (.data bytes) => .block bytes
  | .null => .null
  | _ => .indeterminate

/-- What is behind a pointer, if anything. -/
def behind {β : Type*} : Pointer β → Option β
  | .block b => some b
  | _ => none

/-- A record whose pointers got the copies, where `p` and `q` see them. -/
theorem Record.fill_of_copied {r : Record} {result : TaskResult} {dataOk textOk : Bool}
    {p q : Pointer Contents} {size : ℕ}
    (hdata : result.outputData = none ∧ p = .null ∧ size = 0 ∨
      ∃ data, result.outputData = some data ∧ dataOk = true ∧ p = .block (.data data) ∧
        size = data.length)
    (htext : result.errorMessage = none ∧ q = .null ∨
      ∃ text, result.errorMessage = some text ∧
        q = if textOk then .block (.text text) else .null) :
    r.fill result dataOk textOk = (.success, ⟨result.errorCode, asText q, asData p, size⟩) := by
  have hmessage : (match result.errorMessage with
      | none => .null
      | some text => if textOk then .block text else .null) = asText q := by
    rcases htext with ⟨hnone, rfl⟩ | ⟨text, hsome, rfl⟩
    · rw [hnone]
      rfl
    · rw [hsome]
      cases textOk with
      | false => rfl
      | true => rfl
  rw [Record.fill, hmessage]
  rcases hdata with ⟨hnone, rfl, rfl⟩ | ⟨data, hsome, hok, rfl, rfl⟩
  · rw [hnone]
    rfl
  · simp only [hsome, hok, if_true]
    rfl

section

variable {ι α : Type*}

/-- The record of a caller. -/
def Results.record (s : Results ι α) (i : ι) : Record where
  errorCode := s.errorCode (.caller i)
  errorMessage := asText (s.memory.view (.caller i, .errorMessage))
  outputData := asData (s.memory.view (.caller i, .outputData))
  outputSize := s.outputSize (.caller i)

/-- The result in the task. -/
def Results.result (s : Results ι α) : TaskResult where
  errorCode := s.errorCode .task
  errorMessage := behind (asText (s.memory.view (.task, .errorMessage)))
  outputData := behind (asData (s.memory.view (.task, .outputData)))

/-- The task and the records, without addresses. -/
def Results.view (s : Results ι α) : Values ι where
  alive := s.alive
  task := { taskCreate with state := s.state, result := s.result }
  records := s.record

/-- The pointers own what they refer to, those of the task are initialised, and `output_size`
is the size of the output data. -/
structure Sound (s : Results ι α) : Prop where
  separate : s.memory.Separate
  initialized : ∀ f, s.memory.view (.task, f) ≠ .indeterminate
  typed : ∀ k contents, s.memory.view k = .block contents → contents.field = k.2
  size : ∀ bytes, s.memory.view (.task, .outputData) = .block (.data bytes) →
    bytes ≠ [] ∧ s.outputSize .task = bytes.length

namespace Sound

variable {s t : Results ι α}

/-- The output data in the task. -/
theorem output_cases (h : Sound s) :
    s.memory.pointers (.task, .outputData) = .null ∧ s.result.outputData = none ∨
      ∃ a bytes, s.memory.pointers (.task, .outputData) = .block a ∧
        s.memory.blocks a = some (.data bytes) ∧ s.result.outputData = some bytes ∧
        bytes ≠ [] ∧ s.outputSize .task = bytes.length := by
  have hinitialized := h.initialized .outputData
  cases hpointer : s.memory.pointers (.task, .outputData) with
  | indeterminate => exact absurd (by rw [Memory.view, hpointer]) hinitialized
  | null =>
      refine Or.inl ⟨rfl, ?_⟩
      simp only [Results.result, Memory.view, hpointer, asData, behind]
  | block a =>
      obtain ⟨contents, hcontents, hview⟩ := h.separate.view_block hpointer
      have htyped := h.typed _ _ hview
      cases contents with
      | text message => cases htyped
      | data bytes =>
          obtain ⟨hne, hsize⟩ := h.size bytes hview
          refine Or.inr ⟨a, bytes, rfl, hcontents, ?_, hne, hsize⟩
          simp only [Results.result, hview, asData, behind]

/-- The error message in the task. -/
theorem message_cases (h : Sound s) :
    s.memory.pointers (.task, .errorMessage) = .null ∧ s.result.errorMessage = none ∨
      ∃ a message, s.memory.pointers (.task, .errorMessage) = .block a ∧
        s.memory.blocks a = some (.text message) ∧ s.result.errorMessage = some message := by
  have hinitialized := h.initialized .errorMessage
  cases hpointer : s.memory.pointers (.task, .errorMessage) with
  | indeterminate => exact absurd (by rw [Memory.view, hpointer]) hinitialized
  | null =>
      refine Or.inl ⟨rfl, ?_⟩
      simp only [Results.result, Memory.view, hpointer, asText, behind]
  | block a =>
      obtain ⟨contents, hcontents, hview⟩ := h.separate.view_block hpointer
      have htyped := h.typed _ _ hview
      cases contents with
      | data bytes => cases htyped
      | text message =>
          refine Or.inr ⟨a, message, rfl, hcontents, ?_⟩
          simp only [Results.result, hview, asText, behind]

/-- The pointers of a record are initialised when its values are. -/
theorem record_indeterminate (h : Sound s) (i : ι) :
    ((s.record i).outputData = .indeterminate ↔
        s.memory.view (.caller i, .outputData) = .indeterminate) ∧
      ((s.record i).errorMessage = .indeterminate ↔
        s.memory.view (.caller i, .errorMessage) = .indeterminate) := by
  simp only [Results.record]
  constructor
  · have htyped := h.typed (.caller i, .outputData)
    generalize s.memory.view (.caller i, .outputData) = p at htyped ⊢
    cases p with
    | indeterminate | null => simp [asData]
    | block contents =>
        cases contents with
        | data bytes => simp [asData]
        | text message => cases htyped _ rfl
  · have htyped := h.typed (.caller i, .errorMessage)
    generalize s.memory.view (.caller i, .errorMessage) = p at htyped ⊢
    cases p with
    | indeterminate | null => simp [asText]
    | block contents =>
        cases contents with
        | data bytes => cases htyped _ rfl
        | text message => simp [asText]

variable [DecidableEq ι]

/-- One pointer sees something else. -/
theorem update (h : Sound s) {k : Holder ι × Field} {p : Pointer Contents}
    (hseparate : t.memory.Separate) (hview : t.memory.view = Function.update s.memory.view k p)
    (hp : p ≠ .indeterminate) (htyped : ∀ contents, p = .block contents → contents.field = k.2)
    (hsize : ∀ bytes, t.memory.view (.task, .outputData) = .block (.data bytes) →
      bytes ≠ [] ∧ t.outputSize .task = bytes.length) : Sound t where
  separate := hseparate
  initialized := by
    intro f
    rw [hview, Function.update_apply]
    split_ifs
    · exact hp
    · exact h.initialized f
  typed := by
    intro k' contents hk'
    rw [hview, Function.update_apply] at hk'
    split_ifs at hk' with heq
    · rw [heq]
      exact htyped contents hk'
    · exact h.typed k' contents hk'
  size := hsize

/-- Something else than the pointer to the task's output data. -/
theorem update_of_ne (h : Sound s) {k : Holder ι × Field} {p : Pointer Contents}
    (hseparate : t.memory.Separate) (hview : t.memory.view = Function.update s.memory.view k p)
    (hp : p ≠ .indeterminate) (htyped : ∀ contents, p = .block contents → contents.field = k.2)
    (hk : k ≠ (.task, .outputData)) (hsize : t.outputSize .task = s.outputSize .task) :
    Sound t := by
  refine h.update hseparate hview hp htyped fun bytes hbytes => ?_
  rw [hview, Function.update_of_ne hk.symm] at hbytes
  rw [hsize]
  exact h.size bytes hbytes

end Sound

/-- A call that returns. -/
theorem Sound.returns {t : Results ι α} (h : Sound t) {v : Values ι}
    {c : Option (Option PoolError × Results ι α)} {answer : Option PoolError}
    (hview : t.view = v) (hc : c = some (answer, t)) :
    c.map (fun r => (r.1, r.2.view)) = some (answer, v) ∧ ∀ r, c = some r → Sound r.2 := by
  subst hc hview
  refine ⟨rfl, fun r hr => ?_⟩
  obtain rfl := Option.some.inj hr
  exact h

end

/-! ## One call -/

section Calls

variable {ι α : Type*} [DecidableEq ι] {s t : Results ι α} {f : Field} {p : Pointer Contents}
  {i : ι}

/-- A change of a pointer in the task leaves the records alone. -/
theorem record_of_task (hview : t.memory.view = Function.update s.memory.view (.task, f) p)
    (hcode : ∀ j, t.errorCode (.caller j) = s.errorCode (.caller j))
    (hsize : ∀ j, t.outputSize (.caller j) = s.outputSize (.caller j)) : t.record = s.record := by
  funext j
  rw [Results.record, Results.record, hview, hcode, hsize,
    Function.update_of_ne (by simp), Function.update_of_ne (by simp)]

/-- A change of a pointer in a record leaves the task alone. -/
theorem result_of_caller
    (hview : t.memory.view = Function.update s.memory.view (.caller i, f) p)
    (hcode : t.errorCode .task = s.errorCode .task) : t.result = s.result := by
  rw [Results.result, Results.result, hview, hcode,
    Function.update_of_ne (by simp), Function.update_of_ne (by simp)]

theorem clearedSize_caller (s : Results ι α) (j : ι) :
    clearedSize s (.caller j) = s.outputSize (.caller j) := by
  cases hp : s.memory.pointers (.task, .outputData) with
  | null => simp only [clearedSize, hp]
  | indeterminate | block =>
      simp only [clearedSize, hp]
      exact Function.update_of_ne (by simp) _ _

/-- After a change of a pointer in the task. -/
theorem view_of_task (t : Results ι α)
    (hview : t.memory.view = Function.update s.memory.view (.task, f) p)
    (hcode : ∀ j, t.errorCode (.caller j) = s.errorCode (.caller j))
    (hsize : ∀ j, t.outputSize (.caller j) = s.outputSize (.caller j)) :
    t.view = ⟨t.alive, { taskCreate with state := t.state, result := t.result }, s.record⟩ := by
  rw [Results.view, record_of_task hview hcode hsize]

theorem result_of_outputData (t : Results ι α)
    (hview : t.memory.view = Function.update s.memory.view (.task, .outputData) p) :
    t.result = ⟨t.errorCode .task, s.result.errorMessage, behind (asData p)⟩ := by
  rw [Results.result, hview, Function.update_self, Function.update_of_ne (by simp)]
  rfl

theorem result_of_errorMessage (t : Results ι α)
    (hview : t.memory.view = Function.update s.memory.view (.task, .errorMessage) p) :
    t.result = ⟨t.errorCode .task, behind (asText p), s.result.outputData⟩ := by
  rw [Results.result, hview, Function.update_self, Function.update_of_ne (by simp)]
  rfl

/-- After a change of both pointers of a record. -/
theorem view_of_record (t : Results ι α) {q : Pointer Contents} {code : ℤ} {size : ℕ}
    (hview : t.memory.view = Function.update
      (Function.update s.memory.view (.caller i, .outputData) p) (.caller i, .errorMessage) q)
    (hcode : t.errorCode = Function.update s.errorCode (.caller i) code)
    (hsize : t.outputSize = Function.update s.outputSize (.caller i) size)
    (halive : t.alive = s.alive) (hstate : t.state = s.state) :
    t.view = { s.view with
      records := Function.update s.record i ⟨code, asText q, asData p, size⟩ } := by
  have hresult : t.result = s.result := by
    rw [Results.result, Results.result, hview, hcode, Function.update_of_ne (by simp),
      Function.update_of_ne (by simp), Function.update_of_ne (by simp),
      Function.update_of_ne (by simp), Function.update_of_ne (by simp)]
  have hrecord : t.record = Function.update s.record i ⟨code, asText q, asData p, size⟩ := by
    funext j
    by_cases hj : j = i
    · subst hj
      rw [Function.update_self, Results.record, hview, hcode, hsize, Function.update_self,
        Function.update_self, Function.update_self, Function.update_of_ne (by simp),
        Function.update_self]
    · rw [Function.update_of_ne hj, Results.record, Results.record, hview, hcode, hsize,
        Function.update_of_ne (by simp [hj]), Function.update_of_ne (by simp [hj]),
        Function.update_of_ne (by simp [hj]), Function.update_of_ne (by simp [hj]),
        Function.update_of_ne (by simp [hj]), Function.update_of_ne (by simp [hj])]
  rw [Results.view, hresult, hrecord, halive, hstate]
  rfl

variable [DecidableEq α]

theorem Sound.setResult (h : Sound s) (output : Option (List UInt8)) {answer : Option α}
    (hfresh : ∀ memory, s.memory.release (.task, .outputData) = some memory →
      memory.Fresh answer) :
    ∃ t, taskSetResult s output answer =
        some ((ModernPool.taskSetResult s.view.task output answer.isSome).1, t) ∧ Sound t ∧
      t.view = { s.view with
        task := (ModernPool.taskSetResult s.view.task output answer.isSome).2 } := by
  obtain ⟨memory, hmemory, hseparate, hview⟩ := h.separate.release_eq (h.initialized .outputData)
  have hfree := hfresh memory hmemory
  have hcode : ∀ j, Function.update s.errorCode .task 0 (.caller j) = s.errorCode (.caller j) :=
    fun j => Function.update_of_ne (by simp) _ _
  -- Without new data the pointer stays `NULL`.
  have hnull : ∀ errorCode, (∀ j, errorCode (.caller j) = s.errorCode (.caller j)) →
      ∀ memory : Memory (Holder ι × Field) α Contents, memory.Separate →
        memory.view = Function.update s.memory.view (.task, .outputData) .null →
        ∃ t : Results ι α, t = { s with
          memory := memory
          outputSize := clearedSize s
          errorCode := errorCode } ∧ Sound t ∧
        t.view = { s.view with task := { s.view.task with
          result := { s.result with outputData := none, errorCode := errorCode .task } } } := by
    intro errorCode herrorCode memory hseparate hview
    refine ⟨_, rfl, h.update hseparate hview (by simp) (by simp) ?_, ?_⟩
    · intro bytes hbytes
      rw [hview, Function.update_self] at hbytes
      cases hbytes
    · rw [view_of_task { s with
        memory := memory
        outputSize := clearedSize s
        errorCode := errorCode } hview herrorCode (clearedSize_caller s),
        result_of_outputData _ hview]
      rfl
  rw [taskSetResult, hmemory]
  cases output with
  | none =>
      obtain ⟨t, ht, hsound, htview⟩ := hnull _ hcode memory hseparate hview
      rw [Function.update_self] at htview
      exact ⟨t, by rw [ht]; rfl, hsound, htview⟩
  | some data =>
  cases data with
  | nil =>
      obtain ⟨t, ht, hsound, htview⟩ := hnull _ hcode memory hseparate hview
      rw [Function.update_self] at htview
      exact ⟨t, by rw [ht]; rfl, hsound, htview⟩
  | cons b bs =>
      have hstored : (memory.allocate (.task, .outputData) (.data (b :: bs)) answer).view = _ :=
        hseparate.view_allocate hfree
      have hnew : (memory.allocate (.task, .outputData) (.data (b :: bs)) answer).Separate :=
        hseparate.allocate hfree
      rw [hview, Function.update_idem] at hstored
      cases answer with
      | none =>
          obtain ⟨t, ht, hsound, htview⟩ :=
            hnull s.errorCode (fun _ => rfl) _ hnew hstored
          exact ⟨t, by rw [ht]; rfl, hsound, htview⟩
      | some a =>
          have hsize : ∀ j, Function.update (clearedSize s) .task (b :: bs).length (.caller j) =
              s.outputSize (.caller j) := fun j =>
            (Function.update_of_ne (by simp) _ _).trans (clearedSize_caller s j)
          obtain ⟨t, ht⟩ : ∃ t : Results ι α, t = { s with
              memory := memory.allocate (.task, .outputData) (.data (b :: bs)) (some a)
              outputSize := Function.update (clearedSize s) .task (b :: bs).length
              errorCode := Function.update s.errorCode .task 0 } := ⟨_, rfl⟩
          have htview : t.memory.view = Function.update s.memory.view (.task, .outputData)
              (.block (.data (b :: bs))) := by
            rw [ht]
            exact hstored
          refine ⟨t, by rw [ht]; rfl, h.update (by rw [ht]; exact hnew) htview (by simp) ?_ ?_, ?_⟩
          · intro contents hcontents
            obtain rfl := Pointer.block.inj hcontents
            rfl
          · intro bytes hbytes
            rw [htview, Function.update_self] at hbytes
            cases hbytes
            refine ⟨List.cons_ne_nil _ _, ?_⟩
            simp only [ht, Function.update_self]
          · rw [view_of_task t htview (by rw [ht]; exact hcode) (by rw [ht]; exact hsize),
              result_of_outputData t htview, ht]
            simp only [Function.update_self]
            rfl

theorem Sound.setError (h : Sound s) (errorCode : ℤ) (message : Option String)
    {answer : Option α} (hfresh : ∀ memory, s.memory.release (.task, .errorMessage) =
      some memory → memory.Fresh answer) :
    ∃ t, taskSetError s errorCode message answer = some (.success, t) ∧ Sound t ∧
      t.view = { s.view with
        task := ModernPool.taskSetError s.view.task errorCode (message.getD "")
          (message.isSome && answer.isSome) } := by
  obtain ⟨memory, hmemory, hseparate, hview⟩ :=
    h.separate.release_eq (h.initialized .errorMessage)
  have hfree := hfresh memory hmemory
  have hcode : ∀ j, Function.update s.errorCode .task errorCode (.caller j) =
      s.errorCode (.caller j) := fun j => Function.update_of_ne (by simp) _ _
  rw [taskSetError, hmemory]
  have hnew : (storeText memory message answer).Separate ∧ (storeText memory message answer).view =
      Function.update s.memory.view (.task, .errorMessage)
        (if message.isSome && answer.isSome then .block (.text (message.getD "")) else .null) := by
    cases message with
    | none => exact ⟨hseparate, hview⟩
    | some text =>
        refine ⟨hseparate.allocate hfree, ?_⟩
        rw [storeText, hseparate.view_allocate hfree, hview, Function.update_idem]
        rfl
  obtain ⟨t, ht⟩ : ∃ t : Results ι α, t = { s with
      memory := storeText memory message answer
      errorCode := Function.update s.errorCode .task errorCode } := ⟨_, rfl⟩
  have htview := hnew.2
  rw [show storeText memory message answer = t.memory by rw [ht]] at htview
  refine ⟨t, by rw [ht]; rfl,
    h.update_of_ne (by rw [ht]; exact hnew.1) htview ?_ ?_ (by simp) (by rw [ht]), ?_⟩
  · split_ifs <;> simp
  · intro contents hcontents
    split_ifs at hcontents
    obtain rfl := Pointer.block.inj hcontents
    rfl
  · rw [view_of_task t htview (by rw [ht]; exact hcode) (by rw [ht]; exact fun _ => rfl),
      result_of_errorMessage t htview, ht]
    simp only [Function.update_self, ModernPool.taskSetError]
    split_ifs <;> rfl

/-- The output data of the task is copied into the record, unless there is no memory for it. -/
theorem Sound.copyData (h : Sound s) {answer : Option α} (hfresh : s.memory.Fresh answer) :
    ∃ ok p size t, copyData s i answer = some (ok, t) ∧
      t = { s with
        memory := t.memory
        outputSize := Function.update s.outputSize (.caller i) size } ∧
      t.memory.Separate ∧
      t.memory.view = Function.update s.memory.view (.caller i, .outputData) p ∧
      (∀ answer', s.memory.Fresh answer' → (∀ a, answer = some a → answer' ≠ some a) →
        t.memory.Fresh answer') ∧
      (s.result.outputData = none ∧ ok = true ∧ p = .null ∧ size = 0 ∨
        ∃ data, s.result.outputData = some data ∧
          (answer.isSome = true ∧ ok = true ∧ p = .block (.data data) ∧ size = data.length ∨
            answer.isSome = false ∧ ok = false ∧ p = .null ∧
              size = s.outputSize (.caller i))) := by
  rcases h.output_cases with ⟨hpointer, hnone⟩ | ⟨a, bytes, hpointer, hblock, hdata, hne, hsize⟩
  · exact ⟨true, .null, 0, { s with
      memory := s.memory.setNull (.caller i, .outputData)
      outputSize := Function.update s.outputSize (.caller i) 0 },
      by rw [TaskResults.copyData, hpointer], rfl, h.separate.setNull _, Memory.view_setNull _,
      fun _ hfresh' _ => hfresh', Or.inl ⟨hnone, rfl, rfl, rfl⟩⟩
  · have hpos : bytes.length ≠ 0 := fun hzero => hne (List.eq_nil_of_length_eq_zero hzero)
    have hview :
        (s.memory.allocate (.caller i, .outputData) (.data bytes) answer).view = _ :=
      h.separate.view_allocate hfresh
    have hseparate :
        (s.memory.allocate (.caller i, .outputData) (.data bytes) answer).Separate :=
      h.separate.allocate hfresh
    have hlater : ∀ answer', s.memory.Fresh answer' →
        (∀ a, answer = some a → answer' ≠ some a) →
          (s.memory.allocate (.caller i, .outputData) (.data bytes) answer).Fresh answer' :=
      fun _ hfresh' hother => hfresh'.allocate hother
    have hcopy : TaskResults.copyData s i answer =
        if answer.isNone then some (false, { s with
          memory := s.memory.allocate (.caller i, .outputData) (.data bytes) answer })
        else some (true, { s with
          memory := s.memory.allocate (.caller i, .outputData) (.data bytes) answer
          outputSize := Function.update s.outputSize (.caller i) bytes.length }) := by
      rw [TaskResults.copyData, hpointer]
      simp only [hblock, if_neg hpos, hsize, Nat.lt_irrefl, if_false, List.take_length]
    rw [hcopy]
    cases answer with
    | none =>
        exact ⟨false, .null, s.outputSize (.caller i), { s with
          memory := s.memory.allocate (.caller i, .outputData) (.data bytes) none }, rfl,
          by rw [Function.update_eq_self], hseparate, hview, hlater,
          Or.inr ⟨bytes, hdata, Or.inr ⟨rfl, rfl, rfl, rfl⟩⟩⟩
    | some b =>
        exact ⟨true, .block (.data bytes), bytes.length, _, rfl, rfl, hseparate, hview, hlater,
          Or.inr ⟨bytes, hdata, Or.inl ⟨rfl, rfl, rfl, rfl⟩⟩⟩

/-- It goes on unless there is no memory for the data. -/
theorem Sound.of_copyData (h : Sound s) {answer : Option α} (hfresh : s.memory.Fresh answer)
    {r : Bool × Results ι α} (hr : TaskResults.copyData s i answer = some r) :
    Sound r.2 ∧ (r.1 = true ↔ (s.result.outputData.isSome = true → answer.isSome = true)) := by
  obtain ⟨ok, p, size, t, ht, hteq, hseparate, hview, -, hcases⟩ := h.copyData (i := i) hfresh
  rw [hr, Option.some.injEq] at ht
  rw [ht]
  have hsize : t.outputSize .task = s.outputSize .task := by
    have hne : (Holder.task : Holder ι) ≠ .caller i := by simp
    have hsizes : t.outputSize = Function.update s.outputSize (.caller i) size :=
      congrArg Results.outputSize hteq
    rw [hsizes, Function.update_of_ne hne]
  rcases hcases with ⟨hnone, rfl, rfl, -⟩ | ⟨data, hdata, ⟨hsome, rfl, rfl, -⟩ | ⟨hno, rfl, rfl, -⟩⟩
  · exact ⟨h.update_of_ne hseparate hview (by simp) (by simp) (by simp) hsize, by simp [hnone]⟩
  · refine ⟨h.update_of_ne hseparate hview (by simp) (fun contents hcontents => ?_) (by simp)
      hsize, by simp [hsome]⟩
    obtain rfl := Pointer.block.inj hcontents
    rfl
  · exact ⟨h.update_of_ne hseparate hview (by simp) (by simp) (by simp) hsize,
      by simp [hdata, hno]⟩

/-- The error message of the task is copied into the record, if there is memory for it. -/
theorem Sound.copyText (h : Sound s) {answer : Option α} (hfresh : s.memory.Fresh answer) :
    ∃ p t, copyText s i answer = some t ∧ t = { s with memory := t.memory } ∧
      t.memory.Separate ∧
      t.memory.view = Function.update s.memory.view (.caller i, .errorMessage) p ∧
      (s.result.errorMessage = none ∧ p = .null ∨
        ∃ text, s.result.errorMessage = some text ∧
          p = if answer.isSome then .block (.text text) else .null) := by
  rcases h.message_cases with ⟨hpointer, hnone⟩ | ⟨a, text, hpointer, hblock, htext⟩
  · exact ⟨.null, { s with memory := s.memory.setNull (.caller i, .errorMessage) },
      by rw [TaskResults.copyText, hpointer], rfl, h.separate.setNull _, Memory.view_setNull _,
      Or.inl ⟨hnone, rfl⟩⟩
  · refine ⟨_, { s with
      memory := s.memory.allocate (.caller i, .errorMessage) (.text text) answer }, ?_, rfl,
      h.separate.allocate hfresh, h.separate.view_allocate hfresh, Or.inr ⟨text, htext, rfl⟩⟩
    rw [TaskResults.copyText, hpointer]
    simp only [hblock]

theorem Sound.getResult (h : Sound s) (i : ι) {dataAnswer textAnswer : Option α}
    (hdata : s.memory.Fresh dataAnswer) (htext : s.memory.Fresh textAnswer)
    (hne : ∀ a, dataAnswer = some a → textAnswer ≠ some a) (hcompleted : completed s.state = true) :
    ∃ t, taskGetResult s i dataAnswer textAnswer =
        some (((s.record i).fill s.result dataAnswer.isSome textAnswer.isSome).1, t) ∧ Sound t ∧
      t.view = { s.view with
        records := Function.update s.record i
          ((s.record i).fill s.result dataAnswer.isSome textAnswer.isSome).2 } := by
  have hcoded : Sound (copyCode s i) := ⟨h.separate, h.initialized, h.typed, h.size⟩
  have hresult : (copyCode s i).result = s.result := by
    rw [Results.result, Results.result, copyCode]
    simp only [Function.update_of_ne (show Holder.task ≠ Holder.caller i by simp)]
  obtain ⟨ok, p, size, u, hu, hueq, huseparate, huview, hlater, hcases⟩ :=
    hcoded.copyData (i := i) hdata
  rw [hresult] at hcases
  change u.memory.view = Function.update s.memory.view _ _ at huview
  have hucode : u.errorCode = Function.update s.errorCode (.caller i) (s.errorCode .task) := by
    rw [hueq]
    rfl
  have husize : u.outputSize = Function.update s.outputSize (.caller i) size := by
    rw [hueq]
    rfl
  have hualive : u.alive = s.alive := by
    rw [hueq]
    rfl
  have hustate : u.state = s.state := by
    rw [hueq]
    rfl
  have husound : Sound u := (hcoded.of_copyData hdata hu).1
  have huresult : u.result = s.result := by
    refine result_of_caller huview ?_
    rw [hucode]
    exact Function.update_of_ne (by simp) _ _
  rw [taskGetResult, hcompleted, if_neg (by decide), hu, Option.bind_some]
  by_cases hok : ok = true
  · obtain ⟨q, t, ht, hteq, htseparate, htview, hq⟩ :=
      husound.copyText (i := i) (hlater textAnswer htext hne)
    rw [huresult] at hq
    rw [huview] at htview
    have hview := view_of_record t htview (by rw [hteq, hucode]) (by rw [hteq, husize])
      (by rw [hteq, hualive]) (by rw [hteq, hustate])
    have hq' : q ≠ .indeterminate ∧
        ∀ contents, q = .block contents → contents.field = .errorMessage := by
      rcases hq with ⟨-, rfl⟩ | ⟨text, -, rfl⟩
      · simp
      · split_ifs
        · refine ⟨by simp, fun contents hcontents => ?_⟩
          obtain rfl := Pointer.block.inj hcontents
          rfl
        · simp
    have htsound : Sound t := by
      rw [← huview] at htview
      refine husound.update_of_ne htseparate htview hq'.1 hq'.2 (by simp) ?_
      rw [hteq]
    have hfill : (s.record i).fill s.result dataAnswer.isSome textAnswer.isSome =
        (.success, ⟨s.errorCode .task, asText q, asData p, size⟩) := by
      refine Record.fill_of_copied ?_ hq
      rcases hcases with
        ⟨hnone, -, hp, hsize⟩ | ⟨data, hdata, ⟨hsome, -, hp, hsize⟩ | ⟨-, hno, -⟩⟩
      · exact Or.inl ⟨hnone, hp, hsize⟩
      · exact Or.inr ⟨data, hdata, hsome, hp, hsize⟩
      · rw [hok] at hno
        cases hno
    rw [hfill, if_pos hok, ht]
    exact ⟨t, rfl, htsound, hview⟩
  · -- Without memory for the data the error message of the record stays as it was.
    rcases hcases with ⟨-, hyes, -⟩ | ⟨data, hdata, ⟨-, hyes, -⟩ | ⟨hnone, -, rfl, rfl⟩⟩
    · exact absurd hyes hok
    · exact absurd hyes hok
    · rw [if_neg hok]
      refine ⟨u, ?_, husound, ?_⟩
      · simp only [Record.fill, hdata, hnone, Bool.false_eq_true, if_false]
      · have hkept : u.memory.view = Function.update
            (Function.update s.memory.view (.caller i, .outputData) .null)
            (.caller i, .errorMessage) (s.memory.view (.caller i, .errorMessage)) := by
          rw [huview, eq_comm, Function.update_eq_self_iff]
          exact (Function.update_of_ne (by simp) _ _).symm
        rw [view_of_record u hkept hucode husize hualive hustate]
        simp only [Record.fill, hdata, hnone, Bool.false_eq_true, if_false]
        rfl

/-- Cleaning up a record frees its blocks, and is undefined when it was never filled. -/
theorem Sound.cleanup (h : Sound s) (i : ι) :
    ((s.record i).outputData = .indeterminate ∨ (s.record i).errorMessage = .indeterminate) ∧
        taskResultCleanup s i = none ∨
      ¬ ((s.record i).outputData = .indeterminate ∨
          (s.record i).errorMessage = .indeterminate) ∧
        ∃ t, taskResultCleanup s i = some t ∧ Sound t ∧
          t.view = { s.view with
            records := Function.update s.record i ⟨0, .null, .null, 0⟩ } := by
  obtain ⟨hdata, htext⟩ := h.record_indeterminate i
  rw [hdata, htext]
  by_cases hdata' : s.memory.view (.caller i, .outputData) = .indeterminate
  · refine Or.inl ⟨Or.inl hdata', ?_⟩
    rw [taskResultCleanup, h.separate.release_of_indeterminate hdata']
    rfl
  obtain ⟨memory, hmemory, hseparate, hview⟩ := h.separate.release_eq hdata'
  have hkept : memory.view (.caller i, .errorMessage) =
      s.memory.view (.caller i, .errorMessage) := by
    rw [hview, Function.update_of_ne (by simp)]
  by_cases htext' : s.memory.view (.caller i, .errorMessage) = .indeterminate
  · refine Or.inl ⟨Or.inr htext', ?_⟩
    rw [taskResultCleanup, hmemory, Option.bind_some,
      hseparate.release_of_indeterminate (hkept.trans htext')]
    rfl
  · refine Or.inr ⟨not_or.mpr ⟨hdata', htext'⟩, ?_⟩
    obtain ⟨memory', hmemory', hseparate', hview'⟩ :=
      hseparate.release_eq (by rw [hkept]; exact htext')
    have hone : Sound { s with memory := memory } :=
      h.update_of_ne hseparate hview (by simp) (by simp) (by simp) rfl
    obtain ⟨t, ht⟩ : ∃ t : Results ι α, t = { s with
        memory := memory'
        outputSize := Function.update s.outputSize (.caller i) 0
        errorCode := Function.update s.errorCode (.caller i) 0 } := ⟨_, rfl⟩
    rw [show memory' = t.memory by rw [ht]] at hseparate' hview'
    refine ⟨t, by rw [taskResultCleanup, hmemory, Option.bind_some, hmemory', ht]; rfl,
      hone.update_of_ne (k := (.caller i, .errorMessage)) (p := .null) hseparate' hview'
        (by simp) (by simp) (by simp) ?_, ?_⟩
    · have hne : (Holder.task : Holder ι) ≠ .caller i := by simp
      simp only [ht, Function.update_of_ne hne]
    · rw [hview] at hview'
      exact view_of_record t hview' (by rw [ht]) (by rw [ht]) (by rw [ht]) (by rw [ht])

/-- Destroying the task frees its blocks. -/
theorem Sound.destroy (h : Sound s) : ∃ t, taskDestroy s = some t ∧ Sound t ∧
    t.view = { s.view with
      alive := false
      task := { s.view.task with
        result := { s.result with errorMessage := none, outputData := none } } } := by
  obtain ⟨memory, hmemory, hseparate, hview⟩ := h.separate.release_eq (h.initialized .outputData)
  have hone : Sound { s with memory := memory } := by
    refine h.update hseparate hview (by simp) (by simp) fun bytes hbytes => ?_
    rw [hview, Function.update_self] at hbytes
    cases hbytes
  obtain ⟨memory', hmemory', hseparate', hview'⟩ :=
    hseparate.release_eq (hone.initialized .errorMessage)
  obtain ⟨t, ht⟩ : ∃ t : Results ι α, t = { s with alive := false, memory := memory' } :=
    ⟨_, rfl⟩
  have htview : t.memory.view = Function.update (Results.memory { s with memory := memory }).view
      (.task, .errorMessage) .null := by
    rw [ht]
    exact hview'
  refine ⟨t, by rw [taskDestroy, hmemory, Option.bind_some, hmemory', ht]; rfl,
    hone.update_of_ne (by rw [ht]; exact hseparate') htview (by simp) (by simp) (by simp)
      (by rw [ht]), ?_⟩
  have hrecord : Results.record { s with memory := memory } = s.record :=
    record_of_task hview (fun _ => rfl) fun _ => rfl
  rw [view_of_task t htview (by rw [ht]; exact fun _ => rfl) (by rw [ht]; exact fun _ => rfl),
    result_of_errorMessage t htview, result_of_outputData _ hview, hrecord, ht]
  rfl

/-- A call does to what the pointers see what it does to the values. -/
theorem Sound.call (h : Sound s) {l : Call ι α} (hl : Allocates s l) :
    (s.call l).map (fun r => (r.1, r.2.view)) = s.view.call l ∧
      ∀ r, s.call l = some r → Sound r.2 := by
  have halive : s.view.alive = s.alive := rfl
  cases l with
  | setState state =>
      rw [Results.call, Values.call, halive]
      split_ifs
      · have hsound : Sound { s with state := state } :=
          ⟨h.separate, h.initialized, h.typed, h.size⟩
        exact hsound.returns rfl rfl
      · exact ⟨rfl, fun r hr => by cases hr⟩
  | setResult output answer =>
      obtain ⟨t, ht, hsound, hview⟩ := h.setResult output hl
      rw [Results.call, Values.call, halive]
      split_ifs
      · exact hsound.returns hview (by rw [ht, Option.map_some])
      · exact ⟨rfl, fun r hr => by cases hr⟩
  | setError errorCode message answer =>
      obtain ⟨t, ht, hsound, hview⟩ := h.setError errorCode message hl
      rw [Results.call, Values.call, halive]
      split_ifs
      · exact hsound.returns hview (by rw [ht, Option.map_some])
      · exact ⟨rfl, fun r hr => by cases hr⟩
  | getResult i dataAnswer textAnswer =>
      have hcompleted : taskIsCompleted s.view.task = completed s.state := rfl
      rw [Results.call, Values.call, halive, hcompleted]
      split_ifs with halive hdone
      · obtain ⟨t, ht, hsound, hview⟩ := h.getResult i hl.1 hl.2.1 hl.2.2 hdone
        exact hsound.returns hview (by rw [ht, Option.map_some]; rfl)
      · refine h.returns rfl ?_
        rw [taskGetResult, if_pos (by simpa using hdone), Option.map_some]
      · exact ⟨rfl, fun r hr => by cases hr⟩
  | cleanup i =>
      have hrecords : s.view.records = s.record := rfl
      rw [Results.call, Values.call, hrecords]
      rcases h.cleanup i with ⟨hundefined, hnone⟩ | ⟨hdefined, t, ht, hsound, hview⟩
      · rw [hnone, if_pos hundefined]
        exact ⟨rfl, fun r hr => by cases hr⟩
      · rw [if_neg hdefined]
        exact hsound.returns hview (by rw [ht, Option.map_some])
  | destroy =>
      obtain ⟨t, ht, hsound, hview⟩ := h.destroy
      rw [Results.call, Values.call, halive]
      split_ifs
      · exact hsound.returns hview (by rw [ht, Option.map_some])
      · exact ⟨rfl, fun r hr => by cases hr⟩

end Calls

/-! ## Lost blocks -/

section Lost

variable {ι α : Type*} [DecidableEq ι] [DecidableEq α] {s t : Results ι α} {i : ι}

/-- The call is a `task_get_result` that overwrites a pointer to the block. -/
def Overwrites (s : Results ι α) : Call ι α → α → Prop
  | .getResult i dataAnswer _, b => completed s.state = true ∧
      (s.memory.pointers (.caller i, .outputData) = .block b ∨
        (s.result.outputData.isSome = true → dataAnswer.isSome = true) ∧
          s.memory.pointers (.caller i, .errorMessage) = .block b)
  | _, _ => False

/-- No pointer to a block is overwritten. -/
def KeepsBlocks (s : Results ι α) (l : Call ι α) : Prop := ∀ b, ¬ Overwrites s l b

theorem lost_setResult {output : Option (List UInt8)} {answer : Option α} (h : Sound s)
    (hfresh : ∀ memory, s.memory.release (.task, .outputData) = some memory →
      memory.Fresh answer) {r : PoolError × Results ι α}
    (hr : taskSetResult s output answer = some r) (b : α) :
    r.2.memory.Lost b ↔ s.memory.Lost b := by
  obtain ⟨memory, hmemory, hseparate, hview⟩ := h.separate.release_eq (h.initialized .outputData)
  rw [taskSetResult, hmemory, Option.map_some, Option.some.injEq] at hr
  rw [← Memory.lost_release hmemory]
  have hnull : memory.view (.task, .outputData) = .null := by rw [hview, Function.update_self]
  split at hr
  · subst hr
    exact Iff.rfl
  · subst hr
    exact Iff.rfl
  · split_ifs at hr
    · subst hr
      exact Memory.lost_allocate_of_null hseparate (hfresh memory hmemory) hnull
    · subst hr
      exact Memory.lost_allocate_of_null hseparate (hfresh memory hmemory) hnull

theorem lost_setError {errorCode : ℤ} {message : Option String} {answer : Option α}
    (h : Sound s) (hfresh : ∀ memory, s.memory.release (.task, .errorMessage) = some memory →
      memory.Fresh answer) {r : PoolError × Results ι α}
    (hr : taskSetError s errorCode message answer = some r) (b : α) :
    r.2.memory.Lost b ↔ s.memory.Lost b := by
  obtain ⟨memory, hmemory, hseparate, hview⟩ :=
    h.separate.release_eq (h.initialized .errorMessage)
  rw [taskSetError, hmemory, Option.map_some, Option.some.injEq] at hr
  subst hr
  rw [← Memory.lost_release hmemory]
  cases message with
  | none => exact Iff.rfl
  | some text =>
      exact Memory.lost_allocate_of_null hseparate (hfresh memory hmemory)
        (by rw [hview, Function.update_self])

/-- Copying the data overwrites one pointer of the record. -/
theorem lost_copyData {answer : Option α} (h : Sound s) (hfresh : s.memory.Fresh answer)
    {r : Bool × Results ι α} (hr : copyData s i answer = some r) :
    (∀ b, r.2.memory.Lost b ↔
        s.memory.Lost b ∨ s.memory.pointers (.caller i, .outputData) = .block b) ∧
      r.2.memory.pointers (.caller i, .errorMessage) =
        s.memory.pointers (.caller i, .errorMessage) := by
  have hne : (Holder.caller i, Field.errorMessage) ≠ (Holder.caller i, Field.outputData) := by
    simp
  have hset : (∀ b, (s.memory.setNull (.caller i, .outputData)).Lost b ↔
        s.memory.Lost b ∨ s.memory.pointers (.caller i, .outputData) = .block b) ∧
      (s.memory.setNull (.caller i, .outputData)).pointers (.caller i, .errorMessage) =
        s.memory.pointers (.caller i, .errorMessage) :=
    ⟨fun b => Memory.lost_setNull h.separate, Function.update_of_ne hne _ _⟩
  have hallocate : ∀ contents,
      (∀ b, (s.memory.allocate (.caller i, .outputData) contents answer).Lost b ↔
        s.memory.Lost b ∨ s.memory.pointers (.caller i, .outputData) = .block b) ∧
      (s.memory.allocate (.caller i, .outputData) contents answer).pointers
        (.caller i, .errorMessage) = s.memory.pointers (.caller i, .errorMessage) := by
    intro contents
    refine ⟨fun b => Memory.lost_allocate h.separate hfresh, ?_⟩
    cases answer with
    | none => exact Function.update_of_ne hne _ _
    | some a => exact Function.update_of_ne hne _ _
  simp only [copyData] at hr
  split at hr
  · cases hr
  · obtain rfl := Option.some.inj hr
    exact hset
  · split at hr
    · obtain rfl := Option.some.inj hr
      exact hset
    · split at hr
      · split_ifs at hr
        · obtain rfl := Option.some.inj hr
          exact hallocate _
        · obtain rfl := Option.some.inj hr
          exact hallocate _
      · cases hr

theorem lost_copyText {answer : Option α} (h : Sound s) (hfresh : s.memory.Fresh answer)
    (ht : copyText s i answer = some t) (b : α) : t.memory.Lost b ↔
      s.memory.Lost b ∨ s.memory.pointers (.caller i, .errorMessage) = .block b := by
  simp only [copyText] at ht
  split at ht
  · cases ht
  · obtain rfl := Option.some.inj ht
    exact Memory.lost_setNull h.separate
  · split at ht
    · obtain rfl := Option.some.inj ht
      exact Memory.lost_allocate h.separate hfresh
    · cases ht

theorem lost_cleanup (ht : taskResultCleanup s i = some t) (b : α) :
    t.memory.Lost b ↔ s.memory.Lost b := by
  rw [taskResultCleanup, Option.bind_eq_some_iff] at ht
  obtain ⟨memory, hmemory, ht⟩ := ht
  obtain ⟨memory', hmemory', rfl⟩ := Option.map_eq_some_iff.mp ht
  exact (Memory.lost_release hmemory').trans (Memory.lost_release hmemory)

theorem lost_destroy (ht : taskDestroy s = some t) (b : α) :
    t.memory.Lost b ↔ s.memory.Lost b := by
  rw [taskDestroy, Option.bind_eq_some_iff] at ht
  obtain ⟨memory, hmemory, ht⟩ := ht
  obtain ⟨memory', hmemory', rfl⟩ := Option.map_eq_some_iff.mp ht
  exact (Memory.lost_release hmemory').trans (Memory.lost_release hmemory)

/-- What `task_get_result` loses are the blocks of the pointers it overwrites. -/
theorem lost_getResult (h : Sound s) {dataAnswer textAnswer : Option α}
    (hdata : s.memory.Fresh dataAnswer) (htext : s.memory.Fresh textAnswer)
    (hne : ∀ a, dataAnswer = some a → textAnswer ≠ some a) {r : PoolError × Results ι α}
    (hr : taskGetResult s i dataAnswer textAnswer = some r) (b : α) :
    r.2.memory.Lost b ↔ s.memory.Lost b ∨ completed s.state = true ∧
      (s.memory.pointers (.caller i, .outputData) = .block b ∨
        (s.result.outputData.isSome = true → dataAnswer.isSome = true) ∧
          s.memory.pointers (.caller i, .errorMessage) = .block b) := by
  rw [taskGetResult] at hr
  split_ifs at hr with hcompleted
  · obtain rfl := Option.some.inj hr
    simp [hcompleted]
  rw [Bool.not_eq_false] at hcompleted
  have hcoded : Sound (copyCode s i) := ⟨h.separate, h.initialized, h.typed, h.size⟩
  have hresult : (copyCode s i).result.outputData = s.result.outputData := rfl
  obtain ⟨ok, -, -, u, hu, -, -, -, hlater, -⟩ := hcoded.copyData (i := i) hdata
  obtain ⟨husound, hok⟩ := hcoded.of_copyData hdata hu
  obtain ⟨hlost, hpointer⟩ := lost_copyData hcoded hdata hu
  rw [hresult] at hok
  rw [hu, Option.bind_some] at hr
  simp only [hcompleted, true_and, ← hok]
  cases ok with
  | true =>
      obtain ⟨t, ht, rfl⟩ := Option.map_eq_some_iff.mp hr
      rw [lost_copyText husound (hlater textAnswer htext hne) ht, hlost, hpointer, or_assoc]
      simp only [true_and]
      exact Iff.rfl
  | false =>
      obtain rfl := Option.some.inj hr
      rw [hlost]
      simp only [Bool.false_eq_true, false_and, or_false]
      exact Iff.rfl

omit [DecidableEq ι] [DecidableEq α] in
/-- A function that takes the task and returns an error code. -/
theorem of_alive {c : Option (PoolError × Results ι α)} {answer : Option PoolError}
    (hstep : (if s.alive then c.map fun r => (some r.1, r.2) else none) = some (answer, t)) :
    ∃ r, c = some r ∧ r.2 = t := by
  split_ifs at hstep
  obtain ⟨r, hr, heq⟩ := Option.map_eq_some_iff.mp hstep
  cases heq
  exact ⟨r, hr, rfl⟩

/-- A call loses the blocks whose pointers it overwrites, and no lost block is found again. -/
theorem lost_call_iff (h : Sound s) {l : Call ι α} (hl : Allocates s l)
    {answer : Option PoolError} (hstep : s.call l = some (answer, t)) (b : α) :
    t.memory.Lost b ↔ s.memory.Lost b ∨ Overwrites s l b := by
  cases l with
  | setState state =>
      simp only [Results.call] at hstep
      split_ifs at hstep
      cases hstep
      exact (or_iff_left id).symm
  | setResult output answer' =>
      obtain ⟨r, hr, rfl⟩ := of_alive hstep
      exact (lost_setResult h hl hr b).trans (or_iff_left id).symm
  | setError errorCode message answer' =>
      obtain ⟨r, hr, rfl⟩ := of_alive hstep
      exact (lost_setError h hl hr b).trans (or_iff_left id).symm
  | getResult i dataAnswer textAnswer =>
      obtain ⟨r, hr, rfl⟩ := of_alive hstep
      exact lost_getResult h hl.1 hl.2.1 hl.2.2 hr b
  | cleanup i =>
      obtain ⟨r, hr, heq⟩ := Option.map_eq_some_iff.mp hstep
      cases heq
      exact (lost_cleanup hr b).trans (or_iff_left id).symm
  | destroy =>
      simp only [Results.call] at hstep
      split_ifs at hstep
      obtain ⟨r, hr, heq⟩ := Option.map_eq_some_iff.mp hstep
      cases heq
      exact (lost_destroy hr b).trans (or_iff_left id).symm

end Lost

/-! ## Whole runs -/

section Runs

variable {ι α : Type*}

theorem start_view (zeroed : ι → Bool) :
    (start zeroed : Results ι α).view = Values.start zeroed := by
  have hrecord : (start zeroed : Results ι α).record = (Values.start zeroed).records := by
    funext i
    simp only [Results.record, start, Memory.view, Values.start]
    cases zeroed i with
    | false => rfl
    | true => rfl
  rw [Results.view, hrecord]
  rfl

theorem start_sound (zeroed : ι → Bool) : Sound (start zeroed : Results ι α) := by
  have hblock : ∀ k a, (start zeroed : Results ι α).memory.pointers k ≠ .block a := by
    rintro ⟨_ | i, f⟩ a
    · simp [start]
    · simp only [start]
      split_ifs <;> simp
  have hview : ∀ k contents, (start zeroed : Results ι α).memory.view k ≠ .block contents := by
    intro k contents hk
    have hpointer := hblock k
    rw [Memory.view] at hk
    split at hk
    · cases hk
    · cases hk
    · next a ha => exact hpointer a ha
  refine ⟨⟨fun k a hk => absurd hk (hblock k a), fun k k' a hk => absurd hk (hblock k a)⟩,
    fun f => ?_, fun k contents hk => absurd hk (hview k contents),
    fun bytes hbytes => absurd hbytes (hview _ _)⟩
  simp [start, Memory.view]

variable [DecidableEq ι] [DecidableEq α] {zeroed : ι → Bool} {ls : List (Call ι α)}
  {s t : Results ι α}

/-- What a run does to the values, and that it keeps the invariant. -/
theorem Sound.run (hs : Sound s) (h : Run (results α zeroed) s ls t) :
    exec (fun v l => (Values.call v l).map Prod.snd) s.view ls = some t.view ∧ Sound t := by
  induction h with
  | nil s => exact ⟨rfl, hs⟩
  | @cons s u t l ls hstep _ ih =>
      obtain ⟨hl, answer, hcall⟩ := hstep
      obtain ⟨hview, hsound⟩ := hs.call hl
      rw [hcall, Option.map_some] at hview
      obtain ⟨hexec, ht⟩ := ih (hsound _ hcall)
      refine ⟨?_, ht⟩
      rw [exec_cons, ← hview]
      exact hexec

/-- What is lost stays lost. -/
theorem Sound.lost_run (hs : Sound s) (h : Run (results α zeroed) s ls t) {b : α}
    (hb : s.memory.Lost b) : t.memory.Lost b := by
  induction h with
  | nil s => exact hb
  | @cons s u t l ls hstep _ ih =>
      obtain ⟨hl, answer, hcall⟩ := hstep
      exact ih ((hs.call hl).2 _ hcall) ((lost_call_iff hs hl hcall b).mpr (Or.inl hb))

/-- Nothing is lost exactly in the runs that overwrite no pointer to a block. -/
theorem Sound.lost_iff (hs : Sound s) (hnone : ∀ b, ¬ s.memory.Lost b)
    (h : Run (results α zeroed) s ls t) :
    (∀ b, ¬ t.memory.Lost b) ↔ Run ((results α zeroed).restrict KeepsBlocks) s ls t := by
  constructor
  · intro ht
    clear hnone
    induction h with
    | nil s => exact .nil s
    | @cons s u t l ls hstep hrun ih =>
        obtain ⟨hl, answer, hcall⟩ := hstep
        have hu := (hs.call hl).2 _ hcall
        refine .cons ⟨fun b hb => ?_, hl, answer, hcall⟩ (ih hu ht)
        exact ht b (hu.lost_run hrun ((lost_call_iff hs hl hcall b).mpr (Or.inr hb)))
  · intro hrestricted
    refine (hrestricted.preserves (I := fun s => Sound s ∧ ∀ b, ¬ s.memory.Lost b) ?_
      ⟨hs, hnone⟩).2
    rintro s l t ⟨hs, hnone⟩ ⟨hkeeps, hl, answer, hcall⟩
    refine ⟨(hs.call hl).2 _ hcall, fun b hb => ?_⟩
    rcases (lost_call_iff hs hl hcall b).mp hb with hold | hnew
    · exact hnone b hold
    · exact hkeeps b hnew

/-- Whatever addresses `malloc` returns, as long as they are not in use, the calls return and
store what they do on the values, and use a block that is not theirs, read over its end or free
it twice only where the values say so: on a task that has been destroyed, or to clean up a
record that is not initialised. -/
theorem results_refine (h : Run (results α zeroed) (start zeroed) ls s) :
    exec (fun v l => (Values.call v l).map Prod.snd) (Values.start zeroed) ls = some s.view ∧
      ∀ l, Allocates s l → (s.call l).map (fun r => (r.1, r.2.view)) = s.view.call l := by
  obtain ⟨hexec, hsound⟩ := (start_sound zeroed).run h
  rw [start_view] at hexec
  exact ⟨hexec, fun l hl => (hsound.call hl).1⟩

/-- The result of a task is read, and then replaced in the block that was freed: the copy
stays. -/
theorem results_refine_one : ∃ s : Results Unit ℕ,
    Run (results ℕ fun _ => false) (start fun _ => false)
      [.setResult (some [1, 2]) (some 0), .setState .completed, .getResult () (some 1) none,
        .setResult (some [3]) (some 0)] s ∧
    (s.view.records ()).outputData = .block [1, 2] ∧ s.view.task.result.outputData = some [3] := by
  have hrun : ∃ s : Results Unit ℕ, Run (results ℕ fun _ => false) (start fun _ => false)
      [.setResult (some [1, 2]) (some 0), .setState .completed, .getResult () (some 1) none,
        .setResult (some [3]) (some 0)] s := by
    refine ⟨_, .cons ⟨?_, _, rfl⟩ (.cons ⟨trivial, _, rfl⟩ (.cons ⟨⟨?_, ?_, ?_⟩, _, rfl⟩
      (.cons ⟨?_, _, rfl⟩ (.nil _))))⟩
    · rintro memory hmemory a -
      obtain rfl := Option.some.inj hmemory
      rfl
    · intro a ha
      obtain rfl := Option.some.inj ha
      rfl
    · intro a ha
      cases ha
    · intro a _ ha
      cases ha
    · rintro memory hmemory a ha
      obtain rfl := Option.some.inj hmemory
      obtain rfl := Option.some.inj ha
      rfl
  obtain ⟨s, hs⟩ := hrun
  have hview := Option.some.inj (results_refine hs).1
  refine ⟨s, hs, ?_, ?_⟩
  · rw [← hview]
    rfl
  · rw [← hview]
    rfl

/-- A run at whose end no pointer refers to a block, as when the task has been destroyed and the
records have been cleaned up, has freed every block exactly when `task_get_result` has never
overwritten a pointer to one. -/
theorem all_freed_iff (h : Run (results α zeroed) (start zeroed) ls t)
    (hclean : ∀ k a, t.memory.pointers k ≠ .block a) :
    (∀ b, t.memory.blocks b = none) ↔
      Run ((results α zeroed).restrict KeepsBlocks) (start zeroed) ls t := by
  rw [← Memory.lost_iff_of_none hclean]
  refine (start_sound zeroed).lost_iff (fun b hb => ?_) h
  cases hb.1

/-- A result is read twice into the same record. -/
theorem all_freed_iff_twice : ∃ t : Results Unit ℕ,
    Run (results ℕ fun _ => false) (start fun _ => false)
      [.setResult (some [1, 2]) (some 0), .setState .completed, .getResult () (some 1) none,
        .getResult () (some 2) none, .cleanup (), .destroy] t ∧
    t.memory.blocks 1 = some (.data [1, 2]) ∧
    ¬ Run ((results ℕ fun _ => false).restrict KeepsBlocks) (start fun _ => false)
      [.setResult (some [1, 2]) (some 0), .setState .completed, .getResult () (some 1) none,
        .getResult () (some 2) none, .cleanup (), .destroy] t := by
  have hrun : ∃ t : Results Unit ℕ, Run (results ℕ fun _ => false) (start fun _ => false)
      [.setResult (some [1, 2]) (some 0), .setState .completed, .getResult () (some 1) none,
        .getResult () (some 2) none, .cleanup (), .destroy] t ∧
      (∀ k a, t.memory.pointers k ≠ .block a) ∧ t.memory.blocks 1 = some (.data [1, 2]) := by
    refine ⟨_, .cons ⟨?_, _, rfl⟩ (.cons ⟨trivial, _, rfl⟩ (.cons ⟨⟨?_, ?_, ?_⟩, _, rfl⟩
      (.cons ⟨⟨?_, ?_, ?_⟩, _, rfl⟩ (.cons ⟨trivial, _, rfl⟩ (.cons ⟨trivial, _, rfl⟩
        (.nil _)))))), ?_, rfl⟩
    · rintro memory hmemory a -
      obtain rfl := Option.some.inj hmemory
      rfl
    · intro a ha
      obtain rfl := Option.some.inj ha
      rfl
    · intro a ha
      cases ha
    · intro a _ ha
      cases ha
    · intro a ha
      obtain rfl := Option.some.inj ha
      rfl
    · intro a ha
      cases ha
    · intro a _ ha
      cases ha
    · rintro ⟨_ | ⟨⟩, _ | _⟩ a ha
      · cases ha
      · cases ha
      · cases ha
      · cases ha
  obtain ⟨t, ht, hclean, hblock⟩ := hrun
  refine ⟨t, ht, hblock, fun hkeeps => ?_⟩
  have hfreed := (all_freed_iff ht hclean).mpr hkeeps 1
  rw [hblock] at hfreed
  cases hfreed

end Runs

end TaskResults

end ModernPool

end ProcessThreadPool
