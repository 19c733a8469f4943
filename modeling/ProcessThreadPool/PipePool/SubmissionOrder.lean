import ProcessThreadPool.PipePool.Handler

/-!
# The order in which tasks are sent

`dispatch_tasks` takes the oldest task out of the queue, and when its send fails it puts
it back with `enqueue_task`, behind the tasks that were submitted after it. So the tasks
leave in the order of their submission as long as a send fails only for a task that is
alone in the queue, and as long as `next_task_id` does not wrap around.
-/

namespace ProcessThreadPool

namespace PipePool

/-- The program with the ids it has sent to workers. -/
structure Sending (n : ℕ) where
  state : State n
  sent : List ℤ

/-- The id that a step sends to a worker: the oldest of the queue, when the round of
`dispatch_tasks` goes on. -/
def State.sends {n : ℕ} (s : State n) : Action n → Option ℤ
  | .dispatch killOk writeOk =>
      if (dispatchRound killOk writeOk s.pool s.kernel).1 then
        (dequeueTask s.pool.taskQueue).1.map Task.taskId
      else none
  | _ => none

/-- One step of the program, recorded. -/
def Sending.step {n : ℕ} (s : Sending n) (l : Action n) : Option (Sending n) :=
  (s.state.step l).map fun t => ⟨t, s.sent ++ (s.state.sends l).toList⟩

/-- All interleavings on a pool of `n` workers, with the sends recorded. -/
def sending (n : ℕ) : Transition.System (Sending n) (Action n) where
  init := fun s => s.state.Created ∧ s.sent = []
  step := fun s l t => s.step l = some t

/-- The ids sent so far, and then those in the queue from the head on. -/
def Sending.order {n : ℕ} (s : Sending n) : List ℤ := s.sent ++ s.state.pool.taskQueue.ids

/-- Tasks were sent, and the queued ones are going to be taken out, in the order in which
they were submitted. -/
def Sending.InSubmissionOrder {n : ℕ} (s : Sending n) : Prop := s.order.Pairwise (· < ·)

/-- The round finds an idle worker, and the write to its pipe fails. -/
def SendFails {n : ℕ} (killOk : Fin n → Bool) (writeOk : Bool) (pool : ProcessPool n)
    (k : Kernel) : Prop :=
  ∃ i, (findIdleWorker killOk pool.workers).1 = some i ∧ ∀ task, k.writeTask
    ((findIdleWorker killOk pool.workers).2 i).pipeToWorker.writeEnd task writeOk = none

/-- A send fails only when no other task is queued, and no task is stored under an id
that has wrapped around. -/
def KeepsOrder {n : ℕ} (s : Sending n) : Action n → Prop
  | .submit taskData dataLen =>
      (submission s.state.pool taskData dataLen).isSome = true → 0 < s.state.pool.nextTaskId
  | .dispatch killOk writeOk =>
      SendFails killOk writeOk s.state.pool s.state.kernel → s.state.pool.taskQueue.count = 1
  | _ => True

/-- The order so far, and where the next id stands: behind all ids that were given out,
or below them once it has wrapped around. -/
structure Sending.Ordered {n : ℕ} (s : Sending n) : Prop where
  queue : ∃ l, s.state.pool.taskQueue.Holds l
  order : s.InSubmissionOrder
  positive : ∀ id ∈ s.order, 0 < id
  next : (0 < s.state.pool.nextTaskId ∧ s.state.pool.nextTaskId ≤ 2 ^ 31 - 1 ∧
      ∀ id ∈ s.order, id < s.state.pool.nextTaskId) ∨
    (s.state.pool.nextTaskId ≤ 0 ∧ s.order ≠ [])

theorem submission_taskId {n : ℕ} {pool : ProcessPool n} {taskData : Option (List UInt8)}
    {dataLen : ℤ} {task : Task} (h : submission pool taskData dataLen = some task) :
    task.taskId = pool.nextTaskId := by
  cases taskData with
  | none => cases h
  | some bytes =>
      simp only [submission] at h
      split_ifs at h
      obtain rfl := Option.some.inj h
      rfl

theorem increment_wraps : increment (2 ^ 31 - 1) = -2 ^ 31 := by decide

theorem sendTaskToWorker_ok_iff (k : Kernel) (w : WorkerProcess) (task : Task)
    (writeOk : Bool) : (sendTaskToWorker k w task writeOk).ok = true ↔
      ¬ ∀ task, k.writeTask w.pipeToWorker.writeEnd task writeOk = none := by
  have hany : (∀ task, k.writeTask w.pipeToWorker.writeEnd task writeOk = none) ↔
      k.writeTask w.pipeToWorker.writeEnd task writeOk = none := by
    refine ⟨fun h => h task, fun h task' => ?_⟩
    revert h
    simp only [Kernel.writeTask]
    split
    · cases writeOk <;> simp
    · exact id
  rw [hany, sendTaskToWorker]
  cases k.writeTask w.pipeToWorker.writeEnd task writeOk <;> simp

/-- A round finds no idle worker, or its send fails and the task goes to the end of the
queue, or its send succeeds and the task leaves the queue. -/
theorem dispatchRound_order {n : ℕ} {pool : ProcessPool n} {k : Kernel} {task : Task}
    {l : List Task} (hqueue : pool.taskQueue.Holds (task :: l)) (killOk : Fin n → Bool)
    (writeOk : Bool) {r : Bool × ProcessPool n × Kernel}
    (hr : dispatchRound killOk writeOk pool k = r) :
    r.2.1.nextTaskId = pool.nextTaskId ∧
      (¬ SendFails killOk writeOk pool k ∧ r.1 = false ∧ r.2.1.taskQueue.Holds (task :: l) ∨
        SendFails killOk writeOk pool k ∧ r.1 = false ∧ r.2.1.taskQueue.Holds (l ++ [task]) ∨
        ¬ SendFails killOk writeOk pool k ∧ r.1 = true ∧ r.2.1.taskQueue.Holds l) := by
  have hcount := hqueue.count_eq
  have hle := hqueue.count_le
  rw [List.length_cons] at hcount
  obtain ⟨task', l', hl, htask, hrest⟩ := hqueue.dequeue (by omega)
  obtain ⟨rfl, rfl⟩ := List.cons.inj hl
  have hroom : (dequeueTask pool.taskQueue).2.count < maxTaskQueue := by
    have hnew := hrest.count_eq
    omega
  simp only [dispatchRound] at hr
  cases hfound : (findIdleWorker killOk pool.workers).1 with
  | none =>
      simp only [hfound] at hr
      subst hr
      refine ⟨rfl, Or.inl ⟨fun hfails => ?_, rfl, hqueue⟩⟩
      obtain ⟨i, hi, -⟩ := hfails
      rw [hfound] at hi
      cases hi
  | some i =>
      have hfails : SendFails killOk writeOk pool k ↔ ∀ task, k.writeTask
          ((findIdleWorker killOk pool.workers).2 i).pipeToWorker.writeEnd task writeOk = none := by
        refine ⟨fun hfails => ?_, fun hwrite => ⟨i, hfound, hwrite⟩⟩
        obtain ⟨j, hj, hwrite⟩ := hfails
        rwa [Option.some.inj (hfound.symm.trans hj)]
      have hok := sendTaskToWorker_ok_iff k ((findIdleWorker killOk pool.workers).2 i) task
        writeOk
      rw [← hfails] at hok
      simp only [hfound, htask] at hr
      split at hr
      · next w k' hsent =>
          rw [hsent] at hok
          subst hr
          refine ⟨rfl, Or.inr (Or.inl ⟨?_, rfl, (hrest.enqueue hroom task).2⟩)⟩
          exact not_not.mp fun hnot => Bool.false_ne_true (hok.mpr hnot)
      · next w k' hsent =>
          rw [hsent] at hok
          subst hr
          exact ⟨rfl, Or.inr (Or.inr ⟨hok.mp rfl, rfl, hrest⟩)⟩

/-- What a step does to the order: nothing, or it stores a task under the next id, or it
puts the oldest task of the queue behind the others. -/
inductive Sending.Moves {n : ℕ} (s : Sending n) (l : Action n) (t : Sending n) : Prop
  | keeps (horder : t.order = s.order)
      (hnext : t.state.pool.nextTaskId = s.state.pool.nextTaskId) (hkeeps : KeepsOrder s l)
  | stores (horder : t.order = s.order ++ [s.state.pool.nextTaskId])
      (hnext : t.state.pool.nextTaskId = increment s.state.pool.nextTaskId)
      (hkeeps : KeepsOrder s l ↔ 0 < s.state.pool.nextTaskId)
  | putsBack (id : ℤ) (ids : List ℤ) (hbefore : s.order = s.sent ++ id :: ids)
      (horder : t.order = s.sent ++ (ids ++ [id]))
      (hnext : t.state.pool.nextTaskId = s.state.pool.nextTaskId)
      (hkeeps : KeepsOrder s l ↔ ids = [])

section Steps

variable {n : ℕ} {s t : Sending n}

theorem Sending.moves_submit {q : List Task} (hqueue : s.state.pool.taskQueue.Holds q)
    (taskData : Option (List UInt8)) (dataLen : ℤ)
    (ht : t = ⟨s.state.submitted (processPoolSubmitTask s.state.pool taskData dataLen),
      s.sent ++ []⟩) :
    (∃ q, t.state.pool.taskQueue.Holds q) ∧ s.Moves (.submit taskData dataLen) t := by
  rw [processPoolSubmitTask_eq, List.append_nil] at ht
  cases hsub : submission s.state.pool taskData dataLen with
  | none =>
      rw [hsub] at ht
      subst ht
      refine ⟨⟨q, hqueue⟩, .keeps rfl rfl fun hsome => ?_⟩
      rw [hsub] at hsome
      cases hsome
  | some task =>
      rw [hsub] at ht
      subst ht
      have hq := (hqueue.enqueue (submission_count hsub) task).2
      refine ⟨⟨_, hq⟩, .stores ?_ rfl ?_⟩
      · rw [Sending.order, Sending.order, hqueue.ids_eq, ← submission_taskId hsub,
          List.append_assoc]
        exact congrArg (s.sent ++ ·) (hq.ids_eq.trans List.map_append)
      · exact ⟨fun h => h (by rw [hsub]; rfl), fun h _ => h⟩

theorem Sending.moves_dispatch {q : List Task} (hqueue : s.state.pool.taskQueue.Holds q)
    (hcount : 0 < s.state.pool.taskQueue.count) (killOk : Fin n → Bool) (writeOk : Bool)
    (ht : t = ⟨s.state.put (dispatchRound killOk writeOk s.state.pool s.state.kernel).2,
      s.sent ++ (s.state.sends (.dispatch killOk writeOk)).toList⟩) :
    (∃ q, t.state.pool.taskQueue.Holds q) ∧ s.Moves (.dispatch killOk writeOk) t := by
  obtain ⟨task, q, rfl, htask, -⟩ := hqueue.dequeue hcount.ne'
  obtain ⟨hnext, hcases⟩ :=
    dispatchRound_order (k := s.state.kernel) hqueue killOk writeOk rfl
  have hbefore : s.order = s.sent ++ task.taskId :: q.map Task.taskId := by
    rw [Sending.order, hqueue.ids_eq, List.map_cons]
  have hlength := hqueue.count_eq
  rw [List.length_cons] at hlength
  rw [State.sends] at ht
  rcases hcases with ⟨hfails, hr, hq⟩ | ⟨hfails, hr, hq⟩ | ⟨hfails, hr, hq⟩
  · rw [hr, if_neg Bool.false_ne_true, Option.toList_none, List.append_nil] at ht
    subst ht
    refine ⟨⟨_, hq⟩, .keeps ?_ hnext fun h => absurd h hfails⟩
    rw [hbefore]
    exact congrArg (s.sent ++ ·) hq.ids_eq
  · rw [hr, if_neg Bool.false_ne_true, Option.toList_none, List.append_nil] at ht
    subst ht
    refine ⟨⟨_, hq⟩, .putsBack task.taskId (q.map Task.taskId) hbefore ?_ hnext ?_⟩
    · exact congrArg (s.sent ++ ·) (hq.ids_eq.trans List.map_append)
    · rw [List.map_eq_nil_iff, ← List.length_eq_zero_iff]
      refine ⟨fun h => ?_, fun h _ => ?_⟩
      · have hone := h hfails
        omega
      · omega
  · rw [hr, if_pos rfl, htask] at ht
    subst ht
    refine ⟨⟨_, hq⟩, .keeps ?_ hnext fun h => absurd h hfails⟩
    rw [hbefore, Sending.order, List.append_assoc]
    exact congrArg (s.sent ++ task.taskId :: ·) hq.ids_eq

/-- Every step moves the order in one of these ways. -/
theorem Sending.step_moves {l : Action n} (hqueue : ∃ q, s.state.pool.taskQueue.Holds q)
    (hstep : s.step l = some t) : (∃ q, t.state.pool.taskQueue.Holds q) ∧ s.Moves l t := by
  obtain ⟨q, hq⟩ := hqueue
  obtain ⟨u, hu, ht⟩ := Option.map_eq_some_iff.mp hstep
  -- The other steps touch neither the queue nor the next id.
  have hquiet : u.pool.taskQueue = s.state.pool.taskQueue →
      u.pool.nextTaskId = s.state.pool.nextTaskId → s.state.sends l = none →
      KeepsOrder s l → (∃ q, t.state.pool.taskQueue.Holds q) ∧ s.Moves l t := by
    intro hqueue hnext hsends hkeeps
    rw [hsends, Option.toList_none, List.append_nil] at ht
    subst ht
    refine ⟨⟨q, by rwa [hqueue]⟩, .keeps ?_ hnext hkeeps⟩
    rw [Sending.order, Sending.order, hqueue]
  cases l with
  | submit taskData dataLen =>
      obtain rfl := Option.some.inj hu
      exact Sending.moves_submit hq taskData dataLen ht.symm
  | dispatch killOk writeOk =>
      simp only [State.step] at hu
      split_ifs at hu with hcount
      obtain rfl := Option.some.inj hu
      exact Sending.moves_dispatch hq hcount killOk writeOk ht.symm
  | receive i readOk =>
      simp only [State.step] at hu
      split_ifs at hu
      obtain rfl := Option.some.inj hu
      exact hquiet rfl rfl rfl trivial
  | restart i outcome =>
      simp only [State.step] at hu
      split_ifs at hu
      obtain rfl := Option.some.inj hu
      exact hquiet rfl rfl rfl trivial
  | setRunning running =>
      obtain rfl := Option.some.inj hu
      exact hquiet rfl rfl rfl trivial
  | tick now =>
      obtain rfl := Option.some.inj hu
      exact hquiet rfl rfl rfl trivial
  | reap channel =>
      obtain ⟨r, -, rfl⟩ := Option.map_eq_some_iff.mp hu
      exact hquiet rfl rfl rfl trivial
  | childRead channel =>
      obtain ⟨k, -, rfl⟩ := Option.map_eq_some_iff.mp hu
      exact hquiet rfl rfl rfl trivial
  | childWrite channel =>
      obtain ⟨k, -, rfl⟩ := Option.map_eq_some_iff.mp hu
      exact hquiet rfl rfl rfl trivial
  | childExit channel =>
      obtain ⟨k, -, rfl⟩ := Option.map_eq_some_iff.mp hu
      exact hquiet rfl rfl rfl trivial

end Steps

namespace Sending.Ordered

variable {n : ℕ} {s t : Sending n} {l : Action n}

/-- A step keeps the order exactly when it meets the condition. -/
theorem keepsOrder_iff (h : s.Ordered) (hmoves : s.Moves l t) :
    t.InSubmissionOrder ↔ KeepsOrder s l := by
  have horder := h.order
  cases hmoves with
  | keeps hsame _ hkeeps =>
      rw [InSubmissionOrder, hsame]
      exact ⟨fun _ => hkeeps, fun _ => horder⟩
  | stores hafter _ hkeeps =>
      rw [InSubmissionOrder, hafter, hkeeps, List.pairwise_append]
      constructor
      · rintro ⟨-, -, hbelow⟩
        rcases h.next with ⟨hpos, -, -⟩ | ⟨-, hne⟩
        · exact hpos
        · obtain ⟨id, hid⟩ := List.exists_mem_of_ne_nil _ hne
          exact (h.positive id hid).trans (hbelow id hid _ (List.mem_singleton_self _))
      · intro hpos
        rcases h.next with ⟨-, -, hbelow⟩ | ⟨hneg, -⟩
        · refine ⟨horder, List.pairwise_singleton _ _, fun id hid next hnext => ?_⟩
          rw [List.mem_singleton.mp hnext]
          exact hbelow id hid
        · omega
  | putsBack id ids hbefore hafter _ hkeeps =>
      rw [InSubmissionOrder, hbefore, List.pairwise_append] at horder
      rw [InSubmissionOrder, hafter, hkeeps]
      constructor
      · intro hnew
        rw [List.pairwise_append] at hnew
        -- A task behind the one put back has a greater id, and is now before it.
        refine List.eq_nil_iff_forall_not_mem.mpr fun id' hid' => ?_
        have hlt := (List.pairwise_cons.mp horder.2.1).1 id' hid'
        have hgt := (List.pairwise_append.mp hnew.2.1).2.2 id' hid' id
          (List.mem_singleton_self id)
        omega
      · rintro rfl
        rw [List.nil_append]
        exact List.pairwise_append.mpr horder

theorem step (h : s.Ordered) (hqueue : ∃ q, t.state.pool.taskQueue.Holds q)
    (hmoves : s.Moves l t) (hkeeps : KeepsOrder s l) : t.Ordered := by
  have horder := (h.keepsOrder_iff hmoves).mpr hkeeps
  cases hmoves with
  | keeps hsame hnext _ =>
      refine ⟨hqueue, horder, ?_, ?_⟩
      · rw [hsame]
        exact h.positive
      · rw [hsame, hnext]
        exact h.next
  | stores hafter hnext hpos =>
      have hpositive := hpos.mp hkeeps
      rcases h.next with ⟨-, hle, hbelow⟩ | ⟨hneg, -⟩
      · refine ⟨hqueue, horder, ?_, ?_⟩
        · rw [hafter]
          exact List.forall_mem_append.mpr
            ⟨h.positive, List.forall_mem_singleton.mpr hpositive⟩
        · rw [hafter, hnext]
          rcases hle.lt_or_eq with hlt | heq
          · rw [increment_eq hpositive hlt]
            refine Or.inl ⟨by omega, by omega, List.forall_mem_append.mpr ⟨fun id hid => ?_, ?_⟩⟩
            · exact (hbelow id hid).trans (lt_add_one _)
            · exact List.forall_mem_singleton.mpr (lt_add_one _)
          · rw [heq, increment_wraps]
            exact Or.inr ⟨by decide, by simp⟩
      · omega
  | putsBack id ids hbefore hafter hnext hempty =>
      obtain rfl := hempty.mp hkeeps
      have hsame : t.order = s.order := by rw [hafter, hbefore, List.nil_append]
      refine ⟨hqueue, horder, ?_, ?_⟩
      · rw [hsame]
        exact h.positive
      · rw [hsame, hnext]
        exact h.next

theorem created (h : s.state.Created) (hsent : s.sent = []) : s.Ordered := by
  have hledger := ledger_created h
  have hempty : s.state.accepted = [] := by
    obtain ⟨_, _, _, _, _, _, _, _, heq⟩ := h
    rw [heq]
  have hids : s.state.pool.taskQueue.ids = [] := by
    have hsum := hledger.sum
    rw [hempty, Multiset.coe_nil, add_eq_zero, add_eq_zero] at hsum
    exact Multiset.coe_eq_zero _ |>.mp hsum.1.1
  have horder : s.order = [] := by rw [Sending.order, hsent, hids, List.append_nil]
  refine ⟨hledger.queue, ?_, ?_, Or.inl ⟨hledger.next.1, hledger.next.2, ?_⟩⟩
  · rw [InSubmissionOrder, horder]
    exact List.Pairwise.nil
  · rw [horder]
    exact List.forall_mem_nil _
  · rw [horder]
    exact List.forall_mem_nil _

end Sending.Ordered

/-! ## Whole runs -/

/-- A run sends and queues the tasks in submission order at all times exactly when each
failed send is of the only task in the queue and no id wraps around. The ids it sends then
increase. -/
theorem inSubmissionOrder_iff {n : ℕ} {s₀ : Sending n} (h₀ : (sending n).init s₀)
    (ls : List (Action n)) (t : Sending n) :
    (Transition.Run ((sending n).filter fun _ _ t => t.InSubmissionOrder) s₀ ls t ↔
      Transition.Run ((sending n).restrict KeepsOrder) s₀ ls t) ∧
    (Transition.Run ((sending n).restrict KeepsOrder) s₀ ls t → t.sent.Pairwise (· < ·)) := by
  have hcreated := Sending.Ordered.created h₀.1 h₀.2
  have hpreserved : ∀ s l t, Sending.Ordered s → KeepsOrder s l → (sending n).step s l t →
      Sending.Ordered t := by
    intro s l t h hkeeps hstep
    obtain ⟨hqueue, hmoves⟩ := Sending.step_moves h.queue hstep
    exact h.step hqueue hmoves hkeeps
  refine ⟨Transition.run_filter_iff_restrict hpreserved ?_ hcreated, fun hrun => ?_⟩
  · intro s l t h hstep
    exact h.keepsOrder_iff (Sending.step_moves h.queue hstep).2
  · have hordered := hrun.preserves (fun s l t h hstep => hpreserved s l t h hstep.1 hstep.2)
      hcreated
    exact (List.pairwise_append.mp hordered.order).1

/-- The send of the only task fails, and the task is sent to the other worker. -/
theorem inSubmissionOrder_resent : ∃ s₀ t : Sending 2, (sending 2).init s₀ ∧
    Transition.Run ((sending 2).filter fun _ _ t => t.InSubmissionOrder) s₀
      [.submit (some [97]) 1, .dispatch (fun _ => true) false, .submit (some [98]) 1,
        .dispatch (fun _ => true) true] t ∧ t.sent = [1] := by
  have hcreated : State.Created _ := ⟨[true, true, true], none, true, true,
    fun i : Fin 2 => ⟨.created, .created, some (7 + i)⟩, _, _, rfl, rfl⟩
  refine ⟨⟨_, []⟩, _, ⟨hcreated, rfl⟩, (inSubmissionOrder_iff ⟨hcreated, rfl⟩ _ _).1.mpr
    (.cons ⟨fun _ => by decide, rfl⟩ (.cons ⟨fun _ => by decide, rfl⟩
    (.cons ⟨fun _ => by decide, rfl⟩ (.cons ⟨fun hfails => ?_, rfl⟩ (.nil _))))), rfl⟩
  obtain ⟨i, hi, hwrite⟩ := hfails
  obtain rfl := Option.some.inj hi
  cases hwrite ⟨0, [], 0⟩

/-- Two tasks are queued when the send of the first one fails: the second is sent
before it. -/
theorem sent_out_of_order : ¬ ∀ (n : ℕ) (s : Sending n),
    Transition.Reachable (sending n) s → s.sent.Pairwise (· < ·) := by
  intro hclaim
  have hcreated : State.Created _ := ⟨[true, true, true], none, true, true,
    fun i : Fin 3 => ⟨.created, .created, some (7 + i)⟩, _, _, rfl, rfl⟩
  have hordered := hclaim 3 _ ⟨⟨_, []⟩, [.submit (some [97]) 1, .submit (some [98]) 1,
    .dispatch (fun _ => true) false, .dispatch (fun _ => true) true,
    .dispatch (fun _ => true) true], ⟨hcreated, rfl⟩,
    .cons rfl (.cons rfl (.cons rfl (.cons rfl (.cons rfl (.nil _)))))⟩
  have hsent : ([2, 1] : List ℤ).Pairwise (· < ·) := hordered
  revert hsent
  decide

end PipePool

end ProcessThreadPool
