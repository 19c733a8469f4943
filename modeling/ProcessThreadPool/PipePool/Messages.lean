import ProcessThreadPool.PipePool.Ownership
import ProcessThreadPool.PipePool.Pool
import Mathlib.Algebra.Order.Group.Multiset

/-!
# The messages between the master and a worker

What is under way on a channel: tasks in its first pipe, a result that the worker
process is about to write, results in its second pipe. A worker that is not `DEAD`
reads and writes through descriptors of its own channel, and nothing is under way
there but the task its record counts as outstanding.
-/

namespace ProcessThreadPool

namespace PipePool

/-- The result a worker process is about to write. -/
def Child.held (child : Child) : Multiset ℤ :=
  match child.phase with
  | .writing result => {result.taskId}
  | _ => 0

/-- The ids of the tasks and results under way on a channel. -/
def Kernel.inFlight (k : Kernel) (channel : Channel) : Multiset ℤ :=
  ((k.toWorker channel).map Task.taskId : List ℤ) +
    ((k.children channel).elim 0 Child.held +
      ((k.fromWorker channel).map TaskResult.taskId : List ℤ))

/-- The task that a record counts as sent and not yet answered. -/
def WorkerProcess.outstanding (w : WorkerProcess) : Multiset ℤ :=
  if w.currentTaskId = -1 then 0 else {w.currentTaskId}

/-- The channels of sessions to come are empty. -/
def Kernel.Fresh (k : Kernel) : Prop :=
  ∀ channel : Channel, k.sessions ≤ channel.session →
    k.toWorker channel = [] ∧ k.fromWorker channel = [] ∧ k.children channel = none

/-- The record uses the ends of the channel, and only its outstanding task is under
way there. -/
structure Attached (k : Kernel) (w : WorkerProcess) (channel : Channel) : Prop where
  session : channel.session < k.sessions
  toWorker : k.fds.lookup w.pipeToWorker.writeEnd =
    some (.pipeEnd channel .toWorker .writeEnd)
  fromWorker : k.fds.lookup w.pipeFromWorker.readEnd =
    some (.pipeEnd channel .fromWorker .readEnd)
  inFlight : k.inFlight channel ≤ w.outstanding

/-- What holds of the record of worker `i` between two steps. -/
structure WorkerInv (i : ℕ) (k : Kernel) (w : WorkerProcess) : Prop where
  idle : w.status = .idle → w.currentTaskId = -1
  attached : w.status ≠ .dead → ∃ session, Attached k w ⟨i, session⟩

/-- A kernel step that keeps the descriptors of worker `i` and adds nothing to its
channels. -/
structure Kernel.Quiet (i : ℕ) (k k' : Kernel) : Prop where
  sessions : k.sessions ≤ k'.sessions
  lookup : ∀ fd session direction side,
    k.fds.lookup fd = some (.pipeEnd ⟨i, session⟩ direction side) →
      k'.fds.lookup fd = some (.pipeEnd ⟨i, session⟩ direction side)
  inFlight : ∀ session, session < k.sessions →
    k'.inFlight ⟨i, session⟩ ≤ k.inFlight ⟨i, session⟩

theorem outstanding_eq_zero {w : WorkerProcess} (h : w.currentTaskId = -1) :
    w.outstanding = 0 := if_pos h

theorem outstanding_eq_singleton {w : WorkerProcess} (h : w.currentTaskId ≠ -1) :
    w.outstanding = {w.currentTaskId} := if_neg h

/-- A record has at most one outstanding task. -/
theorem cons_le_outstanding {w : WorkerProcess} {id : ℤ} {m : Multiset ℤ}
    (h : id ::ₘ m ≤ w.outstanding) : w.currentTaskId = id ∧ id ≠ -1 ∧ m = 0 := by
  by_cases hnone : w.currentTaskId = -1
  · rw [outstanding_eq_zero hnone, Multiset.le_zero] at h
    exact absurd h (Multiset.cons_ne_zero)
  · rw [outstanding_eq_singleton hnone, Multiset.le_singleton] at h
    rcases h with h | h
    · exact absurd h (Multiset.cons_ne_zero)
    · obtain ⟨heq, hm⟩ := (Multiset.singleton_eq_cons_iff _).mp h.symm
      exact ⟨heq, heq ▸ hnone, hm⟩

namespace WorkerInv

variable {i : ℕ} {k k' : Kernel} {w : WorkerProcess}

theorem of_dead (h : w.status = .dead) : WorkerInv i k w :=
  ⟨fun hidle => absurd (h.symm.trans hidle) (by decide), fun hne => absurd h hne⟩

theorem quiet (h : WorkerInv i k w) (hquiet : Kernel.Quiet i k k') : WorkerInv i k' w := by
  refine ⟨h.idle, fun hne => ?_⟩
  obtain ⟨session, hattached⟩ := h.attached hne
  exact ⟨session, hattached.session.trans_le hquiet.sessions,
    hquiet.lookup _ _ _ _ hattached.toWorker, hquiet.lookup _ _ _ _ hattached.fromWorker,
    (hquiet.inFlight session hattached.session).trans hattached.inFlight⟩

end WorkerInv

namespace Kernel.Quiet

variable {i : ℕ} {k k' k'' : Kernel}

theorem trans (h : Kernel.Quiet i k k') (h' : Kernel.Quiet i k' k'') :
    Kernel.Quiet i k k'' where
  sessions := h.sessions.trans h'.sessions
  lookup := fun fd session direction side hfd =>
    h'.lookup fd session direction side (h.lookup fd session direction side hfd)
  inFlight := fun session hlt =>
    (h'.inFlight session (hlt.trans_le h.sessions)).trans (h.inFlight session hlt)

end Kernel.Quiet

/-- A process belongs to a session that has begun. -/
theorem Kernel.Fresh.session_lt {k : Kernel} (h : k.Fresh) {channel : Channel} {child : Child}
    (hchild : k.children channel = some child) : channel.session < k.sessions := by
  by_contra hle
  rw [(h channel (Nat.not_lt.mp hle)).2.2] at hchild
  cases hchild

/-- A step of a worker process, or of its parent waiting for it: messages are handed
on or lost, descriptors stay. -/
structure Kernel.HandsOn (k k' : Kernel) : Prop where
  fds : k'.fds = k.fds
  sessions : k'.sessions = k.sessions
  fresh : k.Fresh → k'.Fresh
  inFlight : ∀ channel, k'.inFlight channel ≤ k.inFlight channel

namespace Kernel.HandsOn

variable {k k' : Kernel}

theorem quiet (h : k.HandsOn k') (i : ℕ) : Kernel.Quiet i k k' where
  sessions := h.sessions.ge
  lookup := fun fd session direction side hfd => by rwa [h.fds]
  inFlight := fun session _ => h.inFlight _

/-- Only one channel in use changes. -/
theorem of_channel {channel : Channel} (hused : k.Fresh → channel.session < k.sessions)
    (hfds : k'.fds = k.fds) (hsessions : k'.sessions = k.sessions)
    (hsame : ∀ c, c ≠ channel → k'.toWorker c = k.toWorker c ∧
      k'.fromWorker c = k.fromWorker c ∧ k'.children c = k.children c)
    (hle : k'.inFlight channel ≤ k.inFlight channel) : k.HandsOn k' where
  fds := hfds
  sessions := hsessions
  fresh := by
    intro hfresh c hc
    rw [hsessions] at hc
    have hne : c ≠ channel := by
      rintro rfl
      exact absurd (hused hfresh) (Nat.not_lt.mpr hc)
    obtain ⟨hto, hfrom, hchildren⟩ := hsame c hne
    rw [hto, hfrom, hchildren]
    exact hfresh c hc
  inFlight := by
    intro c
    by_cases hc : c = channel
    · rw [hc]
      exact hle
    · obtain ⟨hto, hfrom, hchildren⟩ := hsame c hc
      rw [Kernel.inFlight, Kernel.inFlight, hto, hfrom, hchildren]

/-- Only the channel of a worker process changes. -/
theorem of_child {channel : Channel} {child : Child}
    (hchild : k.children channel = some child) (hfds : k'.fds = k.fds)
    (hsessions : k'.sessions = k.sessions)
    (hsame : ∀ c, c ≠ channel → k'.toWorker c = k.toWorker c ∧
      k'.fromWorker c = k.fromWorker c ∧ k'.children c = k.children c)
    (hle : k'.inFlight channel ≤ k.inFlight channel) : k.HandsOn k' :=
  of_channel (fun hfresh => hfresh.session_lt hchild) hfds hsessions hsame hle

theorem childRead {channel : Channel} (h : k.childRead channel = some k') :
    k.HandsOn k' := by
  simp only [Kernel.childRead] at h
  split at h
  · next pid handler task tasks hchild htasks =>
      obtain rfl := Option.some.inj h
      refine of_child hchild rfl rfl (fun c hc =>
        ⟨Function.update_of_ne hc _ _, rfl, Function.update_of_ne hc _ _⟩) (le_of_eq ?_)
      simp only [Kernel.inFlight, Function.update_self, hchild, htasks, Option.elim_some,
        Child.held, handleTask, List.map_cons, zero_add]
      rw [← Multiset.cons_coe, ← Multiset.singleton_add, add_assoc, add_left_comm]
  · cases h

theorem childWrite {channel : Channel} (h : k.childWrite channel = some k') :
    k.HandsOn k' := by
  simp only [Kernel.childWrite] at h
  split at h
  · next pid handler result hchild =>
      obtain rfl := Option.some.inj h
      refine of_child hchild rfl rfl (fun c hc =>
        ⟨rfl, Function.update_of_ne hc _ _, Function.update_of_ne hc _ _⟩) (le_of_eq ?_)
      simp only [Kernel.inFlight, Function.update_self, hchild, Option.elim_some, Child.held,
        List.map_append, List.map_cons, List.map_nil, zero_add]
      rw [← Multiset.coe_add, Multiset.coe_singleton, add_comm ({_} : Multiset ℤ)]
  · cases h

theorem childExit {channel : Channel} (h : k.childExit channel = some k') :
    k.HandsOn k' := by
  have hexit : ∀ child : Child, k.children channel = some child → k.HandsOn
      { k with
        children :=
          Function.update k.children channel (some ⟨child.pid, child.handler, .exited⟩) } := by
    intro child hchild
    refine of_child hchild rfl rfl
      (fun c hc => ⟨rfl, rfl, Function.update_of_ne hc _ _⟩) ?_
    simp only [Kernel.inFlight, Function.update_self, hchild, Option.elim_some]
    exact add_le_add le_rfl (add_le_add (Multiset.zero_le _) le_rfl)
  simp only [Kernel.childExit] at h
  split at h
  · next pid handler hchild =>
      obtain rfl := Option.some.inj h
      exact hexit _ hchild
  · next pid handler result hchild =>
      obtain rfl := Option.some.inj h
      exact hexit _ hchild
  · cases h

theorem waitChild {channel : Channel} {r : ℤ × Kernel}
    (h : k.waitChild channel = some r) : k.HandsOn r.2 := by
  simp only [Kernel.waitChild] at h
  split at h
  · next pid handler hchild =>
      obtain rfl := Option.some.inj h
      refine of_child hchild rfl rfl
        (fun c hc => ⟨rfl, rfl, Function.update_of_ne hc _ _⟩) (le_of_eq ?_)
      simp only [Kernel.inFlight, Function.update_self, hchild, Option.elim_some, Child.held]
  · cases h

end Kernel.HandsOn

/-! ## Sending and receiving -/

section Messages

variable {i : ℕ} {k : Kernel} {w : WorkerProcess}

/-- A task is sent to a worker without an outstanding one. -/
theorem sendTaskToWorker_cases (hw : WorkerInv i k w) (hidle : w.status = .idle)
    {task : Task} {writeOk : Bool} (hid : task.taskId ≠ -1) {r : WorkerOutcome}
    (hr : sendTaskToWorker k w task writeOk = r) :
    r.ok = false ∧ r.worker = w ∧ r.kernel = k ∨
      r.ok = true ∧ WorkerInv i r.kernel r.worker ∧ r.worker.currentTaskId = task.taskId ∧
        (k.Fresh → r.kernel.Fresh) ∧ ∀ j, j ≠ i → Kernel.Quiet j k r.kernel := by
  obtain ⟨session, hattached⟩ := hw.attached (by rw [hidle]; decide)
  have hnone : k.inFlight ⟨i, session⟩ = 0 := by
    have hle := hattached.inFlight
    rw [outstanding_eq_zero (hw.idle hidle)] at hle
    exact Multiset.le_zero.mp hle
  simp only [sendTaskToWorker, Kernel.writeTask, hattached.toWorker] at hr
  cases writeOk with
  | false =>
      subst hr
      exact Or.inl ⟨rfl, rfl, rfl⟩
  | true =>
      simp only [if_true] at hr
      subst hr
      refine Or.inr ⟨rfl, ⟨nofun, fun _ => ⟨session, hattached.session, hattached.toWorker,
        hattached.fromWorker, ?_⟩⟩, rfl, ?_, ?_⟩
      · rw [outstanding_eq_singleton hid]
        simp only [Kernel.inFlight, Function.update_self, List.map_append, List.map_cons,
          List.map_nil]
        rw [← Multiset.coe_add, Multiset.coe_singleton, add_right_comm]
        exact add_le_of_nonpos_left (le_of_eq hnone)
      · intro hfresh channel hle
        have hne : channel ≠ ⟨i, session⟩ := by
          rintro rfl
          exact absurd hattached.session (Nat.not_lt.mpr hle)
        refine ⟨?_, (hfresh channel hle).2⟩
        simp only [Function.update_of_ne hne]
        exact (hfresh channel hle).1
      · intro j hj
        refine ⟨le_rfl, fun _ _ _ _ hfd => hfd, fun session' _ => ?_⟩
        have hne : (⟨j, session'⟩ : Channel) ≠ ⟨i, session⟩ := by
          rintro ⟨⟩
          exact hj rfl
        simp only [Kernel.inFlight, Function.update_of_ne hne]
        exact le_rfl

/-- A result that is read is the one for the record's outstanding task. -/
theorem receiveResultFromWorker_cases (hw : WorkerInv i k w) (hne : w.status ≠ .dead)
    (readOk : Bool) {r : Option TaskResult × WorkerProcess × Kernel}
    (hr : receiveResultFromWorker k w readOk = r) :
    r.1 = none ∧ (r.2.1 = w ∨ r.2.1 = { w with status := .dead }) ∧ r.2.2 = k ∨
      ∃ result, r.1 = some result ∧ w.currentTaskId = result.taskId ∧ result.taskId ≠ -1 ∧
        r.2.1.currentTaskId = -1 ∧ WorkerInv i r.2.2 r.2.1 ∧ k.HandsOn r.2.2 := by
  obtain ⟨session, hattached⟩ := hw.attached hne
  simp only [receiveResultFromWorker, Kernel.readResult, hattached.fromWorker] at hr
  cases readOk with
  | false =>
      subst hr
      exact Or.inl ⟨rfl, Or.inl rfl, rfl⟩
  | true =>
      cases hresults : k.fromWorker ⟨i, session⟩ with
      | nil =>
          simp only [hresults, Bool.true_eq_false, if_false] at hr
          subst hr
          exact Or.inl ⟨rfl, Or.inr rfl, rfl⟩
      | cons result results =>
          simp only [hresults, Bool.true_eq_false, if_false] at hr
          subst hr
          have hcons : k.inFlight ⟨i, session⟩ = result.taskId ::ₘ
              (Kernel.inFlight { k with
                fromWorker := Function.update k.fromWorker ⟨i, session⟩ results }
                ⟨i, session⟩) := by
            simp only [Kernel.inFlight, hresults, Function.update_self, List.map_cons]
            rw [← Multiset.cons_coe, Multiset.add_cons, Multiset.add_cons]
          have hle := hattached.inFlight
          rw [hcons] at hle
          obtain ⟨hcurrent, hid, hzero⟩ := cons_le_outstanding hle
          refine Or.inr ⟨result, rfl, hcurrent, hid, rfl, ⟨fun _ => rfl, fun _ => ⟨session,
            hattached.session, hattached.toWorker, hattached.fromWorker, ?_⟩⟩, ?_⟩
          · rw [hzero]
            exact Multiset.zero_le _
          · refine Kernel.HandsOn.of_channel (fun _ => hattached.session) rfl rfl
              (fun c hc => ⟨rfl, Function.update_of_ne hc _ _, rfl⟩) ?_
            rw [hzero]
            exact Multiset.zero_le _

end Messages

/-! ## Creating and restarting -/

/-- No number of the record is open as a pipe end of another worker. -/
def WorkerProcess.Apart (w : WorkerProcess) (i : ℕ) (k : Kernel) : Prop :=
  ∀ fd, fd = w.pipeToWorker.readEnd ∨ fd = w.pipeToWorker.writeEnd ∨
      fd = w.pipeFromWorker.readEnd ∨ fd = w.pipeFromWorker.writeEnd →
    ∀ channel direction side,
      k.fds.lookup fd = some (.pipeEnd channel direction side) → channel.worker = i

namespace Kernel.FdsOnly

variable {k k' : Kernel}

theorem sessions_eq (h : k.FdsOnly k') : k'.sessions = k.sessions := by
  rw [Kernel.FdsOnly] at h
  rw [h]

theorem inFlight_eq (h : k.FdsOnly k') (channel : Channel) :
    k'.inFlight channel = k.inFlight channel := by
  rw [Kernel.FdsOnly] at h
  rw [h]
  rfl

theorem fresh (h : k.FdsOnly k') (hfresh : k.Fresh) : k'.Fresh := by
  rw [Kernel.FdsOnly] at h
  rw [h]
  exact hfresh

end Kernel.FdsOnly

section Create

variable {i : ℕ} {handler : Option TaskHandler} {outcome : CreateOutcome} {w : WorkerProcess}
  {k : Kernel} {r : WorkerOutcome}

theorem closeRecord_fdsOnly (i : ℕ) (w : WorkerProcess) (k : Kernel) :
    k.FdsOnly (closeRecord i w k) :=
  (Kernel.FdsOnly.closePipePair k i _).trans (Kernel.FdsOnly.closePipePair _ i _)

/-- Closing the numbers of a record disturbs no worker they do not reach. -/
theorem closeRecord_quiet (hapart : w.Apart i k) {j : ℕ} (hj : j ≠ i) :
    Kernel.Quiet j k (closeRecord i w k) where
  sessions := (closeRecord_fdsOnly i w k).sessions_eq.ge
  lookup := by
    intro fd session direction side hfd
    have hne : ∀ fd', (fd' = w.pipeToWorker.readEnd ∨ fd' = w.pipeToWorker.writeEnd ∨
        fd' = w.pipeFromWorker.readEnd ∨ fd' = w.pipeFromWorker.writeEnd) → fd ≠ fd' := by
      rintro fd' hfd' rfl
      exact hj (hapart fd hfd' _ _ _ hfd)
    rw [closeRecord,
      lookup_closePipePair_of_ne (hne _ (by simp)) (hne _ (by simp)),
      lookup_closePipePair_of_ne (hne _ (by simp)) (hne _ (by simp)), hfd]
  inFlight := fun session _ => ((closeRecord_fdsOnly i w k).inFlight_eq _).le

theorem createWorkerProcess_ok (hr : createWorkerProcess i handler outcome w k = r) :
    r.ok = true ↔ outcome.toWorker = .created ∧ outcome.fromWorker = .created ∧
      outcome.fork.isSome = true := by
  subst hr
  cases outcome with
  | mk toWorker fromWorker fork =>
      cases toWorker <;> cases fromWorker <;> cases fork <;>
        simp [createWorkerProcess, createPipePair]

theorem createWorkerProcess_fresh (hr : createWorkerProcess i handler outcome w k = r)
    (hfresh : k.Fresh) : r.kernel.Fresh := by
  have hnext : Kernel.Fresh { k with sessions := k.sessions + 1 } :=
    fun channel hle => hfresh channel (Nat.le_of_succ_le hle)
  rcases (createWorkerProcess_cases i handler outcome w k hr).2 with ⟨-, h⟩ | ⟨-, h⟩
  · obtain ⟨pid, hkernel⟩ := h.kernel
    refine hkernel.fresh fun channel hle => ?_
    have hne : channel ≠ ⟨i, k.sessions⟩ := by
      rintro rfl
      exact absurd hle (Nat.not_succ_le_self _)
    obtain ⟨hto, hfrom, hchildren⟩ := hnext channel hle
    exact ⟨hto, hfrom, (Function.update_of_ne hne _ _).trans hchildren⟩
  · exact h.kernel.fresh hnext

/-- A creation disturbs no other worker. -/
theorem createWorkerProcess_quiet (hr : createWorkerProcess i handler outcome w k = r)
    {j : ℕ} (hj : j ≠ i) : Kernel.Quiet j k r.kernel := by
  have hlookup : ∀ fd session direction side,
      k.fds.lookup fd = some (.pipeEnd ⟨j, session⟩ direction side) →
        r.kernel.fds.lookup fd = some (.pipeEnd ⟨j, session⟩ direction side) :=
    fun fd session direction side hfd => createWorkerProcess_lookup hr hfd
  rcases (createWorkerProcess_cases i handler outcome w k hr).2 with ⟨-, h⟩ | ⟨-, h⟩
  · obtain ⟨pid, hkernel⟩ := h.kernel
    refine ⟨by rw [hkernel.sessions_eq]; exact Nat.le_succ _, hlookup, fun session _ => ?_⟩
    rw [hkernel.inFlight_eq]
    have hne : (⟨j, session⟩ : Channel) ≠ ⟨i, k.sessions⟩ := by
      rintro ⟨⟩
      exact hj rfl
    simp only [Kernel.inFlight, Kernel.spawn, Function.update_of_ne hne]
    exact le_rfl
  · refine ⟨by rw [h.kernel.sessions_eq]; exact Nat.le_succ _, hlookup, fun session _ => ?_⟩
    rw [h.kernel.inFlight_eq]
    exact le_rfl

/-- A new worker process starts without messages. -/
theorem createWorkerProcess_workerInv (hr : createWorkerProcess i handler outcome w k = r)
    (hfresh : k.Fresh) (hok : r.ok = true) :
    WorkerInv i r.kernel r.worker ∧ r.worker.currentTaskId = -1 := by
  rcases (createWorkerProcess_cases i handler outcome w k hr).2 with ⟨-, h⟩ | ⟨hfailed, -⟩
  · obtain ⟨pid, hkernel⟩ := h.kernel
    refine ⟨⟨fun _ => h.currentTaskId, fun _ => ⟨k.sessions, ?_, ?_, ?_, ?_⟩⟩,
      h.currentTaskId⟩
    · rw [hkernel.sessions_eq]
      exact Nat.lt_succ_self _
    · rw [h.lookup, Function.update_of_ne h.ne, Function.update_self]
    · rw [h.lookup, Function.update_self]
    · obtain ⟨hto, hfrom, -⟩ := hfresh ⟨i, k.sessions⟩ le_rfl
      rw [hkernel.inFlight_eq]
      simp only [Kernel.inFlight, Kernel.spawn, Function.update_self, hto, hfrom]
      exact Multiset.zero_le _
  · rw [hok] at hfailed
    cases hfailed

end Create

end PipePool

end ProcessThreadPool
