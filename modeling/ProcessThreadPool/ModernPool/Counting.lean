import Mathlib.Data.Fintype.Fin
import ProcessThreadPool.ModernPool.Workers

/-!
# The count of active workers

`active_workers` is used as an index: `pool_resize` fills the slots from it on and empties
the slots below it. Between two calls the started workers are therefore to be those in
the first `active_workers` slots. A call that goes wrong halfway keeps this as long as it
takes back what it has counted, which the restart of a worker does not, and
`pool_start` counts from whatever a `pool_resize` has left before it. The calls and the
handler come one after another here.
-/

namespace ProcessThreadPool

namespace ModernPool

variable {c : Config} {s t : Pool c}

/-- A call begins when the handler is done, and the handler when no call goes on. -/
def Sequential (s : Pool c) : PoolAction c → Prop
  | .poolStart _ | .poolResize _ | .poolStop | .poolDestroy | .proceed => s.handler = none
  | .workerStatus _ => s.phase = .idle
  | _ => True

/-- The runs of a pool in which the calls and the handler come one after another. -/
def sequentialCalls (c : Config) : Transition.System (Pool c) (PoolAction c) :=
  (poolManager c).restrict Sequential

/-- The number of slots that hold a started worker. -/
def startedWorkers (s : Pool c) : ℕ := (Finset.univ.filter fun i => 0 < (s.workers i).pid).card

/-- The slot that the loops of `pool_resize` are about to touch. -/
def touched : Phase → Option ℕ
  | .within (.grow target) i _ => if i < target then some i else none
  | .within (.shrink _ current) i _ => if i < current then some i else none
  | _ => none

/-- After each call `active_workers` counts the started workers, which are not too many,
and `pool_resize` stays inside of the array. -/
structure Counted (s : Pool c) : Prop where
  count : s.phase = .idle → s.handler = none → s.activeWorkers = startedWorkers s
  bounded : s.phase = .idle → s.handler = none → s.activeWorkers ≤ c.maxWorkers
  inside : ∀ i ∈ touched s.phase, i < c.maxWorkers

/-- A `pool_start` that succeeds has found no active workers. The restart of a worker
fails only in a slot that was empty, and succeeds only in one that was not. -/
def Proper (s : Pool c) : PoolAction c → Prop
  | .next _ _ =>
      match s.phase with
      | .within (.start before) i .test => c.minWorkers ≤ i → before = 0
      | _ => True
  | .handle created forked =>
      match s.handler with
      | some (i, .create) => created = false → s.activeWorkers ≤ i
      | some (i, .start) => forked.isSome = true ↔ (i : ℕ) < s.activeWorkers
      | _ => True
  | _ => True

/-- The slots that hold a started worker are those with an index in `F`. -/
def Fills (s : Pool c) (F : ℕ → Prop) : Prop := ∀ j, 0 < (s.workers j).pid ↔ F j

/-- Which slots hold a started worker in the middle of a call. -/
def Layout (s : Pool c) : Phase → Prop
  | .idle => s.activeWorkers ≤ c.maxWorkers ∧ Fills s fun j => j < s.activeWorkers
  | .destroyed => True
  | .within (.start before) i op =>
      before ≤ c.maxWorkers ∧ s.activeWorkers = before + i ∧
        (i < c.minWorkers ∨ op = .test ∧ i = c.minWorkers) ∧
        match op with
        | .test | .create => Fills s fun j => j < before ∨ j < i
        | .start | .destroy => Fills s fun j => (j < before ∨ j < i) ∧ j ≠ i
        | .stop => False
  | .within (.grow target) i op =>
      target ≤ c.maxWorkers ∧ s.activeWorkers = i ∧ (i < target ∨ op = .test ∧ i = target) ∧
        op ≠ .stop ∧ Fills s fun j => j < i
  | .within (.shrink target current) i op =>
      current ≤ c.maxWorkers ∧ target ≤ i ∧ s.activeWorkers = target + (current - i) ∧
        (i < current ∨ op = .test ∧ i = current) ∧ op ≠ .create ∧ op ≠ .start ∧
        Fills s fun j => j < target ∨ i ≤ j ∧ j < current
  | .within .undo i op | .within (.stop _) i op =>
      Emptied s i ∧ op ≠ .create ∧ op ≠ .start

/-- Which slots hold a started worker while the handler restarts one. -/
def Restarting (s : Pool c) (i : ℕ) : Op → Prop
  | .test | .stop | .destroy => Fills s fun j => j < s.activeWorkers
  | .create | .start => Fills s fun j => j < s.activeWorkers ∧ j ≠ i

/-- The started workers are where the call or the handler that goes on expects them. -/
structure SlotsAccounted (s : Pool c) : Prop where
  layout : s.handler = none → Layout s s.phase
  restarting : ∀ i op, s.handler = some (i, op) →
    s.phase = .idle ∧ s.activeWorkers ≤ c.maxWorkers ∧ Restarting s i op
  prepared : ∀ call i (h : i < c.maxWorkers), s.phase = .within call i .start →
    Placed (s.workers ⟨i, h⟩) .start
  preparedAgain : ∀ i, s.handler = some (i, .start) → Placed (s.workers i) .start

/-! ## Which slots are filled -/

namespace Fills

variable {F G : ℕ → Prop} {i : Fin c.maxWorkers} {pid : ℕ}

theorem congr (h : Fills s F) (hworkers : ∀ j, (t.workers j).pid = (s.workers j).pid)
    (hFG : ∀ j : Fin c.maxWorkers, F j ↔ G j) : Fills t G := by
  intro j
  rw [hworkers j]
  exact (h j).trans (hFG j)

/-- One slot gets another process number. -/
theorem update (h : Fills s F)
    (hworkers : ∀ j, (t.workers j).pid = if j = i then pid else (s.workers j).pid)
    (hi : 0 < pid ↔ G i) (hFG : ∀ j : Fin c.maxWorkers, j ≠ i → (F j ↔ G j)) :
    Fills t G := by
  intro j
  rw [hworkers j]
  split_ifs with hji
  · rw [hji]
    exact hi
  · exact (h j).trans (hFG j hji)

/-- One slot is cleared. -/
theorem clear (h : Fills s F)
    (hworkers : ∀ j, (t.workers j).pid = if j = i then 0 else (s.workers j).pid)
    (hG : ∀ j : Fin c.maxWorkers, G j ↔ F j ∧ (j : ℕ) ≠ i) : Fills t G := by
  refine h.update hworkers ?_ fun j hji => ?_
  · rw [hG]
    exact iff_of_false (lt_irrefl 0) fun hi => hi.2 rfl
  · rw [hG, and_iff_left]
    exact fun hval => hji (Fin.ext hval)

theorem empty (h : ∀ j, (s.workers j).pid = 0) : Fills s fun j => j < 0 := by
  intro j
  simp [h j]

theorem card_eq [DecidablePred F] (h : Fills s F) :
    startedWorkers s = (Finset.univ.filter fun i : Fin c.maxWorkers => F i).card :=
  congrArg Finset.card (Finset.filter_congr fun j _ => h j)

theorem card_lt {n : ℕ} (h : Fills s fun j => j < n) :
    startedWorkers s = min c.maxWorkers n := by
  rw [h.card_eq]
  exact Fin.card_filter_val_lt

/-- The first slots but one. -/
theorem card_erase {n : ℕ} (h : Fills s fun j => j < n ∧ j ≠ i) (hi : (i : ℕ) < n)
    (hn : n ≤ c.maxWorkers) : startedWorkers s + 1 = n := by
  have herase : (Finset.univ.filter fun j : Fin c.maxWorkers => (j : ℕ) < n ∧ (j : ℕ) ≠ i) =
      (Finset.univ.filter fun j : Fin c.maxWorkers => (j : ℕ) < n).erase i := by
    ext j
    simp [Fin.ext_iff, and_comm]
  rw [h.card_eq, herase, Finset.card_erase_add_one (by simpa using hi),
    Fin.card_filter_val_lt, Nat.min_eq_right hn]

/-- The first slots and one more. -/
theorem card_insert {n : ℕ} (h : Fills s fun j => j < n ∨ j = i) (hi : n ≤ i) :
    startedWorkers s = n + 1 := by
  have hinsert : (Finset.univ.filter fun j : Fin c.maxWorkers => (j : ℕ) < n ∨ (j : ℕ) = i) =
      insert i (Finset.univ.filter fun j : Fin c.maxWorkers => (j : ℕ) < n) := by
    ext j
    simp [Fin.ext_iff, or_comm]
  rw [h.card_eq, hinsert, Finset.card_insert_of_notMem (by simpa using hi),
    Fin.card_filter_val_lt, Nat.min_eq_right (hi.trans i.isLt.le)]

end Fills

namespace Layout

variable {i : ℕ} {call : Call} {created : Bool} {forked : Option ℕ}

/-- The loops that empty all slots go on to the first one that is not empty. -/
theorem stopStarted (hi : i < c.maxWorkers) (h : Emptied s i)
    (hcall : call = .undo ∨ ∃ destroying, call = .stop destroying) :
    Layout (stopStarted s call ⟨i, hi⟩) (stopStarted s call ⟨i, hi⟩).phase := by
  rw [ModernPool.stopStarted]
  split_ifs with hpid
  · rcases hcall with rfl | ⟨destroying, rfl⟩ <;> exact ⟨h, by simp, by simp⟩
  · have hsucc : Emptied s (i + 1) := h.succ (i := ⟨i, hi⟩) (Nat.eq_zero_of_not_pos hpid)
    rcases hcall with rfl | ⟨destroying, rfl⟩ <;> exact ⟨hsucc, by simp, by simp⟩

theorem testStep (h : Layout s (.within call i .test))
    (hproper : ∀ before, call = .start before → c.minWorkers ≤ i → before = 0)
    (hstep : ModernPool.testStep s call i = some t) : Layout t t.phase := by
  cases call with
  | start before =>
      obtain ⟨hbefore, hactive, hi, hfills⟩ := h
      simp only [ModernPool.testStep] at hstep
      split_ifs at hstep with hlt <;> obtain rfl := Option.some.inj hstep
      · exact ⟨hbefore, hactive, Or.inl hlt, hfills⟩
      · have hzero := hproper before rfl (Nat.le_of_not_lt hlt)
        have hmin := c.min_le_max
        refine ⟨?_, hfills.congr (fun _ => rfl) fun j => ?_⟩
        · show s.activeWorkers ≤ c.maxWorkers
          omega
        · show _ ↔ (j : ℕ) < s.activeWorkers
          omega
  | undo =>
      obtain ⟨hempty, -, -⟩ := h
      simp only [ModernPool.testStep] at hstep
      split_ifs at hstep with hlt <;> obtain rfl := Option.some.inj hstep
      · exact stopStarted hlt hempty (Or.inl rfl)
      · exact ⟨Nat.zero_le _, Fills.empty (hempty.all (Nat.le_of_not_lt hlt))⟩
  | grow target =>
      obtain ⟨htarget, hactive, hi, -, hfills⟩ := h
      simp only [ModernPool.testStep] at hstep
      split_ifs at hstep with hlt <;> obtain rfl := Option.some.inj hstep
      · exact ⟨htarget, hactive, Or.inl hlt, by simp, hfills⟩
      · refine ⟨?_, hfills.congr (fun _ => rfl) fun j => ?_⟩
        · show s.activeWorkers ≤ c.maxWorkers
          omega
        · show _ ↔ (j : ℕ) < s.activeWorkers
          rw [hactive]
  | shrink target current =>
      obtain ⟨hcurrent, htarget, hactive, hi, -, -, hfills⟩ := h
      simp only [ModernPool.testStep] at hstep
      split_ifs at hstep with hlt hmax <;> obtain rfl := Option.some.inj hstep
      · have hpid : 0 < (s.workers ⟨i, hmax⟩).pid :=
          (hfills ⟨i, hmax⟩).mpr (Or.inr ⟨le_rfl, hlt⟩)
        rw [ModernPool.stopStarted, if_pos hpid]
        exact ⟨hcurrent, htarget, hactive, Or.inl hlt, by simp, by simp, hfills⟩
      · refine ⟨?_, hfills.congr (fun _ => rfl) fun j => ?_⟩
        · show s.activeWorkers ≤ c.maxWorkers
          omega
        · show _ ↔ (j : ℕ) < s.activeWorkers
          omega
  | stop destroying =>
      obtain ⟨hempty, -, -⟩ := h
      simp only [ModernPool.testStep] at hstep
      split_ifs at hstep with hlt hhandler hdestroying <;> obtain rfl := Option.some.inj hstep
      · exact stopStarted hlt hempty (Or.inr ⟨destroying, rfl⟩)
      · trivial
      · exact ⟨Nat.zero_le _, Fills.empty (hempty.all (Nat.le_of_not_lt hlt))⟩

theorem createStep (h : Layout s (.within call i .create))
    (hstep : callStep s call i .create created forked = some t) : Layout t t.phase := by
  have hmin := c.min_le_max
  simp only [callStep] at hstep
  cases call with
  | start before =>
      obtain ⟨hbefore, hactive, hi, hfills⟩ := h
      split_ifs at hstep with hmax hcreated <;> obtain rfl := Option.some.inj hstep
      · exact ⟨hbefore, hactive, hi.imp_right (by simp),
          hfills.clear (fun _ => workerCreate_pid) fun _ => Iff.rfl⟩
      · exact ⟨fun _ hj => absurd hj (Nat.not_lt_zero _), by simp, by simp⟩
      · exact ⟨fun _ hj => absurd hj (Nat.not_lt_zero _), by simp, by simp⟩
  | grow target =>
      obtain ⟨htarget, hactive, hi, -, hfills⟩ := h
      have hlt : i < target := by simpa using hi
      have hclear : ∀ (created : Bool) (hmax : i < c.maxWorkers),
          Fills (workerCreate s ⟨i, hmax⟩ created) fun j => j < i := fun created hmax =>
        hfills.clear (fun _ => workerCreate_pid) fun j => ⟨fun hj => ⟨hj, hj.ne⟩, And.left⟩
      split_ifs at hstep with hmax hcreated <;> obtain rfl := Option.some.inj hstep
      · exact ⟨htarget, hactive, Or.inl hlt, by simp, hclear true hmax⟩
      · refine ⟨?_, (hclear false hmax).congr (fun _ => rfl) fun j => ?_⟩
        · show s.activeWorkers ≤ c.maxWorkers
          omega
        · show _ ↔ (j : ℕ) < s.activeWorkers
          rw [hactive]
      · exact absurd (hlt.trans_le htarget) hmax
  | shrink target current => exact absurd rfl h.2.2.2.2.1
  | undo => exact absurd rfl h.2.1
  | stop destroying => exact absurd rfl h.2.1

theorem startStep (h : Layout s (.within call i .start)) (hi : i < c.maxWorkers)
    (hstate : (s.workers ⟨i, hi⟩).state = .created)
    (hstep : callStep s call i .start created forked = some t) : Layout t t.phase := by
  simp only [callStep, dif_pos hi] at hstep
  obtain ⟨r, hr, rfl⟩ := Option.map_eq_some_iff.mp hstep
  -- the slot gets the process number of the child, or only another state
  rcases workerStart_cases hstate hr with ⟨rfl, rfl⟩ | ⟨pid, rfl, hpid, -, rfl⟩
  · have hsame : ∀ j, ((s.setSlot ⟨i, hi⟩
        { s.workers ⟨i, hi⟩ with state := .error }).workers j).pid = (s.workers j).pid :=
      fun _ => setSlot_pid_of_eq rfl
    cases call with
    | start before =>
        obtain ⟨hbefore, hactive, hlt, hfills⟩ := h
        exact ⟨hbefore, hactive, hlt.imp_right (by simp),
          hfills.congr hsame fun _ => Iff.rfl⟩
    | grow target =>
        obtain ⟨htarget, hactive, hlt, -, hfills⟩ := h
        exact ⟨htarget, hactive, hlt.imp_right (by simp), by simp,
          hfills.congr hsame fun _ => Iff.rfl⟩
    | shrink target current => exact absurd rfl h.2.2.2.2.2.1
    | undo => exact absurd rfl h.2.2
    | stop destroying => exact absurd rfl h.2.2
  · have hpos : 0 < pid := Nat.pos_of_ne_zero hpid
    have hset : ∀ j, ((Pool.setSlot { s with
        processes := Function.update s.processes pid (some .running) } ⟨i, hi⟩
          { s.workers ⟨i, hi⟩ with
            pid := pid, state := .running, monitorRunning := true }).workers j).pid =
          if j = ⟨i, hi⟩ then pid else (s.workers j).pid :=
      fun _ => setSlot_pid
    have hne : ∀ j : Fin c.maxWorkers, j ≠ ⟨i, hi⟩ → (j : ℕ) ≠ i :=
      fun j hji heq => hji (Fin.ext heq)
    -- there is a next slot, or the test of the loop will find none
    have hnext : ∀ n, i < n → i + 1 < n ∨ Op.test = .test ∧ i + 1 = n := by
      intro n hlt
      rcases Nat.lt_or_eq_of_le (Nat.succ_le_of_lt hlt) with hsucc | hsucc
      · exact Or.inl hsucc
      · exact Or.inr ⟨rfl, hsucc⟩
    cases call with
    | start before =>
        obtain ⟨hbefore, hactive, hlt, hfills⟩ := h
        have hlt' : i < c.minWorkers := by simpa using hlt
        refine ⟨hbefore, ?_, hnext _ hlt',
          hfills.update hset (iff_of_true hpos (Or.inr i.lt_succ_self)) fun j hji => ?_⟩
        · show s.activeWorkers + 1 = before + (i + 1)
          omega
        · have := hne j hji
          omega
    | grow target =>
        obtain ⟨htarget, hactive, hlt, -, hfills⟩ := h
        have hlt' : i < target := by simpa using hlt
        refine ⟨htarget, ?_, hnext _ hlt', by simp,
          hfills.update hset (iff_of_true hpos i.lt_succ_self) fun j hji => ?_⟩
        · show s.activeWorkers + 1 = i + 1
          omega
        · have := hne j hji
          omega
    | shrink target current => exact absurd rfl h.2.2.2.2.2.1
    | undo => exact absurd rfl h.2.2
    | stop destroying => exact absurd rfl h.2.2

theorem stopStep (h : Layout s (.within call i .stop))
    (hstep : callStep s call i .stop created forked = some t) : Layout t t.phase := by
  simp only [callStep] at hstep
  split_ifs at hstep with hi hdivides
  obtain rfl := Option.some.inj hstep
  have hsame : ∀ j, ((workerStop s ⟨i, hi⟩).workers j).pid = (s.workers j).pid :=
    fun _ => workerStop_pid
  have hcount : (workerStop s ⟨i, hi⟩).activeWorkers = s.activeWorkers :=
    (OnSlot.workerStop s ⟨i, hi⟩).activeWorkers
  have hemptied : Emptied s i → Emptied (workerStop s ⟨i, hi⟩) i :=
    fun hempty j hj => (hsame j).trans (hempty j hj)
  cases call with
  | undo => exact ⟨hemptied h.1, by simp, by simp⟩
  | stop destroying => exact ⟨hemptied h.1, by simp, by simp⟩
  | shrink target current =>
      obtain ⟨hcurrent, htarget, hactive, hlt, -, -, hfills⟩ := h
      exact ⟨hcurrent, htarget, hcount.trans hactive, hlt.imp_right (by simp), by simp, by simp,
        hfills.congr hsame fun _ => Iff.rfl⟩
  | start before => exact h.2.2.2.elim
  | grow target => exact absurd rfl h.2.2.2.1

theorem destroyStep (h : Layout s (.within call i .destroy))
    (hstep : callStep s call i .destroy created forked = some t) : Layout t t.phase := by
  simp only [callStep] at hstep
  split_ifs at hstep with hi
  obtain rfl := Option.some.inj hstep
  have hclear : ∀ j, ((workerDestroy s ⟨i, hi⟩).workers j).pid =
      if j = ⟨i, hi⟩ then 0 else (s.workers j).pid := fun _ => workerDestroy_pid
  have hcount : (workerDestroy s ⟨i, hi⟩).activeWorkers = s.activeWorkers :=
    (OnSlot.workerDestroy s ⟨i, hi⟩).activeWorkers
  have hemptied : Emptied s i → Emptied (workerDestroy s ⟨i, hi⟩) (i + 1) := by
    intro hempty
    have hbelow : Emptied (workerDestroy s ⟨i, hi⟩) i := by
      intro j hj
      rw [hclear j, if_neg (fun heq => hj.ne (congrArg Fin.val heq))]
      exact hempty j hj
    exact hbelow.succ (i := ⟨i, hi⟩) (by rw [hclear, if_pos rfl])
  cases call with
  | start before => exact ⟨fun _ hj => absurd hj (Nat.not_lt_zero _), by simp, by simp⟩
  | undo => exact ⟨hemptied h.1, by simp, by simp⟩
  | stop destroying => exact ⟨hemptied h.1, by simp, by simp⟩
  | grow target =>
      obtain ⟨htarget, hactive, hlt, -, hfills⟩ := h
      refine ⟨?_, hfills.clear hclear fun j => ?_⟩
      · show (workerDestroy s ⟨i, hi⟩).activeWorkers ≤ c.maxWorkers
        omega
      · show (j : ℕ) < (workerDestroy s ⟨i, hi⟩).activeWorkers ↔ _
        rw [hcount, hactive]
        exact ⟨fun hj => ⟨hj, hj.ne⟩, And.left⟩
  | shrink target current =>
      obtain ⟨hcurrent, htarget, hactive, hlt, -, -, hfills⟩ := h
      have hlt' : i < current := by simpa using hlt
      refine ⟨hcurrent, ?_, ?_, ?_, by simp, by simp, hfills.clear hclear fun j => ?_⟩
      · exact htarget.trans i.le_succ
      · show (workerDestroy s ⟨i, hi⟩).activeWorkers - 1 = target + (current - (i + 1))
        omega
      · rcases Nat.lt_or_eq_of_le (Nat.succ_le_of_lt hlt') with hsucc | hsucc
        · exact Or.inl hsucc
        · exact Or.inr ⟨rfl, hsucc⟩
      · show (j : ℕ) < target ∨ i + 1 ≤ (j : ℕ) ∧ (j : ℕ) < current ↔
          ((j : ℕ) < target ∨ i ≤ (j : ℕ) ∧ (j : ℕ) < current) ∧ (j : ℕ) ≠ i
        omega

theorem congr {phase : Phase} (h : Layout s phase)
    (hpid : ∀ j, (t.workers j).pid = (s.workers j).pid)
    (hactive : t.activeWorkers = s.activeWorkers) : Layout t phase := by
  rcases phase with _ | ⟨call, i, op⟩ | _
  · simpa only [Layout, Fills, hpid, hactive] using h
  · cases call <;> cases op <;> simpa only [Layout, Fills, Emptied, hpid, hactive] using h
  · trivial

theorem opening (h : Layout s .idle) {l : PoolAction c} {phase : Phase}
    (hopening : Opening s l phase) : Layout s phase := by
  have hmin := c.minWorkers_pos
  obtain ⟨hactive, hfills⟩ := h
  cases hopening with
  | idle => exact ⟨hactive, hfills⟩
  | start _ =>
      refine ⟨hactive, rfl, Or.inl hmin, hfills.congr (fun _ => rfl) fun j => ?_⟩
      show _ ↔ (j : ℕ) < s.activeWorkers ∨ (j : ℕ) < 0
      omega
  | grow hlt hle => exact ⟨hle, rfl, Or.inl hlt, by simp, hfills⟩
  | @shrink target hlt =>
      refine ⟨hactive, le_rfl, by omega, Or.inl hlt, by simp, by simp,
        hfills.congr (fun _ => rfl) fun j => ?_⟩
      show _ ↔ (j : ℕ) < target ∨ target ≤ j ∧ (j : ℕ) < s.activeWorkers
      omega
  | stop destroying => exact ⟨fun _ hj => absurd hj (Nat.not_lt_zero _), by simp, by simp⟩
  | destroy _ _ => trivial

theorem start_of_counted {before i : ℕ} (h : Layout s (.within (.start before) i .test))
    (hi : c.minWorkers ≤ i) (hstep : ModernPool.testStep s (.start before) i = some t)
    (hnone : t.handler = none) (hcounted : Counted t) : before = 0 := by
  obtain ⟨-, hactive, hlast, hfills⟩ := h
  simp only [ModernPool.testStep, if_neg (Nat.not_lt_of_le hi), Option.some.injEq] at hstep
  subst hstep
  have hmax : Fills s fun j => j < max before i :=
    hfills.congr (fun _ => rfl) fun j => lt_max_iff.symm
  have hcount : s.activeWorkers = startedWorkers s := hcounted.count rfl hnone
  have hmin := c.minWorkers_pos
  rw [hmax.card_lt] at hcount
  omega

end Layout

/-- Only `worker_create` leads to `worker_start`. -/
theorem callStep_start {call call' : Call} {n k : ℕ} {op : Op} {created : Bool}
    {forked : Option ℕ} (hstep : callStep s call n op created forked = some t)
    (hphase : t.phase = .within call' k .start) :
    k = n ∧ ∃ h : n < c.maxWorkers, t.workers = (workerCreate s ⟨n, h⟩ true).workers := by
  cases op with
  | create =>
      simp only [callStep] at hstep
      split_ifs at hstep with h hcreated <;> obtain rfl := Option.some.inj hstep
      · cases hphase
        exact ⟨rfl, h, rfl⟩
      · cases call <;> cases hphase
      · cases call <;> cases hphase
  | test =>
      simp only [callStep] at hstep
      rcases testStep_phase hstep with hp | ⟨hp, -⟩ | ⟨hp, -⟩ | hp | ⟨hp, -⟩ <;>
        rw [hp] at hphase <;> cases hphase
  | start =>
      simp only [callStep] at hstep
      split_ifs at hstep
      obtain ⟨⟨r, b⟩, -, rfl⟩ := Option.map_eq_some_iff.mp hstep
      cases call <;> cases b <;> cases hphase
  | stop =>
      simp only [callStep] at hstep
      split_ifs at hstep
      obtain rfl := Option.some.inj hstep
      cases hphase
  | destroy =>
      simp only [callStep] at hstep
      split_ifs at hstep
      obtain rfl := Option.some.inj hstep
      cases call <;> cases hphase

namespace SlotsAccounted

theorem create : SlotsAccounted (Pool.create c) where
  layout := fun _ => ⟨Nat.zero_le _, Fills.empty fun _ => rfl⟩
  restarting := fun _ _ hhandler => by cases hhandler
  prepared := fun _ _ _ hphase => by cases hphase
  preparedAgain := fun _ hhandler => by cases hhandler

theorem handler_none (h : SlotsAccounted s) (hphase : s.phase ≠ .idle) : s.handler = none := by
  cases hhandler : s.handler with
  | none => rfl
  | some r => exact absurd (h.restarting r.1 r.2 hhandler).1 hphase

theorem callStep {call : Call} {n : ℕ} {op : Op} {created : Bool} {forked : Option ℕ}
    (h : SlotsAccounted s) (hphase : s.phase = .within call n op)
    (hproper : Proper s (.next created forked))
    (hstep : callStep s call n op created forked = some t) : SlotsAccounted t := by
  have hnone : s.handler = none := h.handler_none (by simp [hphase])
  have hnone' : t.handler = none := (callStep_aside hstep).1.trans hnone
  have hlayout := h.layout hnone
  rw [hphase] at hlayout
  simp only [Proper, hphase] at hproper
  refine ⟨fun _ => ?_, by simp [hnone'], fun call' k hk hp => ?_, by simp [hnone']⟩
  · cases op with
    | test =>
        refine hlayout.testStep ?_ hstep
        rintro before rfl
        exact hproper
    | create => exact hlayout.createStep hstep
    | start =>
        have hn : n < c.maxWorkers := by
          by_contra hn
          simp [ModernPool.callStep, hn] at hstep
        exact hlayout.startStep hn (h.prepared call n hn hphase).2.1 hstep
    | stop => exact hlayout.stopStep hstep
    | destroy => exact hlayout.destroyStep hstep
  · obtain ⟨rfl, _, hworkers⟩ := callStep_start hstep hp
    rw [hworkers]
    exact placed_workerCreate s ⟨k, hk⟩ true

/-- A step of the handler at slot `i`. -/
theorem of_handlerStep {i : Fin c.maxWorkers} {op : Op} (h : SlotsAccounted s)
    (hhandler : s.handler = some (i, op)) (hbehind : Behind i s t)
    (hnone : t.handler = none → Fills t fun j => j < s.activeWorkers)
    (hsome : ∀ j op', t.handler = some (j, op') →
      Restarting t j op' ∧ (op' = .start → Placed (t.workers j) .start)) : SlotsAccounted t := by
  obtain ⟨hidle, hactive, -⟩ := h.restarting i op hhandler
  have hidle' : t.phase = .idle := hbehind.phase.trans hidle
  have hactive' : t.activeWorkers ≤ c.maxWorkers := hbehind.activeWorkers.trans_le hactive
  refine ⟨fun hnone' => ?_, fun j op' hj => ⟨hidle', hactive', (hsome j op' hj).1⟩,
    by simp [hidle'], fun j hj => (hsome j .start hj).2 rfl⟩
  rw [hidle']
  refine ⟨hactive', ?_⟩
  rw [hbehind.activeWorkers]
  exact hnone hnone'

theorem handlerStep {i : Fin c.maxWorkers} {op : Op} {created : Bool} {forked : Option ℕ}
    (h : SlotsAccounted s) (hhandler : s.handler = some (i, op))
    (hproper : Proper s (.handle created forked))
    (hstep : handlerStep s i op created forked = some t) : SlotsAccounted t := by
  have hbehind := handlerStep_behind hstep
  obtain ⟨hidle, hactive, hfills⟩ := h.restarting i op hhandler
  simp only [Proper, hhandler] at hproper
  cases op with
  | test =>
      simp only [ModernPool.handlerStep] at hstep
      split_ifs at hstep <;> obtain rfl := Option.some.inj hstep
      · exact h.of_handlerStep hhandler hbehind (fun _ => hfills) fun j op' hj => by cases hj
      · refine h.of_handlerStep hhandler hbehind (fun hj => by cases hj) fun j op' hj => ?_
        cases hj
        exact ⟨hfills, by simp⟩
  | stop =>
      have hfirst : Fills s fun j => j < s.activeWorkers := hfills
      obtain rfl := Option.some.inj hstep
      have hkept : Fills (workerStop s i) fun j => j < (workerStop s i).activeWorkers := by
        rw [(OnSlot.workerStop s i).activeWorkers]
        exact hfirst.congr (fun _ => workerStop_pid) fun _ => Iff.rfl
      refine h.of_handlerStep hhandler hbehind (fun hj => by cases hj) fun j op' hj => ?_
      cases hj
      exact ⟨hkept, by simp⟩
  | destroy =>
      have hfirst : Fills s fun j => j < s.activeWorkers := hfills
      obtain rfl := Option.some.inj hstep
      have hclear : Fills (workerDestroy s i)
          fun j => j < (workerDestroy s i).activeWorkers ∧ j ≠ i := by
        rw [(OnSlot.workerDestroy s i).activeWorkers]
        exact hfirst.clear (fun _ => workerDestroy_pid) fun _ => Iff.rfl
      refine h.of_handlerStep hhandler hbehind (fun hj => by cases hj) fun j op' hj => ?_
      cases hj
      exact ⟨hclear, by simp⟩
  | create =>
      have hothers : Fills s fun j => j < s.activeWorkers ∧ j ≠ i := hfills
      have hclear : Fills (workerCreate s i created) fun j => j < s.activeWorkers ∧ j ≠ i :=
        hothers.clear (fun _ => workerCreate_pid) fun _ => ⟨fun hj => ⟨hj, hj.2⟩, And.left⟩
      obtain rfl := Option.some.inj hstep
      refine h.of_handlerStep hhandler hbehind (fun hnone => ?_) fun j op' hj => ?_
      · have hfailed : created = false := by
          cases created with
          | true => cases hnone
          | false => rfl
        have hle := hproper hfailed
        exact hclear.congr (fun _ => rfl) fun j =>
          ⟨And.left, fun hj => ⟨hj, (lt_of_lt_of_le hj hle).ne⟩⟩
      · cases created with
        | true =>
            cases hj
            exact ⟨hclear, fun _ => placed_workerCreate s i true⟩
        | false => cases hj
  | start =>
      have hothers : Fills s fun j => j < s.activeWorkers ∧ j ≠ i := hfills
      obtain ⟨r, hr, rfl⟩ := Option.map_eq_some_iff.mp hstep
      have hstate := (h.preparedAgain i hhandler).2.1
      refine h.of_handlerStep hhandler hbehind (fun _ => ?_) fun j op' hj => by cases hj
      rcases workerStart_cases hstate hr with ⟨rfl, rfl⟩ | ⟨pid, rfl, hpid, -, rfl⟩
      · have hle : ¬ (i : ℕ) < s.activeWorkers :=
          fun hlt => absurd (hproper.mpr hlt) Bool.false_ne_true
        exact hothers.congr (fun _ => setSlot_pid_of_eq rfl)
          fun j => ⟨And.left, fun hj => ⟨hj, fun heq => hle (heq ▸ hj)⟩⟩
      · have hlt : (i : ℕ) < s.activeWorkers := hproper.mp rfl
        exact hothers.update (fun _ => setSlot_pid)
          (iff_of_true (Nat.pos_of_ne_zero hpid) hlt)
          fun j hji => and_iff_left fun heq => hji (Fin.ext heq)

theorem opening {l : PoolAction c} (h : SlotsAccounted s) (hidle : s.phase = .idle)
    (hnone : s.handler = none) (hbegin : beginStep s l = some t) : SlotsAccounted t := by
  obtain ⟨hworkers, -, hactive, hhandler, hopening⟩ := beginStep_opening hidle hbegin
  have hlayout := h.layout hnone
  rw [hidle] at hlayout
  have hnone' : t.handler = none := hhandler.trans hnone
  refine ⟨fun _ => (hlayout.opening hopening).congr (fun j => by rw [hworkers]) hactive,
    by simp [hnone'], fun call k hk hp => ?_, by simp [hnone']⟩
  rw [hp] at hopening
  cases hopening

theorem workerStatus {i : Fin c.maxWorkers} (h : SlotsAccounted s) (hidle : s.phase = .idle)
    (hnone : s.handler = none) : SlotsAccounted { s with handler := some (i, .test) } := by
  have hlayout := h.layout hnone
  rw [hidle] at hlayout
  refine ⟨fun hj => (by cases hj), fun j op hj => ?_, h.prepared, fun j hj => by cases hj⟩
  cases hj
  exact ⟨hidle, hlayout.1, hlayout.2⟩

theorem unattended (h : SlotsAccounted s) (hst : Unattended s t) : SlotsAccounted t where
  layout := by
    intro hnone
    rw [hst.handler] at hnone
    rw [hst.phase]
    exact (h.layout hnone).congr hst.pid hst.activeWorkers
  restarting := by
    intro i op hhandler
    rw [hst.handler] at hhandler
    obtain ⟨hidle, hactive, hfills⟩ := h.restarting i op hhandler
    refine ⟨hst.phase.trans hidle, hst.activeWorkers.trans_le hactive, ?_⟩
    cases op <;> simpa only [Restarting, Fills, hst.pid, hst.activeWorkers] using hfills
  prepared := fun call i hi hphase =>
    (h.prepared call i hi (hst.phase ▸ hphase)).unattended hst
  preparedAgain := fun i hhandler => (h.preparedAgain i (hst.handler ▸ hhandler)).unattended hst

theorem step {l : PoolAction c} (h : SlotsAccounted s) (hproper : Proper s l)
    (hstep : (sequentialCalls c).step s l t) : SlotsAccounted t := by
  obtain ⟨hsequential, hstep⟩ := hstep
  cases poolStep_moves hstep with
  | call hphase hcall => exact h.callStep hphase hproper hcall
  | handler hhandler hstep => exact h.handlerStep hhandler hproper hstep
  | opening hidle hbegin =>
      refine h.opening hidle ?_ hbegin
      cases l <;> first | exact hsequential | cases hbegin
  | workerStatus _ hnone => exact h.workerStatus hsequential hnone
  | unattended _ _ hst => exact h.unattended hst

theorem counted (h : SlotsAccounted s) : Counted s where
  count := by
    intro hidle hnone
    have hlayout := h.layout hnone
    rw [hidle] at hlayout
    rw [hlayout.2.card_lt, Nat.min_eq_right hlayout.1]
  bounded := by
    intro hidle hnone
    have hlayout := h.layout hnone
    rw [hidle] at hlayout
    exact hlayout.1
  inside := by
    intro k hk
    cases hphase : s.phase with
    | within call i op =>
        have hlayout := h.layout (h.handler_none (by simp [hphase]))
        rw [hphase] at hlayout hk
        cases call with
        | grow target =>
            simp only [touched] at hk
            split_ifs at hk with hlt
            · cases hk
              exact hlt.trans_le hlayout.1
            · cases hk
        | shrink target current =>
            simp only [touched] at hk
            split_ifs at hk with hlt
            · cases hk
              exact hlt.trans_le hlayout.1
            · cases hk
        | _ => cases hk
    | _ =>
        rw [hphase] at hk
        cases hk

/-! ## A restart that spoils the count -/

variable {i : Fin c.maxWorkers} {created : Bool} {forked : Option ℕ}

theorem create_of_counted (h : SlotsAccounted s) (hhandler : s.handler = some (i, .create))
    (hstep : ModernPool.handlerStep s i .create false forked = some t) (hcounted : Counted t) :
    s.activeWorkers ≤ i := by
  obtain ⟨hidle, hactive, hfills⟩ := h.restarting i _ hhandler
  have hothers : Fills s fun j => j < s.activeWorkers ∧ j ≠ i := hfills
  obtain rfl := Option.some.inj hstep
  by_contra hlt
  have hclear : Fills (workerCreate s i false) fun j => j < s.activeWorkers ∧ j ≠ i :=
    hothers.clear (fun _ => workerCreate_pid) fun _ => ⟨fun hj => ⟨hj, hj.2⟩, And.left⟩
  have hcount : s.activeWorkers = startedWorkers (workerCreate s i false) :=
    hcounted.count hidle rfl
  have hcard := hclear.card_erase (Nat.lt_of_not_le hlt) hactive
  omega

theorem restart_of_counted (h : SlotsAccounted s) (hhandler : s.handler = some (i, .start))
    (hstep : ModernPool.handlerStep s i .start created forked = some t) (hcounted : Counted t) :
    forked.isSome = true ↔ (i : ℕ) < s.activeWorkers := by
  obtain ⟨hidle, hactive, hfills⟩ := h.restarting i _ hhandler
  have hothers : Fills s fun j => j < s.activeWorkers ∧ j ≠ i := hfills
  have hstate := (h.preparedAgain i hhandler).2.1
  obtain ⟨r, hr, rfl⟩ := Option.map_eq_some_iff.mp hstep
  rcases workerStart_cases hstate hr with ⟨rfl, rfl⟩ | ⟨pid, rfl, hpid, -, rfl⟩
  · refine iff_of_false (by simp) fun hlt => ?_
    have hsame : Fills (s.setSlot i { s.workers i with state := .error })
        fun j => j < s.activeWorkers ∧ j ≠ i :=
      hothers.congr (fun _ => setSlot_pid_of_eq rfl) fun _ => Iff.rfl
    have hcount : s.activeWorkers = startedWorkers
        (s.setSlot i { s.workers i with state := .error }) := hcounted.count hidle rfl
    have hcard := hsame.card_erase hlt hactive
    omega
  · refine iff_of_true rfl (Nat.lt_of_not_le fun hle => ?_)
    have hset : Fills (Pool.setSlot { s with
        processes := Function.update s.processes pid (some .running) } i
          { s.workers i with pid := pid, state := .running, monitorRunning := true })
        fun j => j < s.activeWorkers ∨ j = i := by
      refine hothers.update (fun _ => setSlot_pid)
        (iff_of_true (Nat.pos_of_ne_zero hpid) (Or.inr rfl)) fun j hji => ?_
      have hne : (j : ℕ) ≠ i := fun heq => hji (Fin.ext heq)
      exact (and_iff_left hne).trans (or_iff_left hne).symm
    have hcount := hcounted.count hidle rfl
    have hcard := hset.card_insert hle
    have hactive' : s.activeWorkers = s.activeWorkers + 1 := hcount.trans hcard
    omega

theorem proper_of_counted {l : PoolAction c} (h : SlotsAccounted s)
    (hstep : (sequentialCalls c).step s l t) (hcounted : Counted t) : Proper s l := by
  obtain ⟨-, hstep⟩ := hstep
  cases l with
  | next created forked =>
      simp only [Proper]
      split
      · next before i hphase =>
          have hlayout := h.layout (h.handler_none (by simp [hphase]))
          rw [hphase] at hlayout
          have hcall : ModernPool.callStep s (.start before) i .test created forked = some t := by
            simpa only [poolManager, Transition.System.ofFun, Pool.step, hphase] using hstep
          have hnone : t.handler = none :=
            (callStep_aside hcall).1.trans (h.handler_none (by simp [hphase]))
          exact fun hi => hlayout.start_of_counted hi hcall hnone hcounted
      · trivial
  | handle created forked =>
      obtain ⟨⟨i, op⟩, hhandler, hstep⟩ := Option.bind_eq_some_iff.mp hstep
      simp only [Proper, hhandler]
      cases op with
      | create =>
          rintro rfl
          exact h.create_of_counted hhandler hstep hcounted
      | start => exact h.restart_of_counted hhandler hstep hcounted
      | _ => trivial
  | _ => trivial

end SlotsAccounted

/-- The count of the active workers is right after every call of a run exactly when each
restart of a worker succeeds, unless its slot was empty to begin with and stays so, and no
`pool_start` succeeds that has found active workers. -/
theorem counted_run_iff {ls : List (PoolAction c)} :
    Transition.Run ((sequentialCalls c).filter fun _ _ t => Counted t) (Pool.create c) ls s ↔
      Transition.Run ((sequentialCalls c).restrict Proper) (Pool.create c) ls s := by
  refine Transition.run_filter_iff_restrict (I := SlotsAccounted) ?_ ?_ SlotsAccounted.create
  · exact fun s l t h hproper hstep => h.step hproper hstep
  · exact fun s l t h hstep =>
      ⟨h.proper_of_counted hstep, fun hproper => (h.step hproper hstep).counted⟩

/-- A worker has stopped heartbeating, and `worker_create` fails in its restart. -/
theorem miscounted_by_restart : ∃ s : Pool Config.single,
    Transition.Reachable (sequentialCalls Config.single) s ∧ ¬ Counted s := by
  have hgo : ∀ {s t : Pool Config.single}, Transition.Reachable (sequentialCalls _) s →
      ∀ l, Sequential s l → s.step l = some t → Transition.Reachable (sequentialCalls _) t :=
    fun h _ hsequential hstep => h.step ⟨hsequential, hstep⟩
  have h := hgo ⟨_, [], rfl, .nil _⟩ (.poolStart true) rfl rfl
  have h := hgo h (.next true none) trivial rfl
  have h := hgo h (.next true none) trivial rfl
  have h := hgo h (.next true (some 7)) trivial rfl
  have h := hgo h (.next true none) trivial rfl
  have h := hgo h (.expire ⟨0, Nat.one_pos⟩) trivial rfl
  have h := hgo h (.workerStatus ⟨0, Nat.one_pos⟩) rfl rfl
  have h := hgo h (.handle true none) trivial rfl
  have h := hgo h (.handle true none) trivial rfl
  have h := hgo h (.handle true none) trivial rfl
  have h := hgo h (.handle false none) trivial rfl
  refine ⟨_, h, fun hcounted => ?_⟩
  have hcount := hcounted.count rfl rfl
  revert hcount
  decide

end ModernPool

end ProcessThreadPool
