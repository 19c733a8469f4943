import ProcessThreadPool.Lib.Progress
import ProcessThreadPool.TrainFile.FileServer

/-!
# The threaded file server serves, and ends

`main` broadcasts the condition inside each of its critical sections, so a worker sleeps only
while the queue is empty and the flag is not set. As long as the file can be opened and read,
every accepted connection is handed to a worker, and once the flag is set the joins of `main`
come to an end; what is still queued then is neither served nor closed. A worker that cannot
open the file does not leave its loop, and `main` waits for it for ever.
-/

namespace ProcessThreadPool

namespace TrainFile

namespace FileServer

open ConnectionQueue (Server Phase)
open ThreadFamily

/-- The file is opened and read without failures. -/
def Action.succeeds {α : Type*} {n : ℕ} : Action α n → Bool
  | .open _ ok _ | .read _ ok => ok
  | _ => true

section

variable {α : Type*} [DecidableEq α] {n parts : ℕ} {s t : State α n}

/-- The runs in which the file can be opened and read. -/
def healthy (n parts : ℕ) : Transition.System (State α n) (Action α n) :=
  (fileServer n parts).restrict fun s l => Counted s l ∧ l.succeeds = true

/-- Where `main` stands tells whether the flag is set and who has been joined. -/
def MasterOk (core : Server α (Fin n)) : Master → Prop
  | .polling | .accepted _ => core.exitFlag = 0 ∧ ∀ i, core.workers i ≠ .exited
  | .joining k => core.exitFlag = 1 ∧ ∀ i : Fin n, i.val < k → core.workers i = .exited
  | .exited => core.exitFlag = 1 ∧ ∀ i, core.workers i = .exited

/-- Who sleeps has nothing to do, and the master is where the flag says. -/
structure Attended (s : State α n) : Prop where
  accounted : Accounted s
  asleep : ∀ i, s.asleep i = true → s.core.workers i = .entering ∧ mustWait s.core = true
  master : MasterOk s.core s.master

omit [DecidableEq α] in
theorem MasterOk.joined {core : Server α (Fin n)} {k : ℕ} (h : MasterOk core (.joining k))
    {hk : k < n} (hexited : core.workers ⟨k, hk⟩ = .exited) :
    MasterOk core (.joining (k + 1)) := by
  refine ⟨h.1, fun i hi => ?_⟩
  by_cases heq : i.val = k
  · obtain rfl : i = ⟨k, hk⟩ := Fin.ext heq
    exact hexited
  · exact h.2 i (by omega)

omit [DecidableEq α] in
/-- A worker that has not exited moves to where it has not exited, or the flag is set. -/
theorem MasterOk.move {core core' : Server α (Fin n)} {m : Master} (h : MasterOk core m)
    {i : Fin n} {phase : Phase} (hflag : core'.exitFlag = core.exitFlag)
    (hworkers : core'.workers = Function.update core.workers i phase)
    (hold : core.workers i ≠ .exited) (hnew : core.exitFlag = 0 → phase ≠ .exited) :
    MasterOk core' m := by
  have hopen : core.exitFlag = 0 → (∀ j, core.workers j ≠ .exited) →
      ∀ j, core'.workers j ≠ .exited := by
    intro hzero hall
    rw [hworkers]
    exact forall_update (P := fun _ phase => phase ≠ Phase.exited) hall (hnew hzero)
  have hkeep : ∀ j, core.workers j = .exited → core'.workers j = .exited := by
    intro j hj
    have hji : j ≠ i := by
      rintro rfl
      exact hold hj
    rw [hworkers, Function.update_of_ne hji, hj]
  cases m with
  | polling | accepted => exact ⟨hflag.trans h.1, hopen h.1 h.2⟩
  | joining k => exact ⟨hflag.trans h.1, fun j hj => hkeep j (h.2 j hj)⟩
  | exited => exact ⟨hflag.trans h.1, fun j => hkeep j (h.2 j)⟩

namespace Attended

omit [DecidableEq α] in
theorem start : Attended (State.start : State α n) where
  accounted := Accounted.start
  asleep := nofun
  master := ⟨rfl, nofun⟩

omit [DecidableEq α] in
theorem awake (h : Attended s) (hwait : mustWait s.core = false) (i : Fin n) :
    s.asleep i = false := by
  rw [Bool.eq_false_iff]
  intro hi
  rw [(h.asleep i hi).2] at hwait
  cases hwait

theorem step (h : Attended s) {l : Action α n} (hcounted : Counted s l)
    (hstep : s.step parts l = some t) : Attended t := by
  refine ⟨h.accounted.step hcounted hstep, ?_, ?_⟩
  · cases step_moves hstep with
    | enQueue | exit => nofun
    | @enter i core hawake hcore =>
        have hall : mustWait s.core = false → ∀ j,
            Function.update s.asleep i (mustWait s.core) j = false := by
          intro hwait
          rw [hwait]
          exact forall_update (P := fun _ b => b = false) (h.awake hwait) rfl
        obtain ⟨hw, ⟨hwait, rfl⟩ | ⟨hwait, -, -⟩ | ⟨netfd, heap, q, hwait, -, -, -⟩⟩ :=
          enter_core h.accounted.faithful hcore
        · intro j hj
          by_cases hji : j = i
          · subst hji
            exact ⟨hw, hwait⟩
          · exact h.asleep j (by rwa [← Function.update_of_ne hji (mustWait s.core) s.asleep])
        · intro j hj
          cases hj.symm.trans (hall hwait j)
        · intro j hj
          cases hj.symm.trans (hall hwait j)
    | @close i netfd hw ht =>
        intro j hj
        obtain ⟨hentering, hwait⟩ := h.asleep j hj
        have hji : j ≠ i := by
          rintro rfl
          rw [hw] at hentering
          cases hentering
        exact ⟨(Function.update_of_ne hji _ _).trans hentering, hwait⟩
    | @wake i =>
        intro j hj
        by_cases hji : j = i
        · subst hji
          cases hj.symm.trans (Function.update_self j false s.asleep)
        · exact h.asleep j (by rwa [← Function.update_of_ne hji false s.asleep])
    | _ => exact h.asleep
  · have hm := h.master
    cases step_moves hstep with
    | accept hpolling | acceptFails hpolling =>
        rw [hpolling] at hm
        exact hm
    | enQueue haccepted hcore =>
        obtain ⟨-, hflag, hworkers, -, -⟩ := accept_core hcore
        rw [haccepted] at hm
        refine ⟨hflag, ?_⟩
        rw [hworkers]
        exact hm.2
    | exit hpolling hzero => exact ⟨rfl, fun i hi => absurd hi (Nat.not_lt_zero _)⟩
    | join hjoining hk hexited =>
        rw [hjoining] at hm
        exact hm.joined hexited
    | done hjoining hk =>
        rw [hjoining] at hm
        exact ⟨hm.1, fun i => hm.2 i (i.isLt.trans_le (Nat.le_of_not_lt hk))⟩
    | @enter i core hawake hcore =>
        obtain ⟨hw, ⟨-, rfl⟩ | ⟨-, hflag, rfl⟩ | ⟨netfd, heap, q, -, -, -, rfl⟩⟩ :=
          enter_core h.accounted.faithful hcore
        · exact hm
        · refine hm.move (i := i) rfl rfl (by rw [hw]; nofun) fun hzero => ?_
          rw [hzero] at hflag
          cases hflag
        · exact hm.move (i := i) rfl rfl (by rw [hw]; nofun) fun _ => nofun
    | @close i netfd hw ht =>
        exact hm.move (i := i) rfl rfl (by rw [hw]; nofun) fun _ => nofun
    | _ => exact hm

end Attended

/-! ## The steps of the workers -/

/-- The steps that are left to a worker before it comes back to its critical section, and that
one. -/
def left (parts : ℕ) : Phase × Transfer → ℕ
  | (.serving _, .opening) => parts + 4
  | (.serving _, .reading count) => count + 3
  | (.serving _, .sent) => 2
  | (.serving _, .unopened) => 0
  | (.entering, _) => 1
  | (.exited, _) => 0

/-- A step of a worker. -/
def Action.byWorker : Action α n → Bool
  | .enter _ | .open _ _ _ | .read _ _ | .close _ => true
  | _ => false

/-- No worker is in a loop that has no end. -/
def Opened (s : State α n) : Prop := ∀ i, s.transfers i ≠ .unopened

omit [DecidableEq α] in
theorem Opened.start : Opened (State.start : State α n) := fun _ => nofun

theorem Opened.step (h : Opened s) {l : Action α n} (hok : l.succeeds = true)
    (hstep : s.step parts l = some t) : Opened t := by
  have hset : ∀ {i : Fin n} {transfer : Transfer}, transfer ≠ .unopened →
      ∀ j, Function.update s.transfers i transfer j ≠ .unopened :=
    fun hne => forall_update (P := fun _ transfer => transfer ≠ Transfer.unopened) h hne
  cases step_moves hstep with
  | enter | «open» => exact hset nofun
  | openFails => cases hok
  | @read i netfd count => exact hset (by cases count <;> exact nofun)
  | _ => exact h

/-- A worker that has a connection or finds its critical section open goes on. -/
theorem worker_enabled (h : Attended s) (hopened : Opened s) (hwait : mustWait s.core = false)
    {i : Fin n} (hi : s.core.workers i ≠ .exited) :
    ∃ l t, Action.byWorker l = true ∧ l.succeeds = true ∧ Counted s l ∧
      s.step parts l = some t := by
  cases hw : s.core.workers i with
  | exited => exact absurd hw hi
  | entering =>
      obtain ⟨nodes, fds, hfifo⟩ := h.accounted.faithful.isFifo
      obtain ⟨r, hr⟩ := Option.isSome_iff_exists.mp hfifo.section_ok
      have hcore : s.core.step (.enter i) = some (s.core.entered i r) := by
        simp only [Server.step, hw, if_true, hr, Option.map_some]
      refine ⟨.enter i, { s with
          core := s.core.entered i r
          asleep := Function.update s.asleep i (mustWait s.core)
          transfers := Function.update s.transfers i .opening }, rfl, rfl, trivial, ?_⟩
      simp only [State.step, h.awake hwait i, hcore, Option.map_some, Bool.false_eq_true,
        if_false]
  | serving netfd =>
      cases ht : s.transfers i with
      | unopened => exact absurd ht (hopened i)
      | opening =>
          refine ⟨.open i true 0, openStep s i true 0, rfl, rfl, trivial, ?_⟩
          simp only [State.step, hw, ht, Nat.zero_le, if_true]
      | reading count =>
          refine ⟨.read i true, { s with
            transfers := Function.update s.transfers i (afterRead count) }, rfl, rfl, trivial, ?_⟩
          simp only [State.step, hw, ht, if_true]
      | sent =>
          refine ⟨.close i, { s with
            core := { s.core with workers := Function.update s.core.workers i .entering }
            table := s.table.close netfd
            closed := s.closed ++ (s.object netfd).toList }, rfl, rfl, trivial, ?_⟩
          simp only [State.step, hw, ht, Server.step, Option.map_some]

/-- What a step costs: while no worker has to wait, a worker comes nearer to its next critical
section, or it takes a connection. -/
theorem spend (h : Accounted s) (hopened : Opened s) (hwait : mustWait s.core = false)
    {l : Action α n} (hok : l.succeeds = true) (hstep : s.step parts l = some t) :
    total (left parts) t.threads + l.byWorker.toNat +
        (parts + 6) * s.core.handed.length ≤
      total (left parts) s.threads + (parts + 6) * t.core.handed.length := by
  have hmove : ∀ {i : Fin n} {a : Phase × Transfer},
      t.threads = Function.update s.threads i a → t.core.handed = s.core.handed →
        left parts a + 1 ≤ left parts (s.threads i) →
          total (left parts) t.threads + 1 + (parts + 6) * s.core.handed.length ≤
            total (left parts) s.threads + (parts + 6) * t.core.handed.length := by
    intro i a hthreads hhanded hle
    have htotal := total_update_add (left parts) s.threads i a
    rw [hthreads, hhanded]
    omega
  have hframe : t.threads = s.threads → t.core.handed = s.core.handed →
      total (left parts) t.threads + 0 + (parts + 6) * s.core.handed.length ≤
        total (left parts) s.threads + (parts + 6) * t.core.handed.length := by
    intro hthreads hhanded
    rw [hthreads, hhanded, Nat.add_zero]
  cases step_moves hstep with
  | enQueue hm hcore =>
      obtain ⟨-, -, hworkers, -, hhanded⟩ := accept_core hcore
      exact hframe (by funext i; simp only [State.threads, hworkers]) hhanded
  | @enter i core hawake hcore =>
      obtain ⟨hw, ⟨hwait', -⟩ | ⟨-, -, rfl⟩ | ⟨netfd, heap, q, -, -, -, rfl⟩⟩ :=
        enter_core h.faithful hcore
      · rw [hwait] at hwait'
        cases hwait'
      · refine hmove (threads_update (i := i) _ _ rfl rfl) rfl ?_
        rw [State.threads, hw]
        exact le_rfl
      · have hthreads := threads_update (s := s) (t := { s with
            core := { s.core with
              heap := heap
              taskQueue := q
              workers := Function.update s.core.workers i (.serving netfd)
              handed := s.core.handed ++ [(i, netfd)] }
            asleep := Function.update s.asleep i (mustWait s.core)
            transfers := Function.update s.transfers i .opening }) (i := i) _ _ rfl rfl
        have htotal := total_update_add (left parts) s.threads i (.serving netfd, .opening)
        have hold : left parts (s.threads i) = 1 := by
          rw [State.threads, hw]
          rfl
        have hnew : left parts (.serving netfd, .opening) = parts + 4 := rfl
        rw [hthreads]
        simp only [List.length_append, List.length_singleton, Action.byWorker, Bool.toNat_true,
          Nat.mul_add]
        omega
  | @«open» i netfd count hw ht hcount =>
      refine hmove (threads_update (i := i) (.serving netfd) _
        (Function.update_eq_self_iff.mpr hw.symm).symm rfl) rfl ?_
      rw [State.threads, hw, ht, left, left]
      omega
  | openFails | readFails => cases hok
  | @read i netfd count hw ht =>
      refine hmove (threads_update (i := i) (.serving netfd) _
        (Function.update_eq_self_iff.mpr hw.symm).symm rfl) rfl ?_
      rw [State.threads, hw, ht]
      cases count <;> exact le_rfl
  | @readUnopened i ok netfd hw ht => exact absurd ht (hopened i)
  | @close i netfd hw ht =>
      refine hmove (threads_update (i := i) _ .sent rfl
        (Function.update_eq_self_iff.mpr ht.symm).symm) rfl ?_
      rw [State.threads, hw, ht]
      exact le_rfl
  | _ => exact hframe rfl rfl

/-! ## Every accepted connection is served -/

/-- The first `k` connections have been handed to workers, or the flag has been set. -/
def HandedTo (k : ℕ) (s : State α n) : Prop :=
  k ≤ s.core.handed.length ∨ s.core.exitFlag = 1

/-- What holds in every state of a healthy run. -/
structure Sound (s : State α n) : Prop where
  attended : Attended s
  opened : Opened s

theorem Sound.step (h : Sound s) {l : Action α n} (hok : Counted s l ∧ l.succeeds = true)
    (hstep : s.step parts l = some t) : Sound t :=
  ⟨h.attended.step hok.1 hstep, h.opened.step hok.2 hstep⟩

theorem inductive_healthy : Transition.Inductive (healthy (α := α) n parts) Sound :=
  .restrict (by
    rintro s rfl
    exact ⟨Attended.start, Opened.start⟩) fun _ _ _ h hok hstep => h.step hok hstep

/-- A step forgets no accepted connection. -/
theorem accepted_le (h : Accounted s) {l : Action α n} (hstep : s.step parts l = some t) :
    s.core.accepted.length ≤ t.core.accepted.length := by
  cases step_moves hstep with
  | enQueue hm hcore =>
      obtain ⟨-, -, -, haccepted, -⟩ := accept_core hcore
      simp only [haccepted, List.length_append]
      omega
  | enter hawake hcore =>
      obtain ⟨-, ⟨-, rfl⟩ | ⟨-, -, rfl⟩ | ⟨netfd, heap, q, -, -, -, rfl⟩⟩ :=
        enter_core h.faithful hcore <;> exact le_rfl
  | _ => exact le_rfl

/-- A step hands out one connection at most. -/
theorem handed_step (h : Accounted s) {l : Action α n} (hstep : s.step parts l = some t) :
    t.core.handed.length ≤ s.core.handed.length + 1 := by
  cases step_moves hstep with
  | enQueue hm hcore =>
      obtain ⟨-, -, -, -, hhanded⟩ := accept_core hcore
      simp only [hhanded]
      omega
  | enter hawake hcore =>
      obtain ⟨-, ⟨-, rfl⟩ | ⟨-, -, rfl⟩ | ⟨netfd, heap, q, -, -, -, rfl⟩⟩ :=
        enter_core h.faithful hcore
      · exact Nat.le_succ _
      · exact Nat.le_succ _
      · simp only [List.length_append, List.length_singleton, le_refl]
  | _ => exact Nat.le_succ _

omit [DecidableEq α] in
/-- While the flag is not set no worker has left. -/
theorem MasterOk.running {core : Server α (Fin n)} {m : Master} (h : MasterOk core m)
    (hflag : core.exitFlag ≠ 1) (i : Fin n) : core.workers i ≠ .exited := by
  cases m with
  | polling | accepted => exact h.2 i
  | joining | exited => exact absurd h.1 hflag

omit [DecidableEq α] in
/-- In front of the goal a connection is queued. -/
theorem not_mustWait (h : Accounted s) {k : ℕ} (hk : k ≤ s.core.accepted.length)
    (hgoal : ¬ HandedTo k s) : mustWait s.core = false := by
  rw [Bool.eq_false_iff]
  intro hwait
  have hempty := (queued_of_mustWait h.faithful hwait).2
  rw [queued, List.drop_eq_nil_iff] at hempty
  exact hgoal (Or.inl (hk.trans hempty))

theorem handed_progress (hn : 1 ≤ n) (k : ℕ) : Transition.Progress (healthy (α := α) n parts)
    Action.byWorker (HandedTo k) (fun s => Sound s ∧ k ≤ s.core.accepted.length)
    (fun s => total (left parts) s.threads + (parts + 6) * (k - s.core.handed.length)) where
  keep := by
    rintro s l t ⟨h, hk⟩ - ⟨hok, hstep⟩
    exact ⟨h.step hok hstep, hk.trans (accepted_le h.attended.accounted hstep)⟩
  spend := by
    rintro s l t ⟨h, hk⟩ hgoal ⟨hok, hstep⟩
    have hspend := spend h.attended.accounted h.opened
      (not_mustWait h.attended.accounted hk hgoal) hok.2 hstep
    have hlt : s.core.handed.length < k := Nat.lt_of_not_le fun hle => hgoal (Or.inl hle)
    have hle := (handed_step h.attended.accounted hstep).trans hlt
    have hbefore := Nat.mul_le_mul_left (parts + 6) hlt.le
    have hafter := Nat.mul_le_mul_left (parts + 6) hle
    rw [Nat.mul_sub, Nat.mul_sub]
    omega
  enabled := by
    rintro s ⟨h, hk⟩ hgoal
    have hrunning := h.attended.master.running fun hflag => hgoal (Or.inr hflag)
    obtain ⟨l, t, hl, hok, hcounted, hstep⟩ := worker_enabled h.attended h.opened
      (not_mustWait h.attended.accounted hk hgoal) (hrunning ⟨0, hn⟩)
    exact ⟨l, t, hl, ⟨hcounted, hok⟩, hstep⟩

/-- Every accepted connection is handed to a worker after a bounded number of steps of the
workers, whatever `main` does meanwhile, unless the exit flag is set before. -/
theorem connection_handed (hn : 1 ≤ n) (hs : Transition.Reachable (healthy n parts) s) {k : ℕ}
    (hk : k ≤ s.core.accepted.length) :
    Transition.Finishes (healthy n parts) Action.byWorker (HandedTo k) s :=
  (handed_progress hn k).finishes ⟨inductive_healthy.reachable hs, hk⟩

theorem connection_handed_one : ∃ s : State ℕ 1, s.core.accepted = [6] ∧ s.core.handed = [] ∧
    Transition.Finishes (healthy 1 3) Action.byWorker (HandedTo 1) s := by
  have hs : ∃ s : State ℕ 1, Transition.exec
      (fun s l => if Counted s l ∧ Action.succeeds l = true then State.step 3 s l else none)
      .start [.enter 0, .accept true, .enQueue 0] = some s ∧ s.core.accepted = [6] ∧
        s.core.handed = [] := ⟨_, rfl, rfl, rfl⟩
  obtain ⟨s, hexec, haccepted, hhanded⟩ := hs
  exact ⟨s, haccepted, hhanded, connection_handed (by decide)
    (Transition.reachable_restrict_of_exec hexec) (by rw [haccepted]; decide)⟩

/-! ## The exit -/

/-- A step of a worker or a join. -/
def Action.towardsExit : Action α n → Bool
  | .join => true
  | l => l.byWorker

/-- The joins that are left to `main`. -/
def Master.left (n : ℕ) : Master → ℕ
  | .joining k => n - k + 1
  | _ => 0

omit [DecidableEq α] in
/-- With the flag set nobody waits. -/
theorem not_mustWait_of_flag (h : s.core.exitFlag = 1) : mustWait s.core = false :=
  decide_eq_false fun hwait => by
    rw [h] at hwait
    exact absurd hwait.1 (by decide)

omit [DecidableEq α] in
/-- Once the flag is set `main` joins or has returned. -/
theorem MasterOk.joins {core : Server α (Fin n)} {m : Master} (h : MasterOk core m)
    (hflag : core.exitFlag = 1) : (∃ k, m = .joining k) ∨ m = .exited := by
  cases m with
  | polling | accepted =>
      rw [h.1] at hflag
      exact absurd hflag (by decide)
  | joining k => exact Or.inl ⟨k, rfl⟩
  | exited => exact Or.inr rfl

/-- Once the flag is set no connection is accepted or handed out, and `main` comes nearer to
its end with each join. -/
theorem exit_step (h : Attended s) (hflag : s.core.exitFlag = 1) {l : Action α n}
    (hstep : s.step parts l = some t) :
    t.core.exitFlag = 1 ∧ t.core.handed = s.core.handed ∧ t.core.accepted = s.core.accepted ∧
      t.connections = s.connections ∧
      t.master.left n + l.towardsExit.toNat ≤ s.master.left n + l.byWorker.toNat := by
  have hnot : ∀ {m : Master}, s.master = m → (∀ k, m ≠ .joining k) → m ≠ .exited → False := by
    intro m hm hjoining hexited
    rcases h.master.joins hflag with ⟨k, hk⟩ | hdone
    · exact hjoining k (hm.symm.trans hk)
    · exact hexited (hm.symm.trans hdone)
  cases step_moves hstep with
  | accept hm | acceptFails hm | enQueue hm | exit hm => exact (hnot hm nofun nofun).elim
  | join hm hk hexited =>
      refine ⟨hflag, rfl, rfl, rfl, ?_⟩
      rw [hm]
      simp only [Master.left, Action.towardsExit, Action.byWorker, Bool.toNat_true,
        Bool.toNat_false]
      omega
  | done hm hk =>
      refine ⟨hflag, rfl, rfl, rfl, ?_⟩
      rw [hm]
      simp only [Master.left, Action.towardsExit, Action.byWorker, Bool.toNat_true,
        Bool.toNat_false]
      omega
  | enter hawake hcore =>
      obtain ⟨-, ⟨-, rfl⟩ | ⟨-, -, rfl⟩ | ⟨netfd, heap, q, -, hzero, -, -⟩⟩ :=
        enter_core h.accounted.faithful hcore
      · exact ⟨hflag, rfl, rfl, rfl, le_rfl⟩
      · exact ⟨hflag, rfl, rfl, rfl, le_rfl⟩
      · rw [hflag] at hzero
        cases hzero
  | _ => exact ⟨hflag, rfl, rfl, rfl, le_rfl⟩

theorem exit_progress : Transition.Progress (healthy (α := α) n parts) Action.towardsExit
    (fun s => s.master = .exited) (fun s => Sound s ∧ s.core.exitFlag = 1)
    (fun s => total (left parts) s.threads + s.master.left n) where
  keep := by
    rintro s l t ⟨h, hflag⟩ - ⟨hok, hstep⟩
    exact ⟨h.step hok hstep, (exit_step h.attended hflag hstep).1⟩
  spend := by
    rintro s l t ⟨h, hflag⟩ - ⟨hok, hstep⟩
    have hspend := spend h.attended.accounted h.opened (not_mustWait_of_flag hflag) hok.2 hstep
    obtain ⟨-, hhanded, -, -, hmaster⟩ := exit_step h.attended hflag hstep
    rw [hhanded] at hspend
    omega
  enabled := by
    rintro s ⟨h, hflag⟩ hgoal
    obtain ⟨k, hk⟩ := (h.attended.master.joins hflag).resolve_right hgoal
    by_cases hlt : k < n
    · by_cases hexited : s.core.workers ⟨k, hlt⟩ = .exited
      · refine ⟨.join, { s with master := .joining (k + 1) }, rfl, ⟨trivial, rfl⟩, ?_⟩
        change s.step parts .join = _
        simp only [State.step, hk, dif_pos hlt, hexited, if_true]
      · obtain ⟨l, t, hl, hok, hcounted, hstep⟩ := worker_enabled h.attended h.opened
          (not_mustWait_of_flag hflag) hexited
        refine ⟨l, t, ?_, ⟨hcounted, hok⟩, hstep⟩
        cases l <;> first | rfl | exact hl
    · refine ⟨.join, { s with master := .exited }, rfl, ⟨trivial, rfl⟩, ?_⟩
      change s.step parts .join = _
      simp only [State.step, hk, dif_neg hlt]

/-- Once the flag is set the process ends after a bounded number of joins and of steps of its
workers. They serve no connection that is still queued: at the end the workers have closed the
connections that were handed to them, and the queued ones are open. -/
theorem exit_finishes (hs : Transition.Reachable (healthy n parts) s)
    (hflag : s.core.exitFlag = 1) :
    Transition.Finishes (healthy n parts) Action.towardsExit (fun s => s.master = .exited) s ∧
      ∀ ls t, Transition.Run (healthy n parts) s ls t → t.master = .exited →
        (∀ i, t.core.workers i = .exited) ∧ t.core.handed = s.core.handed ∧
          (t.closed : Multiset ℕ) + (queued s.core : Multiset ℤ).filterMap t.object =
            Multiset.range s.connections := by
  have hsound := inductive_healthy.reachable hs
  refine ⟨exit_progress.finishes ⟨hsound, hflag⟩, fun ls t hrun hexited => ?_⟩
  obtain ⟨⟨ht, -⟩, hhanded, haccepted, hconnections⟩ := hrun.preserves (I := fun u =>
    (Sound u ∧ u.core.exitFlag = 1) ∧ u.core.handed = s.core.handed ∧
      u.core.accepted = s.core.accepted ∧ u.connections = s.connections)
    (by
      rintro u l v ⟨⟨hu, huflag⟩, hhanded, haccepted, hconnections⟩ ⟨hok, hstep⟩
      obtain ⟨hvflag, hhanded', haccepted', hconnections', -⟩ :=
        exit_step hu.attended huflag hstep
      exact ⟨⟨hu.step hok hstep, hvflag⟩, hhanded'.trans hhanded, haccepted'.trans haccepted,
        hconnections'.trans hconnections⟩)
    ⟨⟨hsound, hflag⟩, rfl, rfl, rfl⟩
  have hall : ∀ i, t.core.workers i = .exited := by
    have hm := ht.attended.master
    rw [hexited] at hm
    exact hm.2
  refine ⟨hall, hhanded, ?_⟩
  have hqueued : queued t.core = queued s.core := by
    rw [queued, hhanded, haccepted, queued]
  have hheld : t.held = queued s.core := by
    have hnone : total held t.core.workers = 0 := total_eq_zero fun i => by rw [hall i]; rfl
    simp [State.held, hexited, hnone, hqueued, Master.held]
  rw [← hheld, ← hconnections]
  exact ht.attended.accounted.custody.accounted

/-- The exit finds a connection in service and another one in the queue. -/
theorem exit_finishes_one : ∃ s : State ℕ 1, s.core.accepted = [6, 7] ∧
    s.core.handed = [(0, 6)] ∧ Transition.Finishes (healthy 1 3) Action.towardsExit
      (fun s => s.master = .exited) s := by
  have hs : ∃ s : State ℕ 1, Transition.exec
      (fun s l => if Counted s l ∧ Action.succeeds l = true then State.step 3 s l else none)
      .start [.accept true, .enQueue 0, .enter 0, .accept true, .enQueue 0, .exit] = some s ∧
        s.core.accepted = [6, 7] ∧ s.core.handed = [(0, 6)] ∧ s.core.exitFlag = 1 :=
    ⟨_, rfl, rfl, rfl, rfl⟩
  obtain ⟨s, hexec, haccepted, hhanded, hflag⟩ := hs
  exact ⟨s, haccepted, hhanded,
    (exit_finishes (Transition.reachable_restrict_of_exec hexec) hflag).1⟩

/-! ## A file that cannot be opened -/

/-- The worker is in the loop of `transFile` without an open file. -/
def Stuck (s : State α n) (i : Fin n) : Prop :=
  (∃ netfd, s.core.workers i = .serving netfd) ∧ s.transfers i = .unopened

theorem Stuck.step {i : Fin n} (h : Stuck s i) (hinv : Accounted s) {l : Action α n}
    (hstep : s.step parts l = some t) : Stuck t i := by
  obtain ⟨⟨netfd, hw⟩, ht⟩ := h
  have htransfer : ∀ {j : Fin n} {transfer : Transfer}, j ≠ i →
      Function.update s.transfers j transfer i = .unopened := by
    intro j transfer hji
    rw [Function.update_of_ne (Ne.symm hji), ht]
  have hworker : ∀ {j : Fin n} {phase : Phase}, j ≠ i →
      Function.update s.core.workers j phase i = .serving netfd := by
    intro j phase hji
    rw [Function.update_of_ne (Ne.symm hji), hw]
  cases step_moves hstep with
  | enQueue hm hcore =>
      obtain ⟨-, -, hworkers, -, -⟩ := accept_core hcore
      refine ⟨⟨netfd, ?_⟩, ht⟩
      rw [hworkers, hw]
  | @enter j core hawake hcore =>
      obtain ⟨hentering, hcases⟩ := enter_core hinv.faithful hcore
      have hji : j ≠ i := by
        rintro rfl
        rw [hw] at hentering
        cases hentering
      rcases hcases with ⟨-, rfl⟩ | ⟨-, -, rfl⟩ | ⟨_, heap, q, -, -, -, rfl⟩
      · exact ⟨⟨netfd, hw⟩, htransfer hji⟩
      · exact ⟨⟨netfd, hworker hji⟩, htransfer hji⟩
      · exact ⟨⟨netfd, hworker hji⟩, htransfer hji⟩
  | @«open» j _ _ hw' ht' | @openFails j _ _ hw' ht' | @read j _ _ hw' ht' =>
      have hji : j ≠ i := by
        rintro rfl
        rw [ht] at ht'
        cases ht'
      exact ⟨⟨netfd, hw⟩, htransfer hji⟩
  | @close j _ hw' ht' =>
      have hji : j ≠ i := by
        rintro rfl
        rw [ht] at ht'
        cases ht'
      exact ⟨⟨netfd, hworker hji⟩, ht⟩
  | _ => exact ⟨⟨netfd, hw⟩, ht⟩

/-- While a worker is in its loop without a file the process does not end. -/
theorem stuck_blocks_exit {i : Fin n} (hs : Transition.Reachable (serving n parts) s)
    (hstuck : Stuck s i) {ls : List (Action α n)}
    (hrun : Transition.Run (serving n parts) s ls t) : t.master ≠ .exited := by
  have hinductive : Transition.Inductive (serving (α := α) n parts) Attended :=
    .restrict (by
      rintro s rfl
      exact Attended.start) fun _ _ _ h hcounted hstep => h.step hcounted hstep
  obtain ⟨ht, ⟨netfd, hw⟩, -⟩ := hrun.preserves (I := fun u => Attended u ∧ Stuck u i)
    (fun _ _ _ h hstep => ⟨h.1.step hstep.1 hstep.2, h.2.step h.1.accounted hstep.2⟩)
    ⟨hinductive.reachable hs, hstuck⟩
  intro hexited
  have hm := ht.master
  rw [hexited] at hm
  rw [hm.2 i] at hw
  cases hw

/-- The flag is set while the worker's `open` has failed. -/
theorem stuck_blocks_exit_one : ∃ s : State ℕ 1, s.core.exitFlag = 1 ∧
    ∀ ls t, Transition.Run (serving 1 3) s ls t → t.master ≠ .exited := by
  have hs : ∃ s : State ℕ 1, Transition.exec
      (fun s l => if Counted s l then State.step 3 s l else none) .start
      [.accept true, .enQueue 0, .enter 0, .open 0 false 0, .exit] = some s ∧
        s.core.exitFlag = 1 ∧ s.core.workers 0 = .serving 6 ∧ s.transfers 0 = .unopened :=
    ⟨_, rfl, rfl, rfl, rfl⟩
  obtain ⟨s, hexec, hflag, hw, ht⟩ := hs
  exact ⟨s, hflag, fun ls t hrun => stuck_blocks_exit
    (Transition.reachable_restrict_of_exec hexec) ⟨⟨6, hw⟩, ht⟩ hrun⟩

end

end FileServer

end TrainFile

end ProcessThreadPool
