import ProcessThreadPool.Lib.Transition
import Mathlib.Data.Nat.Notation
import Mathlib.Logic.Function.Basic
import Mathlib.Algebra.BigOperators.Group.List.Basic
import Mathlib.Algebra.GroupWithZero.Nat

/-!
# The control channel of a worker

The monitor thread and the callers of `worker_stop` write commands to `control_eventfd`,
and `worker_main_loop` reads them. An eventfd is a counter: a write adds to it, and a
read takes all of it at once. So two commands that are written between two reads arrive
as their sum. The channel lives from `worker_start` to the end of `worker_stop`.
-/

namespace ProcessThreadPool

namespace ModernPool

/-- `enum worker_state_internal`. -/
inductive WorkerState where
  | created
  | starting
  | running
  | stopping
  | stopped
  | error
  deriving DecidableEq, Repr

/-- `enum worker_command`. -/
inductive Command where
  | shutdown
  | pause
  | resume
  | ping
  deriving DecidableEq, Repr

/-- The value of a command. -/
def Command.code : Command → ℕ
  | .shutdown => 1
  | .pause => 2
  | .resume => 3
  | .ping => 4

/-- The cases of the `switch` in `worker_main_loop`; `none` is its `default`. -/
def Command.ofCode : ℕ → Option Command
  | 1 => some .shutdown
  | 2 => some .pause
  | 3 => some .resume
  | 4 => some .ping
  | _ => none

/-- `write` to a non-blocking eventfd: it fails where the counter would overflow. -/
def eventfdWrite (counter value : ℕ) : Option ℕ :=
  if counter + value < 2 ^ 64 - 1 then some (counter + value) else none

/-- `read` from a non-blocking eventfd that is not a semaphore: the value read and the
new counter. -/
def eventfdRead (counter : ℕ) : Option (ℕ × ℕ) :=
  if counter = 0 then none else some (counter, 0)

/-- Where a call of `worker_stop` stands. -/
inductive Stop where
  | idle
  | checked
  | stored
  | sent
  | joining
  | returned
  deriving DecidableEq, Repr

/-- The channel of one worker. `state` is `worker->state` in the master and `seen` what
the worker process finds there in its own memory. `looping` holds until the process
leaves `worker_main_loop`. `written` are the commands sent so far, `pending` those since
the last read, and `acted` those that the worker has acted on. -/
structure Control (ι : Type*) where
  counter : ℕ
  state : WorkerState
  monitorRunning : Bool
  monitoring : Bool
  stops : ι → Stop
  seen : WorkerState
  running : Bool
  looping : Bool
  written : List Command
  pending : List Command
  acted : List Command

/-- `worker_start` has just returned. -/
def Control.start {ι : Type*} (seen : WorkerState) : Control ι where
  counter := 0
  state := .running
  monitorRunning := true
  monitoring := true
  stops := fun _ => .idle
  seen := seen
  running := true
  looping := true
  written := []
  pending := []
  acted := []

/-- What happens next: a round of the monitor thread with the outcome of
`worker_is_alive`, the next step of a call of `worker_stop`, a read of the worker, or
the worker process leaving its loop in another way. -/
inductive ControlMove (ι : Type*) where
  | monitor (alive : Bool)
  | stop (c : ι)
  | read
  | leave
  deriving DecidableEq, Repr

/-- A command is written; a failed write is only logged. -/
def Control.write {ι : Type*} (s : Control ι) (c : Command) : Control ι :=
  match eventfdWrite s.counter c.code with
  | some counter => { s with
      counter := counter
      written := s.written ++ [c]
      pending := s.pending ++ [c] }
  | none => s

/-- One round of `worker_monitor_thread`. -/
def Control.monitorRound {ι : Type*} (s : Control ι) (alive : Bool) : Option (Control ι) :=
  if s.monitoring = false then none
  else if s.monitorRunning = false then some { s with monitoring := false }
  else if alive = false then some { s with state := .error, monitoring := false }
  else some (s.write .ping)

/-- The worker reads its control eventfd and acts on what it finds. -/
def Control.read {ι : Type*} (s : Control ι) : Option (Control ι) :=
  if s.looping && s.running && decide (s.seen = .running) then
    (eventfdRead s.counter).map fun r =>
      let emptied := { s with counter := r.2, pending := [] }
      match Command.ofCode r.1 with
      | some c => { emptied with
          running := decide (c ≠ .shutdown)
          acted := s.acted ++ [c] }
      | none => emptied
  else none

section

variable {ι : Type*} [DecidableEq ι]

/-- The next step of a call of `worker_stop`: test the state, store the new one, send
the command, wait for the process or kill it, join the monitor thread. -/
def Control.stop (s : Control ι) (c : ι) : Option (Control ι) :=
  match s.stops c with
  | .idle | .returned =>
      if s.state = .running then
        some { s with stops := Function.update s.stops c .checked }
      else some { s with stops := Function.update s.stops c .returned }
  | .checked => some { s with state := .stopping, stops := Function.update s.stops c .stored }
  | .stored => some { (s.write .shutdown) with stops := Function.update s.stops c .sent }
  | .sent => some { s with
      looping := false
      monitorRunning := false
      stops := Function.update s.stops c .joining }
  | .joining =>
      if s.monitoring then none
      else some { s with state := .stopped, stops := Function.update s.stops c .returned }

/-- One step. -/
def Control.step (s : Control ι) : ControlMove ι → Option (Control ι)
  | .monitor alive => s.monitorRound alive
  | .stop c => s.stop c
  | .read => s.read
  | .leave => some { s with looping := false }

end

/-- All interleavings of the monitor thread, the callers of `worker_stop` and the worker
process. -/
def control {ι : Type*} [DecidableEq ι] (seen : WorkerState) :
    Transition.System (Control ι) (ControlMove ι) :=
  Transition.System.ofFun (Control.start seen) Control.step

section

variable {ι : Type*} {s t : Control ι}

/-- A read finds a command that was sent since the last one, the worker has then acted on
exactly the commands sent, and it is not running any more once it has been told to shut
down. -/
def Delivered (s : Control ι) (l : ControlMove ι) (t : Control ι) : Prop :=
  l = .read →
    (∃ c ∈ s.pending, Command.ofCode s.counter = some c) ∧ t.acted = t.written ∧
      (.shutdown ∈ t.written → t.running = false)

/-- A read comes after each single command. -/
def ReadInTime (s : Control ι) (l : ControlMove ι) : Prop :=
  l = .read → s.pending.length = 1

/-- What the counter and the lists of commands have to do with each other, as long as
all reads come in time. -/
structure ControlInv (s : Control ι) : Prop where
  counter : s.counter = (s.pending.map Command.code).sum
  written : s.written = s.acted ++ s.pending
  shutdown : .shutdown ∈ s.acted → s.running = false

theorem ofCode_code (c : Command) : Command.ofCode c.code = some c := by
  cases c <;> rfl

theorem code_of_ofCode {value : ℕ} {c : Command} (h : Command.ofCode value = some c) :
    c.code = value := by
  unfold Command.ofCode at h
  split at h <;> cases h <;> rfl

theorem code_pos (c : Command) : 0 < c.code := by
  cases c <;> decide

/-- Only a single command is found under its own value. -/
theorem length_of_sum {l : List Command} {c : Command} (hc : c ∈ l)
    (hsum : (l.map Command.code).sum = c.code) : l.length = 1 := by
  rw [← List.sum_map_erase Command.code hc] at hsum
  cases hrest : l.erase c with
  | nil =>
      have hlength := List.length_erase_of_mem hc
      rw [hrest, List.length_nil] at hlength
      have hpos := List.length_pos_of_mem hc
      omega
  | cons d rest =>
      rw [hrest, List.map_cons, List.sum_cons] at hsum
      have hpos := code_pos d
      omega

namespace ControlInv

theorem write (h : ControlInv s) (c : Command) : ControlInv (s.write c) := by
  rw [Control.write]
  split
  · next counter hcounter =>
      rw [eventfdWrite] at hcounter
      split_ifs at hcounter
      obtain rfl := Option.some.inj hcounter
      refine ⟨?_, ?_, h.shutdown⟩
      · simp [h.counter]
      · rw [h.written, List.append_assoc]
  · exact h

/-- What a read in the loop leaves. -/
theorem read_cases (hstep : s.read = some t) :
    s.running = true ∧ s.counter ≠ 0 ∧
      (Command.ofCode s.counter = none ∨ ∃ c, Command.ofCode s.counter = some c ∧
        t = { s with
          counter := 0
          pending := []
          running := decide (c ≠ .shutdown)
          acted := s.acted ++ [c] }) := by
  rw [Control.read] at hstep
  split_ifs at hstep with hloop
  obtain ⟨⟨value, rest⟩, hread, rfl⟩ := Option.map_eq_some_iff.mp hstep
  rw [eventfdRead] at hread
  split_ifs at hread with hzero
  cases hread
  refine ⟨by simp_all, hzero, ?_⟩
  cases hcode : Command.ofCode s.counter with
  | none => exact Or.inl rfl
  | some c => exact Or.inr ⟨c, rfl, rfl⟩

/-- A single command is found as it was sent. -/
theorem read (h : ControlInv s) (hone : s.pending.length = 1) (hstep : s.read = some t) :
    ControlInv t ∧ Delivered s .read t := by
  obtain ⟨hrunning, -, hread⟩ := read_cases hstep
  obtain ⟨c, hpending⟩ := List.length_eq_one_iff.mp hone
  have hcode : Command.ofCode s.counter = some c := by
    rw [h.counter, hpending, List.map_singleton, List.sum_singleton]
    exact ofCode_code c
  have hnot : .shutdown ∉ s.acted := fun hmem => by simp [h.shutdown hmem] at hrunning
  rcases hread with hnone | ⟨c', hcode', rfl⟩
  · rw [hcode] at hnone
    cases hnone
  · obtain rfl := Option.some.inj (hcode.symm.trans hcode')
    have hacted : s.acted ++ [c] = s.written := by rw [h.written, hpending]
    have hshutdown : .shutdown ∈ s.acted ++ [c] → decide (c ≠ .shutdown) = false := by
      intro hmem
      rcases List.mem_append.mp hmem with hold | hnew
      · exact absurd hold hnot
      · rw [← List.mem_singleton.mp hnew]
        rfl
    refine ⟨⟨rfl, ?_, hshutdown⟩, fun _ => ⟨⟨c, ?_, hcode⟩, hacted, ?_⟩⟩
    · rw [List.append_nil]
      exact hacted.symm
    · rw [hpending]
      exact List.mem_singleton_self c
    · rw [← hacted]
      exact hshutdown

variable [DecidableEq ι]

theorem step (h : ControlInv s) {l : ControlMove ι} (hl : ReadInTime s l)
    (hstep : s.step l = some t) : ControlInv t := by
  cases l with
  | monitor alive =>
      simp only [Control.step, Control.monitorRound] at hstep
      split_ifs at hstep <;> obtain rfl := Option.some.inj hstep
      · exact ⟨h.counter, h.written, h.shutdown⟩
      · exact ⟨h.counter, h.written, h.shutdown⟩
      · exact h.write .ping
  | stop c =>
      cases hc : s.stops c with
      | stored =>
          simp only [Control.step, Control.stop, hc, Option.some.injEq] at hstep
          subst hstep
          have hsent := h.write .shutdown
          exact ⟨hsent.counter, hsent.written, hsent.shutdown⟩
      | joining =>
          simp only [Control.step, Control.stop, hc] at hstep
          split_ifs at hstep
          obtain rfl := Option.some.inj hstep
          exact ⟨h.counter, h.written, h.shutdown⟩
      | idle | returned =>
          simp only [Control.step, Control.stop, hc] at hstep
          split_ifs at hstep <;> obtain rfl := Option.some.inj hstep <;>
            exact ⟨h.counter, h.written, h.shutdown⟩
      | checked | sent =>
          simp only [Control.step, Control.stop, hc, Option.some.injEq] at hstep
          subst hstep
          exact ⟨h.counter, h.written, h.shutdown⟩
  | read => exact (h.read (hl rfl) hstep).1
  | leave =>
      obtain rfl := Option.some.inj hstep
      exact ⟨h.counter, h.written, h.shutdown⟩

/-- A read delivers what was sent exactly when it finds a single command. -/
theorem delivered_iff (h : ControlInv s) {l : ControlMove ι} (hstep : s.step l = some t) :
    Delivered s l t ↔ ReadInTime s l := by
  constructor
  · rintro hdelivered rfl
    obtain ⟨⟨c, hc, hcode⟩, -⟩ := hdelivered rfl
    exact length_of_sum hc (h.counter.symm.trans (code_of_ofCode hcode).symm)
  · rintro hone rfl
    exact (h.read (hone rfl) hstep).2 rfl

end ControlInv

variable [DecidableEq ι]

/-- A run delivers the commands faithfully exactly when each of its reads comes after a
single command. -/
theorem delivered_run_iff (seen : WorkerState) (ls : List (ControlMove ι)) (s : Control ι) :
    Transition.Run ((control seen).filter Delivered) (Control.start seen) ls s ↔
      Transition.Run ((control seen).restrict ReadInTime) (Control.start seen) ls s := by
  apply Transition.run_filter_iff_restrict (I := ControlInv)
  · intro s l t h hl hstep
    exact h.step hl hstep
  · intro s l t h hstep
    exact h.delivered_iff hstep
  · exact ⟨rfl, rfl, fun hmem => by cases hmem⟩

end

/-- A `PING` and a `SHUTDOWN` between two reads arrive as the unknown command 5, and the
worker goes on running. -/
theorem ping_and_shutdown_collide : ¬ ∀ (seen : WorkerState) (s t : Control Unit)
    (l : ControlMove Unit), Transition.Reachable (control seen) s →
      (control seen).step s l t → Delivered s l t := by
  intro hclaim
  have hdelivered := hclaim .running _ _ .read (Transition.reachable_ofFun_iff.mpr
    ⟨[.monitor true, .stop (), .stop (), .stop ()], rfl⟩) rfl rfl
  have hrunning := hdelivered.2.2 (by decide)
  cases hrunning

end ModernPool

end ProcessThreadPool
