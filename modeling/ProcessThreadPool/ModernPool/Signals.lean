import Mathlib.Data.Int.Notation
import Mathlib.Data.List.FinRange
import ProcessThreadPool.Lib.DrivenLoop

/-!
# The signals of the event loop

`handle_signal_event` reads signals until a read fails, which suits a descriptor that does not
block; but `setup_signal_fd` passes `SFD_CLOEXEC` alone, so the read behind the last pending
signal does not return. What the pool does with a signal is left open: `PoolCalls` stands for
the functions that the handler calls.
-/

namespace ProcessThreadPool

namespace ModernPool

namespace Signals

open DrivenLoop

/-- The signals in the mask of `setup_signal_fd`. -/
inductive Signo where
  | sigchld
  | sigterm
  | sigint
  | sigusr1
  | sigusr2
  deriving DecidableEq, Repr

/-- `struct signalfd_siginfo`. -/
structure SignalfdSiginfo where
  ssiSigno : Signo
  ssiPid : ℤ
  deriving DecidableEq, Repr

/-- The flags of `signalfd`. -/
structure SfdFlags where
  cloexec : Bool
  nonblock : Bool
  deriving DecidableEq, Repr

/-- A descriptor that `signalfd` has returned, and the signals that are pending on it. -/
structure SignalFd where
  flags : SfdFlags
  pending : List SignalfdSiginfo
  deriving DecidableEq, Repr

/-- `setup_signal_fd`, when its system calls succeed. -/
def setupSignalFd (pending : List SignalfdSiginfo) : SignalFd :=
  ⟨{ cloexec := true, nonblock := false }, pending⟩

/-- How a `read` of one signal ends. -/
inductive ReadResult where
  | record (si : SignalfdSiginfo) (fd : SignalFd)
  | again
  | blocks

/-- `read` on a signalfd. -/
def SignalFd.read (fd : SignalFd) : ReadResult :=
  match fd.pending with
  | si :: rest => .record si { fd with pending := rest }
  | [] => if fd.flags.nonblock then .again else .blocks

/-- What the handler asks of the pool, and what it calls on it. -/
structure PoolCalls (σ : Type*) (maxWorkers : ℕ) where
  pid : σ → Fin maxWorkers → ℤ
  handleWorkerStatusEvent : σ → Fin maxWorkers → σ
  dumpPoolStatistics : σ → σ
  toggleDebugMode : σ → σ

/-- `event_loop_t`. -/
structure EventLoop (σ : Type*) where
  pool : σ
  running : Bool
  deriving DecidableEq, Repr

/-- Where the handler stands: before a read, in a read that does not return, or behind its
loop. -/
inductive Phase where
  | reading
  | blocked
  | returned
  deriving DecidableEq, Repr

/-- The handler on its descriptor, with the signals it has processed. -/
structure Handler (σ : Type*) where
  phase : Phase
  fd : SignalFd
  loop : EventLoop σ
  processed : List SignalfdSiginfo

section

variable {σ : Type*} {maxWorkers : ℕ} (calls : PoolCalls σ maxWorkers)

/-- The `switch` of `handle_signal_event`. -/
def processSignal (loop : EventLoop σ) (si : SignalfdSiginfo) : EventLoop σ :=
  match si.ssiSigno with
  | .sigchld =>
      match (List.finRange maxWorkers).find? fun i => calls.pid loop.pool i = si.ssiPid with
      | some i => { loop with pool := calls.handleWorkerStatusEvent loop.pool i }
      | none => loop
  | .sigterm | .sigint => { loop with running := false }
  | .sigusr1 => { loop with pool := calls.dumpPoolStatistics loop.pool }
  | .sigusr2 => { loop with pool := calls.toggleDebugMode loop.pool }

/-- One round of the loop of `handle_signal_event`. -/
def handleSignalEvent (h : Handler σ) : Handler σ :=
  match h.phase with
  | .reading =>
      match h.fd.read with
      | .record si fd =>
          ⟨.reading, fd, processSignal calls h.loop si, h.processed ++ [si]⟩
      | .again => { h with phase := .returned }
      | .blocks => { h with phase := .blocked }
  | _ => h

/-- The handler when it is called. -/
def Handler.start (fd : SignalFd) (loop : EventLoop σ) : Handler σ := ⟨.reading, fd, loop, []⟩

/-- The handler returns with every signal that was pending processed once, in order, and
comes into no read that blocks. -/
def ReturnsToLoop (fd : SignalFd) (loop : EventLoop σ) : Prop :=
  Settles (handleSignalEvent calls)
    (fun h => h.phase = .returned ∧ h.processed = fd.pending ∧
      h.loop = fd.pending.foldl (processSignal calls) loop)
    (fun h => h.phase ≠ .blocked) (.start fd loop)

/-- After as many rounds as signals were pending all of them are processed. -/
theorem iterate_pending (flags : SfdFlags) (pending : List SignalfdSiginfo)
    (loop : EventLoop σ) (processed : List SignalfdSiginfo) :
    (handleSignalEvent calls)^[pending.length] ⟨.reading, ⟨flags, pending⟩, loop, processed⟩ =
      ⟨.reading, ⟨flags, []⟩, pending.foldl (processSignal calls) loop,
        processed ++ pending⟩ := by
  induction pending generalizing loop processed with
  | nil => rw [List.append_nil]; rfl
  | cons si rest ih =>
      have hround : handleSignalEvent calls ⟨.reading, ⟨flags, si :: rest⟩, loop, processed⟩ =
          ⟨.reading, ⟨flags, rest⟩, processSignal calls loop si, processed ++ [si]⟩ := rfl
      rw [List.length_cons, Function.iterate_succ_apply, hround, ih, List.append_assoc]
      rfl

/-- The read behind the last signal. -/
theorem iterate_last (flags : SfdFlags) (pending : List SignalfdSiginfo)
    (loop : EventLoop σ) :
    (handleSignalEvent calls)^[pending.length + 1] (.start ⟨flags, pending⟩ loop) =
      ⟨if flags.nonblock then .returned else .blocked, ⟨flags, []⟩,
        pending.foldl (processSignal calls) loop, pending⟩ := by
  rw [Function.iterate_succ_apply', Handler.start, iterate_pending, List.nil_append]
  simp only [handleSignalEvent, SignalFd.read]
  cases flags.nonblock <;> rfl

/-- On a descriptor that does not block, what is left of the signals is processed and the
handler returns. -/
theorem settles_of_nonblock {flags : SfdFlags} (hflags : flags.nonblock = true)
    (pending rest : List SignalfdSiginfo) (loop loop' : EventLoop σ)
    (processed : List SignalfdSiginfo) (hpending : processed ++ rest = pending)
    (hloop : rest.foldl (processSignal calls) loop' = loop) :
    Settles (handleSignalEvent calls)
      (fun h => h.phase = .returned ∧ h.processed = pending ∧ h.loop = loop)
      (fun h => h.phase ≠ .blocked) ⟨.reading, ⟨flags, rest⟩, loop', processed⟩ := by
  have hreading : Phase.reading ≠ .returned ∧ Phase.reading ≠ .blocked := by decide
  have hreturned : Phase.returned ≠ .blocked := by decide
  induction rest generalizing loop' processed with
  | nil =>
      refine (settles_iff_step fun h => hreading.1 h.1).mpr ⟨hreading.2, ?_⟩
      have hlast : handleSignalEvent calls ⟨.reading, ⟨flags, []⟩, loop', processed⟩ =
          ⟨.returned, ⟨flags, []⟩, loop', processed⟩ := by
        simp only [handleSignalEvent, SignalFd.read, hflags]
        rfl
      rw [hlast]
      refine settles_of_invariant (I := (· = ⟨.returned, ⟨flags, []⟩, loop', processed⟩)) ?_ ?_ rfl
      · rintro h rfl
        rfl
      · rintro h rfl
        rw [List.append_nil] at hpending
        exact ⟨⟨rfl, hpending, hloop⟩, hreturned⟩
  | cons si rest ih =>
      refine (settles_iff_step fun h => hreading.1 h.1).mpr ⟨hreading.2, ih _ _ ?_ hloop⟩
      rw [List.append_assoc]
      exact hpending

/-- Everything depends on how the descriptor was created. -/
theorem returnsToLoop_iff (fd : SignalFd) (loop : EventLoop σ) :
    ReturnsToLoop calls fd loop ↔ fd.flags.nonblock = true := by
  constructor
  · intro h
    have hsafe := h.safe (fd.pending.length + 1)
    rw [iterate_last] at hsafe
    by_contra hflags
    exact hsafe (if_neg hflags)
  · intro hflags
    exact settles_of_nonblock calls hflags fd.pending fd.pending _ loop [] rfl rfl

/-- The handler of the event loop processes the pending signals and then blocks, whichever
they are. -/
theorem handleSignalEvent_blocks (pending : List SignalfdSiginfo) (loop : EventLoop σ) :
    ¬ ReturnsToLoop calls (setupSignalFd pending) loop ∧
      (handleSignalEvent calls)^[pending.length + 1] (.start (setupSignalFd pending) loop) =
        ⟨.blocked, setupSignalFd [], pending.foldl (processSignal calls) loop, pending⟩ := by
  refine ⟨fun h => ?_, iterate_last calls _ pending loop⟩
  exact Bool.false_ne_true ((returnsToLoop_iff calls _ loop).mp h)

end

/-- A termination signal clears `running`, and the loop that tests it is not reached again. -/
theorem sigterm_blocks : ¬ ∀ (maxWorkers : ℕ) (calls : PoolCalls (List ℤ) maxWorkers)
    (pending : List SignalfdSiginfo) (loop : EventLoop (List ℤ)),
    ReturnsToLoop calls (setupSignalFd pending) loop := by
  intro hclaim
  have hreturns := hclaim 1 ⟨fun pids i => pids.getD i 0, fun pids _ => pids, id, id⟩
    [⟨.sigterm, 7⟩] ⟨[8], true⟩
  exact hreturns.safe 2 rfl

end Signals

end ModernPool

end ProcessThreadPool
