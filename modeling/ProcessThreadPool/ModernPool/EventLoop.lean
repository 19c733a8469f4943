import ProcessThreadPool.Lib.DescriptorTable
import ProcessThreadPool.Lib.Transition

/-!
# The descriptors of the event loop

`event_loop_init` opens five descriptors for a pool and `event_loop_cleanup` closes them.
Their numbers are in one static record, `g_event_loop`, for all pools: initialising a
second pool overwrites the numbers of the first, and a cleanup resets the record to zeros,
which the next cleanup takes for open numbers. So a pool is cleaned up as it should be
exactly when the record is still its own.
-/

namespace ProcessThreadPool

namespace ModernPool

namespace EventLoop

open DescriptorTable

/-- The descriptors of an event loop, in the order in which they are opened. -/
inductive Role where
  | epoll
  | taskSubmit
  | control
  | signal
  | timer
  deriving DecidableEq, Repr

/-- The order of `event_loop_init` and of `event_loop_cleanup`. -/
def roles : List Role := [.epoll, .taskSubmit, .control, .signal, .timer]

/-- What an open number refers to: a descriptor opened for the event loop of a pool, or
one that some other code opened. Pools are numbered by the calls of `event_loop_init`. -/
inductive Owner where
  | other
  | loop (pool : ℕ) (role : Role)
  deriving DecidableEq, Repr

/-- `event_loop_t`, without the thread and the counters. `running` is never set, because
nothing calls `event_loop_start`. -/
structure Record where
  number : Role → ℤ
  pool : Option ℕ

/-- The record after `memset`. -/
def Record.zero : Record := ⟨fun _ => 0, none⟩

/-- The process: its descriptors, `g_event_loop`, the pools that exist, and the number of
pools so far. `opened` are the descriptors that `event_loop_init` has opened, and
`closes` what each `close` of `event_loop_init` and `event_loop_cleanup` has found. -/
structure Program where
  fds : Table Owner
  gEventLoop : Record
  live : List ℕ
  pools : ℕ
  opened : List (ℕ × Role)
  closes : List (Option Owner)

/-- Before the first pool, with the open numbers of the process given. -/
def Program.start (opened : List Bool) : Program where
  fds := ⟨opened.map fun b => if b then some .other else none⟩
  gEventLoop := Record.zero
  live := []
  pools := 0
  opened := []
  closes := []

/-- How the system calls of `event_loop_init` end. `refused` is the call that opens a
descriptor, `timerSet` is `timerfd_settime`, and `added` are the calls of
`add_epoll_event`. -/
structure InitOutcome where
  refused : Role → Bool
  timerSet : Bool
  added : Bool

/-- Calls of `close`, one after the other. -/
def Program.close (s : Program) (fds : List ℤ) : Program :=
  { s with fds := (s.fds.closeAll fds).2, closes := s.closes ++ (s.fds.closeAll fds).1 }

/-- A number is stored in the record. -/
def Program.setNumber (s : Program) (r : Role) (fd : ℤ) : Program :=
  { s with gEventLoop := { s.gEventLoop with
      number := Function.update s.gEventLoop.number r fd } }

/-- A descriptor is opened for a pool. -/
def Program.openRole (s : Program) (p : ℕ) (r : Role) : ℤ × Program :=
  ((s.fds.openFile (.loop p r)).1, { s with
    fds := (s.fds.openFile (.loop p r)).2
    opened := s.opened ++ [(p, r)] })

/-- One of `epoll_create1`, `create_eventfd`, `setup_signal_fd` and `setup_timer_fd`: the
number it returns. `setup_timer_fd` closes its descriptor again when `timerfd_settime`
fails. -/
def setUpRole (s : Program) (p : ℕ) (r : Role) (outcome : InitOutcome) : ℤ × Program :=
  if outcome.refused r then (-1, s)
  else if r = .timer ∧ outcome.timerSet = false then
    (-1, (s.openRole p r).2.close [(s.openRole p r).1])
  else s.openRole p r

/-- The first part of `event_loop_init`: one descriptor after the other. When one fails,
those opened before are closed, the last one first. -/
def initAmong (p : ℕ) (outcome : InitOutcome) (done : List Role) :
    List Role → Program → Bool × Program
  | [], s => (true, s)
  | r :: rs, s =>
      let setUp := setUpRole s p r outcome
      let t := setUp.2.setNumber r setUp.1
      if setUp.1 = -1 then (false, t.close (done.map t.gEventLoop.number))
      else initAmong p outcome (r :: done) rs t

/-- `event_loop_cleanup`. -/
def eventLoopCleanup (s : Program) : Program :=
  { s.close ((roles.map s.gEventLoop.number).filter (0 ≤ ·)) with gEventLoop := Record.zero }

/-- `event_loop_init`. -/
def eventLoopInit (s : Program) (p : ℕ) (outcome : InitOutcome) : Bool × Program :=
  let r := initAmong p outcome [] roles { s with gEventLoop := { Record.zero with pool := some p } }
  if r.1 = false then r
  else if outcome.added then r
  else (false, eventLoopCleanup r.2)

/-- `pool_create`. `none`: it fails before it comes to `event_loop_init`. -/
def poolCreate (s : Program) (outcome : Option InitOutcome) : Program :=
  match outcome with
  | none => s
  | some outcome =>
      let r := eventLoopInit { s with pools := s.pools + 1 } s.pools outcome
      if r.1 then { r.2 with live := r.2.live ++ [s.pools] } else r.2

/-- `pool_destroy` of a pool. -/
def poolDestroy (s : Program) (p : ℕ) : Program :=
  { eventLoopCleanup s with live := s.live.erase p }

/-- What happens next: a call on a pool, or other code opens or closes a descriptor. -/
inductive PoolCall where
  | create (outcome : Option InitOutcome)
  | destroy (p : ℕ)
  | openOther
  | closeOther (fd : ℤ)

/-- One step. Other code closes only what it has opened. -/
def Program.step (s : Program) : PoolCall → Option Program
  | .create outcome => some (poolCreate s outcome)
  | .destroy p => if p ∈ s.live then some (poolDestroy s p) else none
  | .openOther => some { s with fds := (s.fds.openFile .other).2 }
  | .closeOther fd =>
      if s.fds.lookup fd = some .other then some { s with fds := s.fds.close fd } else none

/-- All sequences of calls. -/
def pools : Transition.System Program PoolCall where
  init := fun s => ∃ opened, s = Program.start opened
  step := fun s l t => s.step l = some t

/-- Every descriptor that was opened for the event loop of a pool has been closed once
when the pool does not exist, and has not been closed when it does; and no close has
found a descriptor that other code opened. -/
def Isolated (s : Program) : Prop :=
  (∀ p r, (p, r) ∈ s.opened →
    s.closes.count (some (.loop p r)) = if p ∈ s.live then 0 else 1) ∧
    some .other ∉ s.closes

/-- `g_event_loop` is the record of the pool that is destroyed. -/
def OwnRecord (s : Program) : PoolCall → Prop
  | .destroy p => s.gEventLoop.pool = some p
  | _ => True

end EventLoop

end ModernPool

end ProcessThreadPool
