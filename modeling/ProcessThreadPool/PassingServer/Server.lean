import Mathlib.Data.List.FinRange
import Mathlib.Data.List.Nodup
import Mathlib.Logic.Function.Basic
import ProcessThreadPool.Lib.Transition

/-!
# The server that passes connections to its children

The master accepts connections and passes each one to a child over a socket pair. It keeps
a flag for each child, set to busy when it passes a connection and to free when the child's
socket becomes readable. The model has every statement of the event loop that others can
see as a step of its own, for any number of children.
-/

namespace ProcessThreadPool

namespace PassingServer

/-- `BUSY` and `FREE`. -/
inductive Flag where
  | busy
  | free
  deriving DecidableEq, Repr

/-- What `sendMsg` sends: a connection with the flag 0, or the request to exit, with -1.
Connections are numbered by their clients. -/
inductive Message where
  | connection (c : ℕ)
  | exit
  deriving DecidableEq, Repr

/-- Where a child is in `doWorker`: at `recvMsg`, at `toClientFile` and `close`, or at the
`send` to the master. -/
inductive Child where
  | receiving
  | serving (c : ℕ)
  | reporting
  | dead
  deriving DecidableEq, Repr

/-- What `epoll` watches: `socket_fd`, `pipe_fd[0]` and `list[i].local_socket`. -/
inductive Source (n : ℕ) where
  | listener
  | pipe
  | child (i : Fin n)
  deriving DecidableEq, Repr

/-- Where the master is in its loop, with the events that it has not handled. `accepted` is
at `toSonNetFd` and `handed` at `close`, with the descriptor that `accept` has returned;
`exiting` sends the requests to exit, and `reaping` waits for that many children. -/
inductive Master (n : ℕ) where
  | waiting
  | handling (events : List (Source n))
  | accepted (netFd : Option ℕ) (events : List (Source n))
  | handed (netFd : Option ℕ) (events : List (Source n))
  | exiting (left : List (Fin n))
  | reaping (left : ℕ)
  | ended
  deriving DecidableEq, Repr

/-- The server. `toChild` and `toMaster` are the two directions of the socket pairs, the
second as a number of bytes; `backlog` are the clients that `accept` has not returned, and
`signals` the bytes in the pipe. `sent` and `closed` record what `toSonNetFd` has sent to
which child, and what the master has closed. -/
structure State (n : ℕ) where
  flag : Fin n → Flag
  master : Master n
  child : Fin n → Child
  toChild : Fin n → List Message
  toMaster : Fin n → ℕ
  backlog : List ℕ
  signals : ℕ
  clients : ℕ
  sent : List (Fin n × ℕ)
  closed : List ℕ

/-- After `initPool`. -/
def State.start (n : ℕ) : State n where
  flag := fun _ => .free
  master := .waiting
  child := fun _ => .receiving
  toChild := fun _ => []
  toMaster := fun _ => 0
  backlog := []
  signals := 0
  clients := 0
  sent := []
  closed := []

/-- The size of `buf`. -/
def bufSize : ℕ := 60

/-- `EPOLLIN`. The socket of a dead child is readable: it is at its end. -/
def State.Readable {n : ℕ} (s : State n) : Source n → Prop
  | .listener => s.backlog ≠ []
  | .pipe => 0 < s.signals
  | .child i => 0 < s.toMaster i ∨ s.child i = .dead

instance {n : ℕ} (s : State n) : ∀ e, Decidable (s.Readable e)
  | .listener => inferInstanceAs (Decidable (s.backlog ≠ []))
  | .pipe => inferInstanceAs (Decidable (0 < s.signals))
  | .child i => inferInstanceAs (Decidable (0 < s.toMaster i ∨ s.child i = .dead))

/-- What `addEpoll` has added. -/
def sources (n : ℕ) : List (Source n) :=
  .listener :: .pipe :: (List.finRange n).map .child

/-- `epoll_wait` with room for ten events. -/
def State.epollWait {n : ℕ} (s : State n) (events : List (Source n)) : Option (State n) :=
  if s.master = .waiting ∧ events ≠ [] ∧ events.Nodup ∧ (∀ e ∈ events, s.Readable e) ∧
      events.length = min 10 ((sources n).filter fun e => s.Readable e).length then
    some { s with master := .handling events }
  else none

/-- The first child whose flag is free. -/
def State.findFree {n : ℕ} (s : State n) : Option (Fin n) :=
  (List.finRange n).find? fun i => s.flag i = .free

/-- `toSonNetFd`. It is one step, because only the master reads the flags. Sending to a dead
child ends the master by `SIGPIPE`; a descriptor of -1 is not sent at all. -/
def State.toSonNetFd {n : ℕ} (s : State n) (netFd : Option ℕ) (events : List (Source n)) :
    State n :=
  match s.findFree with
  | none => { s with master := .handed netFd events }
  | some i =>
      match netFd with
      | none => { s with
          flag := Function.update s.flag i .busy
          master := .handed none events }
      | some c =>
          if s.child i = .dead then { s with master := .ended }
          else { s with
            toChild := Function.update s.toChild i (s.toChild i ++ [.connection c])
            sent := s.sent ++ [(i, c)]
            flag := Function.update s.flag i .busy
            master := .handed (some c) events }

/-- A child has sent something: its flag becomes free. -/
def State.recv {n : ℕ} (s : State n) (i : Fin n) (events : List (Source n)) : State n :=
  { s with
    toMaster := Function.update s.toMaster i (s.toMaster i - bufSize)
    flag := Function.update s.flag i .free
    master := .handling events }

/-- The request to exit. -/
def State.sendExit {n : ℕ} (s : State n) (i : Fin n) (left : List (Fin n)) : State n :=
  if s.child i = .dead then { s with master := .ended }
  else { s with
    toChild := Function.update s.toChild i (s.toChild i ++ [.exit])
    master := .exiting left }

/-- The next statement of the master. `ok` is whether `accept` succeeds. -/
def State.masterStep {n : ℕ} (s : State n) (ok : Bool) : Option (State n) :=
  match s.master with
  | .waiting => none
  | .handling [] => some { s with master := .waiting }
  | .handling (.listener :: events) =>
      if ok then
        match s.backlog with
        | c :: rest => some { s with backlog := rest, master := .accepted (some c) events }
        | [] => none
      else some { s with master := .accepted none events }
  | .handling (.pipe :: _) =>
      if 0 < s.signals then some { s with
        signals := s.signals - bufSize
        master := .exiting (List.finRange n) }
      else none
  | .handling (.child i :: events) =>
      if s.Readable (.child i) then some (s.recv i events) else none
  | .accepted netFd events => some (s.toSonNetFd netFd events)
  | .handed netFd events => some { s with
      closed := s.closed ++ netFd.toList
      master := .handling events }
  | .exiting [] => some { s with master := .reaping n }
  | .exiting (i :: left) => some (s.sendExit i left)
  | .reaping 0 => some { s with master := .ended }
  | .reaping (left + 1) =>
      if n - (left + 1) < ((List.finRange n).filter fun i => s.child i = .dead).length then
        some { s with master := .reaping left }
      else none
  | .ended => none

/-- A child dies. Its end of the socket pair is closed, with the messages that it has not
received. -/
def State.kill {n : ℕ} (s : State n) (i : Fin n) : State n :=
  { s with
    child := Function.update s.child i .dead
    toChild := Function.update s.toChild i [] }

/-- The next statement of a child. -/
def State.childStep {n : ℕ} (s : State n) (i : Fin n) : Option (State n) :=
  match s.child i with
  | .receiving =>
      match s.toChild i with
      | .connection c :: rest => some { s with
          child := Function.update s.child i (.serving c)
          toChild := Function.update s.toChild i rest }
      | .exit :: _ => some (s.kill i)
      | [] => none
  | .serving _ => some { s with child := Function.update s.child i .reporting }
  | .reporting => some { s with
      child := Function.update s.child i .receiving
      toMaster := Function.update s.toMaster i (s.toMaster i + 3) }
  | .dead => none

/-- What happens next: a client connects, a signal asks the server to exit, `epoll_wait`
returns, or the master or a child goes on, or a child dies. -/
inductive Event (n : ℕ) where
  | arrive
  | signal
  | epollWait (events : List (Source n))
  | master (ok : Bool)
  | child (i : Fin n)
  | die (i : Fin n)
  deriving DecidableEq, Repr

/-- One step. With the master the flags are gone, and nothing follows. -/
def State.step {n : ℕ} (s : State n) (l : Event n) : Option (State n) :=
  if s.master = .ended then none
  else match l with
    | .arrive => some { s with backlog := s.backlog ++ [s.clients], clients := s.clients + 1 }
    | .signal => some { s with signals := s.signals + 1 }
    | .epollWait events => s.epollWait events
    | .master ok => s.masterStep ok
    | .child i => s.childStep i
    | .die i => if s.child i = .dead then none else some (s.kill i)

/-- All interleavings of the server with `n` children. -/
def server (n : ℕ) : Transition.System (State n) (Event n) :=
  Transition.System.ofFun (State.start n) State.step

end PassingServer

end ProcessThreadPool
