import Mathlib.Tactic.Abel
import ProcessThreadPool.Lib.Custody
import ProcessThreadPool.Lib.DescriptorTable
import ProcessThreadPool.Lib.Projection
import ProcessThreadPool.Lib.ThreadFamily
import ProcessThreadPool.TrainFile.ConnectionQueue

/-!
# The threaded file server as a whole

`main` of the serving process and its workers around the queue of `ConnectionQueue.lean`, with
the descriptors of the process and with who sleeps on the condition. `accept` may fail, and its
`-1` is queued like a descriptor. `transFile` opens the file that it sends and does not close
it; when `open` fails its loop goes on for ever.
-/

namespace ProcessThreadPool

namespace TrainFile

namespace FileServer

open ConnectionQueue (Server Phase CountsOn)
open DescriptorTable ThreadFamily

/-- What a descriptor of the serving process refers to. Connections are numbered in the order
of `accept`. -/
inductive File where
  | standard
  | exitPipe
  | listener
  | epoll
  | connection (c : ℕ)
  | file1
  deriving DecidableEq, Repr

/-- The number of a connection. -/
def File.connection? : File → Option ℕ
  | .connection c => some c
  | _ => none

/-- Where `main` stands: before the next ready descriptor, between `accept` and `enQueue`,
joining the worker `i`, or behind `exit`. -/
inductive Master where
  | polling
  | accepted (netfd : ℤ)
  | joining (i : ℕ)
  | exited
  deriving DecidableEq, Repr

/-- Where a worker that has a connection stands: before `open` of `transFile`, in its loop with
so many parts of the file to come, in its loop without an open file, or before `close`. -/
inductive Transfer where
  | opening
  | reading (parts : ℕ)
  | unopened
  | sent
  deriving DecidableEq, Repr

/-- The serving process. `closed` lists the connections closed so far. -/
structure State (α : Type*) (n : ℕ) where
  core : Server α (Fin n)
  asleep : Fin n → Bool
  transfers : Fin n → Transfer
  master : Master
  table : Table File
  connections : ℕ
  closed : List ℕ

/-- What happens next. The flags say whether `accept`, `open` and `read` succeed; a file that
is opened comes in `parts` parts. -/
inductive Action (α : Type*) (n : ℕ) where
  | accept (ok : Bool)
  | enQueue (pNew : α)
  | exit
  | join
  | enter (i : Fin n)
  | open (i : Fin n) (ok : Bool) (parts : ℕ)
  | read (i : Fin n) (ok : Bool)
  | close (i : Fin n)
  | wake (i : Fin n)

/-- The descriptors when the loop of `main` begins: behind the standard ones the read end of
the pipe, the listening socket and the epoll instance. -/
def startTable : Table File :=
  let pipes := (Table.openPair ⟨[some .standard, some .standard, some .standard]⟩
    File.exitPipe .exitPipe).2.2.close 4
  ((pipes.openFile .listener).2.openFile .epoll).2

section

variable {α : Type*} {n : ℕ}

/-- The workers have been made and the sockets are open. -/
def State.start : State α n where
  core := .start
  asleep := fun _ => false
  transfers := fun _ => .opening
  master := .polling
  table := startTable
  connections := 0
  closed := []

/-- The connection that a descriptor refers to. -/
def State.object (s : State α n) (fd : ℤ) : Option ℕ := (s.table.lookup fd).bind File.connection?

/-- The accepted descriptors that no worker has been handed. -/
def queued (core : Server α (Fin n)) : List ℤ := core.accepted.drop core.handed.length

/-- The test of the loop around `pthread_cond_wait`. -/
def mustWait (core : Server α (Fin n)) : Bool :=
  decide (core.exitFlag = 0 ∧ core.taskQueue.size = 0)

/-- `accept`. -/
def acceptStep (s : State α n) (ok : Bool) : State α n :=
  if ok then { s with
    master := .accepted (s.table.openFile (.connection s.connections)).1
    table := (s.table.openFile (.connection s.connections)).2
    connections := s.connections + 1 }
  else { s with master := .accepted (-1) }

/-- `open` of `transFile`. -/
def openStep (s : State α n) (i : Fin n) (ok : Bool) (parts : ℕ) : State α n :=
  if ok then { s with
    table := (s.table.openFile .file1).2
    transfers := Function.update s.transfers i (.reading parts) }
  else { s with transfers := Function.update s.transfers i .unopened }

/-- A `read` of `transFile` has returned: a part of the file, or 0 behind the last one. -/
def afterRead : ℕ → Transfer
  | 0 => .sent
  | parts + 1 => .reading parts

variable [DecidableEq α]

/-- One step. The file is sent in at most `parts` parts. -/
def State.step (parts : ℕ) (s : State α n) : Action α n → Option (State α n)
  | .accept ok => if s.master = .polling then some (acceptStep s ok) else none
  | .enQueue pNew =>
      match s.master with
      | .accepted netfd => (s.core.step (.accept netfd pNew)).map fun core =>
          { s with core := core, master := .polling, asleep := fun _ => false }
      | _ => none
  | .exit =>
      if s.master = .polling then (s.core.step .exit).map fun core =>
        { s with core := core, master := .joining 0, asleep := fun _ => false }
      else none
  | .join =>
      match s.master with
      | .joining k =>
          if h : k < n then
            if s.core.workers ⟨k, h⟩ = .exited then some { s with master := .joining (k + 1) }
            else none
          else some { s with master := .exited }
      | _ => none
  | .enter i =>
      if s.asleep i then none
      else (s.core.step (.enter i)).map fun core =>
        { s with
          core := core
          asleep := Function.update s.asleep i (mustWait s.core)
          transfers := Function.update s.transfers i .opening }
  | .open i ok count =>
      match s.core.workers i, s.transfers i with
      | .serving _, .opening => if count ≤ parts then some (openStep s i ok count) else none
      | _, _ => none
  | .read i ok =>
      match s.core.workers i, s.transfers i with
      | .serving _, .reading count =>
          some { s with
            transfers := if ok then Function.update s.transfers i (afterRead count)
              else s.transfers }
      | .serving _, .unopened => some s
      | _, _ => none
  | .close i =>
      match s.core.workers i, s.transfers i with
      | .serving netfd, .sent => (s.core.step (.finish i)).map fun core =>
          { s with
            core := core
            table := s.table.close netfd
            closed := s.closed ++ (s.object netfd).toList }
      | _, _ => none
  | .wake i => some { s with asleep := Function.update s.asleep i false }

/-- All interleavings of `main` and `n` workers. -/
def fileServer (n parts : ℕ) : Transition.System (State α n) (Action α n) :=
  Transition.System.ofFun .start (State.step parts)

/-- The queue has room in its counter for one connection more. -/
def Counted (s : State α n) : Action α n → Prop
  | .enQueue _ => s.core.taskQueue.size ≠ 2147483647
  | _ => True

instance (s : State α n) : (l : Action α n) → Decidable (Counted s l)
  | .enQueue _ => inferInstanceAs (Decidable (s.core.taskQueue.size ≠ 2147483647))
  | .accept _ | .exit | .join | .enter _ | .open _ _ _ | .read _ _ | .close _ | .wake _ =>
      isTrue trivial

/-- The runs in which the queue never holds the largest `int` of connections. -/
def serving (n parts : ℕ) : Transition.System (State α n) (Action α n) :=
  (fileServer n parts).restrict Counted

/-! ## The steps of the core -/

omit [DecidableEq α] in
/-- The descriptors in the queue are those that no worker has been handed. -/
theorem queued_eq {core : Server α (Fin n)} {fds : List ℤ}
    (h : core.accepted = core.handed.map Prod.snd ++ fds) : queued core = fds := by
  rw [queued, h, ← List.length_map Prod.snd, List.drop_left]

theorem accept_core {core core' : Server α (Fin n)} {netfd : ℤ} {pNew : α}
    (hstep : core.step (.accept netfd pNew) = some core') :
    core.exitFlag = 0 ∧ core'.exitFlag = 0 ∧ core'.workers = core.workers ∧
      core'.accepted = core.accepted ++ [netfd] ∧ core'.handed = core.handed := by
  simp only [Server.step] at hstep
  split_ifs at hstep with henabled
  obtain ⟨r, -, rfl⟩ := Option.map_eq_some_iff.mp hstep
  exact ⟨henabled.1, henabled.1, rfl, rfl, rfl⟩

theorem exit_core {core core' : Server α (Fin n)} (hstep : core.step .exit = some core') :
    core.exitFlag = 0 ∧ core' = { core with exitFlag := 1 } := by
  simp only [Server.step] at hstep
  split_ifs at hstep with henabled
  exact ⟨henabled, (Option.some.inj hstep).symm⟩

/-- A critical section of a worker waits on an empty queue, leaves, or takes the oldest
descriptor. -/
theorem enter_core {core core' : Server α (Fin n)} {i : Fin n} (h : core.Faithful)
    (hstep : core.step (.enter i) = some core') :
    core.workers i = .entering ∧
      (mustWait core = true ∧ core' = core ∨
        mustWait core = false ∧ core.exitFlag = 1 ∧
          core' = { core with workers := Function.update core.workers i .exited } ∨
        ∃ netfd heap q, mustWait core = false ∧ core.exitFlag = 0 ∧
          queued core = netfd :: queued core' ∧ core' = { core with
            heap := heap
            taskQueue := q
            workers := Function.update core.workers i (.serving netfd)
            handed := core.handed ++ [(i, netfd)] }) := by
  simp only [Server.step] at hstep
  split_ifs at hstep with hentering
  refine ⟨hentering, ?_⟩
  obtain ⟨r, hr, rfl⟩ := Option.map_eq_some_iff.mp hstep
  obtain ⟨⟨nodes, fds, hchain, hcounts, haccepted⟩, hflag⟩ := h
  rw [ConnectionQueue.workerSection] at hr
  split_ifs at hr with hwait hexit
  · obtain rfl := Option.some.inj hr
    exact Or.inl ⟨decide_eq_true hwait, rfl⟩
  · obtain rfl := Option.some.inj hr
    exact Or.inr (Or.inl ⟨decide_eq_false hwait, hexit, rfl⟩)
  · refine Or.inr (Or.inr ?_)
    have hzero : core.exitFlag = 0 := hflag.resolve_right hexit
    cases nodes with
    | nil => exact absurd ⟨hzero, hcounts.size⟩ hwait
    | cons front nodes =>
        obtain ⟨node, fds', heap', q', hfront, hnode, rfl, hcall, -, -⟩ := hchain.deQueue
        rw [hfront, Option.bind_some, hnode, Option.bind_some, hcall, Option.map_some] at hr
        obtain rfl := Option.some.inj hr
        refine ⟨node.netfd, heap', q', decide_eq_false hwait, hzero, ?_, rfl⟩
        rw [queued_eq haccepted]
        refine (congrArg _ (queued_eq ?_)).symm
        rw [Server.entered, List.map_append, List.append_assoc]
        exact haccepted

theorem finish_core {core core' : Server α (Fin n)} {i : Fin n}
    (hstep : core.step (.finish i) = some core') :
    core' = { core with workers := Function.update core.workers i .entering } := by
  simp only [Server.step] at hstep
  split at hstep
  · exact (Option.some.inj hstep).symm
  · cases hstep

omit [DecidableEq α] in
/-- A worker waits only when nothing is queued. -/
theorem queued_of_mustWait {core : Server α (Fin n)} (h : core.Faithful)
    (hwait : mustWait core = true) : core.exitFlag = 0 ∧ queued core = [] := by
  obtain ⟨⟨nodes, fds, hchain, hcounts, haccepted⟩, -⟩ := h
  obtain ⟨hflag, hsize⟩ := of_decide_eq_true hwait
  refine ⟨hflag, ?_⟩
  rw [queued_eq haccepted]
  have hcontents := hchain.contents
  rw [hcounts.size_eq_zero.mp hsize, List.map_nil] at hcontents
  exact List.map_eq_nil_iff.mp hcontents.symm

/-! ## The steps one by one -/

/-- What each step needs and what it leaves. -/
inductive State.Moves (parts : ℕ) (s : State α n) : Action α n → State α n → Prop
  | accept (hm : s.master = .polling) : Moves parts s (.accept true) { s with
      master := .accepted (s.table.openFile (.connection s.connections)).1
      table := (s.table.openFile (.connection s.connections)).2
      connections := s.connections + 1 }
  | acceptFails (hm : s.master = .polling) :
      Moves parts s (.accept false) { s with master := .accepted (-1) }
  | enQueue {netfd : ℤ} {pNew : α} {core : Server α (Fin n)} (hm : s.master = .accepted netfd)
      (hcore : s.core.step (.accept netfd pNew) = some core) :
      Moves parts s (.enQueue pNew)
        { s with core := core, master := .polling, asleep := fun _ => false }
  | exit (hm : s.master = .polling) (hzero : s.core.exitFlag = 0) :
      Moves parts s .exit { s with
        core := { s.core with exitFlag := 1 }
        master := .joining 0
        asleep := fun _ => false }
  | join {k : ℕ} (hm : s.master = .joining k) (hk : k < n)
      (hexited : s.core.workers ⟨k, hk⟩ = .exited) :
      Moves parts s .join { s with master := .joining (k + 1) }
  | done {k : ℕ} (hm : s.master = .joining k) (hk : ¬ k < n) :
      Moves parts s .join { s with master := .exited }
  | enter {i : Fin n} {core : Server α (Fin n)} (hawake : s.asleep i = false)
      (hcore : s.core.step (.enter i) = some core) : Moves parts s (.enter i) { s with
        core := core
        asleep := Function.update s.asleep i (mustWait s.core)
        transfers := Function.update s.transfers i .opening }
  | open {i : Fin n} {netfd : ℤ} {count : ℕ} (hw : s.core.workers i = .serving netfd)
      (ht : s.transfers i = .opening) (hcount : count ≤ parts) :
      Moves parts s (.open i true count) { s with
        table := (s.table.openFile .file1).2
        transfers := Function.update s.transfers i (.reading count) }
  | openFails {i : Fin n} {netfd : ℤ} {count : ℕ} (hw : s.core.workers i = .serving netfd)
      (ht : s.transfers i = .opening) : Moves parts s (.open i false count)
        { s with transfers := Function.update s.transfers i .unopened }
  | read {i : Fin n} {netfd : ℤ} {count : ℕ} (hw : s.core.workers i = .serving netfd)
      (ht : s.transfers i = .reading count) : Moves parts s (.read i true)
        { s with transfers := Function.update s.transfers i (afterRead count) }
  | readFails {i : Fin n} : Moves parts s (.read i false) s
  | readUnopened {i : Fin n} {ok : Bool} {netfd : ℤ} (hw : s.core.workers i = .serving netfd)
      (ht : s.transfers i = .unopened) : Moves parts s (.read i ok) s
  | close {i : Fin n} {netfd : ℤ} (hw : s.core.workers i = .serving netfd)
      (ht : s.transfers i = .sent) : Moves parts s (.close i) { s with
        core := { s.core with workers := Function.update s.core.workers i .entering }
        table := s.table.close netfd
        closed := s.closed ++ (s.object netfd).toList }
  | wake {i : Fin n} : Moves parts s (.wake i)
      { s with asleep := Function.update s.asleep i false }

variable {parts : ℕ} {s t : State α n}

theorem step_moves {l : Action α n} (hstep : s.step parts l = some t) :
    s.Moves parts l t := by
  cases l with
  | accept ok =>
      simp only [State.step] at hstep
      split_ifs at hstep with hm
      obtain rfl := Option.some.inj hstep
      cases ok with
      | true => exact .accept hm
      | false => exact .acceptFails hm
  | enQueue pNew =>
      simp only [State.step] at hstep
      split at hstep
      · rename_i netfd hm
        obtain ⟨core, hcore, rfl⟩ := Option.map_eq_some_iff.mp hstep
        exact .enQueue hm hcore
      · cases hstep
  | exit =>
      simp only [State.step] at hstep
      split_ifs at hstep with hm
      obtain ⟨core, hcore, rfl⟩ := Option.map_eq_some_iff.mp hstep
      obtain ⟨hzero, rfl⟩ := exit_core hcore
      exact .exit hm hzero
  | join =>
      simp only [State.step] at hstep
      split at hstep
      · rename_i k hm
        split_ifs at hstep with hk hexited <;> obtain rfl := Option.some.inj hstep
        · exact .join hm hk hexited
        · exact .done hm hk
      · cases hstep
  | enter i =>
      simp only [State.step] at hstep
      split_ifs at hstep with hasleep
      obtain ⟨core, hcore, rfl⟩ := Option.map_eq_some_iff.mp hstep
      exact .enter (Bool.eq_false_of_not_eq_true hasleep) hcore
  | «open» i ok count =>
      simp only [State.step] at hstep
      split at hstep
      · rename_i netfd hw ht
        split_ifs at hstep with hcount
        obtain rfl := Option.some.inj hstep
        cases ok with
        | true => exact .open hw ht hcount
        | false => exact .openFails hw ht
      · cases hstep
  | read i ok =>
      simp only [State.step] at hstep
      split at hstep
      · rename_i netfd count hw ht
        obtain rfl := Option.some.inj hstep
        cases ok with
        | true => exact .read hw ht
        | false => exact .readFails
      · rename_i netfd hw ht
        obtain rfl := Option.some.inj hstep
        exact .readUnopened hw ht
      · cases hstep
  | close i =>
      simp only [State.step] at hstep
      split at hstep
      · rename_i netfd hw ht
        obtain ⟨core, hcore, rfl⟩ := Option.map_eq_some_iff.mp hstep
        obtain rfl := finish_core hcore
        exact .close hw ht
      · cases hstep
  | wake i =>
      obtain rfl := Option.some.inj hstep
      exact .wake

/-- Forgetting all but the queue and the workers gives the machine of the queue. -/
theorem serving_projects :
    Transition.Projects (serving (α := α) n parts)
      ((ConnectionQueue.server (α := α) (ι := Fin n)).restrict CountsOn) State.core where
  init := by
    rintro s rfl
    rfl
  step := by
    rintro s l t ⟨hcounted, hstep⟩
    cases step_moves hstep with
    | enQueue hm hcore => exact Or.inr ⟨.accept _ _, hcounted, hcore⟩
    | exit hm hzero => exact Or.inr ⟨.exit, trivial, if_pos hzero⟩
    | enter hawake hcore => exact Or.inr ⟨.enter _, trivial, hcore⟩
    | @close i netfd hw ht =>
        refine Or.inr ⟨.finish i, trivial, ?_⟩
        change Server.step _ _ = _
        simp only [Server.step, hw]
    | _ => exact Or.inl rfl

/-! ## Who has which descriptor -/

/-- The descriptor that `main` is about to queue. -/
def Master.held : Master → Multiset ℤ
  | .accepted netfd => {netfd}
  | _ => 0

/-- The descriptor of the connection that a worker serves. -/
def held : Phase → Multiset ℤ
  | .serving netfd => {netfd}
  | _ => 0

/-- The descriptors of connections, with everybody who has one. -/
def State.held (s : State α n) : Multiset ℤ :=
  s.master.held + (queued s.core : Multiset ℤ) + total FileServer.held s.core.workers

omit [DecidableEq α] in
theorem object_of_neg (s : State α n) {fd : ℤ} (h : fd < 0) : s.object fd = none := by
  rw [State.object, Table.lookup_of_neg _ h, Option.bind_none]

omit [DecidableEq α] in
theorem object_openFile (file : File) (htable : t.table = (s.table.openFile file).2) :
    t.object = Function.update s.object (s.table.openFile file).1 file.connection? := by
  funext fd
  rw [State.object, htable, Table.lookup_openFile]
  by_cases heq : fd = (s.table.openFile file).1
  · rw [heq, Function.update_self, Function.update_self, Option.bind_some]
  · rw [Function.update_of_ne heq, Function.update_of_ne heq, State.object]

omit [DecidableEq α] in
theorem object_close {netfd : ℤ} (htable : t.table = s.table.close netfd) :
    t.object = Function.update s.object netfd none := by
  funext fd
  rw [State.object, htable, Table.lookup_close]
  by_cases heq : fd = netfd
  · rw [heq, Function.update_self, Function.update_self, Option.bind_none]
  · rw [Function.update_of_ne heq, Function.update_of_ne heq, State.object]

omit [DecidableEq α] in
theorem object_start (fd : ℤ) : (State.start : State α n).object fd = none := by
  have hnone : ∀ file, some file ∈ startTable.entries → file.connection? = none := by
    have hentries : startTable.entries =
        [some .standard, some .standard, some .standard, some .exitPipe, some .listener,
          some .epoll, none] := by decide
    rw [hentries]
    rintro file hfile
    simp only [List.mem_cons, Option.some.injEq, List.not_mem_nil, or_false,
      reduceCtorEq] at hfile
    rcases hfile with rfl | rfl | rfl | rfl | rfl | rfl <;> rfl
  rw [State.object]
  cases hlookup : (State.start : State α n).table.lookup fd with
  | none => rfl
  | some file => exact hnone file (Table.mem_of_lookup hlookup)

omit [DecidableEq α] in
/-- No more connections are handed out than were accepted. -/
theorem handed_le {core : Server α (Fin n)} (h : core.Faithful) :
    core.handed.length ≤ core.accepted.length := by
  obtain ⟨⟨nodes, fds, -, -, haccepted⟩, -⟩ := h
  rw [haccepted, List.length_append, List.length_map]
  exact Nat.le_add_right _ _

/-- The core is a first-in first-out queue, and every connection is in one place. -/
structure Accounted (s : State α n) : Prop where
  faithful : s.core.Faithful
  custody : Custody s.object s.held s.closed s.connections

namespace Accounted

omit [DecidableEq α] in
theorem start : Accounted (State.start : State α n) where
  faithful := Server.Faithful.init
  custody := by
    have hheld : (State.start : State α n).held = 0 := by
      have hworkers : total FileServer.held (State.start : State α n).core.workers = 0 :=
        total_eq_zero fun _ => rfl
      rw [State.held, hworkers]
      rfl
    rw [hheld]
    exact Custody.start object_start

theorem step (h : Accounted s) {l : Action α n} (hcounted : Counted s l)
    (hstep : s.step parts l = some t) : Accounted t := by
  have hfaithful : t.core.Faithful := by
    rcases serving_projects.step s l t ⟨hcounted, hstep⟩ with hsame | ⟨m, hm, hcore⟩
    · rw [hsame]
      exact h.faithful
    · exact h.faithful.step hm hcore
  refine ⟨hfaithful, ?_⟩
  have hc := h.custody
  cases step_moves hstep with
  | accept hm =>
      obtain ⟨hpos, hfree⟩ := s.table.openFile_free (.connection s.connections)
      have hmake := hc.make hpos (by rw [State.object, hfree, Option.bind_none])
      rw [object_openFile (.connection s.connections) rfl]
      refine hmake.pass ?_
      simp only [State.held, hm, Master.held, ← Multiset.singleton_add]
      abel
  | acceptFails hm =>
      have hfail := hc.fail (show (-1 : ℤ) < 0 by decide) (object_of_neg s (by decide))
      refine hfail.pass ?_
      simp only [State.held, hm, Master.held, ← Multiset.singleton_add]
      abel
  | @enQueue netfd pNew core hm hcore =>
      obtain ⟨-, -, hworkers, haccepted, hhanded⟩ := accept_core hcore
      have hqueued : queued core = queued s.core ++ [netfd] := by
        rw [queued, haccepted, hhanded,
          List.drop_append_of_le_length (handed_le h.faithful), queued]
      refine hc.pass ?_
      simp only [State.held, hm, Master.held, hqueued, hworkers, ← Multiset.coe_add,
        Multiset.coe_singleton]
      abel
  | exit hm hzero | join hm hk hexited | done hm hk =>
      rw [State.held, hm] at hc
      exact hc
  | @enter i core hawake hcore =>
      obtain ⟨hw, ⟨-, rfl⟩ | ⟨-, -, rfl⟩ | ⟨netfd, heap, q, -, -, hqueued, hafter⟩⟩ :=
        enter_core h.faithful hcore
      · exact hc
      · have htotal := total_update_of_eq FileServer.held s.core.workers (i := i)
          (a := .exited) (by rw [hw]; rfl)
        rw [State.held] at hc ⊢
        rw [htotal]
        exact hc
      · have htotal := total_update_of_zero FileServer.held s.core.workers (i := i)
          (.serving netfd) (by rw [hw]; rfl)
        have hworkers : core.workers = Function.update s.core.workers i (.serving netfd) := by
          rw [hafter]
        refine hc.pass ?_
        simp only [State.held, hworkers, htotal, hqueued, ← Multiset.cons_coe,
          ← Multiset.singleton_add, FileServer.held]
        abel
  | «open» hw ht hcount =>
      refine hc.congr fun fd => ?_
      have hfree := (s.table.openFile_free .file1).2
      have hsame : File.connection? .file1 = s.object (s.table.openFile .file1).1 := by
        rw [State.object, hfree]
        rfl
      rw [object_openFile .file1 rfl, hsame, Function.update_eq_self]
  | @close i netfd hw ht =>
      have htotal := total_update_to_zero FileServer.held s.core.workers i
        (a := .entering) rfl
      rw [hw, FileServer.held] at htotal
      rw [object_close rfl]
      refine Custody.close (hc.pass ?_)
      have hqueued : queued { s.core with
          workers := Function.update s.core.workers i Phase.entering } = queued s.core := rfl
      simp only [State.held, ← htotal, ← Multiset.singleton_add, hqueued]
      abel
  | _ => exact hc

end Accounted

theorem inductive_serving : Transition.Inductive (serving (α := α) n parts) Accounted :=
  .restrict (by
    rintro s rfl
    exact Accounted.start) fun _ _ _ h hcounted hstep => h.step hcounted hstep

/-- Every connection that was accepted has been closed once, or it is open and exactly one
party has its descriptor: `main` between `accept` and `enQueue`, the queue, or the worker that
serves it. Such a descriptor refers to its connection until its owner closes it, and no other
descriptor does. -/
theorem connections_accounted (hs : Transition.Reachable (serving n parts) s) :
    (s.closed : Multiset ℕ) + s.held.filterMap s.object = Multiset.range s.connections ∧
      (∀ fd ∈ s.held, 0 ≤ fd → ∃ c, s.table.lookup fd = some (.connection c)) ∧
      ∀ fd c, s.table.lookup fd = some (.connection c) → s.held.count fd = 1 := by
  have hinv := inductive_serving.reachable hs
  have hobject : ∀ {fd c}, s.object fd = some c → s.table.lookup fd = some (.connection c) := by
    intro fd c hc
    obtain ⟨file, hfile, hconnection⟩ := Option.bind_eq_some_iff.mp hc
    cases file with
    | connection c' =>
        obtain rfl := Option.some.inj hconnection
        exact hfile
    | _ => cases hconnection
  refine ⟨hinv.custody.accounted, fun fd hfd hpos => ?_, fun fd c hc => ?_⟩
  · obtain ⟨c, hc⟩ := hinv.custody.refers fd hfd hpos
    exact ⟨c, hobject hc⟩
  · have hc' : s.object fd = some c := by
      rw [State.object, hc]
      rfl
    obtain ⟨rest, hrest⟩ := Multiset.exists_cons_of_mem (hinv.custody.owned fd c hc')
    have hnot := (hinv.custody.pass hrest.symm).notMem_rest hc'
    rw [hrest, Multiset.count_cons_self, Multiset.count_eq_zero_of_notMem hnot]

/-- Two connections, the second under the number of the first one: it was closed before. -/
theorem connections_accounted_two : ∃ s : State ℕ 1,
    s.closed = [0] ∧ s.held = {6} ∧
      (s.closed : Multiset ℕ) + s.held.filterMap s.object = Multiset.range s.connections := by
  have hs : ∃ s : State ℕ 1, Transition.exec
      (fun s l => if Counted s l then State.step 3 s l else none) .start
      [.accept true, .enQueue 0, .enter 0, .open 0 true 0, .read 0 true, .close 0,
        .accept true] = some s ∧ s.closed = [0] ∧ s.held = {6} := by
    refine ⟨_, rfl, rfl, ?_⟩
    rfl
  obtain ⟨s, hexec, hclosed, hheld⟩ := hs
  exact ⟨s, hclosed, hheld,
    (connections_accounted (Transition.reachable_restrict_of_exec hexec)).1⟩

/-! ## The descriptors that stay open -/

/-- The worker has a connection and has not opened the file. -/
def unfiled (a : Phase × Transfer) : Bool :=
  match a with
  | (.serving _, .opening) | (.serving _, .unopened) => true
  | _ => false

/-- A worker with its place in `transFile`. -/
def State.threads (s : State α n) (i : Fin n) : Phase × Transfer :=
  (s.core.workers i, s.transfers i)

/-- The open descriptors of the file. -/
def State.files (s : State α n) : ℕ := s.table.entries.count (some .file1)

/-- Every connection that a worker was handed has cost a descriptor, unless the worker has not
opened the file. -/
def Filed (s : State α n) : Prop :=
  s.files + total (fun a => (unfiled a).toNat) s.threads = s.core.handed.length

omit [DecidableEq α] in
theorem threads_update {i : Fin n} (phase : Phase) (transfer : Transfer)
    (hworkers : t.core.workers = Function.update s.core.workers i phase)
    (htransfers : t.transfers = Function.update s.transfers i transfer) :
    t.threads = Function.update s.threads i (phase, transfer) := by
  funext j
  rw [State.threads, hworkers, htransfers]
  by_cases hji : j = i
  · subst hji
    simp only [Function.update_self]
  · simp only [Function.update_of_ne hji, State.threads]

omit [DecidableEq α] in
/-- A worker moves on. -/
theorem Filed.move (h : Filed s) {i : Fin n} {a : Phase × Transfer}
    (hthreads : t.threads = Function.update s.threads i a)
    (hbalance : t.files + (unfiled a).toNat + s.core.handed.length =
      s.files + (unfiled (s.threads i)).toNat + t.core.handed.length) : Filed t := by
  have htotal := total_update_add (fun a => (unfiled a).toNat) s.threads i a
  rw [Filed] at h
  rw [Filed, hthreads]
  omega

omit [DecidableEq α] in
theorem Filed.frame (h : Filed s) (hthreads : t.threads = s.threads) (hfiles : t.files = s.files)
    (hhanded : t.core.handed = s.core.handed) : Filed t := by
  rw [Filed, hthreads, hfiles, hhanded]
  exact h

omit [DecidableEq α] in
theorem files_openFile (file : File) (htable : t.table = (s.table.openFile file).2) :
    t.files = s.files + if file = .file1 then 1 else 0 := by
  rw [State.files, htable, Table.count_openFile, State.files]

theorem Filed.step (h : Filed s) (hinv : Accounted s) {l : Action α n}
    (hstep : s.step parts l = some t) : Filed t := by
  cases step_moves hstep with
  | accept hm =>
      exact h.frame rfl (files_openFile (.connection s.connections) rfl) rfl
  | acceptFails hm => exact h.frame rfl rfl rfl
  | enQueue hm hcore =>
      obtain ⟨-, -, hworkers, -, hhanded⟩ := accept_core hcore
      exact h.frame (by funext i; simp only [State.threads, hworkers]) rfl hhanded
  | @enter i core hawake hcore =>
      obtain ⟨hw, ⟨-, rfl⟩ | ⟨-, -, rfl⟩ | ⟨netfd, heap, q, -, -, -, rfl⟩⟩ :=
        enter_core hinv.faithful hcore
      · refine h.move (threads_update (i := i) .entering _
          (Function.update_eq_self_iff.mpr hw.symm).symm rfl) ?_
        rw [State.threads, hw]
        rfl
      · refine h.move (threads_update (i := i) _ _ rfl rfl) ?_
        rw [State.threads, hw]
        rfl
      · refine h.move (threads_update (i := i) _ _ rfl rfl) ?_
        rw [State.threads, hw]
        simp only [List.length_append, List.length_singleton, unfiled, Bool.toNat_true,
          Bool.toNat_false, State.files]
        omega
  | @«open» i netfd count hw ht hcount =>
      refine h.move (threads_update (i := i) (.serving netfd) _
        (Function.update_eq_self_iff.mpr hw.symm).symm rfl) ?_
      rw [files_openFile .file1 rfl, State.threads, hw, ht]
      rfl
  | @openFails i netfd count hw ht =>
      refine h.move (threads_update (i := i) (.serving netfd) _
        (Function.update_eq_self_iff.mpr hw.symm).symm rfl) ?_
      rw [State.threads, hw, ht]
      rfl
  | @read i netfd count hw ht =>
      refine h.move (threads_update (i := i) (.serving netfd) _
        (Function.update_eq_self_iff.mpr hw.symm).symm rfl) ?_
      rw [State.threads, hw, ht]
      cases count <;> rfl
  | @close i netfd hw ht =>
      refine h.move (threads_update (i := i) _ .sent rfl
        (Function.update_eq_self_iff.mpr ht.symm).symm) ?_
      have hfiles : (s.table.close netfd).entries.count (some .file1) = s.files := by
        refine Table.count_close _ fun hfile => ?_
        have hheld : netfd ∈ s.held := by
          have htotal := total_update_to_zero held s.core.workers i (a := .entering) rfl
          rw [hw, FileServer.held] at htotal
          rw [State.held, ← htotal]
          simp
        rcases lt_or_ge netfd 0 with hneg | hpos
        · rw [Table.lookup_of_neg _ hneg] at hfile
          cases hfile
        · obtain ⟨c, hc⟩ := hinv.custody.refers netfd hheld hpos
          rw [State.object, hfile] at hc
          cases hc
      rw [State.files, hfiles, State.threads, hw, ht]
      rfl
  | _ => exact h.frame rfl rfl rfl

/-- `transFile` does not close the file: the process has one descriptor of it open for every
connection that a worker was handed so far, but for the workers that have not opened it. -/
theorem descriptors_leak (hs : Transition.Reachable (serving n parts) s) :
    s.files + (Finset.univ.filter fun i => unfiled (s.threads i) = true).card =
      s.core.handed.length := by
  have hinductive : Transition.Inductive (serving (α := α) n parts)
      fun s => Accounted s ∧ Filed s := by
    refine .restrict ?_ fun s l t h hcounted hstep =>
      ⟨h.1.step hcounted hstep, h.2.step h.1 hstep⟩
    rintro s rfl
    refine ⟨Accounted.start, ?_⟩
    have hnone : total (fun a => (unfiled a).toNat) (State.start : State α n).threads = 0 :=
      total_eq_zero fun _ => rfl
    rw [Filed, hnone]
    rfl
  have hfiled := (hinductive.reachable hs).2
  rw [Filed, total] at hfiled
  rw [← hfiled, Finset.card_filter]
  congr 1
  exact Finset.sum_congr rfl fun i _ => by rw [Bool.toNat, Bool.cond_eq_ite]

/-- A connection has been served and closed; the file is still open. -/
theorem descriptors_leak_one : ∃ s : State ℕ 1, s.closed = [0] ∧ s.files = 1 ∧
    s.files + (Finset.univ.filter fun i => unfiled (s.threads i) = true).card =
      s.core.handed.length := by
  have hs : ∃ s : State ℕ 1, Transition.exec
      (fun s l => if Counted s l then State.step 3 s l else none) .start
      [.accept true, .enQueue 0, .enter 0, .open 0 true 0, .read 0 true, .close 0] = some s ∧
        s.closed = [0] ∧ s.files = 1 := ⟨_, rfl, rfl, rfl⟩
  obtain ⟨s, hexec, hclosed, hfiles⟩ := hs
  exact ⟨s, hclosed, hfiles, descriptors_leak (Transition.reachable_restrict_of_exec hexec)⟩

end

end FileServer

end TrainFile

end ProcessThreadPool
