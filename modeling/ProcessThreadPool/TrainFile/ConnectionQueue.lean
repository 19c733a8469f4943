import Mathlib.Algebra.GroupWithZero.Nat
import Mathlib.Data.Int.Notation
import Mathlib.Logic.Function.Basic
import ProcessThreadPool.Lib.LinkedChain
import ProcessThreadPool.Lib.Transition

/-!
# The connection queue of the threaded file server

The master puts every accepted connection behind the last node of a linked list, and the
workers take them from its front. Each does so in a critical section of the same mutex, and
such a section is one step. An access through a null pointer or to a node that is not
allocated is a fault.
-/

namespace ProcessThreadPool

namespace TrainFile

namespace ConnectionQueue

open LinkedChain Transition

/-- `node_t`. -/
structure Node (α : Type*) where
  netfd : ℤ
  pNext : Option α
  deriving DecidableEq, Repr

/-- `taskQueue_t`. -/
structure TaskQueue (α : Type*) where
  pFront : Option α
  pRear : Option α
  size : ℤ
  deriving DecidableEq, Repr

/-- The allocated nodes. -/
abbrev Heap (α : Type*) := α → Option (Node α)

/-- `taskQueueInit`. -/
def taskQueueInit {α : Type*} : TaskQueue α := ⟨none, none, 0⟩

/-- Where a worker stands in `threadFunc`: at its critical section, asleep in it or not, in
`transFile`, or out of its loop. -/
inductive Phase where
  | entering
  | serving (netfd : ℤ)
  | exited
  deriving DecidableEq, Repr

section

variable {α ι : Type*} [DecidableEq α] [DecidableEq ι]

/-- `enQueue`. `pNew` is the node that `calloc` returns. -/
def enQueue (heap : Heap α) (q : TaskQueue α) (pNew : α) (netfd : ℤ) :
    Option (Heap α × TaskQueue α) :=
  let heap' := Function.update heap pNew (some ⟨netfd, none⟩)
  let size := (q.size + 1).bmod (2 ^ 32)
  if q.size = 0 then some (heap', ⟨some pNew, some pNew, size⟩)
  else
    q.pRear.bind fun rear =>
      (heap' rear).map fun node =>
        (Function.update heap' rear (some { node with pNext := some pNew }),
          ⟨q.pFront, some pNew, size⟩)

/-- `deQueue`. -/
def deQueue (heap : Heap α) (q : TaskQueue α) : Option (Heap α × TaskQueue α) :=
  q.pFront.bind fun pCur =>
    (heap pCur).map fun node =>
      (Function.update heap pCur none,
        ⟨node.pNext, if node.pNext.isNone then none else q.pRear,
          (q.size - 1).bmod (2 ^ 32)⟩)

/-- How a critical section of `threadFunc` ends. -/
inductive Section (α : Type*) where
  | waits
  | exits
  | takes (netfd : ℤ) (heap : Heap α) (q : TaskQueue α)

/-- The critical section of `threadFunc`, up to its end or to the next wait. -/
def workerSection (heap : Heap α) (q : TaskQueue α) (exitFlag : ℤ) : Option (Section α) :=
  if exitFlag = 0 ∧ q.size = 0 then some .waits
  else if exitFlag = 1 then some .exits
  else
    q.pFront.bind fun pFront =>
      (heap pFront).bind fun node =>
        (deQueue heap q).map fun r => .takes node.netfd r.1 r.2

/-- The server, the connections accepted so far, and those handed to workers. -/
structure Server (α ι : Type*) where
  heap : Heap α
  taskQueue : TaskQueue α
  exitFlag : ℤ
  workers : ι → Phase
  accepted : List ℤ
  handed : List (ι × ℤ)

/-- What happens next: the master queues a connection or sets the flag, a worker passes
through its critical section, or it has served its connection. -/
inductive Action (α ι : Type*) where
  | accept (netfd : ℤ) (pNew : α)
  | exit
  | enter (i : ι)
  | finish (i : ι)

/-- After `threadPoolInit` and `makeWorker`. -/
def Server.start : Server α ι where
  heap := fun _ => none
  taskQueue := taskQueueInit
  exitFlag := 0
  workers := fun _ => .entering
  accepted := []
  handed := []

/-- After a critical section of a worker. -/
def Server.entered (s : Server α ι) (i : ι) : Section α → Server α ι
  | .waits => s
  | .exits => { s with workers := Function.update s.workers i .exited }
  | .takes netfd heap q => { s with
      heap := heap
      taskQueue := q
      workers := Function.update s.workers i (.serving netfd)
      handed := s.handed ++ [(i, netfd)] }

/-- One step. The master leaves its loop when it sets the flag, and `calloc` returns a node
that is not allocated. -/
def Server.step (s : Server α ι) : Action α ι → Option (Server α ι)
  | .accept netfd pNew =>
      if s.exitFlag = 0 ∧ (s.heap pNew).isNone then
        (enQueue s.heap s.taskQueue pNew netfd).map fun r =>
          { s with heap := r.1, taskQueue := r.2, accepted := s.accepted ++ [netfd] }
      else none
  | .exit => if s.exitFlag = 0 then some { s with exitFlag := 1 } else none
  | .enter i =>
      if s.workers i = .entering then
        (workerSection s.heap s.taskQueue s.exitFlag).map (s.entered i)
      else none
  | .finish i =>
      match s.workers i with
      | .serving _ => some { s with workers := Function.update s.workers i .entering }
      | _ => none

/-- All interleavings of the master and the workers. -/
def server : System (Server α ι) (Action α ι) := System.ofFun .start Server.step

/-- No connection is queued while the largest `int` of them are. -/
def CountsOn (s : Server α ι) : Action α ι → Prop
  | .accept _ _ => s.taskQueue.size ≠ 2147483647
  | _ => True

/-- The link of a node. -/
def link (heap : Heap α) (a : α) : Option α := (heap a).bind Node.pNext

/-- The queue is a chain through these nodes, which are the allocated ones and hold these
descriptors. -/
structure Chain (heap : Heap α) (q : TaskQueue α) (nodes : List α) (fds : List ℤ) : Prop where
  linked : Linked (link heap) q.pFront nodes
  allocated : ∀ a, (heap a).isSome = true ↔ a ∈ nodes
  contents : nodes.map (fun a => (heap a).map Node.netfd) = fds.map some
  rear : q.pRear = nodes.getLast?

/-- The counter is the length of the chain. -/
structure Counts (q : TaskQueue α) (nodes : List α) : Prop where
  size : q.size = nodes.length
  le : nodes.length ≤ 2147483647

/-- What was accepted is what the workers were handed, and then what the queue holds. -/
structure Server.Faithful (s : Server α ι) : Prop where
  queue : ∃ nodes fds, Chain s.heap s.taskQueue nodes fds ∧ Counts s.taskQueue nodes ∧
    s.accepted = s.handed.map Prod.snd ++ fds
  exitFlag : s.exitFlag = 0 ∨ s.exitFlag = 1

end

/-! ## The functions on the chain -/

section Shape

variable {α ι : Type*} {heap : Heap α} {q : TaskQueue α} {nodes : List α} {fds : List ℤ}

theorem Counts.size_eq_zero (h : Counts q nodes) :
    q.size = 0 ↔ nodes = [] := by
  have hsize := h.size
  rw [← List.length_eq_zero_iff]
  omega

theorem Counts.enqueued {q' : TaskQueue α} (h : Counts q nodes) (hroom : q.size ≠ 2147483647)
    (hsize : q'.size = (q.size + 1).bmod (2 ^ 32)) (a : α) : Counts q' (nodes ++ [a]) := by
  have hnum := h.size
  have hle := h.le
  constructor
  · rw [hsize, List.length_append, List.length_singleton, Int.bmod_def]
    omega
  · rw [List.length_append, List.length_singleton]
    omega

theorem Counts.dequeued {q' : TaskQueue α} {a : α} (h : Counts q (a :: nodes))
    (hsize : q'.size = (q.size - 1).bmod (2 ^ 32)) : Counts q' nodes := by
  have hnum := h.size
  have hle := h.le
  rw [List.length_cons] at hnum hle
  constructor
  · rw [hsize, Int.bmod_def]
    omega
  · omega

namespace Chain

theorem init : Chain (fun _ => none) (taskQueueInit (α := α)) [] [] :=
  ⟨.nil, fun _ => iff_of_false Bool.false_ne_true (List.not_mem_nil), rfl, rfl⟩

theorem pFront_eq_none (h : Chain heap q nodes fds) : q.pFront = none ↔ nodes = [] := by
  rw [h.linked.start_eq, List.head?_eq_none_iff]

theorem pRear_eq_none (h : Chain heap q nodes fds) : q.pRear = none ↔ nodes = [] := by
  rw [h.rear, List.getLast?_eq_none_iff]

/-- The last node has no link. -/
theorem rear_link (h : Chain heap q nodes fds) {rear : α} (hrear : q.pRear = some rear) :
    link heap rear = none := by
  rw [h.rear, List.getLast?_eq_some_iff] at hrear
  obtain ⟨front, rfl⟩ := hrear
  exact h.linked.next_last

theorem not_mem_of_free (h : Chain heap q nodes fds) {a : α} (hfree : heap a = none) :
    a ∉ nodes := by
  rw [← h.allocated, hfree]
  exact Bool.false_ne_true

theorem exists_node (h : Chain heap q nodes fds) {a : α} (ha : a ∈ nodes) :
    ∃ node, heap a = some node :=
  Option.isSome_iff_exists.mp ((h.allocated a).mpr ha)

end Chain

theorem Server.Faithful.init : (Server.start : Server α ι).Faithful :=
  ⟨⟨[], [], Chain.init, ⟨rfl, Nat.zero_le _⟩, rfl⟩, Or.inl rfl⟩

end Shape

section

variable {α ι : Type*} [DecidableEq α] [DecidableEq ι] {heap : Heap α} {q : TaskQueue α}
  {nodes : List α} {fds : List ℤ}

namespace Chain

/-- A node is put behind the last one, and nothing else changes. -/
theorem enQueue_behind {pNew rear : α} {node : Node α} (hsize : q.size ≠ 0)
    (hrear : q.pRear = some rear) (hnode : heap rear = some node) (hne : rear ≠ pNew)
    (netfd : ℤ) : ∃ heap', ConnectionQueue.enQueue heap q pNew netfd =
        some (heap', ⟨q.pFront, some pNew, (q.size + 1).bmod (2 ^ 32)⟩) ∧
      heap' pNew = some ⟨netfd, none⟩ ∧ heap' rear = some { node with pNext := some pNew } ∧
      ∀ a, a ≠ pNew → a ≠ rear → heap' a = heap a := by
  have hlast : Function.update heap pNew (some ⟨netfd, none⟩) rear = some node := by
    rw [Function.update_of_ne hne, hnode]
  refine ⟨Function.update (Function.update heap pNew (some ⟨netfd, none⟩)) rear
    (some { node with pNext := some pNew }), ?_, ?_, Function.update_self ..,
    fun a ha ha' => ?_⟩
  · rw [ConnectionQueue.enQueue, if_neg hsize, hrear, Option.bind_some, hlast, Option.map_some]
  · rw [Function.update_of_ne hne.symm, Function.update_self]
  · rw [Function.update_of_ne ha', Function.update_of_ne ha]

theorem enQueue (h : Chain heap q nodes fds) (hsize : q.size = 0 ↔ nodes = []) {pNew : α}
    (hfree : heap pNew = none) (netfd : ℤ) :
    ∃ heap' q', ConnectionQueue.enQueue heap q pNew netfd = some (heap', q') ∧
      Chain heap' q' (nodes ++ [pNew]) (fds ++ [netfd]) ∧
      q'.size = (q.size + 1).bmod (2 ^ 32) := by
  have hfresh := h.not_mem_of_free hfree
  rcases List.eq_nil_or_concat' nodes with rfl | ⟨front, rear, rfl⟩
  · have hfds : fds = [] := List.map_eq_nil_iff.mp h.contents.symm
    refine ⟨_, _, if_pos (hsize.mpr rfl), ⟨?_, fun a => ?_, ?_, rfl⟩, rfl⟩
    · refine .cons ?_
      rw [link, Function.update_self]
      exact .nil
    · rw [List.nil_append, List.mem_singleton, Function.update_apply]
      split_ifs with ha
      · exact iff_of_true rfl ha
      · rw [h.allocated]
        exact iff_of_false List.not_mem_nil ha
    · rw [hfds, List.nil_append, List.map_singleton, Function.update_self]
      rfl
  · have hne : rear ≠ pNew := by
      rintro rfl
      exact hfresh (List.mem_append_right front (List.mem_singleton_self _))
    have hrear : q.pRear = some rear := by rw [h.rear, List.getLast?_concat]
    have hnonempty : q.size ≠ 0 := by
      rw [ne_eq, hsize]
      exact List.append_ne_nil_of_right_ne_nil front (List.cons_ne_nil rear [])
    obtain ⟨node, hnode⟩ := h.exists_node (List.mem_append_right front (List.mem_singleton_self _))
    obtain ⟨heap', hcall, hnew, hlast, hother⟩ := enQueue_behind hnonempty hrear hnode hne netfd
    refine ⟨heap', _, hcall, ⟨?_, fun a => ?_, ?_, ?_⟩, rfl⟩
    · refine h.linked.append hfresh (fun b hb hb' => ?_) ?_ ?_
      · rw [link, link, hother b hb hb']
      · rw [link, hlast]
        rfl
      · rw [link, hnew]
        rfl
    · rw [List.mem_append, List.mem_singleton, ← h.allocated]
      by_cases ha : a = pNew
      · rw [ha, hnew]
        exact iff_of_true rfl (Or.inr rfl)
      · by_cases ha' : a = rear
        · rw [ha', hlast, hnode]
          exact iff_of_true rfl (Or.inl rfl)
        · rw [hother a ha ha']
          exact ⟨Or.inl, fun h => h.resolve_right ha⟩
    · have hsame : (front ++ [rear]).map (fun a => (heap' a).map Node.netfd) = fds.map some := by
        rw [← h.contents]
        refine List.map_congr_left fun a ha => ?_
        by_cases ha' : a = rear
        · rw [ha', hlast, hnode]
          rfl
        · rw [hother a (fun heq => hfresh (heq ▸ ha)) ha']
      rw [List.map_append, hsame, List.map_append, List.map_singleton, hnew]
      rfl
    · rw [List.getLast?_concat]

/-- The first node is taken out and freed. -/
theorem deQueue {front : α} (h : Chain heap q (front :: nodes) fds) :
    ∃ node fds' heap' q', q.pFront = some front ∧ heap front = some node ∧
      fds = node.netfd :: fds' ∧ ConnectionQueue.deQueue heap q = some (heap', q') ∧
      Chain heap' q' nodes fds' ∧ q'.size = (q.size - 1).bmod (2 ^ 32) := by
  obtain ⟨node, hnode⟩ := h.exists_node List.mem_cons_self
  have hfront : q.pFront = some front := h.linked.start_eq
  have hnodup := List.nodup_cons.mp h.linked.nodup
  have hother : ∀ a ∈ nodes, Function.update heap front none a = heap a := by
    intro a ha
    rw [Function.update_of_ne]
    rintro rfl
    exact hnodup.1 ha
  have hrest : Linked (link heap) node.pNext nodes := by
    have hlinked := h.linked
    rw [hfront] at hlinked
    cases hlinked with
    | cons hrest =>
        rw [link, hnode] at hrest
        exact hrest
  have hcontents := h.contents
  rw [List.map_cons, hnode] at hcontents
  cases fds with
  | nil => cases hcontents
  | cons fd fds' =>
      rw [List.map_cons, List.cons.injEq] at hcontents
      have hfd : node.netfd = fd := Option.some.inj hcontents.1
      refine ⟨node, fds', Function.update heap front none, ⟨node.pNext,
        if node.pNext.isNone then none else q.pRear, (q.size - 1).bmod (2 ^ 32)⟩, hfront, hnode,
        by rw [hfd], ?_, ⟨?_, fun a => ?_, ?_, ?_⟩, rfl⟩
      · rw [ConnectionQueue.deQueue, hfront, Option.bind_some, hnode, Option.map_some]
      · refine hrest.congr fun a ha => ?_
        rw [link, link, hother a ha]
      · by_cases ha : a = front
        · rw [ha, Function.update_self]
          exact iff_of_false Bool.false_ne_true hnodup.1
        · rw [Function.update_of_ne ha, h.allocated, List.mem_cons]
          exact ⟨fun hmem => hmem.resolve_left ha, Or.inr⟩
      · rw [← hcontents.2]
        exact List.map_congr_left fun a ha => by rw [hother a ha]
      · have hrear := h.rear
        cases nodes with
        | nil =>
            rw [hrest.start_eq]
            rfl
        | cons b nodes =>
            rw [hrest.start_eq]
            exact hrear

end Chain

/-! ## Steps -/

/-- A critical section of a worker waits on an empty chain, leaves when the flag is set, or
takes the oldest descriptor. -/
theorem workerSection_cases (hchain : Chain heap q nodes fds) (hcounts : Counts q nodes)
    {exitFlag : ℤ} (hflag : exitFlag = 0 ∨ exitFlag = 1) :
    (nodes = [] ∧ workerSection heap q exitFlag = some .waits) ∨
    workerSection heap q exitFlag = some .exits ∨
    ∃ netfd nodes' fds' heap' q', nodes ≠ [] ∧ fds = netfd :: fds' ∧
      workerSection heap q exitFlag = some (.takes netfd heap' q') ∧
      Chain heap' q' nodes' fds' ∧ Counts q' nodes' := by
  rcases hflag with rfl | rfl
  · cases nodes with
    | nil => exact Or.inl ⟨rfl, if_pos ⟨rfl, hcounts.size_eq_zero.mpr rfl⟩⟩
    | cons front nodes =>
        obtain ⟨node, fds', heap', q', hfront, hnode, hfds, hcall, hchain', hsize⟩ :=
          hchain.deQueue
        have hnonempty : ¬ q.size = 0 := by
          rw [hcounts.size_eq_zero]
          exact List.cons_ne_nil front nodes
        refine Or.inr (Or.inr ⟨node.netfd, nodes, fds', heap', q', List.cons_ne_nil _ _, hfds, ?_,
          hchain', hcounts.dequeued hsize⟩)
        rw [workerSection, if_neg fun h => hnonempty h.2, if_neg (by decide : ¬ (0 : ℤ) = 1),
          hfront, Option.bind_some, hnode, Option.bind_some, hcall, Option.map_some]
  · refine Or.inr (Or.inl ?_)
    rw [workerSection, if_neg fun h => absurd h.1 (by decide), if_pos rfl]

namespace Server.Faithful

variable {s t : Server α ι}

theorem enter (h : s.Faithful) (i : ι) {r : Section α}
    (hr : workerSection s.heap s.taskQueue s.exitFlag = some r) : (s.entered i r).Faithful := by
  obtain ⟨⟨nodes, fds, hchain, hcounts, haccepted⟩, hflag⟩ := h
  rcases workerSection_cases hchain hcounts hflag with
    ⟨-, hcall⟩ | hcall | ⟨netfd, nodes', fds', heap', q', -, rfl, hcall, hchain', hcounts'⟩
  · obtain rfl := Option.some.inj (hr.symm.trans hcall)
    exact ⟨⟨nodes, fds, hchain, hcounts, haccepted⟩, hflag⟩
  · obtain rfl := Option.some.inj (hr.symm.trans hcall)
    exact ⟨⟨nodes, fds, hchain, hcounts, haccepted⟩, hflag⟩
  · obtain rfl := Option.some.inj (hr.symm.trans hcall)
    refine ⟨⟨nodes', fds', hchain', hcounts', ?_⟩, hflag⟩
    rw [Server.entered, List.map_append, List.append_assoc]
    exact haccepted

theorem step (h : s.Faithful) {l : Action α ι} (hcounts : CountsOn s l)
    (hstep : s.step l = some t) : t.Faithful := by
  cases l with
  | accept netfd pNew =>
      obtain ⟨⟨nodes, fds, hchain, hsize, haccepted⟩, hflag⟩ := h
      simp only [Server.step] at hstep
      split_ifs at hstep with henabled
      obtain ⟨heap', q', hcall, hchain', hnew⟩ := hchain.enQueue hsize.size_eq_zero
        (Option.isNone_iff_eq_none.mp henabled.2) netfd
      rw [hcall] at hstep
      obtain rfl := Option.some.inj hstep
      refine ⟨⟨_, _, hchain', hsize.enqueued hcounts hnew pNew, ?_⟩, hflag⟩
      rw [haccepted, List.append_assoc]
  | exit =>
      simp only [Server.step] at hstep
      split_ifs at hstep
      obtain rfl := Option.some.inj hstep
      exact ⟨h.queue, Or.inr rfl⟩
  | enter i =>
      simp only [Server.step] at hstep
      split_ifs at hstep
      obtain ⟨r, hr, rfl⟩ := Option.map_eq_some_iff.mp hstep
      exact h.enter i hr
  | finish i =>
      simp only [Server.step] at hstep
      split at hstep
      · obtain rfl := Option.some.inj hstep
        exact ⟨h.queue, h.exitFlag⟩
      · cases hstep

end Server.Faithful

/-! ## Whole runs -/

/-- The queue is a chain of different nodes, the allocated ones, whose last one has no link
and is `pRear`; the counter is its length, and both ends are null exactly when it is 0. No
call goes through a null pointer or to a freed node, `deQueue` is not called on an empty
chain, and the accepted descriptors are those handed to workers and then those queued. -/
structure Server.IsFifo (s : Server α ι) (nodes : List α) (fds : List ℤ) : Prop where
  chain : Chain s.heap s.taskQueue nodes fds
  nodup : nodes.Nodup
  size : s.taskQueue.size = nodes.length
  front_null : s.taskQueue.pFront = none ↔ s.taskQueue.size = 0
  rear_null : s.taskQueue.pRear = none ↔ s.taskQueue.size = 0
  rear_link : ∀ rear, s.taskQueue.pRear = some rear → link s.heap rear = none
  enQueue_ok : ∀ pNew netfd, s.heap pNew = none →
    (enQueue s.heap s.taskQueue pNew netfd).isSome = true
  section_ok : (workerSection s.heap s.taskQueue s.exitFlag).isSome = true
  deQueue_nonempty : ∀ netfd heap q,
    workerSection s.heap s.taskQueue s.exitFlag = some (.takes netfd heap q) → nodes ≠ []
  in_order : s.accepted = s.handed.map Prod.snd ++ fds

omit [DecidableEq ι] in
theorem Server.Faithful.isFifo {s : Server α ι} (h : s.Faithful) :
    ∃ nodes fds, s.IsFifo nodes fds := by
  obtain ⟨⟨nodes, fds, hchain, hcounts, haccepted⟩, hflag⟩ := h
  refine ⟨nodes, fds, hchain, hchain.linked.nodup, hcounts.size,
    hchain.pFront_eq_none.trans hcounts.size_eq_zero.symm,
    hchain.pRear_eq_none.trans hcounts.size_eq_zero.symm, fun _ => hchain.rear_link,
    fun pNew netfd hfree => ?_, ?_, fun netfd heap q htakes => ?_, haccepted⟩
  · obtain ⟨heap', q', hcall, -⟩ := hchain.enQueue hcounts.size_eq_zero hfree netfd
    rw [hcall]
    rfl
  · rcases workerSection_cases hchain hcounts hflag with
      ⟨-, hcall⟩ | hcall | ⟨_, _, _, _, _, -, -, hcall, -⟩ <;> rw [hcall] <;> rfl
  · rcases workerSection_cases hchain hcounts hflag with
      ⟨-, hcall⟩ | hcall | ⟨_, _, _, _, _, hne, -⟩
    · cases htakes.symm.trans hcall
    · cases htakes.symm.trans hcall
    · exact hne

/-- As long as no more than `2147483647` connections are queued, the queue is a first-in
first-out list of the accepted connections at all times. -/
theorem connections_fifo {s : Server α ι}
    (hs : Reachable ((server : System (Server α ι) (Action α ι)).restrict CountsOn) s) :
    ∃ nodes fds, s.IsFifo nodes fds := by
  have hinductive : Inductive ((server : System (Server α ι) (Action α ι)).restrict CountsOn)
      Server.Faithful := by
    refine .restrict ?_ fun s l t h hl hstep => h.step hl hstep
    rintro s rfl
    exact Server.Faithful.init
  exact (hinductive.reachable hs).isFifo

end

/-- Three connections are accepted, the second under the address of the first one. -/
theorem connections_fifo_three : ∃ s : Server ℕ (Fin 2),
    (∃ nodes fds, s.IsFifo nodes fds) ∧ s.handed = [(1, 5), (0, 6)] := by
  have hrun : Reachable ((server : System (Server ℕ (Fin 2)) _).restrict CountsOn) _ :=
    ⟨_, [.accept 5 0, .enter 1, .accept 6 0, .accept 7 1, .enter 0, .finish 1, .exit, .enter 1],
      rfl, .cons ⟨fun h => absurd h (by decide), rfl⟩ (.cons ⟨trivial, rfl⟩
      (.cons ⟨fun h => absurd h (by decide), rfl⟩ (.cons ⟨fun h => absurd h (by decide), rfl⟩
      (.cons ⟨trivial, rfl⟩ (.cons ⟨trivial, rfl⟩ (.cons ⟨trivial, rfl⟩ (.cons ⟨trivial, rfl⟩
      (.nil _))))))))⟩
  exact ⟨_, connections_fifo hrun, rfl⟩

/-- A failed `accept` returns `-1`, and `main` queues that too, as often as it happens. -/
theorem exists_queued {k : ℕ} (hk : k ≤ 2147483648) : ∃ (s : Server ℕ (Fin 1)) (fds : List ℤ),
    Reachable server s ∧ Chain s.heap s.taskQueue (List.range k) fds ∧ s.exitFlag = 0 ∧
      s.taskQueue.size = (k : ℤ).bmod (2 ^ 32) := by
  induction k with
  | zero => exact ⟨.start, [], ⟨_, [], rfl, .nil _⟩, Chain.init, rfl, rfl⟩
  | succ k ih =>
      obtain ⟨s, fds, hs, hchain, hflag, hsize⟩ := ih (by omega)
      have hempty : s.taskQueue.size = 0 ↔ List.range k = [] := by
        rw [hsize, List.range_eq_nil, Int.bmod_def]
        omega
      have hfree : s.heap k = none := by
        rw [← Option.not_isSome_iff_eq_none, hchain.allocated]
        exact List.not_mem_range_self
      obtain ⟨heap', q', hcall, hchain', hnew⟩ := hchain.enQueue hempty hfree (-1)
      have hstep : s.step (.accept (-1) k) = some { s with
          heap := heap', taskQueue := q', accepted := s.accepted ++ [-1] } := by
        rw [Server.step, if_pos ⟨hflag, by rw [hfree]; rfl⟩, hcall]
        rfl
      refine ⟨_, fds ++ [-1], hs.step hstep, ?_, hflag, ?_⟩
      · rw [List.range_succ]
        exact hchain'
      · rw [hnew, hsize, Int.bmod_add_bmod, Int.natCast_succ]

/-- When `2147483648` entries are queued, the counter is negative. -/
theorem size_overflows : ¬ ∀ s : Server ℕ (Fin 1), Reachable server s →
    ∃ nodes, Linked (link s.heap) s.taskQueue.pFront nodes ∧
      s.taskQueue.size = nodes.length := by
  intro hclaim
  obtain ⟨s, fds, hs, -, -, hsize⟩ := exists_queued le_rfl
  obtain ⟨nodes, -, hlength⟩ := hclaim s hs
  rw [hsize, Int.bmod_def] at hlength
  omega

end ConnectionQueue

end TrainFile

end ProcessThreadPool
