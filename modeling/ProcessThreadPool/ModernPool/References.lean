import Mathlib.Data.Multiset.Filter
import ProcessThreadPool.Lib.RefCounting
import ProcessThreadPool.Lib.Transition

/-!
# References to tasks and futures

`task_create`, `task_ref`, `task_unref` and the same for futures. Tasks live in nodes of
a pool that are used again; a future has one reference to its task from `future_create` on
and releases it in `future_destroy`. The counters are of type `atomic_int`, so every
operation on them is one step, and calls of other threads can come between the steps of a
call.
-/

namespace ProcessThreadPool

namespace ModernPool

namespace References

open RefCounting

/-- `task_pool_t`: its nodes by their addresses. `nodes` are those that `malloc` has given
to the pool. -/
structure TaskPool where
  nodes : Multiset ℕ
  freeList : List ℕ
  totalAllocated : UInt64
  freeCount : UInt64
  maxPoolSize : UInt64

/-- `g_task_pool` at the start. -/
def gTaskPool : TaskPool where
  nodes := 0
  freeList := []
  totalAllocated := 0
  freeCount := 0
  maxPoolSize := 1000

/-- `task_pool_alloc`. `fresh` is what `malloc` returns, if it is called. -/
def taskPoolAlloc (pool : TaskPool) (fresh : Option ℕ) : Option ℕ × TaskPool :=
  match pool.freeList with
  | a :: rest => (some a, { pool with freeList := rest, freeCount := pool.freeCount - 1 })
  | [] =>
      match fresh with
      | some a => (some a, { pool with
          nodes := a ::ₘ pool.nodes
          totalAllocated := pool.totalAllocated + 1 })
      | none => (none, pool)

/-- `task_pool_free`. -/
def taskPoolFree (pool : TaskPool) (a : ℕ) : TaskPool :=
  if pool.freeCount < pool.maxPoolSize then
    { pool with freeList := a :: pool.freeList, freeCount := pool.freeCount + 1 }
  else
    { pool with nodes := pool.nodes.erase a, totalAllocated := pool.totalAllocated - 1 }

/-- Who has a reference to a task. -/
inductive Holder where
  | party (p : ℕ)
  | future (f : ℕ)
  deriving DecidableEq, Repr

/-- `task_future_t`. -/
structure Future where
  task : ℕ
  refCount : BitVec 32

/-- A call that has not returned: what it does next. `taskInit` is `task_create` once it
has a node, and `mutexInit` is `future_create` at `pthread_mutex_init`. `taskUnref` is
about to release the reference of a future, and `taskFree` and `futureFree` to give the
object back; the future of a `taskFree` is the one whose last release led to it. -/
inductive Call where
  | taskInit (p : ℕ) (a : ℕ)
  | mutexInit (p : ℕ) (f : ℕ)
  | taskUnref (f : ℕ)
  | taskFree (a : ℕ) (f : Option ℕ)
  | futureFree (f : ℕ)
  deriving DecidableEq, Repr

/-- The task that a call is creating. -/
def Call.creates : Call → Option ℕ
  | .taskInit _ a => some a
  | .mutexInit _ _ | .taskUnref _ | .taskFree _ _ | .futureFree _ => none

/-- The task that a call is about to return to the pool. -/
def Call.returns : Call → Option ℕ
  | .taskFree a _ => some a
  | .taskInit _ _ | .mutexInit _ _ | .taskUnref _ | .futureFree _ => none

/-- The future that a call is creating. -/
def Call.createsFuture : Call → Option ℕ
  | .mutexInit _ f => some f
  | .taskInit _ _ | .taskUnref _ | .taskFree _ _ | .futureFree _ => none

/-- The future that a call is destroying. -/
def Call.destroysFuture : Call → Option ℕ
  | .taskUnref f => some f
  | .taskFree _ f => f
  | .futureFree f => some f
  | .taskInit _ _ | .mutexInit _ _ => none

/-- The memory (the reference count of the task in each node, the futures and which of
them are allocated), the references that each party and each future has, and the calls in
progress. `taken` and `returned` are the nodes that were taken from the pool and returned
to it, `created` and `freed` the futures that were allocated and freed. -/
structure State where
  pool : TaskPool
  refCount : ℕ → BitVec 32
  future : ℕ → Future
  heap : Multiset ℕ
  taskRefs : Multiset (Holder × ℕ)
  futureRefs : Multiset (ℕ × ℕ)
  calls : Multiset Call
  taken : Multiset ℕ
  returned : Multiset ℕ
  created : Multiset ℕ
  freed : Multiset ℕ

/-- No tasks and no futures. -/
def State.start : State where
  pool := gTaskPool
  refCount := fun _ => 0
  future := fun _ => ⟨0, 0⟩
  heap := 0
  taskRefs := 0
  futureRefs := 0
  calls := 0
  taken := 0
  returned := 0
  created := 0
  freed := 0

/-- The tasks with the references to them. -/
def State.tasks (s : State) : Ledger ℕ 32 where
  counter := s.refCount
  refs := s.taskRefs.map Prod.snd
  begun := s.calls.filterMap Call.creates
  ended := s.calls.filterMap Call.returns
  taken := s.taken
  returned := s.returned

/-- The futures with the references to them. -/
def State.futures (s : State) : Ledger ℕ 32 where
  counter := fun f => (s.future f).refCount
  refs := s.futureRefs.map Prod.snd
  begun := s.calls.filterMap Call.createsFuture
  ended := s.calls.filterMap Call.destroysFuture
  taken := s.created
  returned := s.freed

/-- A call goes on with something else. -/
def State.push (s : State) (c : Call) : State := { s with calls := c ::ₘ s.calls }

/-- `task_pool_free` at the end of `task_destroy` and of a `task_create` that fails. -/
def State.freeTask (s : State) (a : ℕ) : State :=
  { s with pool := taskPoolFree s.pool a, returned := a ::ₘ s.returned }

/-- `task_unref`: the counter is lowered, and the last reference is followed by the rest of
`task_destroy`. With a future, it is called by `future_destroy`, which goes on to free the
future. -/
def State.unrefTask (s : State) (h : Holder) (a : ℕ) (f : Option ℕ) : State :=
  let t := { s with
    refCount := Function.update s.refCount a (s.refCount a - 1)
    taskRefs := s.taskRefs.erase (h, a) }
  if 1 < (s.refCount a).toInt then
    match f with
    | some f => t.push (.futureFree f)
    | none => t
  else t.push (.taskFree a f)

/-- `task_create` as far as `task_pool_alloc`. -/
def taskCreate (s : State) (p : ℕ) (fresh : Option ℕ) : State :=
  match taskPoolAlloc s.pool fresh with
  | (some a, pool) =>
      { s with
        pool := pool
        refCount := Function.update s.refCount a 1
        taken := a ::ₘ s.taken : State }.push (.taskInit p a)
  | (none, pool) => { s with pool := pool }

/-- `task_ref`. -/
def taskRef (s : State) (h : Holder) (a : ℕ) : State :=
  { s with
    refCount := Function.update s.refCount a (s.refCount a + 1)
    taskRefs := (h, a) ::ₘ s.taskRefs }

/-- `future_create` as far as `pthread_mutex_init`. -/
def futureCreate (s : State) (p a : ℕ) (fresh : Option ℕ) : State :=
  match fresh with
  | some f =>
      { taskRef s (.future f) a with
        future := Function.update s.future f ⟨a, 1⟩
        heap := f ::ₘ s.heap
        created := f ::ₘ s.created : State }.push (.mutexInit p f)
  | none => s

/-- `future_ref`. -/
def futureRef (s : State) (p f : ℕ) : State :=
  { s with
    future := Function.update s.future f
      { s.future f with refCount := (s.future f).refCount + 1 }
    futureRefs := (p, f) ::ₘ s.futureRefs }

/-- `future_unref`, as far as the task. -/
def futureUnref (s : State) (p f : ℕ) : State :=
  let t := { s with
    future := Function.update s.future f
      { s.future f with refCount := (s.future f).refCount - 1 }
    futureRefs := s.futureRefs.erase (p, f) }
  if 1 < (s.future f).refCount.toInt then t else t.push (.taskUnref f)

/-- The next step of a call. `ok` is whether what it allocates or initialises next is
there: the copy of the input, the mutex and the condition of a task, the mutex of a
future. -/
def proceed (s : State) (ok : Bool) : Call → State
  | .taskInit p a =>
      if ok then { s with taskRefs := (.party p, a) ::ₘ s.taskRefs } else s.freeTask a
  | .mutexInit p f =>
      if ok then { s with futureRefs := (p, f) ::ₘ s.futureRefs } else s.push (.taskUnref f)
  | .taskUnref f => s.unrefTask (.future f) (s.future f).task (some f)
  | .taskFree a f =>
      match f with
      | some f => (s.freeTask a).push (.futureFree f)
      | none => s.freeTask a
  | .futureFree f => { s with heap := s.heap.erase f, freed := f ::ₘ s.freed }

/-- What a party does next, or a call that goes on. -/
inductive Op where
  | taskCreate (p : ℕ) (fresh : Option ℕ)
  | taskRef (p a : ℕ)
  | taskUnref (p a : ℕ)
  | futureCreate (p a : ℕ) (fresh : Option ℕ)
  | futureRef (p f : ℕ)
  | futureUnref (p f : ℕ)
  | proceed (c : Call) (ok : Bool)
  deriving DecidableEq, Repr

/-- One step. `malloc` returns what is not in use. A new reference is made from one that
somebody has, and a party releases only what it has. -/
def State.step (s : State) : Op → Option State
  | .taskCreate p fresh =>
      if ∀ a ∈ fresh, a ∉ s.pool.nodes then some (taskCreate s p fresh) else none
  | .taskRef p a =>
      if a ∈ s.tasks.refs then some (taskRef s (.party p) a) else none
  | .taskUnref p a =>
      if (.party p, a) ∈ s.taskRefs then some (s.unrefTask (.party p) a none) else none
  | .futureCreate p a fresh =>
      if a ∈ s.tasks.refs ∧ ∀ f ∈ fresh, f ∉ s.heap then some (futureCreate s p a fresh)
      else none
  | .futureRef p f => if f ∈ s.futures.refs then some (futureRef s p f) else none
  | .futureUnref p f => if (p, f) ∈ s.futureRefs then some (futureUnref s p f) else none
  | .proceed c ok =>
      if c ∈ s.calls then some (proceed { s with calls := s.calls.erase c } ok c) else none

/-- All sequences of calls, with their steps in any order. -/
def references : Transition.System State Op :=
  Transition.System.ofFun State.start State.step

/-- The counting is exact, for tasks and for futures, and a future that somebody has a
reference to has one to its task. -/
structure State.Exact (s : State) : Prop where
  tasks : s.tasks.Exact
  futures : s.futures.Exact
  pointed : ∀ f ∈ s.futures.refs, (s.future f).task ∈ s.tasks.refs

/-- A reference is released when the references to the object are as many as an
`atomic_int` can count. -/
def Fits (s : State) : Op → Prop
  | .taskUnref _ a => s.tasks.refs.count a < 2 ^ 31
  | .futureUnref _ f => s.futures.refs.count f < 2 ^ 31
  | .proceed (.taskUnref f) _ => s.tasks.refs.count (s.future f).task < 2 ^ 31
  | _ => True

instance (s : State) : ∀ l, Decidable (Fits s l)
  | .taskUnref _ a => inferInstanceAs (Decidable (s.tasks.refs.count a < 2 ^ 31))
  | .futureUnref _ f => inferInstanceAs (Decidable (s.futures.refs.count f < 2 ^ 31))
  | .proceed (.taskUnref f) _ =>
      inferInstanceAs (Decidable (s.tasks.refs.count (s.future f).task < 2 ^ 31))
  | .taskCreate _ _ | .taskRef _ _ | .futureCreate _ _ _ | .futureRef _ _ => isTrue trivial
  | .proceed (.taskInit _ _) _ | .proceed (.mutexInit _ _) _ => isTrue trivial
  | .proceed (.taskFree _ _) _ | .proceed (.futureFree _) _ => isTrue trivial

end References

end ModernPool

end ProcessThreadPool
