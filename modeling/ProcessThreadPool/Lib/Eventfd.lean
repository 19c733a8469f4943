import Mathlib.Data.Nat.Notation

/-!
# Event counters of the kernel

An eventfd is a counter that is read and written through a descriptor. A read takes all of it,
or one when the descriptor was created in semaphore mode, and cannot go on at zero; a write adds
to it and cannot go on when the counter would pass its maximum. What cannot go on returns at
once on a non-blocking descriptor, and blocks otherwise.
-/

namespace ProcessThreadPool

namespace Eventfd

/-- The flags of `eventfd` that its reads and writes depend on. -/
structure Flags where
  semaphore : Bool
  nonblock : Bool
  deriving DecidableEq, Repr

/-- An open eventfd. -/
structure Fd where
  flags : Flags
  counter : ℕ
  deriving DecidableEq, Repr

/-- The largest value of the counter. -/
def maxCounter : ℕ := 18446744073709551614

/-- How a read or a write ends, with what is left of the counter. -/
inductive Result where
  | done (fd : Fd)
  | again
  | blocks
  deriving DecidableEq, Repr

/-- What becomes of an operation that cannot go on. -/
def Fd.refuse (fd : Fd) : Result := if fd.flags.nonblock then .again else .blocks

def Fd.read (fd : Fd) : Result :=
  if fd.counter = 0 then fd.refuse
  else .done { fd with counter := if fd.flags.semaphore then fd.counter - 1 else 0 }

def Fd.write (fd : Fd) (value : ℕ) : Result :=
  if fd.counter + value ≤ maxCounter then .done { fd with counter := fd.counter + value }
  else fd.refuse

/-- A read in semaphore mode takes one. -/
theorem read_semaphore (nonblock : Bool) {counter : ℕ} (h : counter ≠ 0) :
    Fd.read ⟨⟨true, nonblock⟩, counter⟩ = .done ⟨⟨true, nonblock⟩, counter - 1⟩ := if_neg h

theorem write_of_le (flags : Flags) {counter value : ℕ} (h : counter + value ≤ maxCounter) :
    Fd.write ⟨flags, counter⟩ value = .done ⟨flags, counter + value⟩ := if_pos h

/-- A write on a non-blocking descriptor adds its value or changes nothing. -/
theorem write_nonblock (semaphore : Bool) (counter value : ℕ) :
    Fd.write ⟨⟨semaphore, true⟩, counter⟩ value = .done ⟨⟨semaphore, true⟩, counter + value⟩ ∨
      Fd.write ⟨⟨semaphore, true⟩, counter⟩ value = .again := by
  by_cases h : counter + value ≤ maxCounter
  · exact Or.inl (write_of_le _ h)
  · exact Or.inr (if_neg h)

end Eventfd

end ProcessThreadPool
