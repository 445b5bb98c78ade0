/-
  File:      ReflectionFlow/Scan/Log.lean
  Subject:   Observations by instruction, replaced when a block is visited again.

  Observations are kept in the order of their instructions, and those of one instruction in
  the order in which they were made.  An instruction has room for 65536 of them; from then
  on the last one is replaced.

  Main definitions:
  * `ObservationLog.record`    one more observation of an instruction
  * `ObservationLog.forget`    drops the observations of a range of instructions
  * `ObservationLog.forget?`   the same for any range, which may be out of order
-/
import ReflectionFlow.Order.Sorted

namespace ReflectionFlow

/-- Observations by code offset and by position at that offset. -/
structure ObservationLog (α : Type) where
  entries : Assoc (Nat × Nat) α := []
  deriving DecidableEq, Repr

namespace ObservationLog

variable {α : Type}

/-- The greatest position an offset has. -/
def lastSlot : Nat := UInt16.size - 1

/-- The next free position at an offset. -/
def nextSlot (log : ObservationLog α) (offset : Nat) : Nat :=
  match (log.entries.filter fun e => e.1.1 == offset).getLast? with
  | some e => min (e.1.2 + 1) lastSlot
  | none => 0

/-- Notes an observation of the instruction at an offset. -/
def record (log : ObservationLog α) (offset : Nat) (a : α) : ObservationLog α :=
  ⟨log.entries.insert (offset, log.nextSlot offset) a⟩

/-- Drops the observations of the instructions from one offset to another, both included.  The
    range is in order, as that of a block is. -/
def forget (log : ObservationLog α) (first last : Nat) : ObservationLog α :=
  ⟨log.entries.filter fun e => !(first ≤ e.1.1 && e.1.1 ≤ last)⟩

/-- Drops the observations of a range of offsets, unless it ends before it begins: a log that
    holds something refuses such a range. -/
def forget? (log : ObservationLog α) (first last : Nat) : Option (ObservationLog α) :=
  if last < first ∧ log.entries.isEmpty = false then none else some (log.forget first last)

theorem forget?_of_le (log : ObservationLog α) {first last : Nat} (h : first ≤ last) :
    log.forget? first last = some (log.forget first last) :=
  if_neg fun hno => Nat.not_lt_of_le h hno.1

theorem eq_forget_of_forget? {log log' : ObservationLog α} {first last : Nat}
    (h : log.forget? first last = some log') : log' = log.forget first last := by
  unfold forget? at h
  split at h
  · cases h
  · exact (Option.some.inj h).symm

/-- Number of observations. -/
def size (log : ObservationLog α) : Nat := log.entries.length

/-- The observations with their offsets, in order. -/
def toList (log : ObservationLog α) : List (Nat × α) := log.entries.map fun e => (e.1.1, e.2)

end ObservationLog

end ReflectionFlow
