/-
  GnDrive.Lib.Channel

  Bounded channels with `try_send` and `try_recv`: a queue of at most `cap`
  elements, the oldest first.
-/

import Mathlib.Data.List.Basic

namespace GnDrive.Channel

variable {α : Type}

/-- Append at the back, unless the channel is full. -/
def trySend (cap : Nat) (q : List α) (x : α) : Option (List α) :=
  if q.length < cap then some (q ++ [x]) else none

theorem trySend_some {cap : Nat} {q q' : List α} {x : α} (h : trySend cap q x = some q') :
    q' = q ++ [x] := by
  unfold trySend at h
  split at h
  · exact (Option.some.inj h).symm
  · contradiction

/-- Taking out the oldest element loses only that. -/
theorem mem_tail_of_mem {q : List α} {x : α} (h : x ∈ q) : x ∈ q.tail ∨ q.head? = some x := by
  cases q with
  | nil => contradiction
  | cons y q =>
    rcases List.mem_cons.mp h with rfl | hx
    · exact .inr rfl
    · exact .inl hx

end GnDrive.Channel
