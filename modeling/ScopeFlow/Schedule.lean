/-!
# Draining a queue of tasks

Tasks are taken one after the other and replayed; replaying a task may put further tasks at the end of the queue. The
bound says how many tasks are taken at most.
-/

namespace ScopeFlow

/-- Takes and replays tasks until there is none, and counts them. -/
def drain {m : Type → Type} [Monad m] {α : Type} (next : m (Option α)) (replay : α → m Unit) : Nat → m Nat
  | 0 => pure 0
  | bound + 1 => do
    match ← next with
    | none => return 0
    | some task =>
      replay task
      let more ← drain next replay bound
      return more + 1

end ScopeFlow
