import SemanticAnalysis.Ids

/-!
# Latches

A `Latch` is an event that happens at most once. Actions subscribed before it happens wait;
releasing the latch hands out the waiting actions, and later subscribers get their action back at
once.
-/

namespace SemanticAnalysis

/-- An event that happens at most once, with the actions that wait for it. -/
structure Latch (α : Type) where
  released : Bool := false
  waiting : List α := []
deriving Repr, Inhabited

namespace Latch

variable {α : Type}

/-- Wait for the event; an action that need not wait is handed back. -/
def subscribe (l : Latch α) (action : α) : Option α × Latch α :=
  if l.released then (some action, l) else (none, { l with waiting := l.waiting ++ [action] })

/-- Let the event happen and hand out the waiting actions. A second release hands out none. -/
def release (l : Latch α) : List α × Latch α :=
  if l.released then ([], l) else (l.waiting, { released := true, waiting := [] })

theorem release_release (l : Latch α) : l.release.2.release = ([], l.release.2) := by
  unfold release
  split <;> simp_all

end Latch

/-- Work that waits for a function. -/
inductive Deferred where
  /-- Surface the errors of `callee` at a call in `site`. -/
  | surfaceErrors (callee : ItemId) (site : ScopeId)
  /-- Copy the variables a lambda refers to into its capture holder. -/
  | sealCaptures (lambda : ItemId)
deriving DecidableEq, Repr, Inhabited

end SemanticAnalysis
