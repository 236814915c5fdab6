import SemanticAnalysis.Options

/-!
# Ranking

Candidates of a call are compared by their scores, argument by argument. A candidate wins when no
other one dominates it and it is the only such candidate.
-/

namespace SemanticAnalysis

/-- The scores of a viable candidate and whether it packs arguments. -/
structure Standing where
  scores : List Nat
  variadic : Bool := false
deriving DecidableEq, Repr, Inhabited

namespace Standing

/-- `a` beats `b`: nowhere worse, and somewhere better or else fixed where `b` is variadic. -/
def dominates (a b : Standing) : Bool :=
  a.scores.length == b.scores.length && (a.scores.zip b.scores).all (fun (x, y) => y ≤ x) &&
    ((a.scores.zip b.scores).any (fun (x, y) => y < x) || (!a.variadic && b.variadic))

/-- The indices of the standings that no other one dominates. -/
def undominated (all : List Standing) : List Nat :=
  (all.zipIdx.filter fun (b, i) =>
    !all.zipIdx.any fun (a, j) => j != i && a.dominates b).map (·.2)

/-- The index of the winner, or the indices of all that share the first place. -/
def selectBest (policy : AmbiguityPolicy) (all : List Standing) : Except (List Nat) Nat :=
  if all.length == 1 then .ok 0
  else
    match undominated all, policy with
    | [winner], _ => .ok winner
    | first :: _, .firstDeclared => .ok first
    | tied, _ => .error tied

end Standing

end SemanticAnalysis
