/-!
# Orders of a graph

A depth-first search puts every node of a graph before its successors or finds a cycle. Nodes are
finished after all their successors, so each one goes in front of those that are finished already.
Later nodes, and later successors of a node, are visited first, which keeps nodes that do not depend
on each other in their given order.
-/

namespace UnitCalculator.Graph

/-- A cycle: its nodes, each a successor of the one before it and the first of the last. -/
abbrev Cycle (α : Type) := List α

/-- The cycle that a step from the innermost node of a path back to a node of it closes. The path
starts with its innermost node. -/
def closeCycle {α : Type} [DecidableEq α] (path : List α) (node : α) : Cycle α :=
  node :: (path.takeWhile (· ≠ node)).reverse

/-- Visits a node at the end of a path and returns all finished nodes in order. A path is never
longer than the graph has nodes, which bounds the depth of the search. -/
def visit {α : Type} [DecidableEq α] (successors : α → List α) :
    Nat → List α → α → List α → Except (Cycle α) (List α)
  | 0, _, _, finished => .ok finished
  | depth + 1, path, node, finished =>
    if node ∈ path then .error (closeCycle path node)
    else if node ∈ finished then .ok finished
    else do
      let finished ← (successors node).foldrM (visit successors depth (node :: path)) finished
      return node :: finished

/-- The nodes of a graph with every node before its successors, or a cycle. -/
def order {α : Type} [DecidableEq α] (nodes : List α) (successors : α → List α) :
    Except (Cycle α) (List α) :=
  nodes.foldrM (visit successors (nodes.length + 1) []) []

end UnitCalculator.Graph
