/-!
# Dependency order

A depth-first search over declared dependencies.  Nodes are listed so that each one comes
before those that depend on it, unless the declarations have a cycle; then some node comes
before one of its own dependencies, and that dependency lies on a cycle.
-/

namespace Timelock

structure Declaration where
  id : String
  dependencies : List String
  deriving DecidableEq

namespace Declaration

/-- The names that declare a dependency on the given one, the last declaration first. -/
def dependents (ds : List Declaration) (id : String) : List String :=
  ((ds.filter (fun d ↦ d.dependencies.contains id)).map Declaration.id).reverse

/-- Search from a stack of names, given the names that are not yet discovered and the finished
ones, the last one first.  A name found for the first time stays on the stack, and the
undiscovered names that depend on it are put above it; a name found again is taken off, and it
is finished when this happens first. -/
def explore (ds : List Declaration) (stack fresh finished : List String) :
    List String × List String :=
  match stack with
  | [] => (fresh, finished)
  | x :: rest =>
      if _h : x ∈ fresh then
        let left := fresh.erase x
        let above := (dependents ds x).filter left.contains
        explore ds (above.reverse ++ x :: rest) left finished
      else
        explore ds rest fresh (if finished.contains x then finished else x :: finished)
termination_by (fresh.length, stack.length)
decreasing_by
  · apply Prod.Lex.left
    rw [List.length_erase_of_mem ‹x ∈ fresh›]
    exact Nat.sub_lt (List.length_pos_of_mem ‹x ∈ fresh›) Nat.one_pos
  · apply Prod.Lex.right
    simp

def searchAll (ds : List Declaration) : List String → List String × List String → List String
  | [], (_, finished) => finished
  | x :: xs, (fresh, finished) =>
      if x ∈ fresh then searchAll ds xs (explore ds [x] fresh finished)
      else searchAll ds xs (fresh, finished)

/-- The names in reverse order of finishing: dependencies first. -/
def order (ds : List Declaration) : List String :=
  let ids := ds.map Declaration.id
  searchAll ds ids (ids, [])

def dependenciesOf (ds : List Declaration) (id : String) : List String :=
  match ds.find? (fun d ↦ d.id == id) with
  | some d => d.dependencies
  | none => []

/-- The first dependency, taken along the order and as declared, that does not come before the
name that declares it. -/
def firstBackward? (ds : List Declaration) : List String → List String → Option String
  | _, [] => none
  | before, x :: xs =>
      match (dependenciesOf ds x).find? (fun d ↦ !before.contains d) with
      | some d => some d
      | none => firstBackward? ds (x :: before) xs

end Declaration

end Timelock
