import Timelock.DependencyGraph.Order

/-!
# Dependency graphs

The analyzers of one kind with their declared dependencies, split into levels.  An analyzer
without a dependency on another one of the graph has level 0, and any other is one level above
the highest of its dependencies.  Dependencies on analyzers that have run before are allowed
and do not count.
-/

namespace Timelock

inductive GraphError where
  | duplicateAnalyzer (id : String)
  | selfDependency (id : String)
  | danglingDependency (analyzer dependency : String)
  | cycleDetected (id : String)
  deriving DecidableEq

namespace GraphError

def message : GraphError → String
  | .duplicateAnalyzer a =>
      "Analyzer '" ++ a ++ "' appears more than once in the dependency graph"
  | .selfDependency a => "Analyzer '" ++ a ++ "' depends on itself"
  | .danglingDependency a d =>
      "Analyzer '" ++ a ++ "' depends on unknown analyzer '" ++ d ++ "'"
  | .cycleDetected a => "Circular dependency detected involving analyzer '" ++ a ++ "'"

end GraphError

structure DependencyGraph where
  /-- The analyzers with their dependencies inside the graph, without repetition. -/
  internal : List Declaration
  /-- Dependencies on analyzers outside the graph, with repetition. -/
  external : List Declaration
  levels : List (List String)
  deriving DecidableEq

namespace DependencyGraph

def empty : DependencyGraph := ⟨[], [], []⟩

def firstRepeated? : List String → List String → Option String
  | _, [] => none
  | seen, x :: xs => if seen.contains x then some x else firstRepeated? (x :: seen) xs

def dependencyError? (ids resolved : List String) (analyzer dependency : String) :
    Option GraphError :=
  if dependency = analyzer then some (.selfDependency analyzer)
  else if ids.contains dependency || resolved.contains dependency then none
  else some (.danglingDependency analyzer dependency)

def declarationError? (ids resolved : List String) (d : Declaration) : Option GraphError :=
  d.dependencies.findSome? (dependencyError? ids resolved d.id)

def distinct (seen : List String) : List String → List String
  | [] => []
  | x :: xs => if seen.contains x then distinct seen xs else x :: distinct (x :: seen) xs

def keepDependencies (keep : String → Bool) (d : Declaration) : Declaration :=
  { d with dependencies := d.dependencies.filter keep }

def levelIn (levels : List (String × Nat)) (id : String) : Option Nat := levels.lookup id

/-- One more than the highest level among the names, or 0 for none. -/
def nextLevel (levels : List (String × Nat)) (dependencies : List String) : Nat :=
  (dependencies.filterMap (levelIn levels)).foldl (fun m l ↦ max m (l + 1)) 0

/-- The level of every name along an order in which dependencies come first. -/
def assignLevels (ds : List Declaration) (order : List String) : List (String × Nat) :=
  order.foldl
    (fun levels x ↦ (x, nextLevel levels (Declaration.dependenciesOf ds x)) :: levels) []

/-- The names of each level in the order declared. -/
def groupByLevel (ids : List String) (levels : List (String × Nat)) : List (List String) :=
  let depth := levels.foldl (fun m e ↦ max m (e.2 + 1)) 0
  (List.range depth).map fun k ↦ ids.filter (fun id ↦ levelIn levels id = some k)

/-- Build and level a graph.  A repeated name is reported first, then the first bad dependency,
then a cycle. -/
def build (ds : List Declaration) (resolved : List String) : Except GraphError DependencyGraph :=
  let ids := ds.map Declaration.id
  match firstRepeated? [] ids with
  | some id => .error (.duplicateAnalyzer id)
  | none =>
      match ds.findSome? (declarationError? ids resolved) with
      | some e => .error e
      | none =>
          let internal := ds.map fun d ↦
            { d with dependencies := distinct [] (d.dependencies.filter ids.contains) }
          let order := Declaration.order internal
          match Declaration.firstBackward? internal [] order with
          | some id => .error (.cycleDetected id)
          | none => .ok {
              internal := internal
              external := ds.map (keepDependencies (fun x ↦ !ids.contains x))
              levels := groupByLevel ids (assignLevels internal order) }

def size (g : DependencyGraph) : Nat := g.internal.length

def isEmpty (g : DependencyGraph) : Bool := g.internal.isEmpty

def levelOf? (g : DependencyGraph) (id : String) : Option Nat :=
  g.levels.findIdx? (fun l ↦ l.contains id)

/-- The dependencies inside the graph, each as the name depended on and the one that declares
it. -/
def edges (g : DependencyGraph) : List (String × String) :=
  g.internal.flatMap fun d ↦ d.dependencies.map (fun y ↦ (y, d.id))

def insertSorted (x : String) : List String → List String
  | [] => [x]
  | y :: ys => if x ≤ y then x :: y :: ys else y :: insertSorted x ys

/-- In ascending order; repetitions stay. -/
def sorted (xs : List String) : List String := xs.foldr insertSorted []

def dependenciesOf (g : DependencyGraph) (id : String) : List String :=
  sorted ((g.edges.filter (fun e ↦ e.2 = id)).map Prod.fst)

def dependentsOf (g : DependencyGraph) (id : String) : List String :=
  sorted ((g.edges.filter (fun e ↦ e.1 = id)).map Prod.snd)

def externalDependenciesOf (g : DependencyGraph) (id : String) : List String :=
  Declaration.dependenciesOf g.external id

end DependencyGraph

end Timelock
