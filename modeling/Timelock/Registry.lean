import Timelock.Analyzer
import Timelock.DependencyGraph
import Timelock.Registration

/-!
# Analyzer registry

The analyzers of all four levels in the order of registration, under distinct identifiers.  A plan
arranges them in passes, leaves first, and each pass in the levels of its dependency graph.
-/

namespace Timelock

structure Registry where
  analyzers : List Analyzer := []
  distinct : (analyzers.map Analyzer.id).Nodup := by simp

/-- Levels of analyzers for the nodes of one kind. -/
structure Pass where
  level : Level
  levels : List (List Analyzer)

structure PlanError where
  level : Level
  error : GraphError
  deriving DecidableEq

structure Plan where
  passes : List Pass

namespace Level

/-- The order of the passes: leaves first. -/
def passOrder : List Level := [.parameter, .call, .batchOperation, .proposal]

def tag : Level → String
  | .proposal => "Proposal"
  | .batchOperation => "BatchOperation"
  | .call => "Call"
  | .parameter => "Parameter"

end Level

namespace Analyzer

def summary (a : Analyzer) : String :=
  "RegisteredAnalyzer \x7b id: " ++ Text.quoted a.id ++ ", level: " ++ a.level.tag ++ " \x7d"

end Analyzer

namespace Plan

def analyzers (p : Plan) : List Analyzer :=
  p.passes.flatMap (fun x ↦ x.levels.flatten)

def levelsOf (p : Plan) (l : Level) : List (List Analyzer) :=
  match p.passes.find? (fun x ↦ x.level = l) with
  | some x => x.levels
  | none => []

def size (p : Plan) : Nat := p.analyzers.length

end Plan

namespace Registry

def ids (r : Registry) : List String := r.analyzers.map Analyzer.id

def contains (r : Registry) (id : String) : Bool := r.ids.contains id

def size (r : Registry) : Nat := r.analyzers.length

def isEmpty (r : Registry) : Bool := r.analyzers.isEmpty

theorem distinct_append {r : Registry} {a : Analyzer} (h : ¬ r.contains a.id = true) :
    ((r.analyzers ++ [a]).map Analyzer.id).Nodup := by
  have hn : a.id ∉ r.analyzers.map Analyzer.id := by simpa [contains, ids] using h
  rw [List.map_append, List.nodup_append]
  refine ⟨r.distinct, by simp, ?_⟩
  rintro x hx y hy rfl
  exact hn (List.mem_singleton.1 hy ▸ hx)

/-- The identifiers of analyzers are distinct, whatever their levels, and not blank. -/
def register (r : Registry) (a : Analyzer) : Except RegistrationError Registry :=
  if Text.allBlank a.id then .error .emptyAnalyzerId
  else if h : r.contains a.id then .error (.duplicateAnalyzer a.id)
  else .ok ⟨r.analyzers ++ [a], distinct_append h⟩

def ofLevel (r : Registry) (l : Level) : List Analyzer :=
  r.analyzers.filter (fun a ↦ a.level = l)

def named (as : List Analyzer) (ids : List String) : List Analyzer :=
  ids.filterMap fun id ↦ as.find? (fun a ↦ a.id == id)

/-- Arrange the analyzers of one level, given those of earlier passes. -/
def pass (r : Registry) (resolved : List String) (l : Level) : Except PlanError Pass :=
  let as := r.ofLevel l
  match DependencyGraph.build (as.map Analyzer.declaration) resolved with
  | .error e => .error ⟨l, e⟩
  | .ok g => .ok ⟨l, g.levels.map (named as)⟩

def passes (r : Registry) : (resolved : List String) → List Level → Except PlanError (List Pass)
  | _, [] => .ok []
  | resolved, l :: ls =>
      match r.pass resolved l with
      | .error e => .error e
      | .ok p =>
          match r.passes (resolved ++ (r.ofLevel l).map Analyzer.id) ls with
          | .error e => .error e
          | .ok ps => .ok (p :: ps)

def plan (r : Registry) : Except PlanError Plan :=
  match r.passes [] Level.passOrder with
  | .error e => .error e
  | .ok ps => .ok ⟨ps⟩

end Registry

end Timelock
