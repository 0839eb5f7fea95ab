import Timelock.Registry
import Timelock.Run.Task

/-!
# Levels in flight

The steps of a run are the levels of its plan on each node.  The tasks of a level start together
and see the tree as it is then; when all have ended, their annotations are appended in the order
of the level, whatever the order in which they ended.
-/

namespace Timelock

structure LevelStep where
  path : NodePath
  analyzers : List Analyzer

namespace Plan

/-- Pass by pass, node by node, level by level. -/
def steps (p : Plan) (t : AnalyzedProposal) : List LevelStep :=
  p.passes.flatMap fun x ↦
    (NodePath.allAt t x.level).flatMap fun path ↦ x.levels.map (fun as ↦ ⟨path, as⟩)

end Plan

structure LevelRun where
  path : NodePath
  tasks : List Task

namespace LevelRun

def taskFor (x : ExecutionContext) (t : AnalyzedProposal) (path : NodePath)
    (scope : NodeScope) (target : Target) (a : Analyzer) : Task :=
  let context : AnalyzerContext := ⟨x, scope, .collect t path a.dependencies⟩
  { analyzer := a, context := context, invocation := a.invocation context target }

/-- The tasks at the start of a level. -/
def start (x : ExecutionContext) (t : AnalyzedProposal) (s : LevelStep) (scope : NodeScope)
    (target : Target) : LevelRun :=
  ⟨s.path, s.analyzers.map (taskFor x t s.path scope target)⟩

def running (l : LevelRun) : Nat := l.tasks.countP Task.isRunning

def hasFreePermit (bound : Option UInt64) (l : LevelRun) : Bool :=
  match bound with
  | none => true
  | some n => l.running < n.toNat

def isOver (l : LevelRun) : Bool := l.tasks.all Task.hasEnded

def setState (l : LevelRun) (i : Nat) (s : TaskState) : LevelRun :=
  { l with tasks := l.tasks.modify i (fun t ↦ { t with state := s }) }

def totalWeight (ts : List Task) : Nat := ts.foldr (fun t n ↦ t.weight + n) 0

def weight (l : LevelRun) : Nat := totalWeight l.tasks

theorem totalWeight_modify_lt {ts : List Task} {i : Nat} {t : Task} {f : Task → Task}
    (ht : ts[i]? = some t) (h : (f t).weight < t.weight) :
    totalWeight (ts.modify i f) < totalWeight ts := by
  induction ts generalizing i with
  | nil => simp at ht
  | cons u us ih =>
      cases i with
      | zero =>
          simp only [List.getElem?_cons_zero, Option.some.injEq] at ht
          subst ht
          simpa [totalWeight] using h
      | succ i =>
          simp only [List.getElem?_cons_succ] at ht
          simpa [totalWeight] using ih ht

theorem weight_setState_lt {l : LevelRun} {i : Nat} {t : Task} {s : TaskState}
    (ht : l.tasks[i]? = some t) (h : { t with state := s }.weight < t.weight) :
    (l.setState i s).weight < l.weight :=
  totalWeight_modify_lt ht h

end LevelRun

structure Progress where
  numbers : TaskNumbers
  tree : AnalyzedProposal
  outcomes : List OutcomeRecord := []
  /-- The node of the last level, which is looked up once for all its levels. -/
  node : Option (NodeScope × Target) := none
  pending : List LevelStep

namespace TaskResult

def annotations : TaskResult → List Annotation
  | .annotated as => as
  | .skipped | .failed _ | .panicked _ | .timedOut => []

/-- What is recorded of the task of the given number. -/
def outcome (timeoutMs : UInt64) (number : Nat) : TaskResult → Outcome
  | .annotated as => .succeeded as.length
  | .skipped => .skipped
  | .failed e => .failed e
  | .panicked message => .failed (Task.panicText number message)
  | .timedOut => .timedOut timeoutMs

end TaskResult

namespace Progress

/-- Scope and target at a path, or `none` without such a node. -/
def resolve? (p : Progress) (path : NodePath) : Option (NodeScope × Target) :=
  match p.node.filter (fun x ↦ x.1.path = path) with
  | some x => some x
  | none => NodeScope.resolve p.tree path

/-- Append what a task returned, attributed to its analyzer, and record its outcome. -/
def absorbTask (timeoutMs : UInt64) (path : NodePath) (p : Progress) (t : Task) : Progress :=
  match t.state with
  | .ended r ms =>
      { p with
        tree := path.append p.tree (r.annotations.map (fun a ↦ a.producedBy t.analyzer.id))
        outcomes := p.outcomes ++ [⟨t.analyzer.id, path,
          r.outcome timeoutMs (p.numbers path t.analyzer.id), ms⟩] }
  | .waiting | .running _ _ => p

def absorb (timeoutMs : UInt64) (p : Progress) (l : LevelRun) : Progress :=
  l.tasks.foldl (absorbTask timeoutMs l.path) p

theorem pending_absorb (timeoutMs : UInt64) (p : Progress) (l : LevelRun) :
    (p.absorb timeoutMs l).pending = p.pending := by
  unfold absorb
  induction l.tasks generalizing p with
  | nil => rfl
  | cons t ts ih =>
      rw [List.foldl_cons, ih]
      unfold absorbTask
      split <;> rfl

end Progress

end Timelock
