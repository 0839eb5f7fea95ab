import Timelock.NodePath

/-!
# Dependency stores

The annotations that an analyzer may see on its node: those that its declared dependencies left
on the node and below it.
-/

namespace Timelock

structure ScopedAnnotation where
  path : NodePath
  content : Annotation
  deriving DecidableEq

namespace ScopedAnnotation

def level (s : ScopedAnnotation) : Level := s.path.level

end ScopedAnnotation

structure DependencyStore where
  dependencies : List String
  entries : List ScopedAnnotation
  deriving DecidableEq

namespace DependencyStore

/-- An annotation counts when it names one of the dependencies as its analyzer. -/
def allowed (dependencies : List String) (a : Annotation) : Bool :=
  match a.analyzer with
  | some id => dependencies.contains id
  | none => false

def nodeEntries (t : AnalyzedProposal) (dependencies : List String) (p : NodePath) :
    List ScopedAnnotation :=
  ((p.annotations? t).getD []).filter (allowed dependencies) |>.map (fun a ↦ ⟨p, a⟩)

/-- What the dependencies left on a node and its descendants, descendants first. -/
def collect (t : AnalyzedProposal) (p : NodePath) (dependencies : List String) :
    DependencyStore :=
  ⟨dependencies, (p.subtree t).flatMap (nodeEntries t dependencies)⟩

def annotations (s : DependencyStore) : List Annotation :=
  s.entries.map ScopedAnnotation.content

def filter (s : DependencyStore) (keep : ScopedAnnotation → Bool) : List Annotation :=
  (s.entries.filter keep).map ScopedAnnotation.content

def atLevel (s : DependencyStore) (l : Level) : List Annotation :=
  s.filter (fun e ↦ e.level = l)

def atPath (s : DependencyStore) (p : NodePath) : List Annotation :=
  s.filter (fun e ↦ e.path = p)

def fromAnalyzer (s : DependencyStore) (id : String) : List Annotation :=
  s.filter (fun e ↦ e.content.analyzer = some id)

def size (s : DependencyStore) : Nat := s.entries.length

def isEmpty (s : DependencyStore) : Bool := s.entries.isEmpty

end DependencyStore

end Timelock
