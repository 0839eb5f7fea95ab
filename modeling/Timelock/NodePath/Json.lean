import Timelock.Analyzed.Json
import Timelock.DependencyStore
import Timelock.NodeScope

/-!
# Paths, targets and found annotations as JSON

A path is an object with its level and its indices.
-/

namespace Timelock

open Json

namespace NodePath

def toJson (p : NodePath) : Value :=
  let indices : List (String × Value) := match p with
    | .proposal => []
    | .batch b => [("batch", .nat b)]
    | .call b c => [("batch", .nat b), ("call", .nat c)]
    | .parameter b c d i =>
        [("batch", .nat b), ("call", .nat c), ("direction", .string d.name), ("index", .nat i)]
  .object (("level", .string p.level.name) :: indices)

end NodePath

namespace ScopedAnnotation

def toJson (s : ScopedAnnotation) : Value :=
  .object [("path", s.path.toJson), ("annotation", s.content.toJson)]

end ScopedAnnotation

namespace Target

def toJson : Target → Value
  | .proposal d => d.toJson
  | .batch b => DecodedBatch.toJson b
  | .call c => DecodedCall.toJson c
  | .parameter p => p.toJson

end Target

end Timelock
