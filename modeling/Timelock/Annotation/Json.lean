import Timelock.Annotation
import Timelock.Json.Record

/-!
# Annotations as JSON

The analyzer is left out when there is none.
-/

namespace Timelock

open Json

def Severity.decoder : Decoder Severity := .choice named

def Risk.decoder : Decoder Risk := .choice named

namespace Annotation

def toJson (a : Annotation) : Value :=
  let analyzer := match a.analyzer with
    | some id => [("analyzerId", .string id)]
    | none => []
  .object (("name", .string a.name) :: ("type", .string a.kind) :: ("value", a.value.value) ::
    analyzer)

def listJson (as : List Annotation) : Value := .array (as.map toJson)

def shape : Shape Annotation where
  title := "struct Annotation"
  size := 4
  Field
    | 0 => String
    | 1 => String
    | 2 => FreeValue
    | 3 => Option String
  name
    | 0 => "name"
    | 1 => "type"
    | 2 => "value"
    | 3 => "analyzerId"
  decoder
    | 0 => .string
    | 1 => .string
    | 2 => .free
    | 3 => .option .string
  default
    | 0 => none
    | 1 => none
    | 2 => none
    | 3 => some none
  build f := ⟨f 0, f 1, f 2, f 3⟩

def listDecoder : Decoder (List Annotation) := .list shape.decode

end Annotation

end Timelock
