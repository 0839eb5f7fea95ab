import Timelock.Analyzed
import Timelock.ExecutionContext
import Timelock.Registration

/-!
# Renderers

A renderer turns an analyzed proposal into pieces of text, which are written in order to a
writer that may have room for only so many bytes.
-/

namespace Timelock

structure RenderContext where
  domain : String
  environmentName : String
  chainSelectors : Selectors
  description : String
  deriving DecidableEq

namespace RenderContext

def ofExecution (x : ExecutionContext) : RenderContext :=
  ⟨x.domain, x.environmentName, x.chainSelectors, x.proposal.description⟩

end RenderContext

/-- A piece belongs to a serialized document, or is plain text. -/
inductive Channel where
  | plain
  | document
  deriving DecidableEq

structure Piece where
  text : String
  channel : Channel := .plain
  deriving DecidableEq

structure Renderer where
  id : String
  render : RenderContext → AnalyzedProposal → List Piece

inductive RenderError where
  | unknownRenderer (id : String)
  | missingExecutionContext
  | io (reason : String)
  | serialization (reason : String)
  deriving DecidableEq

namespace RenderError

def message : RenderError → String
  | .unknownRenderer id => "Renderer '" ++ id ++ "' is not registered"
  | .missingExecutionContext =>
      "No execution context available: run an analysis before rendering"
  | .io r => "Failed to write rendered output: " ++ r
  | .serialization r => "Failed to serialize analyzed proposal: " ++ r

end RenderError

namespace Piece

def concat (ps : List Piece) : String := String.join (ps.map Piece.text)

/-- The characters that fit into a number of bytes; one that is cut short is replaced. -/
def cut (room : Nat) : List Char → List Char
  | [] => []
  | c :: cs =>
      if c.utf8Size ≤ room then c :: cut (room - c.utf8Size) cs
      else if room = 0 then []
      else ['\ufffd']

def failure (p : Piece) : RenderError :=
  match p.channel with
  | .plain => .io "writer full"
  | .document => .serialization "writer full"

end Piece

structure Written where
  output : String := ""
  error : Option RenderError := none
  deriving DecidableEq

namespace Written

def precededBy (w : Written) (s : String) : Written := { w with output := s ++ w.output }

def ofPieces (room : Nat) : List Piece → Written
  | [] => {}
  | p :: ps =>
      if p.text.utf8ByteSize ≤ room then
        (ofPieces (room - p.text.utf8ByteSize) ps).precededBy p.text
      else ⟨String.ofList (Piece.cut room p.text.toList), some p.failure⟩

end Written

structure RendererRegistry where
  renderers : Table Renderer := .empty

namespace RendererRegistry

def ids (r : RendererRegistry) : List String := r.renderers.keys

def size (r : RendererRegistry) : Nat := r.renderers.size

def isEmpty (r : RendererRegistry) : Bool := r.renderers.entries.isEmpty

def get? (r : RendererRegistry) (id : String) : Option Renderer := r.renderers.get? id

def summary (r : RendererRegistry) : String :=
  "RendererRegistry \x7b renderers: " ++ Text.quotedList r.ids ++ " \x7d"

/-- The identifiers of renderers are distinct and not blank. -/
def register (r : RendererRegistry) (x : Renderer) : Except RegistrationError RendererRegistry :=
  if Text.allBlank x.id then .error .emptyRendererId
  else if r.renderers.contains x.id then .error (.duplicateRenderer x.id)
  else .ok ⟨r.renderers.put x.id x⟩

/-- Render a tree into a writer with limited or unlimited room.  An unknown renderer is reported
before a missing context. -/
def render (r : RendererRegistry) (id : String) (tree : AnalyzedProposal)
    (context : Option ExecutionContext) (room : Option Nat) : Written :=
  match r.get? id with
  | none => { error := some (.unknownRenderer id) }
  | some x =>
      match context with
      | none => { error := some .missingExecutionContext }
      | some c =>
          let pieces := x.render (.ofExecution c) tree
          match room with
          | none => { output := Piece.concat pieces }
          | some n => .ofPieces n pieces

end RendererRegistry

end Timelock
