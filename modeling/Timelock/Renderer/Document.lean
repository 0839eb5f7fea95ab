import Timelock.Analyzed.Json
import Timelock.Renderer

/-!
# JSON document renderer

The context and the tree as one pretty-printed document, and a line feed after it.
-/

namespace Timelock

open Json

namespace RenderContext

def toJson (c : RenderContext) : Value :=
  .object [
    ("domain", .string c.domain),
    ("environmentName", .string c.environmentName),
    ("chainSelectors", .array (c.chainSelectors.toList.map .word)),
    ("description", .string c.description)]

end RenderContext

namespace Renderer

def documentJson (c : RenderContext) (t : AnalyzedProposal) : Value :=
  .object [("context", c.toJson), ("proposal", t.toJson)]

def document : Renderer where
  id := "json"
  render c t := [⟨(documentJson c t).pretty, .document⟩, ⟨"\n", .plain⟩]

end Renderer

end Timelock
