import Timelock.Renderer.Document
import Timelock.Renderer.Outline

/-!
# Standard renderers

The registry with the document renderer and the outline indented by two spaces.
-/

namespace Timelock.RendererRegistry

def standard : RendererRegistry :=
  ⟨.ofList ([Renderer.document, Renderer.outline 2].map (fun x ↦ (x.id, x)))⟩

end Timelock.RendererRegistry
