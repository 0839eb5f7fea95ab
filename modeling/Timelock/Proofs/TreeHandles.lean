import Timelock.NodePath.Handle
import Timelock.Proofs.TreePaths

/-!
# Handles on the nodes of a tree

A path has a handle where it reaches a node, and only there.  The handle has the annotations of the
node, and to add to it is to append to the path.
-/

namespace Timelock

variable {t : AnalyzedProposal} {p : NodePath}

/-! ## Handles on the layers of a tree -/

namespace Handle

variable {α : Type}

theorem item?_eq (xs : List α) (i : Nat) :
    item? xs i = xs[i]?.map fun a ↦ ⟨a, fun a' ↦ xs.modify i fun _ ↦ a'⟩ := by
  simp only [item?, ← List.set_eq_modify]

theorem modify_congr {xs : List α} {i : Nat} {a : α} {f g : α → α} (h : xs[i]? = some a)
    (hfg : f a = g a) : xs.modify i f = xs.modify i g := by
  simp [List.modify_eq_set_getElem?, h, hfg]

end Handle

namespace AnalyzedCall

theorem parameter?_eq (x : AnalyzedCall) (d : Direction) (i : Nat) :
    x.parameter? d i = (x.node.side d)[i]?.map fun y ↦
      ⟨y, fun y' ↦ NodePath.modifySide x d i fun _ ↦ y'⟩ := by
  cases d <;> simp [parameter?, Handle.item?_eq, Call.side, NodePath.modifySide, Function.comp_def,
    Handle.through]

end AnalyzedCall

namespace AnalyzedBatch

theorem call?_eq (x : AnalyzedBatch) (c : Nat) :
    x.call? c = x.node.calls[c]?.map fun y ↦
      ⟨y, fun y' ↦
        { x with node := { x.node with calls := x.node.calls.modify c fun _ ↦ y' } }⟩ := by
  simp [call?, Handle.item?_eq, Function.comp_def, Handle.through]

end AnalyzedBatch

namespace NodePath

theorem batch?_eq (t : AnalyzedProposal) (b : Nat) :
    t.batch? b = (batchAt? t b).map fun x ↦ ⟨x, fun x' ↦ modifyBatch t b fun _ ↦ x'⟩ := by
  simp [AnalyzedProposal.batch?, Handle.item?_eq, batchAt?, modifyBatch, Function.comp_def,
    Handle.through]

theorem modifySide_congr {x : AnalyzedCall} {d : Direction} {i : Nat} {y : AnalyzedParameter}
    {f g : AnalyzedParameter → AnalyzedParameter} (h : (x.node.side d)[i]? = some y)
    (hfg : f y = g y) : modifySide x d i f = modifySide x d i g := by
  cases d with
  | input =>
      have hinputs : x.node.inputs.modify i f = x.node.inputs.modify i g :=
        Handle.modify_congr h hfg
      simp only [modifySide, hinputs]
  | output =>
      have houtputs : x.node.outputs.modify i f = x.node.outputs.modify i g :=
        Handle.modify_congr h hfg
      simp only [modifySide, houtputs]

theorem modifyBatch_congr {b : Nat} {x : AnalyzedBatch} {f g : AnalyzedBatch → AnalyzedBatch}
    (h : batchAt? t b = some x) (hfg : f x = g x) : modifyBatch t b f = modifyBatch t b g := by
  rw [modifyBatch, modifyBatch, Handle.modify_congr h hfg]

/-! ## Handles on nodes -/

/-- A handle is found where a node is, and has its annotations. -/
theorem map_part_handle? (t : AnalyzedProposal) (p : NodePath) :
    (p.handle? t).map Handle.part = p.annotations? t := by
  cases p with
  | proposal => rfl
  | batch b =>
      simp only [handle?, annotations?, batch?_eq]
      cases batchAt? t b <;> rfl
  | call b c =>
      simp only [handle?, annotations?, callAt?, batch?_eq, AnalyzedBatch.call?_eq]
      cases batchAt? t b with
      | none => rfl
      | some x => cases h : x.node.calls[c]? <;> simp [h, Handle.through, Annotated.notes]
  | parameter b c d i =>
      simp only [handle?, annotations?, parameterAt?, callAt?, batch?_eq, AnalyzedBatch.call?_eq,
        AnalyzedCall.parameter?_eq]
      cases batchAt? t b with
      | none => rfl
      | some x =>
          cases h : x.node.calls[c]? with
          | none => simp [h]
          | some y =>
              cases hp : (y.node.side d)[i]? <;> simp [h, hp, Handle.through, Annotated.notes]

theorem update_handle? {k : Handle AnalyzedProposal (List Annotation)} (h : p.handle? t = some k)
    (as : List Annotation) : k.update (· ++ as) = p.append t as := by
  cases p with
  | proposal =>
      obtain rfl := Option.some.inj h
      rfl
  | batch b =>
      simp only [handle?, batch?_eq, Option.bind_eq_bind, Option.bind_eq_some_iff,
        Option.map_eq_some_iff] at h
      obtain ⟨_, ⟨x, hx, rfl⟩, h⟩ := h
      obtain rfl := Option.some.inj h
      exact modifyBatch_congr hx rfl
  | call b c =>
      simp only [handle?, batch?_eq, AnalyzedBatch.call?_eq, Option.bind_eq_bind,
        Option.bind_eq_some_iff, Option.map_eq_some_iff] at h
      obtain ⟨_, ⟨x, hx, rfl⟩, _, ⟨y, hy, rfl⟩, h⟩ := h
      obtain rfl := Option.some.inj h
      have hcall : x.node.calls.modify c (fun _ ↦ y.add as) = x.node.calls.modify c (·.add as) :=
        Handle.modify_congr hy rfl
      exact modifyBatch_congr hx (by rw [← hcall]; rfl)
  | parameter b c d i =>
      simp only [handle?, batch?_eq, AnalyzedBatch.call?_eq, AnalyzedCall.parameter?_eq,
        Option.bind_eq_bind, Option.bind_eq_some_iff, Option.map_eq_some_iff] at h
      obtain ⟨_, ⟨x, hx, rfl⟩, _, ⟨y, hy, rfl⟩, _, ⟨z, hz, rfl⟩, h⟩ := h
      obtain rfl := Option.some.inj h
      have hside : modifySide y d i (fun _ ↦ z.add as) = modifySide y d i (·.add as) :=
        modifySide_congr hz rfl
      have hcall : x.node.calls.modify c (fun _ ↦ modifySide y d i fun _ ↦ z.add as) =
          x.node.calls.modify c (fun y ↦ modifySide y d i (·.add as)) :=
        Handle.modify_congr hy hside
      exact modifyBatch_congr hx (by rw [← hcall]; rfl)

/-- Whatever has scope and target has a handle. -/
theorem isSome_handle? (t : AnalyzedProposal) (p : NodePath) :
    (p.handle? t).isSome = (NodeScope.resolve t p).isSome := by
  rw [isSome_resolve, ← map_part_handle?, Option.isSome_map]

end NodePath

end Timelock
