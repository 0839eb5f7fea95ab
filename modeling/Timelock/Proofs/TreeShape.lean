import Mathlib.Data.List.Basic
import Mathlib.Data.List.Nodup
import Timelock.NodeScope

/-!
# The shape of an analyzed tree

Everything that a path can be asked for, except its annotations, is settled by the decoded
proposal below the tree.  Appending annotations to a node leaves that proposal alone and changes
the annotations of no other node.
-/

namespace Timelock

section ListModify

variable {α β : Type}

theorem map_modify_of_forall {f : α → β} {g : α → α} (h : ∀ a, f (g a) = f a) (xs : List α)
    (i : Nat) : (xs.modify i g).map f = xs.map f := by
  induction xs generalizing i with
  | nil => simp
  | cons x xs ih => cases i <;> simp [h, ih]

end ListModify

namespace AnalyzedCall

@[simp] theorem decoded_ofDecoded (c : DecodedCall) : (ofDecoded c).decoded = c := by
  cases c
  simp [ofDecoded, decoded, Annotated.bare, Call.map, Function.comp_def]

@[simp] theorem decoded_modifySide (c : AnalyzedCall) (d : Direction) (i : Nat)
    (as : List Annotation) :
    AnalyzedCall.decoded (NodePath.modifySide c d i (·.add as)) = c.decoded := by
  cases d <;>
    simp [NodePath.modifySide, decoded, Call.map, map_modify_of_forall, Annotated.add]

end AnalyzedCall

namespace AnalyzedBatch

@[simp] theorem decoded_ofDecoded (b : DecodedBatch) : (ofDecoded b).decoded = b := by
  cases b
  simp [ofDecoded, decoded, Annotated.bare, CallBatch.map, Function.comp_def]

end AnalyzedBatch

namespace AnalyzedProposal

@[simp] theorem decoded_ofDecoded (d : DecodedProposal) : (ofDecoded d).decoded = d := by
  cases d
  simp [ofDecoded, decoded, Annotated.bare, CallTree.map, Function.comp_def]

def bare (t : AnalyzedProposal) : AnalyzedProposal := ofDecoded t.decoded

theorem bare_eq_of_decoded_eq {t u : AnalyzedProposal} (h : t.decoded = u.decoded) :
    t.bare = u.bare := congrArg ofDecoded h

@[simp] theorem bare_ofDecoded (d : DecodedProposal) : (ofDecoded d).bare = ofDecoded d := by
  simp [bare]

end AnalyzedProposal

namespace NodePath

variable (t : AnalyzedProposal)

/-! ## Paths of the tree without annotations -/

theorem batches_bare :
    t.bare.node.batches = t.node.batches.map (fun b ↦ AnalyzedBatch.ofDecoded b.decoded) := by
  simp [AnalyzedProposal.bare, AnalyzedProposal.ofDecoded, AnalyzedProposal.decoded,
    Annotated.bare, CallTree.map, Function.comp_def]

theorem calls_ofDecoded_decoded (b : AnalyzedBatch) :
    (AnalyzedBatch.ofDecoded b.decoded).node.calls =
      b.node.calls.map (fun c ↦ AnalyzedCall.ofDecoded c.decoded) := by
  simp [AnalyzedBatch.ofDecoded, AnalyzedBatch.decoded, Annotated.bare, CallBatch.map,
    Function.comp_def]

theorem side_ofDecoded_decoded (c : AnalyzedCall) (d : Direction) :
    (AnalyzedCall.ofDecoded c.decoded).node.side d =
      (c.node.side d).map (fun p ↦ Annotated.bare p.node) := by
  cases d <;>
    simp [AnalyzedCall.ofDecoded, AnalyzedCall.decoded, Annotated.bare, Call.map, Call.side,
      Function.comp_def]

@[simp] theorem batchAt?_bare (b : Nat) :
    batchAt? t.bare b = (batchAt? t b).map (fun x ↦ AnalyzedBatch.ofDecoded x.decoded) := by
  simp [batchAt?, batches_bare]

@[simp] theorem callAt?_bare (b c : Nat) :
    callAt? t.bare b c = (callAt? t b c).map (fun x ↦ AnalyzedCall.ofDecoded x.decoded) := by
  simp only [callAt?, batchAt?_bare, Option.bind_eq_bind]
  cases batchAt? t b <;> simp [calls_ofDecoded_decoded]

@[simp] theorem parameterAt?_bare (b c : Nat) (d : Direction) (i : Nat) :
    parameterAt? t.bare b c d i =
      (parameterAt? t b c d i).map (fun x ↦ Annotated.bare x.node) := by
  simp only [parameterAt?, callAt?_bare, Option.bind_eq_bind]
  cases callAt? t b c <;> simp [side_ofDecoded_decoded]

theorem parameterPaths_ofDecoded_decoded (b c : Nat) (x : AnalyzedCall) :
    parameterPaths b c (AnalyzedCall.ofDecoded x.decoded) = parameterPaths b c x := by
  simp [parameterPaths, AnalyzedCall.ofDecoded, AnalyzedCall.decoded, Annotated.bare, Call.map]

theorem callPaths_ofDecoded_decoded (b : Nat) (x : AnalyzedBatch) :
    callPaths b (AnalyzedBatch.ofDecoded x.decoded) = callPaths b x := by
  simp [callPaths, calls_ofDecoded_decoded]

theorem allAt_bare (l : Level) : allAt t.bare l = allAt t l := by
  cases l with
  | proposal => rfl
  | batchOperation => simp [allAt, batches_bare]
  | call =>
      simp [allAt, batches_bare, List.zipIdx_map, List.flatMap_map, callPaths_ofDecoded_decoded]
  | parameter =>
      simp [allAt, batches_bare, calls_ofDecoded_decoded, List.zipIdx_map, List.flatMap_map,
        parameterPaths_ofDecoded_decoded]

theorem callSubtree_bare (b c : Nat) : callSubtree t.bare b c = callSubtree t b c := by
  simp only [callSubtree, callAt?_bare]
  cases callAt? t b c <;> simp [parameterPaths_ofDecoded_decoded]

theorem batchSubtree_bare (b : Nat) : batchSubtree t.bare b = batchSubtree t b := by
  have hc : callSubtree t.bare b = callSubtree t b := funext (callSubtree_bare t b)
  simp only [batchSubtree, batchAt?_bare, hc]
  cases batchAt? t b <;> simp [calls_ofDecoded_decoded]

theorem subtree_bare (p : NodePath) : p.subtree t.bare = p.subtree t := by
  cases p with
  | proposal =>
      have hb : batchSubtree t.bare = batchSubtree t := funext (batchSubtree_bare t)
      simp [subtree, batches_bare, hb]
  | batch b => exact batchSubtree_bare t b
  | call b c => exact callSubtree_bare t b c
  | parameter b c d i => rfl

theorem resolve_bare (p : NodePath) : NodeScope.resolve t.bare p = NodeScope.resolve t p := by
  cases p with
  | proposal => simp [NodeScope.resolve, AnalyzedProposal.bare]
  | batch b =>
      simp only [NodeScope.resolve, batchAt?_bare]
      cases batchAt? t b <;> simp [AnalyzedBatch.decoded, AnalyzedBatch.ofDecoded, Annotated.bare,
        CallBatch.map, Function.comp_def]
  | call b c =>
      simp only [NodeScope.resolve, batchAt?_bare, callAt?_bare]
      cases batchAt? t b <;> cases callAt? t b c <;>
        simp [AnalyzedBatch.ofDecoded, AnalyzedBatch.decoded, Annotated.bare, CallBatch.map]
  | parameter b c d i =>
      simp only [NodeScope.resolve, batchAt?_bare, callAt?_bare, parameterAt?_bare]
      cases batchAt? t b <;> cases callAt? t b c <;> cases parameterAt? t b c d i <;>
        simp [AnalyzedBatch.ofDecoded, AnalyzedBatch.decoded, Annotated.bare, CallBatch.map]

theorem annotations?_ofDecoded {d : DecodedProposal} {p : NodePath} {as : List Annotation}
    (h : p.annotations? (.ofDecoded d) = some as) : as = [] := by
  rw [← AnalyzedProposal.bare_ofDecoded] at h
  cases p with
  | proposal => simpa [annotations?, AnalyzedProposal.bare, AnalyzedProposal.ofDecoded,
      Annotated.bare, eq_comm] using h
  | batch b =>
      simp only [annotations?, batchAt?_bare, Option.map_map, Option.map_eq_some_iff] at h
      obtain ⟨x, _, rfl⟩ := h
      rfl
  | call b c =>
      simp only [annotations?, callAt?_bare, Option.map_map, Option.map_eq_some_iff] at h
      obtain ⟨x, _, rfl⟩ := h
      rfl
  | parameter b c d i =>
      simp only [annotations?, parameterAt?_bare, Option.map_map, Option.map_eq_some_iff] at h
      obtain ⟨x, _, rfl⟩ := h
      rfl

variable {t} {u : AnalyzedProposal}

theorem allAt_eq_of_decoded_eq (h : t.decoded = u.decoded) (l : Level) : allAt t l = allAt u l := by
  rw [← allAt_bare t, ← allAt_bare u, AnalyzedProposal.bare_eq_of_decoded_eq h]

theorem subtree_eq_of_decoded_eq (h : t.decoded = u.decoded) (p : NodePath) :
    p.subtree t = p.subtree u := by
  rw [← subtree_bare t, ← subtree_bare u, AnalyzedProposal.bare_eq_of_decoded_eq h]

theorem resolve_eq_of_decoded_eq (h : t.decoded = u.decoded) (p : NodePath) :
    NodeScope.resolve t p = NodeScope.resolve u p := by
  rw [← resolve_bare t, ← resolve_bare u, AnalyzedProposal.bare_eq_of_decoded_eq h]

/-! ## Appending to one node -/

@[simp] theorem batchAt?_modifyBatch (t : AnalyzedProposal) (b b' : Nat)
    (f : AnalyzedBatch → AnalyzedBatch) :
    batchAt? (modifyBatch t b f) b' =
      (batchAt? t b').map (fun x ↦ if b = b' then f x else x) := by
  simp [batchAt?, modifyBatch, List.getElem?_modify]

@[simp] theorem callAt?_modifyCall (t : AnalyzedProposal) (b c b' c' : Nat)
    (f : AnalyzedCall → AnalyzedCall) :
    callAt? (modifyCall t b c f) b' c' =
      (callAt? t b' c').map (fun x ↦ if b = b' ∧ c = c' then f x else x) := by
  simp only [callAt?, modifyCall, batchAt?_modifyBatch, Option.bind_eq_bind]
  cases batchAt? t b' with
  | none => rfl
  | some x => by_cases hb : b = b' <;> simp [hb, List.getElem?_modify]

theorem side_modifySide (x : AnalyzedCall) (d d' : Direction) (i i' : Nat)
    (f : AnalyzedParameter → AnalyzedParameter) :
    ((modifySide x d i f).node.side d')[i']? =
      ((x.node.side d')[i']?).map (fun y ↦ if d = d' ∧ i = i' then f y else y) := by
  cases d <;> cases d' <;> simp [modifySide, Call.side, List.getElem?_modify]

theorem parameterAt?_eq_bind (t : AnalyzedProposal) (b c : Nat) (d : Direction) (i : Nat) :
    parameterAt? t b c d i = (callAt? t b c).bind (fun x ↦ (x.node.side d)[i]?) := rfl

@[simp] theorem parameterAt?_modifyCall_add (t : AnalyzedProposal) (b c b' c' : Nat)
    (as : List Annotation) (d : Direction) (i : Nat) :
    parameterAt? (modifyCall t b c (·.add as)) b' c' d i = parameterAt? t b' c' d i := by
  simp only [parameterAt?_eq_bind, callAt?_modifyCall, Option.bind_map]
  congr 1
  funext x
  by_cases h : b = b' ∧ c = c' <;> simp [h, Annotated.add]

@[simp] theorem parameterAt?_modifyCall_modifySide (t : AnalyzedProposal) (b c b' c' : Nat)
    (d d' : Direction) (i i' : Nat) (f : AnalyzedParameter → AnalyzedParameter) :
    parameterAt? (modifyCall t b c (fun x ↦ modifySide x d i f)) b' c' d' i' =
      (parameterAt? t b' c' d' i').map
        (fun y ↦ if b = b' ∧ c = c' ∧ d = d' ∧ i = i' then f y else y) := by
  simp only [parameterAt?_eq_bind, callAt?_modifyCall, Option.bind_map, Option.map_bind]
  congr 1
  funext x
  by_cases h : b = b' ∧ c = c'
  · simp [h, side_modifySide]
  · have hn : ¬ (b = b' ∧ c = c' ∧ d = d' ∧ i = i') := fun hi ↦ h ⟨hi.1, hi.2.1⟩
    simp [h, hn]

theorem decoded_modifyBatch (t : AnalyzedProposal) (b : Nat) (f : AnalyzedBatch → AnalyzedBatch)
    (h : ∀ x, AnalyzedBatch.decoded (f x) = x.decoded) :
    (modifyBatch t b f).decoded = t.decoded := by
  simp [AnalyzedProposal.decoded, modifyBatch, CallTree.map, map_modify_of_forall h]

theorem decoded_modifyCall (t : AnalyzedProposal) (b c : Nat) (f : AnalyzedCall → AnalyzedCall)
    (h : ∀ x, AnalyzedCall.decoded (f x) = x.decoded) : (modifyCall t b c f).decoded = t.decoded :=
  decoded_modifyBatch t b _ fun x ↦ by
    simp [AnalyzedBatch.decoded, CallBatch.map, map_modify_of_forall h]

@[simp] theorem decoded_append (t : AnalyzedProposal) (as : List Annotation) (p : NodePath) :
    (p.append t as).decoded = t.decoded := by
  cases p with
  | proposal => rfl
  | batch b => exact decoded_modifyBatch t b _ fun _ ↦ rfl
  | call b c => exact decoded_modifyCall t b c _ fun _ ↦ rfl
  | parameter b c d i =>
      exact decoded_modifyCall t b c _ fun x ↦ AnalyzedCall.decoded_modifySide x d i as

@[simp] theorem callAt?_modifyBatch_add (t : AnalyzedProposal) (b b' c : Nat)
    (as : List Annotation) :
    callAt? (modifyBatch t b (·.add as)) b' c = callAt? t b' c := by
  simp only [callAt?, batchAt?_modifyBatch, Option.bind_eq_bind, Option.bind_map]
  congr 1
  funext x
  by_cases h : b = b' <;> simp [h, Annotated.add]

@[simp] theorem parameterAt?_modifyBatch_add (t : AnalyzedProposal) (b b' c : Nat)
    (d : Direction) (i : Nat) (as : List Annotation) :
    parameterAt? (modifyBatch t b (·.add as)) b' c d i = parameterAt? t b' c d i := by
  simp only [parameterAt?, callAt?_modifyBatch_add]

@[simp] theorem annotations_batchAt?_modifyCall (t : AnalyzedProposal) (b c b' : Nat)
    (f : AnalyzedCall → AnalyzedCall) :
    (batchAt? (modifyCall t b c f) b').map Annotated.annotations =
      (batchAt? t b').map Annotated.annotations := by
  simp only [modifyCall, batchAt?_modifyBatch, Option.map_map]
  congr 1
  funext x
  by_cases h : b = b' <;> simp [h]

theorem annotations_modifySide (x : AnalyzedCall) (d : Direction) (i : Nat)
    (f : AnalyzedParameter → AnalyzedParameter) :
    (modifySide x d i f).annotations = x.annotations := by
  cases d <;> rfl

/-- An append reaches the list at its own path and no other. -/
theorem annotations?_append (t : AnalyzedProposal) (as : List Annotation) (p q : NodePath) :
    q.annotations? (p.append t as) =
      (q.annotations? t).map (fun old ↦ if p = q then old ++ as else old) := by
  cases p with
  | proposal =>
      cases q with
      | proposal => simp [append, annotations?, Annotated.add]
      | batch | call | parameter =>
          simp [append, annotations?, Annotated.add, batchAt?, callAt?, parameterAt?,
            Function.comp_def]
  | batch b =>
      cases q with
      | proposal => simp [append, annotations?, modifyBatch]
      | batch b' =>
          simp only [append, annotations?, batchAt?_modifyBatch, Option.map_map, batch.injEq]
          congr 1
          funext x
          by_cases h : b = b' <;> simp [h, Annotated.add]
      | call | parameter => simp [append, annotations?, Function.comp_def]
  | call b c =>
      cases q with
      | proposal => simp [append, annotations?, modifyCall, modifyBatch]
      | batch => simp [append, annotations?, Function.comp_def]
      | call b' c' =>
          simp only [append, annotations?, callAt?_modifyCall, Option.map_map, call.injEq]
          congr 1
          funext x
          by_cases h : b = b' ∧ c = c' <;> simp [h, Annotated.add]
      | parameter => simp [append, annotations?, Function.comp_def]
  | parameter b c d i =>
      cases q with
      | proposal => simp [append, annotations?, modifyCall, modifyBatch]
      | batch => simp [append, annotations?, Function.comp_def]
      | call b' c' =>
          simp only [append, annotations?, callAt?_modifyCall, Option.map_map]
          congr 1
          funext x
          by_cases h : b = b' ∧ c = c' <;> simp [h, annotations_modifySide]
      | parameter b' c' d' i' =>
          simp only [append, annotations?, parameterAt?_modifyCall_modifySide, Option.map_map,
            parameter.injEq]
          congr 1
          funext y
          by_cases h : b = b' ∧ c = c' ∧ d = d' ∧ i = i' <;> simp [h, Annotated.add]

end NodePath

namespace NodeScope

variable {t : AnalyzedProposal} {q : NodePath} {s : NodeScope} {x : Target}

/-- Scope and target are those of the path asked for. -/
theorem path_and_level_of_resolve (h : resolve t q = some (s, x)) :
    s.path = q ∧ x.level = q.level := by
  cases q <;>
    simp only [resolve, Option.bind_eq_bind, Option.bind_eq_some_iff, Option.pure_def,
      Option.some.injEq, Prod.mk.injEq] at h <;>
    grind [Target.level, NodePath.level]

end NodeScope

end Timelock
