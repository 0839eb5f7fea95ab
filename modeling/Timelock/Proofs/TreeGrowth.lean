import Timelock.Proofs.TreePaths

/-!
# Trees that grow

A tree grows when annotations are appended to some of its nodes, one append after another.  What it
mirrors of a decoded proposal stays as it is, and every list of annotations only gets longer at its
end.
-/

namespace Timelock

/-! ## What a tree mirrors -/

namespace DecodedProposal

def batchAt? (d : DecodedProposal) (b : Nat) : Option DecodedBatch := d.batches[b]?

def callAt? (d : DecodedProposal) (b c : Nat) : Option DecodedCall := do
  (← batchAt? d b).calls[c]?

def parameterAt? (d : DecodedProposal) (b c : Nat) (dir : Direction) (i : Nat) :
    Option Parameter := do
  ((← callAt? d b c).side dir)[i]?

/-- Scope and target of the element of a decoded proposal that stands at a path. -/
def place? (d : DecodedProposal) : NodePath → Option (NodeScope × Target)
  | .proposal => some ({ path := .proposal }, .proposal d)
  | .batch b => do
      let x ← batchAt? d b
      return ({ path := .batch b, chainSelector := some x.chainSelector }, .batch x)
  | .call b c => do
      let x ← batchAt? d b
      let y ← callAt? d b c
      return ({ path := .call b c, chainSelector := some x.chainSelector, call := some y }, .call y)
  | .parameter b c dir i => do
      let x ← batchAt? d b
      let y ← callAt? d b c
      let p ← parameterAt? d b c dir i
      return ({ path := .parameter b c dir i, chainSelector := some x.chainSelector,
                call := some y, parameter := some p }, .parameter p)

end DecodedProposal

namespace NodePath

variable (t : AnalyzedProposal)

theorem map_decoded_batchAt? (b : Nat) :
    (batchAt? t b).map AnalyzedBatch.decoded = DecodedProposal.batchAt? t.decoded b := by
  simp [batchAt?, DecodedProposal.batchAt?, AnalyzedProposal.decoded, CallTree.map]

theorem map_decoded_callAt? (b c : Nat) :
    (callAt? t b c).map AnalyzedCall.decoded = DecodedProposal.callAt? t.decoded b c := by
  simp only [callAt?, DecodedProposal.callAt?, ← map_decoded_batchAt?, Option.bind_eq_bind]
  cases batchAt? t b <;> simp [AnalyzedBatch.decoded, CallBatch.map]

theorem map_node_parameterAt? (b c : Nat) (d : Direction) (i : Nat) :
    (parameterAt? t b c d i).map Annotated.node =
      DecodedProposal.parameterAt? t.decoded b c d i := by
  simp only [parameterAt?, DecodedProposal.parameterAt?, ← map_decoded_callAt?,
    Option.bind_eq_bind]
  cases callAt? t b c <;> cases d <;> simp [AnalyzedCall.decoded, Call.map, Call.side]

end NodePath

namespace NodeScope

theorem resolve_eq_place? (t : AnalyzedProposal) (q : NodePath) :
    resolve t q = DecodedProposal.place? t.decoded q := by
  cases q with
  | proposal => rfl
  | batch b =>
      simp only [resolve, DecodedProposal.place?, ← NodePath.map_decoded_batchAt?]
      cases NodePath.batchAt? t b <;> rfl
  | call b c =>
      simp only [resolve, DecodedProposal.place?, ← NodePath.map_decoded_batchAt?,
        ← NodePath.map_decoded_callAt?]
      cases NodePath.batchAt? t b <;> cases NodePath.callAt? t b c <;> rfl
  | parameter b c d i =>
      simp only [resolve, DecodedProposal.place?, ← NodePath.map_decoded_batchAt?,
        ← NodePath.map_decoded_callAt?, ← NodePath.map_node_parameterAt?]
      cases NodePath.batchAt? t b <;> cases NodePath.callAt? t b c <;>
        cases NodePath.parameterAt? t b c d i <;> rfl

end NodeScope

namespace AnalyzedProposal

/-- A tree has the shape of a decoded proposal, and every path leads to the element that stands
there in the proposal. -/
structure Mirrors (t : AnalyzedProposal) (d : DecodedProposal) : Prop where
  decoded : t.decoded = d
  batch : ∀ b, (NodePath.batchAt? t b).map AnalyzedBatch.decoded = d.batchAt? b
  call : ∀ b c, (NodePath.callAt? t b c).map AnalyzedCall.decoded = d.callAt? b c
  parameter : ∀ b c dir i,
    (NodePath.parameterAt? t b c dir i).map Annotated.node = d.parameterAt? b c dir i
  resolve : ∀ q, NodeScope.resolve t q = d.place? q
  listed : ∀ l, NodePath.allAt t l = NodePath.allAt (ofDecoded d) l

theorem mirrors_decoded (t : AnalyzedProposal) : t.Mirrors t.decoded where
  decoded := rfl
  batch := NodePath.map_decoded_batchAt? t
  call := NodePath.map_decoded_callAt? t
  parameter := NodePath.map_node_parameterAt? t
  resolve := NodeScope.resolve_eq_place? t
  listed := NodePath.allAt_eq_of_decoded_eq (decoded_ofDecoded _).symm

/-! ## Growth -/

/-- A tree after appends to nodes whose paths satisfy `P`. -/
inductive Grows (P : NodePath → Prop) (t : AnalyzedProposal) : AnalyzedProposal → Prop
  | refl : Grows P t t
  | append {u : AnalyzedProposal} (before : Grows P t u) (q : NodePath) (within : P q)
      (as : List Annotation) : Grows P t (q.append u as)

namespace Grows

variable {P Q : NodePath → Prop} {t u v : AnalyzedProposal} {q : NodePath}

theorem trans (h : Grows P t u) (h' : Grows P u v) : Grows P t v := by
  induction h' with
  | refl => exact h
  | append _ q hq as ih => exact ih.append q hq as

theorem mono (hPQ : ∀ q, P q → Q q) (h : Grows P t u) : Grows Q t u := by
  induction h with
  | refl => exact .refl
  | append _ q hq as ih => exact ih.append q (hPQ q hq) as

theorem decoded_eq (h : Grows P t u) : u.decoded = t.decoded := by
  induction h with
  | refl => rfl
  | append _ q _ as ih => rw [NodePath.decoded_append, ih]

theorem mirrors {d : DecodedProposal} (h : Grows P (.ofDecoded d) t) : t.Mirrors d := by
  have hd : t.decoded = d := h.decoded_eq.trans (decoded_ofDecoded d)
  exact hd ▸ t.mirrors_decoded

/-- Every list of annotations gets longer at its end, if at all. -/
theorem exists_annotations? (h : Grows P t u) (q : NodePath) :
    ∃ new, q.annotations? u = (q.annotations? t).map (· ++ new) := by
  induction h with
  | refl => exact ⟨[], by simp⟩
  | append _ p _ as ih =>
      obtain ⟨new, hnew⟩ := ih
      by_cases hpq : p = q
      · refine ⟨new ++ as, ?_⟩
        rw [NodePath.annotations?_append, hnew, Option.map_map]
        simp [hpq, Function.comp_def]
      · exact ⟨new, by simp [NodePath.annotations?_append, hpq, hnew, Function.comp_def]⟩

theorem annotations?_eq_of_not (h : Grows P t u) (hq : ¬ P q) :
    q.annotations? u = q.annotations? t := by
  induction h with
  | refl => rfl
  | append _ p hp as ih =>
      have hpq : p ≠ q := fun heq ↦ hq (heq ▸ hp)
      simp [NodePath.annotations?_append, hpq, ih]

/-- A list that is the same at both ends is the same in between. -/
theorem annotations?_eq_between (htu : Grows P t u) (huv : Grows Q u v)
    (h : q.annotations? v = q.annotations? t) : q.annotations? u = q.annotations? t := by
  obtain ⟨new, hnew⟩ := htu.exists_annotations? q
  obtain ⟨new', hnew'⟩ := huv.exists_annotations? q
  rw [h, hnew, Option.map_map] at hnew'
  cases ht : q.annotations? t with
  | none => simpa [ht] using hnew
  | some old =>
      have hnil : new = [] := by
        have hlength : old = old ++ new ++ new' := by simpa [ht] using hnew'
        have := congrArg List.length hlength
        simp only [List.length_append] at this
        exact List.length_eq_zero_iff.1 (by omega)
      simpa [ht, hnil] using hnew

end Grows

end AnalyzedProposal

end Timelock
