import Timelock.Proofs.DecodedTexts
import Timelock.Renderer.Document

/-!
# Reports as documents

A document determines what it was written from: the context of the run, and the tree with the
annotations of every node in their order.  Its values must hold no doubles.
-/

namespace Timelock

open Json

/-! ## Printed values -/

theorem eq_of_map_eq_map {α β : Type} {f : α → β} {xs ys : List α}
    (hf : ∀ x ∈ xs, ∀ y, f x = f y → x = y) (h : xs.map f = ys.map f) : xs = ys := by
  induction xs generalizing ys with
  | nil => simpa [eq_comm] using h
  | cons x xs ih =>
      cases ys with
      | nil => simp at h
      | cons y ys =>
          rw [List.forall_mem_cons] at hf
          obtain ⟨hxy, hrest⟩ := List.cons.inj h
          rw [hf.1 y hxy, ih hf.2 hrest]

namespace Json

namespace Value

theorem node_injective : Function.Injective node := by
  intro v
  induction v using Value.induction with
  | null | bool b | number n | string s =>
      intro w h
      cases w <;> simp_all [node]
  | array vs ih =>
      intro w h
      cases w with
      | array ws =>
          simp only [node, itemNodes_eq, Node.array.injEq, and_true] at h
          rw [eq_of_map_eq_map (fun v hv w hvw ↦ ih v hv hvw) h]
      | null | bool | number | string | object => simp [node] at h
  | object ms ih =>
      intro w h
      cases w with
      | object ns =>
          simp only [node, memberNodes_eq, Node.object.injEq, and_true] at h
          have hmember : ∀ m ∈ ms, ∀ n : String × Value,
              (Key.name m.1, m.2.node) = (Key.name n.1, n.2.node) → m = n := by
            rintro ⟨k, v⟩ hm ⟨l, w⟩ hmn
            simp only [Prod.mk.injEq, Key.name.injEq] at hmn
            exact Prod.ext hmn.1 (ih (k, v) hm hmn.2)
          rw [eq_of_map_eq_map hmember h]
      | null | bool | number | string | array => simp [node] at h

/-- Two values without doubles that print alike are the same. -/
theorem eq_of_pretty_eq {v w : Value} (hv : v.Floatless) (hw : w.Floatless)
    (h : v.pretty = w.pretty) : v = w := by
  have htree : (⟨v.reading, false⟩ : Document) = ⟨w.reading, false⟩ := by
    rw [← Document.ofText_of_layout v.layout_pretty, h, Document.ofText_of_layout w.layout_pretty]
  rw [reading_of_floatless hv, reading_of_floatless hw] at htree
  exact node_injective (Document.mk.inj htree).1

theorem word_injective : Function.Injective word := by
  intro n m h
  have hnat : (n.toNat : Int) = m.toNat := by simpa [word, Number.ofWord] using h
  exact UInt64.toNat_inj.1 (Int.ofNat_inj.1 hnat)

theorem floatless_array_map {α : Type} {f : α → Value} {xs : List α}
    (h : ∀ x ∈ xs, (f x).Floatless) : (array (xs.map f)).Floatless :=
  .array (List.forall_mem_map.2 h)

theorem floatless_object_iff {ms : List (String × Value)} :
    (object ms).Floatless ↔ ∀ m ∈ ms, m.2.Floatless :=
  ⟨fun h ↦ by cases h; assumption, .object⟩

theorem floatless_word (n : UInt64) : (word n).Floatless := .integer _ _

end Value

theorem FreeValue.value_injective : Function.Injective FreeValue.value := by
  rintro ⟨v, _⟩ ⟨w, _⟩ rfl
  rfl

end Json

/-! ## What each layer prints determines it -/

namespace Annotation

theorem toJson_injective : Function.Injective toJson := by
  rintro ⟨name, kind, value, analyzer⟩ ⟨name', kind', value', analyzer'⟩ h
  have hvalue : value.value = value'.value → value = value' := fun h ↦ FreeValue.value_injective h
  cases analyzer <;> cases analyzer' <;> simp_all [toJson]

theorem listJson_injective : Function.Injective listJson := by
  intro as bs h
  exact List.map_injective_iff.2 toJson_injective (Value.array.inj h)

end Annotation

namespace AnalyzedParameter

theorem toJson_injective : Function.Injective toJson := by
  rintro ⟨⟨name, kind, value⟩, as⟩ ⟨⟨name', kind', value'⟩, as'⟩ h
  simp only [toJson, Value.object.injEq, List.cons.injEq, Prod.mk.injEq, Value.string.injEq,
    true_and, and_true] at h
  obtain ⟨rfl, rfl, hvalue, has⟩ := h
  rw [FreeValue.value_injective hvalue, Annotation.listJson_injective has]

end AnalyzedParameter

namespace AnalyzedCall

def additionalMembers (v : FreeValue) : List (String × Value) :=
  if v.isNull then [] else [("additionalFields", v.value)]

theorem toJson_eq (c : AnalyzedCall) :
    c.toJson = .object (
      ("address", .string c.node.address) ::
      ("method", .string c.node.method) ::
      ("contractType", .string c.node.contractType) ::
      ("contractVersion", .string c.node.contractVersion) ::
      ("data", .string (Hex.encode c.node.data)) ::
      (additionalMembers c.node.additionalFields ++ [
        ("inputs", .array (c.node.inputs.map AnalyzedParameter.toJson)),
        ("outputs", .array (c.node.outputs.map AnalyzedParameter.toJson)),
        ("annotations", Annotation.listJson c.annotations)])) := by
  simp [toJson, additionalMembers]

/-- Additional fields are left out only if they are null, so nothing is lost with them. -/
theorem eq_of_additionalMembers_append_eq {v v' : FreeValue} {x x' : Value}
    {ms ms' : List (String × Value)}
    (h : additionalMembers v ++ ("inputs", x) :: ms =
      additionalMembers v' ++ ("inputs", x') :: ms') : v = v' ∧ x = x' ∧ ms = ms' := by
  by_cases hv : v.isNull <;> by_cases hv' : v'.isNull <;>
    simp only [additionalMembers, hv, hv', if_true, if_false, Bool.false_eq_true, List.cons_append,
      List.nil_append, List.cons.injEq, Prod.mk.injEq, true_and, String.reduceEq, false_and] at h
  · rw [FreeValue.eq_null_of_isNull hv, FreeValue.eq_null_of_isNull hv']
    exact ⟨rfl, h⟩
  · exact ⟨FreeValue.value_injective h.1, h.2⟩

theorem toJson_injective : Function.Injective toJson := by
  rintro ⟨⟨address, method, inputs, outputs, data, additional, kind, version⟩, as⟩
    ⟨⟨address', method', inputs', outputs', data', additional', kind', version'⟩, as'⟩ h
  simp only [toJson_eq, Value.object.injEq, List.cons.injEq, Prod.mk.injEq, Value.string.injEq,
    true_and] at h
  obtain ⟨rfl, rfl, rfl, rfl, hdata, hmembers⟩ := h
  obtain ⟨rfl, hinputs, hrest⟩ := eq_of_additionalMembers_append_eq hmembers
  simp only [List.cons.injEq, Prod.mk.injEq, true_and, and_true, Value.array.injEq] at hinputs hrest
  rw [Hex.encode_injective hdata, Annotation.listJson_injective hrest.2,
    List.map_injective_iff.2 AnalyzedParameter.toJson_injective hinputs,
    List.map_injective_iff.2 AnalyzedParameter.toJson_injective hrest.1]

end AnalyzedCall

namespace AnalyzedBatch

theorem toJson_injective : Function.Injective toJson := by
  rintro ⟨⟨selector, calls⟩, as⟩ ⟨⟨selector', calls'⟩, as'⟩ h
  simp only [toJson, Value.object.injEq, List.cons.injEq, Prod.mk.injEq, Value.array.injEq,
    true_and, and_true] at h
  obtain ⟨hselector, hcalls, has⟩ := h
  rw [Value.word_injective hselector, Annotation.listJson_injective has,
    List.map_injective_iff.2 AnalyzedCall.toJson_injective hcalls]

end AnalyzedBatch

namespace AnalyzedProposal

theorem toJson_injective : Function.Injective toJson := by
  rintro ⟨⟨batches⟩, as⟩ ⟨⟨batches'⟩, as'⟩ h
  simp only [toJson, Value.object.injEq, List.cons.injEq, Prod.mk.injEq, Value.array.injEq,
    true_and, and_true] at h
  rw [List.map_injective_iff.2 AnalyzedBatch.toJson_injective h.1,
    Annotation.listJson_injective h.2]

end AnalyzedProposal

namespace RenderContext

theorem toJson_injective : Function.Injective toJson := by
  rintro ⟨domain, name, ⟨selectors, _⟩, description⟩
    ⟨domain', name', ⟨selectors', _⟩, description'⟩ h
  simp only [toJson, Value.object.injEq, List.cons.injEq, Prod.mk.injEq, Value.string.injEq,
    Value.array.injEq, true_and, and_true] at h
  obtain ⟨rfl, rfl, hselectors, rfl⟩ := h
  obtain rfl := List.map_injective_iff.2 Value.word_injective hselectors
  rfl

end RenderContext

/-! ## Trees without doubles -/

namespace Annotation

def Floatless (a : Annotation) : Prop := a.value.value.Floatless

theorem floatless_toJson {a : Annotation} (h : a.Floatless) : a.toJson.Floatless := by
  have hvalue : a.value.value.Floatless := h
  rw [toJson, Value.floatless_object_iff]
  cases a.analyzer <;> simp [hvalue, Value.Floatless.string]

theorem floatless_listJson {as : List Annotation} (h : ∀ a ∈ as, a.Floatless) :
    (listJson as).Floatless :=
  Value.floatless_array_map fun a ha ↦ floatless_toJson (h a ha)

end Annotation

namespace AnalyzedParameter

def Floatless (p : AnalyzedParameter) : Prop :=
  p.node.value.value.Floatless ∧ ∀ a ∈ p.annotations, a.Floatless

theorem floatless_toJson {p : AnalyzedParameter} (h : p.Floatless) : p.toJson.Floatless := by
  rw [toJson, Value.floatless_object_iff]
  simp [h.1, Annotation.floatless_listJson h.2, Value.Floatless.string]

end AnalyzedParameter

namespace AnalyzedCall

def Floatless (c : AnalyzedCall) : Prop :=
  c.node.additionalFields.value.Floatless ∧
    (∀ p ∈ c.node.inputs ++ c.node.outputs, AnalyzedParameter.Floatless p) ∧
      ∀ a ∈ c.annotations, a.Floatless

theorem floatless_toJson {c : AnalyzedCall} (h : c.Floatless) : c.toJson.Floatless := by
  obtain ⟨hadditional, hparameters, hannotations⟩ := h
  rw [List.forall_mem_append] at hparameters
  have hinputs : (Value.array (c.node.inputs.map AnalyzedParameter.toJson)).Floatless :=
    Value.floatless_array_map fun p hp ↦ AnalyzedParameter.floatless_toJson (hparameters.1 p hp)
  have houtputs : (Value.array (c.node.outputs.map AnalyzedParameter.toJson)).Floatless :=
    Value.floatless_array_map fun p hp ↦ AnalyzedParameter.floatless_toJson (hparameters.2 p hp)
  have hmembers : ∀ m ∈ additionalMembers c.node.additionalFields, m.2.Floatless := by
    unfold additionalMembers
    split <;> simp [hadditional]
  rw [toJson_eq, Value.floatless_object_iff]
  simpa [or_imp, forall_and, hinputs, houtputs, Annotation.floatless_listJson hannotations,
    Value.Floatless.string] using hmembers

end AnalyzedCall

namespace AnalyzedBatch

def Floatless (b : AnalyzedBatch) : Prop :=
  (∀ c ∈ b.node.calls, AnalyzedCall.Floatless c) ∧ ∀ a ∈ b.annotations, a.Floatless

theorem floatless_toJson {b : AnalyzedBatch} (h : b.Floatless) : b.toJson.Floatless := by
  have hcalls : (Value.array (b.node.calls.map AnalyzedCall.toJson)).Floatless :=
    Value.floatless_array_map fun c hc ↦ AnalyzedCall.floatless_toJson (h.1 c hc)
  rw [toJson, Value.floatless_object_iff]
  simp [hcalls, Annotation.floatless_listJson h.2, Value.floatless_word]

end AnalyzedBatch

namespace AnalyzedProposal

/-- No free value of the tree holds a double, neither in a call nor in an annotation. -/
def Floatless (t : AnalyzedProposal) : Prop :=
  (∀ b ∈ t.node.batches, AnalyzedBatch.Floatless b) ∧ ∀ a ∈ t.annotations, a.Floatless

theorem floatless_toJson {t : AnalyzedProposal} (h : t.Floatless) : t.toJson.Floatless := by
  have hbatches : (Value.array (t.node.batches.map AnalyzedBatch.toJson)).Floatless :=
    Value.floatless_array_map fun b hb ↦ AnalyzedBatch.floatless_toJson (h.1 b hb)
  rw [toJson, Value.floatless_object_iff]
  simp [hbatches, Annotation.floatless_listJson h.2]

end AnalyzedProposal

theorem RenderContext.floatless_toJson (c : RenderContext) : c.toJson.Floatless := by
  have hselectors : (Value.array (c.chainSelectors.toList.map .word)).Floatless :=
    Value.floatless_array_map fun n _ ↦ Value.floatless_word n
  rw [toJson, Value.floatless_object_iff]
  simp [hselectors, Value.Floatless.string]

/-! ## Documents -/

namespace Renderer

variable {c c' : RenderContext} {t u : AnalyzedProposal}

/-- What is written where there is room for everything. -/
def documentBytes (c : RenderContext) (t : AnalyzedProposal) : ByteArray :=
  (Piece.concat (document.render c t)).toUTF8

theorem pretty_eq_of_documentBytes_eq (h : documentBytes c t = documentBytes c' u) :
    (documentJson c t).pretty = (documentJson c' u).pretty := by
  apply String.toByteArray_inj.1
  simpa [documentBytes, document, Piece.concat, String.join] using h

theorem floatless_documentJson (ht : t.Floatless) : (documentJson c t).Floatless := by
  rw [documentJson, Value.floatless_object_iff]
  simp [c.floatless_toJson, AnalyzedProposal.floatless_toJson ht]

/-- Documents with the same bytes report the same context and the same tree, with the same
annotations in the same order on every node. -/
theorem eq_of_documentBytes_eq (ht : t.Floatless) (hu : u.Floatless)
    (h : documentBytes c t = documentBytes c' u) : c = c' ∧ t = u := by
  have hvalue : documentJson c t = documentJson c' u :=
    Value.eq_of_pretty_eq (floatless_documentJson ht) (floatless_documentJson hu)
      (pretty_eq_of_documentBytes_eq h)
  simp only [documentJson, Value.object.injEq, List.cons.injEq, Prod.mk.injEq, true_and,
    and_true] at hvalue
  exact ⟨RenderContext.toJson_injective hvalue.1, AnalyzedProposal.toJson_injective hvalue.2⟩

end Renderer

namespace Swap

def context (selectors : List UInt64) : RenderContext :=
  ⟨"ccip", "staging", .ofList selectors, "swap"⟩

/-- Two notes on the call, left together or one after the other. -/
def notedOnce : AnalyzedProposal :=
  (NodePath.call 0 0).append (.ofDecoded decoded) [.risk .low, .severity .info]

def notedTwice : AnalyzedProposal :=
  (NodePath.call 0 0).append ((NodePath.call 0 0).append (.ofDecoded decoded) [.risk .low])
    [.severity .info]

theorem floatless_notedOnce : notedOnce.Floatless := by
  have hnotes : ∀ a : Annotation, a ∈ [.risk .low, .severity .info] → a.Floatless :=
    List.forall_mem_cons.2 ⟨.string _, List.forall_mem_singleton.2 (.string _)⟩
  have hamount : AnalyzedParameter.Floatless (.bare amount) :=
    ⟨.integer 7 (by decide), List.forall_mem_nil _⟩
  refine ⟨List.forall_mem_singleton.2 ⟨List.forall_mem_singleton.2 ⟨.null, ?_, hnotes⟩,
    List.forall_mem_nil _⟩, List.forall_mem_nil _⟩
  exact List.forall_mem_singleton.2 hamount

theorem documents_report_the_same :
    notedOnce.Floatless ∧ notedTwice.Floatless ∧
      Renderer.documentBytes (context [5, 7]) notedOnce =
        Renderer.documentBytes (context [7, 5, 7]) notedTwice ∧
      context [5, 7] = context [7, 5, 7] ∧ notedOnce = notedTwice := by
  have htwice : notedTwice.Floatless := floatless_notedOnce
  have hbytes : Renderer.documentBytes (context [5, 7]) notedOnce =
      Renderer.documentBytes (context [7, 5, 7]) notedTwice := rfl
  exact ⟨floatless_notedOnce, htwice, hbytes,
    Renderer.eq_of_documentBytes_eq floatless_notedOnce htwice hbytes⟩

end Swap

end Timelock
