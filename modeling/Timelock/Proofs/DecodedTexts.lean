import Timelock.Analyzed.Json
import Timelock.Proofs.Decoders
import Timelock.Proofs.TreeGrowth

/-!
# Reading printed trees of calls

A decoded proposal whose free values hold no doubles is read back from its text, and from the text
of every analyzed tree that grows out of it: annotations are skipped, and additional fields that are
left out read back as null.
-/

namespace Timelock

open Json

variable {b c : Nat}

theorem Json.FreeValue.eq_null_of_isNull {v : FreeValue} (h : v.isNull) : v = .null := by
  cases v
  simpa [isNull, null] using h

/-- The name under which annotations print belongs to no field that is read. -/
theorem forall_mem_annotations {n : Nat} {indexOf? : String → Option (Fin n)}
    (h : indexOf? "annotations" = none) (as : List Annotation) :
    ∀ m ∈ [("annotations", Annotation.listJson as)], indexOf? m.1 = none :=
  List.forall_mem_singleton.2 h

/-! ## Parameters -/

namespace Parameter

def fields (p : Parameter) : (i : Fin 3) → shape.Field i
  | 0 => p.name
  | 1 => p.kind
  | 2 => p.value

def entry (p : Parameter) : Fin 3 → Value
  | 0 => .string p.name
  | 1 => .string p.kind
  | 2 => p.value.value

theorem decoder_entry {p : Parameter} (hp : p.value.value.Floatless)
    (hc : p.value.value.depth ≤ c) :
    ∀ i : Fin 3, shape.decoder i c (p.entry i).reading = .ok (p.fields i)
  | 0 => Decoder.string_reading c p.name
  | 1 => Decoder.string_reading c p.kind
  | 2 => decodeFree_reading hp hc

theorem decode_toJson {p : Parameter} (hp : p.value.value.Floatless) (hb : p.toJson.depth ≤ b) :
    shape.decode b p.toJson.reading = .ok p := by
  obtain ⟨c, rfl, hc⟩ := Value.exists_of_depth_object_le hb
  have hentry := decoder_entry hp (hc ("value", p.value.value) (by simp))
  exact Shape.decode_declared (s := shape) (by decide) hentry [] (by simp)

end Parameter

theorem AnalyzedParameter.decode_toJson {p : AnalyzedParameter}
    (hp : p.node.value.value.Floatless) (hb : p.node.toJson.depth ≤ b) :
    Parameter.shape.decode b p.toJson.reading = .ok p.node := by
  obtain ⟨c, rfl, hc⟩ := Value.exists_of_depth_object_le hb
  have hentry := Parameter.decoder_entry hp (hc ("value", p.node.value.value) (by simp))
  exact Shape.decode_declared (s := Parameter.shape) (by decide) hentry _
    (forall_mem_annotations rfl p.annotations)

/-! ## Calls -/

namespace DecodedCall

/-- Neither the additional fields nor a parameter of the call holds a double. -/
def Floatless (x : DecodedCall) : Prop :=
  x.additionalFields.value.Floatless ∧ ∀ p ∈ x.parameters, p.value.value.Floatless

def fields (x : DecodedCall) : (i : Fin 8) → shape.Field i
  | 0 => x.address
  | 1 => x.method
  | 2 => x.inputs
  | 3 => x.outputs
  | 4 => x.data
  | 5 => x.additionalFields
  | 6 => x.contractType
  | 7 => x.contractVersion

/-- What a call prints under its fields, whatever it prints for its parameters. -/
def entry (x : DecodedCall) (inputs outputs : Value) : Fin 8 → Value
  | 0 => .string x.address
  | 1 => .string x.method
  | 2 => inputs
  | 3 => outputs
  | 4 => .string (Hex.encode x.data)
  | 5 => x.additionalFields.value
  | 6 => .string x.contractType
  | 7 => .string x.contractVersion

theorem decoder_entry {x : DecodedCall} {inputs outputs : Value}
    (hinputs : Decoder.list Parameter.shape.decode c inputs.reading = .ok x.inputs)
    (houtputs : Decoder.list Parameter.shape.decode c outputs.reading = .ok x.outputs)
    (hx : x.additionalFields.value.Floatless) (hc : x.additionalFields.value.depth ≤ c) :
    ∀ i : Fin 8, shape.decoder i c (x.entry inputs outputs i).reading = .ok (x.fields i)
  | 0 => Decoder.string_reading c x.address
  | 1 => Decoder.string_reading c x.method
  | 2 => hinputs
  | 3 => houtputs
  | 4 => Decoder.hex_reading c x.data
  | 5 => decodeFree_reading hx hc
  | 6 => Decoder.string_reading c x.contractType
  | 7 => Decoder.string_reading c x.contractVersion

theorem decode_toJson {x : DecodedCall} (hx : x.Floatless) (hb : x.toJson.depth ≤ b) :
    shape.decode b x.toJson.reading = .ok x := by
  obtain ⟨c, rfl, hc⟩ := Value.exists_of_depth_object_le hb
  have hinputs := Decoder.list_reading_self
    (hc ("inputs", .array (x.inputs.map Parameter.toJson)) (by simp))
    fun p hp _ hd ↦ Parameter.decode_toJson (hx.2 p (List.mem_append_left _ hp)) hd
  have houtputs := Decoder.list_reading_self
    (hc ("outputs", .array (x.outputs.map Parameter.toJson)) (by simp))
    fun p hp _ hd ↦ Parameter.decode_toJson (hx.2 p (List.mem_append_right _ hp)) hd
  have hentry := decoder_entry hinputs houtputs hx.1
    (hc ("additionalFields", x.additionalFields.value) (by simp))
  exact Shape.decode_declared (s := shape) (by decide) hentry [] (by simp)

end DecodedCall

namespace AnalyzedCall

theorem list_parameters {ps : List AnalyzedParameter}
    (hps : ∀ p ∈ ps.map Annotated.node, p.value.value.Floatless)
    (hc : (Value.array ((ps.map Annotated.node).map Parameter.toJson)).depth ≤ c) :
    Decoder.list Parameter.shape.decode c (Value.array (ps.map AnalyzedParameter.toJson)).reading =
      .ok (ps.map Annotated.node) := by
  rw [List.map_map] at hc
  exact Decoder.list_reading hc fun p hp _ hd ↦
    AnalyzedParameter.decode_toJson (hps p.node (List.mem_map_of_mem hp)) hd

/-- An analyzed call prints the fields in an order of its own, and leaves out additional fields that
hold their default. -/
theorem exists_toJson_eq (x : AnalyzedCall) :
    ∃ is : List (Fin 8), x.toJson = .object (is.map (fun i ↦ (DecodedCall.shape.name i,
        x.decoded.entry (.array (x.node.inputs.map AnalyzedParameter.toJson))
          (.array (x.node.outputs.map AnalyzedParameter.toJson)) i)) ++
        [("annotations", Annotation.listJson x.annotations)]) ∧
      is.Nodup ∧ ∀ i, i ∈ is ∨ DecodedCall.shape.default i = some (x.decoded.fields i) := by
  simp only [toJson]
  split
  next hnull =>
    refine ⟨[0, 1, 6, 7, 4, 2, 3], rfl, by decide, fun i ↦ ?_⟩
    have hothers : ∀ i : Fin 8, i = 5 ∨ i ∈ ([0, 1, 6, 7, 4, 2, 3] : List (Fin 8)) := by decide
    rcases hothers i with rfl | hi
    · exact .inr (congrArg some (FreeValue.eq_null_of_isNull hnull).symm)
    · exact .inl hi
  next =>
    refine ⟨[0, 1, 6, 7, 4, 5, 2, 3], rfl, by decide, fun i ↦ .inl ?_⟩
    revert i
    decide

theorem decode_toJson {x : AnalyzedCall} (hx : x.decoded.Floatless)
    (hb : x.decoded.toJson.depth ≤ b) :
    DecodedCall.shape.decode b x.toJson.reading = .ok x.decoded := by
  obtain ⟨c, rfl, hc⟩ := Value.exists_of_depth_object_le hb
  have hinputs := list_parameters (fun p hp ↦ hx.2 p (List.mem_append_left _ hp))
    (hc ("inputs", .array (x.decoded.inputs.map Parameter.toJson)) (by simp))
  have houtputs := list_parameters (fun p hp ↦ hx.2 p (List.mem_append_right _ hp))
    (hc ("outputs", .array (x.decoded.outputs.map Parameter.toJson)) (by simp))
  have hentry := DecodedCall.decoder_entry hinputs houtputs hx.1
    (hc ("additionalFields", x.decoded.additionalFields.value) (by simp))
  obtain ⟨is, hjson, hnodup, hall⟩ := x.exists_toJson_eq
  rw [hjson]
  exact Shape.decode_entries (s := DecodedCall.shape) (by decide) hentry is hnodup hall _
    (forall_mem_annotations rfl x.annotations)

end AnalyzedCall

/-! ## Batches and proposals -/

namespace DecodedBatch

def fields (x : DecodedBatch) : (i : Fin 2) → shape.Field i
  | 0 => x.chainSelector
  | 1 => x.calls

def entry (x : DecodedBatch) (calls : Value) : Fin 2 → Value
  | 0 => .word x.chainSelector
  | 1 => calls

theorem decoder_entry {x : DecodedBatch} {calls : Value}
    (hcalls : Decoder.list DecodedCall.shape.decode c calls.reading = .ok x.calls) :
    ∀ i : Fin 2, shape.decoder i c (x.entry calls i).reading = .ok (x.fields i)
  | 0 => Decoder.word_reading c x.chainSelector
  | 1 => hcalls

theorem decode_toJson {x : DecodedBatch} (hx : ∀ y ∈ x.calls, DecodedCall.Floatless y)
    (hb : x.toJson.depth ≤ b) : shape.decode b x.toJson.reading = .ok x := by
  obtain ⟨c, rfl, hc⟩ := Value.exists_of_depth_object_le hb
  have hcalls := Decoder.list_reading_self
    (hc ("calls", .array (x.calls.map DecodedCall.toJson)) (by simp))
    fun y hy _ hd ↦ DecodedCall.decode_toJson (hx y hy) hd
  exact Shape.decode_declared (s := shape) (by decide) (decoder_entry hcalls) [] (by simp)

end DecodedBatch

theorem AnalyzedBatch.decode_toJson {x : AnalyzedBatch}
    (hx : ∀ y ∈ x.decoded.calls, DecodedCall.Floatless y) (hb : x.decoded.toJson.depth ≤ b) :
    DecodedBatch.shape.decode b x.toJson.reading = .ok x.decoded := by
  obtain ⟨c, rfl, hc⟩ := Value.exists_of_depth_object_le hb
  have hdepth := hc ("calls", .array (x.decoded.calls.map DecodedCall.toJson)) (by simp)
  rw [decoded, CallBatch.map, List.map_map] at hdepth
  have hcalls : Decoder.list DecodedCall.shape.decode c
      (Value.array (x.node.calls.map AnalyzedCall.toJson)).reading = .ok x.decoded.calls :=
    Decoder.list_reading hdepth fun y hy _ hd ↦
      AnalyzedCall.decode_toJson (hx y.decoded (List.mem_map_of_mem hy)) hd
  exact Shape.decode_declared (s := DecodedBatch.shape) (by decide)
    (DecodedBatch.decoder_entry hcalls) _ (forall_mem_annotations rfl x.annotations)

namespace DecodedProposal

/-- No free value of the tree holds a double. -/
def Floatless (d : DecodedProposal) : Prop :=
  ∀ x ∈ d.batches, ∀ y ∈ x.calls, DecodedCall.Floatless y

def fields (d : DecodedProposal) : (i : Fin 1) → shape.Field i
  | 0 => d.batches

def entry (batches : Value) : Fin 1 → Value
  | 0 => batches

theorem decoder_entry {d : DecodedProposal} {batches : Value}
    (hbatches : Decoder.list DecodedBatch.shape.decode c batches.reading = .ok d.batches) :
    ∀ i : Fin 1, shape.decoder i c (entry batches i).reading = .ok (d.fields i)
  | 0 => hbatches

theorem decode_toJson {d : DecodedProposal} (hd : d.Floatless) (hb : d.toJson.depth ≤ b) :
    shape.decode b d.toJson.reading = .ok d := by
  obtain ⟨c, rfl, hc⟩ := Value.exists_of_depth_object_le hb
  have hbatches := Decoder.list_reading_self
    (hc ("batchOperations", .array (d.batches.map DecodedBatch.toJson)) (by simp))
    fun x hx _ h ↦ DecodedBatch.decode_toJson (hd x hx) h
  exact Shape.decode_declared (s := shape) (by decide) (decoder_entry hbatches) [] (by simp)

end DecodedProposal

theorem AnalyzedProposal.decode_toJson {t : AnalyzedProposal} (ht : t.decoded.Floatless)
    (hb : t.decoded.toJson.depth ≤ b) :
    DecodedProposal.shape.decode b t.toJson.reading = .ok t.decoded := by
  obtain ⟨c, rfl, hc⟩ := Value.exists_of_depth_object_le hb
  have hdepth := hc ("batchOperations", .array (t.decoded.batches.map DecodedBatch.toJson))
    (by simp)
  rw [decoded, CallTree.map, List.map_map] at hdepth
  have hbatches : Decoder.list DecodedBatch.shape.decode c
      (Value.array (t.node.batches.map AnalyzedBatch.toJson)).reading = .ok t.decoded.batches :=
    Decoder.list_reading hdepth fun x hx _ hd ↦
      AnalyzedBatch.decode_toJson (ht x.decoded (List.mem_map_of_mem hx)) hd
  exact Shape.decode_declared (s := DecodedProposal.shape) (by decide)
    (DecodedProposal.decoder_entry hbatches) _ (forall_mem_annotations rfl t.annotations)

namespace DecodedProposal

/-- A decoded proposal survives its own printing, and that of every tree of annotations on it. -/
theorem ofText_printed {d : DecodedProposal} (hd : d.Floatless) (hdepth : d.toJson.depth ≤ 127) :
    (ofText d.toJson.compact = .ok d ∧ ofText d.toJson.pretty = .ok d) ∧
      ∀ t, (AnalyzedProposal.ofDecoded d).Grows (fun _ ↦ True) t →
        ofText t.toJson.compact = .ok d ∧ ofText t.toJson.pretty = .ok d := by
  have hown := decode_toJson hd hdepth
  refine ⟨⟨?_, ?_⟩, fun t ht ↦ ?_⟩
  · exact Decoder.text_of_layout (Value.layout_compact _) hown
  · exact Decoder.text_of_layout (Value.layout_pretty _) hown
  · have htree : t.decoded = d := ht.mirrors.decoded
    subst htree
    have hgrown := AnalyzedProposal.decode_toJson hd hdepth
    exact ⟨Decoder.text_of_layout (Value.layout_compact _) hgrown,
      Decoder.text_of_layout (Value.layout_pretty _) hgrown⟩

end DecodedProposal

namespace Swap

def amount : Parameter := ⟨"amount", "uint256", .nat 7⟩

def call : DecodedCall := { address := "0x1", method := "swap", inputs := [amount], data := [171] }

def decoded : DecodedProposal := { batches := [⟨5, [call]⟩] }

def price : Annotation :=
  { name := "price", kind := "number", value := .number (.float ⟨false, 0x18000000000000, -52⟩) }

/-- A price and a note on the call, and then a note on its parameter. -/
def annotated : AnalyzedProposal :=
  (NodePath.parameter 0 0 .input 0).append
    ((NodePath.call 0 0).append (.ofDecoded decoded) [price, .severity .info]) [.risk .low]

theorem grows_annotated : (AnalyzedProposal.ofDecoded decoded).Grows (fun _ ↦ True) annotated :=
  .append (.append .refl (.call 0 0) trivial _) (.parameter 0 0 .input 0) trivial _

theorem floatless_decoded : decoded.Floatless := by
  simp only [DecodedProposal.Floatless, decoded, List.forall_mem_singleton]
  refine ⟨.null, ?_⟩
  simp only [Call.parameters, call, List.append_nil, List.forall_mem_singleton]
  exact .integer 7 (by decide)

theorem decoded_reads_back :
    decoded.Floatless ∧ decoded.toJson.depth ≤ 127 ∧
      DecodedProposal.ofText decoded.toJson.compact = .ok decoded ∧
      DecodedProposal.ofText annotated.toJson.pretty = .ok decoded := by
  have hdepth : decoded.toJson.depth ≤ 127 := by decide
  have h := DecodedProposal.ofText_printed floatless_decoded hdepth
  exact ⟨floatless_decoded, hdepth, h.1.1, (h.2 annotated grows_annotated).2⟩

end Swap

end Timelock
