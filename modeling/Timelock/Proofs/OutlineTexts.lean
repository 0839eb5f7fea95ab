import Timelock.Proofs.OutlineShapes
import Timelock.Proofs.SingleLines
import Timelock.Proofs.TreePaths
import Timelock.Renderer.Outline

/-!
# Outlines determine shapes

Each line of an outline shows by its first character what it is about, however far it is indented
and whatever the names and values in it are, as long as none of them breaks the line.  So outlines
of one text have one shape, and there are as many lines as there are nodes and annotations, with
three lines before them.
-/

namespace Timelock.Renderer

open Text (OneLine oneLine_append oneLine_decimal)

variable {indent depth index : Nat} {c c' : RenderContext} {t t' : AnalyzedProposal}

theorem batchLines_eq (index : Nat) (b : AnalyzedBatch) : batchLines index b =
    (1, "Batch " ++ Text.decimal index ++ " on chain " ++
      Text.decimal b.node.chainSelector.toNat) ::
    (annotationLines 2 b.annotations ++
      b.node.calls.zipIdx.flatMap (fun x ↦ callLines x.2 x.1)) := rfl

theorem outlineLines_eq (c : RenderContext) (t : AnalyzedProposal) : outlineLines c t =
    contextLines c ++ (annotationLines 1 t.annotations ++
      t.node.batches.zipIdx.flatMap (fun x ↦ batchLines x.2 x.1)) := by
  rw [← List.append_assoc]
  rfl

/-! ## Strings that are shown -/

/-- A value is shown as it is if it is a string. -/
def valueStrings (v : Json.FreeValue) : List String :=
  match v.value with
  | .string s => [s]
  | _ => []

def annotationStrings (a : Annotation) : List String :=
  [a.name, a.kind] ++ valueStrings a.value ++ a.analyzer.toList

def parameterStrings (p : AnalyzedParameter) : List String :=
  [p.node.name, p.node.kind] ++ valueStrings p.node.value ++
    p.annotations.flatMap annotationStrings

/-- The version of a contract is shown behind its type only. -/
def callStrings (c : AnalyzedCall) : List String :=
  [c.node.method, c.node.address] ++
    (if c.node.contractType = "" then [] else [c.node.contractType, c.node.contractVersion]) ++
    c.annotations.flatMap annotationStrings ++ c.node.parameters.flatMap parameterStrings

def batchStrings (b : AnalyzedBatch) : List String :=
  b.annotations.flatMap annotationStrings ++ b.node.calls.flatMap callStrings

def shownStrings (c : RenderContext) (t : AnalyzedProposal) : List String :=
  [c.description, c.domain, c.environmentName] ++ t.annotations.flatMap annotationStrings ++
    t.node.batches.flatMap batchStrings

/-- No string that is shown has a line feed. -/
def Unbroken (c : RenderContext) (t : AnalyzedProposal) : Prop :=
  ∀ s ∈ shownStrings c t, OneLine s

/-! ## Lines are not broken -/

theorem oneLine_shown {v : Json.FreeValue} (h : ∀ s ∈ valueStrings v, OneLine s) :
    OneLine (shown v) := by
  unfold shown
  unfold valueStrings at h
  split
  next s hv =>
    rw [hv] at h
    exact h s (by simp)
  next => exact v.value.oneLine_compact

theorem oneLine_describe {a : Annotation} (h : ∀ s ∈ annotationStrings a, OneLine s) :
    OneLine (describe a) := by
  simp only [annotationStrings, List.forall_mem_append, List.forall_mem_cons, Option.mem_toList]
    at h
  obtain ⟨⟨⟨hname, hkind, _⟩, hvalue⟩, hanalyzer⟩ := h
  have hshown := oneLine_shown hvalue
  have hliterals : OneLine " [" ∧ OneLine "]: " ∧ OneLine " (" ∧ OneLine ")" ∧ OneLine "" := by
    decide
  unfold describe
  cases ha : a.analyzer with
  | none => simp [hname, hkind, hshown, hliterals]
  | some id => simp [hname, hkind, hshown, hliterals, hanalyzer id ha]

theorem oneLine_annotationLines {as : List Annotation}
    (h : ∀ a ∈ as, ∀ s ∈ annotationStrings a, OneLine s) :
    ∀ l ∈ annotationLines depth as, OneLine l.2 := by
  rw [annotationLines, List.forall_mem_map]
  intro a ha
  rw [oneLine_append]
  exact ⟨by decide, oneLine_describe (h a ha)⟩

theorem oneLine_parameterLines {d : Direction} {p : AnalyzedParameter}
    (h : ∀ s ∈ parameterStrings p, OneLine s) : ∀ l ∈ parameterLines d p, OneLine l.2 := by
  simp only [parameterStrings, List.forall_mem_append, List.forall_mem_cons,
    List.forall_mem_flatMap] at h
  obtain ⟨⟨⟨hname, hkind, _⟩, hvalue⟩, hannotations⟩ := h
  have hdirection : OneLine d.name := by cases d <;> decide
  have hliterals : OneLine " " ∧ OneLine " (" ∧ OneLine ") = " := by decide
  rw [parameterLines, List.forall_mem_cons]
  constructor
  · simp [hname, hkind, hdirection, hliterals, oneLine_shown hvalue]
  · exact oneLine_annotationLines hannotations

theorem oneLine_contractIdentifier {kind version : String} (hkind : OneLine kind)
    (hversion : OneLine version) : OneLine (contractIdentifier kind version) := by
  have hrest : OneLine (String.ofList (version.toList.dropWhile (· == 'v'))) := by
    rw [OneLine, String.toList_ofList]
    exact fun hmem ↦ hversion ((List.dropWhile_sublist _).mem hmem)
  have hliteral : OneLine " v" := by decide
  unfold contractIdentifier
  split
  · exact hkind
  · simp [hkind, hrest, hliteral]

theorem oneLine_callLines {c : AnalyzedCall} (h : ∀ s ∈ callStrings c, OneLine s) :
    ∀ l ∈ callLines index c, OneLine l.2 := by
  simp only [callStrings, Call.parameters, List.flatMap_append, List.forall_mem_append,
    List.forall_mem_cons, List.forall_mem_flatMap] at h
  obtain ⟨⟨⟨⟨hmethod, haddress, _⟩, hcontract⟩, hannotations⟩, hinputs, houtputs⟩ := h
  have hcallee : OneLine (callee c) := by
    unfold callee
    split
    · exact haddress
    next hkind =>
      rw [if_neg hkind, List.forall_mem_cons, List.forall_mem_singleton] at hcontract
      have hliteral : OneLine " at " := by decide
      simp [Call.contract, haddress, hliteral, oneLine_contractIdentifier hcontract.1 hcontract.2]
  have hliterals : OneLine "Call " ∧ OneLine ": " ∧ OneLine " on " := by decide
  rw [callLines, List.forall_mem_cons, List.forall_mem_append, List.forall_mem_append,
    List.forall_mem_flatMap, List.forall_mem_flatMap]
  refine ⟨?_, ⟨oneLine_annotationLines hannotations, fun p hp ↦ ?_⟩, fun p hp ↦ ?_⟩
  · simp [hmethod, hcallee, hliterals, oneLine_decimal]
  · exact oneLine_parameterLines (hinputs p hp)
  · exact oneLine_parameterLines (houtputs p hp)

theorem oneLine_batchLines {b : AnalyzedBatch} (h : ∀ s ∈ batchStrings b, OneLine s) :
    ∀ l ∈ batchLines index b, OneLine l.2 := by
  rw [batchStrings, List.forall_mem_append, List.forall_mem_flatMap, List.forall_mem_flatMap] at h
  have hliterals : OneLine "Batch " ∧ OneLine " on chain " := by decide
  rw [batchLines_eq, List.forall_mem_cons, List.forall_mem_append, List.forall_mem_flatMap]
  refine ⟨?_, oneLine_annotationLines h.1, ?_⟩
  · simp [hliterals, oneLine_decimal]
  · rintro ⟨c, i⟩ hc
    exact oneLine_callLines (h.2 c (List.fst_mem_of_mem_zipIdx hc))

theorem oneLine_outlineLines (h : Unbroken c t) : ∀ l ∈ outlineLines c t, OneLine l.2 := by
  simp only [Unbroken, shownStrings, List.forall_mem_append, List.forall_mem_cons,
    List.forall_mem_flatMap] at h
  obtain ⟨⟨⟨hdescription, hdomain, henvironment, _⟩, hannotations⟩, hbatches⟩ := h
  have hliterals : OneLine "Proposal: " ∧ OneLine "Environment: " ∧ OneLine "/" ∧
      OneLine "Chains: " ∧ OneLine ", " := by decide
  have hchains : OneLine (", ".intercalate
      (c.chainSelectors.toList.map (fun n ↦ Text.decimal n.toNat))) := by
    apply Text.oneLine_intercalate hliterals.2.2.2.2
    exact List.forall_mem_map.2 fun n _ ↦ oneLine_decimal n.toNat
  rw [outlineLines_eq, List.forall_mem_append, List.forall_mem_append, List.forall_mem_flatMap]
  refine ⟨?_, oneLine_annotationLines hannotations, ?_⟩
  · simp [contextLines, hliterals, hdescription, hdomain, henvironment, hchains]
  · rintro ⟨b, i⟩ hb
    exact oneLine_batchLines (hbatches b (List.fst_mem_of_mem_zipIdx hb))

/-! ## What a line is about -/

/-- The mark of a line, by its first character that is no space. -/
def Mark.read (line : List Char) : Mark :=
  match line.dropWhile (· == ' ') with
  | 'B' :: cs => .batch (cs.rtakeWhile Char.isDigit)
  | 'C' :: _ => .call
  | 'i' :: _ => .parameter .input
  | 'o' :: _ => .parameter .output
  | _ => .note

/-- A line as it is written, without its end. -/
def lineChars (indent : Nat) (l : Nat × String) : List Char :=
  List.replicate (indent * l.1) ' ' ++ l.2.toList

theorem Mark.read_lineChars (l : Nat × String) :
    Mark.read (lineChars indent l) = Mark.read l.2.toList := by
  have hspaces : ∀ n, (List.replicate n ' ' ++ l.2.toList).dropWhile (· == ' ') =
      l.2.toList.dropWhile (· == ' ') := by
    intro n
    induction n with
    | zero => rfl
    | succ n ih => exact ih
  rw [Mark.read, lineChars, hspaces, Mark.read]

def Mark.ofLine (l : Nat × String) : Mark := .read l.2.toList

theorem map_ofLine_annotationLines (as : List Annotation) :
    (annotationLines depth as).map Mark.ofLine = Mark.annotations as.length := by
  rw [annotationLines, List.map_map, Mark.annotations, ← List.map_const']
  apply List.map_congr_left
  intro a _
  simp only [Function.comp_apply, Mark.ofLine, String.toList_append]
  rfl

theorem map_ofLine_parameterLines (d : Direction) (p : AnalyzedParameter) :
    (parameterLines d p).map Mark.ofLine = Mark.ofParameter d p.annotations.length := by
  rw [parameterLines, List.map_cons, map_ofLine_annotationLines, Mark.ofParameter]
  congr 1
  simp only [Mark.ofLine, String.toList_append, List.append_assoc]
  cases d <;> rfl

theorem map_ofLine_callLines (index : Nat) (c : AnalyzedCall) :
    (callLines index c).map Mark.ofLine = Mark.ofCall (.of c) := by
  have hcall : Mark.ofLine (2, "Call " ++ Text.decimal index ++ ": " ++ c.node.method ++ " on " ++
      callee c) = .call := by
    simp only [Mark.ofLine, String.toList_append, List.append_assoc]
    rfl
  simp only [callLines, List.map_cons, List.map_append, List.map_flatMap, hcall,
    map_ofLine_annotationLines, map_ofLine_parameterLines, Mark.ofCall, CallShape.of,
    List.flatMap_map]

theorem rtakeWhile_toDigits (cs : List Char) (n : Nat) :
    (cs ++ ' ' :: Nat.toDigits 10 n).rtakeWhile Char.isDigit = Nat.toDigits 10 n := by
  have hdigits : ∀ c ∈ (Nat.toDigits 10 n).reverse, c.isDigit = true := fun c hc ↦
    Json.isDigit_of_mem_toDigits c (List.mem_reverse.1 hc)
  have hspace : ' '.isDigit = false := by decide
  rw [List.rtakeWhile, List.reverse_append, List.reverse_cons, List.append_assoc,
    List.takeWhile_append_of_pos hdigits]
  simp [hspace]

theorem ofLine_batch (n : Nat) : Mark.ofLine (1, "Batch " ++ Text.decimal index ++ " on chain " ++
    Text.decimal n) = .batch (Nat.toDigits 10 n) := by
  have htext : ("Batch " ++ Text.decimal index ++ " on chain " ++ Text.decimal n).toList =
      'B' :: ("atch ".toList ++ Nat.toDigits 10 index ++ " on chain".toList ++
        ' ' :: Nat.toDigits 10 n) := by
    simp [Text.decimal, String.toList_append]
  rw [Mark.ofLine, htext, Mark.read]
  exact congrArg Mark.batch (rtakeWhile_toDigits _ n)

theorem map_ofLine_batchLines (index : Nat) (b : AnalyzedBatch) :
    (batchLines index b).map Mark.ofLine = Mark.ofBatch (.of b) := by
  simp only [batchLines_eq, List.map_cons, List.map_append, List.map_flatMap, ofLine_batch,
    map_ofLine_annotationLines, map_ofLine_callLines, Mark.ofBatch, BatchShape.of,
    List.flatMap_map]
  rw [flatMap_zipIdx (fun c ↦ Mark.ofCall (.of c))]

/-- Three lines come before those of the tree. -/
theorem map_ofLine_outlineLines (c : RenderContext) (t : AnalyzedProposal) :
    ((outlineLines c t).drop 3).map Mark.ofLine = Mark.ofProposal (.of t) := by
  have hdrop : (outlineLines c t).drop 3 = annotationLines 1 t.annotations ++
      t.node.batches.zipIdx.flatMap (fun x ↦ batchLines x.2 x.1) := by
    rw [outlineLines_eq]
    exact List.drop_left' rfl
  simp only [hdrop, List.map_append, List.map_flatMap, map_ofLine_annotationLines,
    map_ofLine_batchLines, Mark.ofProposal, ProposalShape.of, List.flatMap_map]
  rw [flatMap_zipIdx (fun b ↦ Mark.ofBatch (.of b))]

/-! ## Texts of outlines -/

theorem toList_outlineText : (outlineText indent c t).toList =
    ((outlineLines c t).map (lineChars indent)).flatMap (· ++ ['\n']) := by
  simp only [outlineText, String.toList_join, List.flatMap_map, lineText, String.toList_append,
    String.toList_ofList, lineChars]
  rfl

theorem newline_notMem_lineChars (h : Unbroken c t) :
    ∀ l ∈ (outlineLines c t).map (lineChars indent), '\n' ∉ l := by
  rw [List.forall_mem_map]
  intro l hl hmem
  rcases List.mem_append.1 hmem with hmem | hmem
  · cases List.eq_of_mem_replicate hmem
  · exact oneLine_outlineLines h l hl hmem

theorem shape_eq_of_outlineText_eq (h : Unbroken c t) (h' : Unbroken c' t')
    (heq : outlineText indent c t = outlineText indent c' t') :
    ProposalShape.of t = ProposalShape.of t' := by
  -- Unbroken lines are cut at the line feeds, and each of them shows its mark.
  have hlines : (outlineLines c t).map (lineChars indent) =
      (outlineLines c' t').map (lineChars indent) := by
    apply Splitting.eq_of_flatMap_terminated (newline_notMem_lineChars h)
      (newline_notMem_lineChars h')
    rw [← toList_outlineText, heq, toList_outlineText]
  have hmarks : ∀ (c : RenderContext) (t : AnalyzedProposal),
      (((outlineLines c t).map (lineChars indent)).drop 3).map Mark.read =
        Mark.ofProposal (.of t) := by
    intro c t
    rw [← map_ofLine_outlineLines c t, ← List.map_drop, List.map_map]
    exact List.map_congr_left fun l _ ↦ Mark.read_lineChars l
  apply Mark.ofProposal_injective
  rw [← hmarks c t, hlines, hmarks c' t']

/-! ## How many lines there are -/

open AnalyzedProposal (callAnnotations batchAnnotations allAnnotations atLevel)

/-- Parts each of which has one line, and as many more as three lists have elements. -/
theorem length_flatMap_add {α β γ δ ε : Type} {f : α → List β} {g : α → List γ} {h : α → List δ}
    {k : α → List ε} (hf : ∀ x, (f x).length = 1 + (g x).length + (h x).length + (k x).length)
    (xs : List α) : (xs.flatMap f).length =
      xs.length + (xs.flatMap g).length + (xs.flatMap h).length + (xs.flatMap k).length := by
  induction xs with
  | nil => rfl
  | cons x xs ih =>
      simp only [List.flatMap_cons, List.length_append, List.length_cons, hf, ih]
      omega

def noLines {α : Type} (_ : α) : List Unit := []

theorem length_parameterLines (d : Direction) (ps : List AnalyzedParameter) :
    (ps.flatMap (parameterLines d)).length = ps.length +
      (ps.flatMap (fun p ↦ atLevel .parameter p.annotations)).length := by
  have hone : ∀ p : AnalyzedParameter, (parameterLines d p).length = 1 + (noLines p).length +
      (noLines p).length + (atLevel .parameter p.annotations).length := by
    intro p
    simp only [parameterLines, annotationLines, atLevel, noLines, List.length_cons,
      List.length_map, List.length_nil]
    omega
  rw [length_flatMap_add hone]
  simp [noLines]

theorem length_callLines (index : Nat) (c : AnalyzedCall) :
    (callLines index c).length =
      1 + (noLines c).length + c.node.parameters.length + (callAnnotations c).length := by
  simp only [callLines, callAnnotations, Call.parameters, annotationLines, atLevel, noLines,
    List.length_cons, List.length_append, List.length_map, length_parameterLines,
    List.flatMap_append, List.length_nil]
  omega

theorem length_batchLines (index : Nat) (b : AnalyzedBatch) :
    (batchLines index b).length = 1 + b.node.calls.length +
      (b.node.calls.flatMap (fun c ↦ c.node.parameters)).length + (batchAnnotations b).length := by
  have hcalls : (b.node.calls.zipIdx.flatMap (fun x ↦ callLines x.2 x.1)).length =
      (b.node.calls.flatMap (callLines 0)).length := by
    apply NodePath.length_flatMap_zipIdx
    intro c i
    rw [length_callLines, length_callLines]
  have hnone : b.node.calls.flatMap noLines = [] := by simp [noLines]
  simp only [batchLines_eq, batchAnnotations, annotationLines, atLevel, List.length_cons,
    List.length_append, List.length_map, hcalls, length_flatMap_add (length_callLines 0), hnone,
    List.length_nil]
  omega

theorem length_outlineLines (c : RenderContext) (t : AnalyzedProposal) :
    (outlineLines c t).length = 3 + (t.node.batches.length + t.decoded.callCount +
      t.decoded.parameterCount) + (allAnnotations t).length := by
  have hbatches : (t.node.batches.zipIdx.flatMap (fun x ↦ batchLines x.2 x.1)).length =
      (t.node.batches.flatMap (batchLines 0)).length := by
    apply NodePath.length_flatMap_zipIdx
    intro b i
    rw [length_batchLines, length_batchLines]
  have hcalls : t.decoded.callCount = (t.node.batches.flatMap (fun b ↦ b.node.calls)).length := by
    rw [DecodedProposal.callCount, NodePath.calls_decoded, List.length_flatMap,
      List.length_flatMap]
    simp [AnalyzedBatch.decoded, CallBatch.map]
  have hparameters : t.decoded.parameterCount = (t.node.batches.flatMap (fun b ↦
      b.node.calls.flatMap (fun c ↦ c.node.parameters))).length := by
    rw [DecodedProposal.parameterCount, NodePath.calls_decoded, List.flatMap_assoc,
      List.length_flatMap, List.length_flatMap]
    simp [AnalyzedBatch.decoded, CallBatch.map, List.flatMap_map, List.length_flatMap,
      AnalyzedCall.decoded, Call.map, Call.parameters]
  simp only [outlineLines_eq, contextLines, allAnnotations, annotationLines, atLevel,
    List.length_cons, List.length_nil, List.length_append, List.length_map, hbatches, hcalls,
    hparameters, length_flatMap_add (length_batchLines 0)]
  omega

/-- The text consists of so many lines, each with its end. -/
def HasLines (text : String) (n : Nat) : Prop :=
  ∃ ls : List String, ls.length = n ∧ (∀ l ∈ ls, OneLine l) ∧
    text = String.join (ls.map (· ++ "\n"))

theorem hasLines_outlineText (h : Unbroken c t) :
    HasLines (outlineText indent c t) (outlineLines c t).length := by
  refine ⟨((outlineLines c t).map (lineChars indent)).map String.ofList, ?_, ?_, ?_⟩
  · simp only [List.length_map]
  · rw [List.forall_mem_map]
    intro l hl
    rw [OneLine, String.toList_ofList]
    exact newline_notMem_lineChars h l hl
  · apply String.toList_injective
    rw [toList_outlineText, String.toList_join, List.flatMap_map, List.flatMap_map]
    simp [List.flatMap_map]

/-- Outlines of one text are outlines of one shape, and an outline has three lines and one for each
node below the root and for each annotation. -/
theorem shape_and_lines_of_outline (h : Unbroken c t) (h' : Unbroken c' t') :
    (Piece.concat ((outline indent).render c t) = Piece.concat ((outline indent).render c' t') →
      ProposalShape.of t = ProposalShape.of t') ∧
    HasLines (Piece.concat ((outline indent).render c t)) (3 + (t.decoded.batches.length +
      t.decoded.callCount + t.decoded.parameterCount) + (allAnnotations t).length) := by
  have htext : ∀ (c : RenderContext) (t : AnalyzedProposal),
      Piece.concat ((outline indent).render c t) = outlineText indent c t := by
    intro c t
    simp [Piece.concat, outline]
  rw [htext, htext]
  refine ⟨shape_eq_of_outlineText_eq h h', ?_⟩
  have hbatches : t.decoded.batches.length = t.node.batches.length := List.length_map _
  rw [hbatches, ← length_outlineLines c t]
  exact hasLines_outlineText h

/-! ## Two trees with one outline -/

namespace Alike

def context (domain environmentName : String) : RenderContext :=
  ⟨domain, environmentName, .ofList [1], "Call 0: f on g"⟩

def annotated (name kind : String) : AnalyzedProposal where
  node := ⟨[⟨⟨1, []⟩, [{ name := name, kind := kind, value := .null }]⟩]⟩

def early : AnalyzedProposal := annotated "Batch 0 on chain 1" "k]: v [w"

def late : AnalyzedProposal := annotated "Batch 0 on chain 1 [k]: v" "w"

theorem shape_and_lines_of_alike :
    Unbroken (context "a/b" "c") early ∧ Unbroken (context "a" "b/c") late ∧ early ≠ late ∧
      ProposalShape.of early = ProposalShape.of late ∧
      HasLines (Piece.concat ((outline 2).render (context "a/b" "c") early)) 5 := by
  have hearly : Unbroken (context "a/b" "c") early := by
    unfold Unbroken
    decide
  have hlate : Unbroken (context "a" "b/c") late := by
    unfold Unbroken
    decide
  have htext : Piece.concat ((outline 2).render (context "a/b" "c") early) =
      Piece.concat ((outline 2).render (context "a" "b/c") late) := by
    decide
  have hne : early ≠ late := by
    intro heq
    have hstrings := congrArg (shownStrings (context "a" "b")) heq
    revert hstrings
    decide
  obtain ⟨hshape, hlines⟩ := @shape_and_lines_of_outline 2 _ _ _ _ hearly hlate
  exact ⟨hearly, hlate, hne, hshape htext, hlines⟩

end Alike

end Timelock.Renderer
