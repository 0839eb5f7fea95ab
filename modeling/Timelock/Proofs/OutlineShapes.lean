import Timelock.Proofs.NumberTexts
import Timelock.Proofs.Splitting
import Timelock.Analyzed

/-!
# Shapes of outlines

The shape of a tree is what an outline shows of it beside the texts: which nodes there are, with
how many annotations each.  A list with one mark for each line of an outline determines the shape.
-/

namespace Timelock.Renderer

/-! ## Shapes -/

/-- A call by its annotations, and its parameters by theirs. -/
structure CallShape where
  annotations : Nat
  inputs : List Nat
  outputs : List Nat
  deriving DecidableEq

structure BatchShape where
  chainSelector : UInt64
  annotations : Nat
  calls : List CallShape
  deriving DecidableEq

structure ProposalShape where
  annotations : Nat
  batches : List BatchShape
  deriving DecidableEq

def CallShape.of (c : AnalyzedCall) : CallShape where
  annotations := c.annotations.length
  inputs := c.node.inputs.map (fun p ↦ p.annotations.length)
  outputs := c.node.outputs.map (fun p ↦ p.annotations.length)

def BatchShape.of (b : AnalyzedBatch) : BatchShape where
  chainSelector := b.node.chainSelector
  annotations := b.annotations.length
  calls := b.node.calls.map CallShape.of

def ProposalShape.of (t : AnalyzedProposal) : ProposalShape where
  annotations := t.annotations.length
  batches := t.node.batches.map BatchShape.of

/-! ## Marks -/

/-- What a line of an outline is about; a batch is told from others by its chain. -/
inductive Mark where
  | note
  | batch (chain : List Char)
  | call
  | parameter (d : Direction)
  deriving DecidableEq

namespace Mark

def annotations (n : Nat) : List Mark := List.replicate n .note

def ofParameter (d : Direction) (n : Nat) : List Mark := .parameter d :: annotations n

def ofCall (c : CallShape) : List Mark :=
  .call :: (annotations c.annotations ++ c.inputs.flatMap (ofParameter .input) ++
    c.outputs.flatMap (ofParameter .output))

def ofBatch (b : BatchShape) : List Mark :=
  .batch (Nat.toDigits 10 b.chainSelector.toNat) ::
    (annotations b.annotations ++ b.calls.flatMap ofCall)

def ofProposal (p : ProposalShape) : List Mark :=
  annotations p.annotations ++ p.batches.flatMap ofBatch

/-- A line ends the part of every line before it that has no higher rank. -/
def rank : Mark → Nat
  | .note => 0
  | .parameter .input => 1
  | .parameter .output => 2
  | .call => 3
  | .batch _ => 4

/-! ## Parts of an outline -/

def Below (k : Nat) (ms : List Mark) : Prop := ∀ m ∈ ms, m.rank < k

/-- One part of rank `k`: a mark of this rank, and lower ones. -/
def Opens (k : Nat) (ms : List Mark) : Prop := ∃ m ms', ms = m :: ms' ∧ m.rank = k ∧ Below k ms'

variable {β : Type} {k n : Nat} {d : Direction} {ms ms' : List Mark}

theorem Below.append (h : Below k ms) (h' : Below k ms') : Below k (ms ++ ms') := by
  intro m hm
  rcases List.mem_append.1 hm with hm | hm
  · exact h m hm
  · exact h' m hm

theorem Below.mono {k' : Nat} (h : Below k ms) (hk : k ≤ k') : Below k' ms :=
  fun m hm ↦ (h m hm).trans_le hk

theorem below_annotations (hk : 0 < k) : Below k (annotations n) := by
  intro m hm
  rwa [List.eq_of_mem_replicate hm]

theorem below_flatMap {f : β → List Mark} {bs : List β} (h : ∀ b, Opens k (f b)) :
    Below (k + 1) (bs.flatMap f) := by
  intro m hm
  obtain ⟨b, _, hm⟩ := List.mem_flatMap.1 hm
  obtain ⟨m', ms, hb, hrank, hbelow⟩ := h b
  rw [hb] at hm
  rcases List.mem_cons.1 hm with rfl | hm
  · omega
  · exact (hbelow m hm).trans (Nat.lt_succ_self k)

/-- What stands before the parts of one rank, and the parts themselves, are determined. -/
theorem eq_of_append_flatMap {f : β → List Mark} (hf : Function.Injective f)
    (hopens : ∀ b, Opens k (f b)) {bs bs' : List β} (hms : Below k ms) (hms' : Below k ms')
    (h : ms ++ bs.flatMap f = ms' ++ bs'.flatMap f) : ms = ms' ∧ bs = bs' := by
  apply Splitting.eq_of_append_flatMap (q := fun m ↦ m.rank = k) hf ?_ ?_ ?_ h
  · intro b
    obtain ⟨m, ms, hb, hrank, hbelow⟩ := hopens b
    exact ⟨m, ms, hb, hrank, fun m' hm' ↦ (hbelow m' hm').ne⟩
  · exact fun m hm ↦ (hms m hm).ne
  · exact fun m hm ↦ (hms' m hm).ne

/-! ## Marks determine a shape -/

theorem annotations_injective : Function.Injective annotations := List.replicate_left_injective _

theorem ofParameter_injective (d : Direction) : Function.Injective (ofParameter d) := by
  intro n n' h
  exact annotations_injective (List.cons.inj h).2

theorem opens_ofParameter (d : Direction) (n : Nat) :
    Opens (Mark.parameter d).rank (ofParameter d n) := by
  refine ⟨_, _, rfl, rfl, below_annotations ?_⟩
  cases d <;> decide

theorem below_inputs (n : Nat) (ns : List Nat) :
    Below 2 (annotations n ++ ns.flatMap (ofParameter .input)) :=
  .append (below_annotations (by decide)) (below_flatMap (opens_ofParameter .input))

theorem ofCall_injective : Function.Injective ofCall := by
  rintro ⟨n, inputs, outputs⟩ ⟨n', inputs', outputs'⟩ h
  -- No mark of a call outranks those of its outputs, so these are cut off first.
  obtain ⟨hbefore, rfl⟩ := eq_of_append_flatMap (ofParameter_injective .output)
    (opens_ofParameter .output) (below_inputs n inputs) (below_inputs n' inputs')
    (List.cons.inj h).2
  obtain ⟨hn, rfl⟩ := eq_of_append_flatMap (ofParameter_injective .input)
    (opens_ofParameter .input) (below_annotations (by decide)) (below_annotations (by decide))
    hbefore
  obtain rfl := annotations_injective hn
  rfl

theorem opens_ofCall (c : CallShape) : Opens 3 (ofCall c) := by
  refine ⟨_, _, rfl, rfl, .append ?_ ?_⟩
  · exact (below_inputs _ _).mono (by decide)
  · exact below_flatMap (opens_ofParameter .output)

theorem ofBatch_injective : Function.Injective ofBatch := by
  rintro ⟨chain, n, calls⟩ ⟨chain', n', calls'⟩ h
  obtain ⟨hchain, htail⟩ := List.cons.inj h
  obtain ⟨hn, rfl⟩ := eq_of_append_flatMap ofCall_injective opens_ofCall
    (below_annotations (by decide)) (below_annotations (by decide)) htail
  obtain rfl := annotations_injective hn
  have hdigits := Json.toDigits_injective (Mark.batch.inj hchain)
  obtain rfl := UInt64.toNat_inj.1 hdigits
  rfl

theorem opens_ofBatch (b : BatchShape) : Opens 4 (ofBatch b) :=
  ⟨_, _, rfl, rfl, .append (below_annotations (by decide)) (below_flatMap opens_ofCall)⟩

theorem ofProposal_injective : Function.Injective ofProposal := by
  rintro ⟨n, batches⟩ ⟨n', batches'⟩ h
  obtain ⟨hn, rfl⟩ := eq_of_append_flatMap ofBatch_injective opens_ofBatch
    (below_annotations (by decide)) (below_annotations (by decide)) h
  obtain rfl := annotations_injective hn
  rfl

end Mark

end Timelock.Renderer
