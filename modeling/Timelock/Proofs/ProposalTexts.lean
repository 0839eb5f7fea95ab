import Timelock.Proofs.ProposalForms

/-!
# Reading printed proposals

A proposal whose free values hold no doubles is read back from its text as it was printed, and then
checked.  The same holds of every other way to lay its fields out.
-/

namespace Timelock

open Json

namespace Proposal

/-! ## Well-formed proposals -/

theorem firstEmptyBatch?_eq_none_iff {k : Nat} {xs : List Batch} :
    firstEmptyBatch? k xs = none ↔ ∀ x ∈ xs, x.transactions ≠ [] := by
  induction xs generalizing k with
  | nil => simp [firstEmptyBatch?]
  | cons x xs ih =>
      rw [firstEmptyBatch?, List.forall_mem_cons]
      split <;> simp_all

/-- The first empty batch stands at the index, on the chain. -/
def FirstEmpty (xs : List Batch) (i : Nat) (c : UInt64) : Prop :=
  ∃ x, xs[i]? = some x ∧ x.transactions = [] ∧ x.chainSelector = c ∧
    ∀ j < i, ∀ y, xs[j]? = some y → y.transactions ≠ []

theorem firstEmpty_cons_of_eq {x : Batch} {xs : List Batch} (hx : x.transactions = []) {i : Nat}
    {c : UInt64} : FirstEmpty (x :: xs) i c ↔ i = 0 ∧ c = x.chainSelector := by
  constructor
  · rintro ⟨y, hy, -, rfl, hbefore⟩
    cases i with
    | zero => simp_all
    | succ i => exact absurd hx (hbefore 0 (by omega) x rfl)
  · rintro ⟨rfl, rfl⟩
    exact ⟨x, rfl, hx, rfl, fun j hj ↦ absurd hj (Nat.not_lt_zero j)⟩

theorem firstEmpty_cons_of_ne {x : Batch} {xs : List Batch} (hx : x.transactions ≠ []) {i : Nat}
    {c : UInt64} : FirstEmpty (x :: xs) i c ↔ ∃ j, i = j + 1 ∧ FirstEmpty xs j c := by
  constructor
  · rintro ⟨y, hy, hempty, rfl, hbefore⟩
    cases i with
    | zero => simp_all
    | succ i => exact ⟨i, rfl, y, hy, hempty, rfl, fun j hj ↦ hbefore (j + 1) (by omega)⟩
  · rintro ⟨i, rfl, y, hy, hempty, rfl, hbefore⟩
    refine ⟨y, hy, hempty, rfl, fun j hj z hz ↦ ?_⟩
    cases j with
    | zero => simp_all
    | succ j => exact hbefore j (by omega) z hz

theorem firstEmptyBatch?_eq_some_iff {k : Nat} {xs : List Batch} {e : ProposalError} :
    firstEmptyBatch? k xs = some e ↔ ∃ i c, e = .emptyBatch (k + i) c ∧ FirstEmpty xs i c := by
  induction xs generalizing k with
  | nil => simp [firstEmptyBatch?, FirstEmpty]
  | cons x xs ih =>
      by_cases hx : x.transactions = []
      · simp [firstEmptyBatch?, hx, firstEmpty_cons_of_eq hx, eq_comm]
      · simp only [firstEmptyBatch?, List.isEmpty_iff, hx, if_false, ih, firstEmpty_cons_of_ne hx]
        constructor
        · rintro ⟨i, c, rfl, h⟩
          exact ⟨i + 1, c, by rw [Nat.add_assoc, Nat.add_comm 1], i, rfl, h⟩
        · rintro ⟨_, c, rfl, i, rfl, h⟩
          exact ⟨i, c, by rw [Nat.add_assoc, Nat.add_comm 1], h⟩

theorem validate_eq_ok_iff {p : Proposal} :
    p.validate = .ok () ↔ p.operations ≠ [] ∧ ∀ x ∈ p.operations, x.transactions ≠ [] := by
  rw [← firstEmptyBatch?_eq_none_iff (k := 0)]
  simp only [validate]
  split <;> [simp_all; split <;> simp_all]

theorem validate_eq_noOperations_iff {p : Proposal} :
    p.validate = .error .noOperations ↔ p.operations = [] := by
  simp only [validate]
  split
  next h => simpa using h
  next h =>
    split
    next hfirst =>
      obtain ⟨i, c, rfl, -⟩ := firstEmptyBatch?_eq_some_iff.1 hfirst
      simpa using h
    next => simpa using h

theorem validate_eq_emptyBatch_iff {p : Proposal} {i : Nat} {c : UInt64} :
    p.validate = .error (.emptyBatch i c) ↔ FirstEmpty p.operations i c := by
  have hsome : firstEmptyBatch? 0 p.operations = some (.emptyBatch i c) ↔
      FirstEmpty p.operations i c := by
    simp [firstEmptyBatch?_eq_some_iff]
  rw [← hsome]
  simp only [validate]
  split
  next h => simp_all [firstEmptyBatch?]
  next h => split <;> simp_all

/-! ## Printed proposals -/

/-- What reading a text of the proposal gives: the proposal when it is well formed, and otherwise
the reason why it is not. -/
structure ReadsAs (text : String) (p : Proposal) : Prop where
  /-- The text is never at fault. -/
  readable : ∀ problem, ofText text ≠ .error (.unreadable problem)
  valid : p.validate = .ok () → ofText text = .ok p
  refused : ∀ e, p.validate = .error e → ofText text = .error (.invalid e)
  wellFormed : p.validate = .ok () ↔
    p.operations ≠ [] ∧ ∀ x ∈ p.operations, x.transactions ≠ []
  noOperations : p.validate = .error .noOperations ↔ p.operations = []
  emptyBatch : ∀ i c, p.validate = .error (.emptyBatch i c) ↔ FirstEmpty p.operations i c

theorem readsAs_of_read {p : Proposal} {text : String}
    (hread : Decoder.text shape.decode text = .ok p) : ReadsAs text p := by
  refine ⟨fun problem ↦ ?_, fun h ↦ ?_, fun e h ↦ ?_, validate_eq_ok_iff,
    validate_eq_noOperations_iff, fun _ _ ↦ validate_eq_emptyBatch_iff⟩
  · cases h : p.validate <;> simp [ofText, hread, h]
  · simp only [ofText, hread, h]
  · simp only [ofText, hread, h]

theorem text_of_form {p : Proposal} {x : Source} {text : String} (hp : p.Floatless)
    (hd : p.toJson.depth ≤ Decoder.nesting) (hx : p.Form x) (ht : Spaced x.lexemes text.toList) :
    Decoder.text shape.decode text = .ok p := by
  simp only [Decoder.text, Document.ofText_of_spaced ht, Decoder.document, decode_of_form hp hd hx,
    Bind.bind, Except.bind]
  rfl

theorem readsAs_of_layout {p : Proposal} (hp : p.Floatless)
    (hd : p.toJson.depth ≤ Decoder.nesting) {text : String}
    (ht : Token.Layout p.toJson.tokens text.toList) : ReadsAs text p :=
  readsAs_of_read (text_of_form hp hd p.form_toJson (Source.spaced_of_layout ht))

/-- Proposals survive printing, in the compact form and in the pretty form. -/
theorem readsAs_printed {p : Proposal} (hp : p.Floatless) (hd : p.toJson.depth ≤ 127) :
    ReadsAs p.toJson.compact p ∧ ReadsAs p.toJson.pretty p :=
  ⟨readsAs_of_layout hp hd (Value.layout_compact _),
    readsAs_of_layout hp hd (Value.layout_pretty _)⟩

/-- The printed texts of a proposal are texts of its documents, and each text of each of its
documents is read as the proposal. -/
theorem forms_read_alike {p : Proposal} (hp : p.Floatless) (hd : p.toJson.depth ≤ 127) :
    (p.Form (.ofValue p.toJson) ∧
      Spaced (Source.ofValue p.toJson).lexemes p.toJson.compact.toList ∧
      Spaced (Source.ofValue p.toJson).lexemes p.toJson.pretty.toList) ∧
    ∀ x, p.Form x → ∀ text : String, Spaced x.lexemes text.toList →
      Decoder.text shape.decode text = .ok p ∧ ReadsAs text p := by
  refine ⟨⟨p.form_toJson, ?_, ?_⟩, fun x hx text ht ↦ ?_⟩
  · exact Source.spaced_of_layout (Value.layout_compact _)
  · exact Source.spaced_of_layout (Value.layout_pretty _)
  · have hread := text_of_form hp hd hx ht
    exact ⟨hread, readsAs_of_read hread⟩

end Proposal

namespace Grant

def limits : FreeValue :=
  .ofMembers [("range", .array [.number (.ofInt (-5)), .nat 18446744073709551615]),
    ("note", .string "\"1\"\n2")]

def transfer : Transaction :=
  { destination := "0xab", data := [0, 255], tags := ["pay"], additionalFields := limits }

def proposal : Proposal := { operations := [⟨18446744073709551615, [transfer]⟩] }

def unfinished : Proposal := { operations := [⟨1, [transfer]⟩, ⟨7, []⟩] }

theorem floatless_limits : limits.value.Floatless := by
  have hvalue : limits.value = .object [("note", .string "\"1\"\n2"),
      ("range", .array [.number (.integer (-5) (by decide)),
        .number (.integer 18446744073709551615 (by decide))])] := rfl
  rw [hvalue]
  refine .object fun m hm ↦ ?_
  simp only [List.mem_cons, List.not_mem_nil, or_false] at hm
  rcases hm with rfl | rfl
  · exact .string _
  · refine .array fun v hv ↦ ?_
    simp only [List.mem_cons, List.not_mem_nil, or_false] at hv
    rcases hv with rfl | rfl <;> exact .integer _ _

theorem floatless_of_transfers {p : Proposal}
    (h : ∀ x ∈ p.operations, ∀ t ∈ x.transactions, t = transfer) : p.Floatless :=
  fun x hx t ht ↦ h x hx t ht ▸ floatless_limits

/-- A proposal with bytes, the greatest selector and nested free values, and one with an empty
batch. -/
theorem proposal_readsAs :
    proposal.Floatless ∧ proposal.toJson.depth ≤ 127 ∧ unfinished.Floatless ∧
      unfinished.toJson.depth ≤ 127 ∧
      Proposal.ofText proposal.toJson.compact = .ok proposal ∧
      Proposal.ofText unfinished.toJson.pretty = .error (.invalid (.emptyBatch 1 7)) := by
  have hp : proposal.Floatless := floatless_of_transfers (by simp [proposal])
  have hu : unfinished.Floatless := floatless_of_transfers (by simp [unfinished])
  have hpd : proposal.toJson.depth ≤ 127 := by decide
  have hud : unfinished.toJson.depth ≤ 127 := by decide
  exact ⟨hp, hpd, hu, hud, (Proposal.readsAs_printed hp hpd).1.valid rfl,
    (Proposal.readsAs_printed hu hud).2.refused _ rfl⟩

open Token in
/-- A number that is too great for a double. -/
def huge : Numeral where
  chars := ['1', 'E', '9', '9', '9']
  wellFormed := by
    have hwhole : IsWhole ['1'] := .positive rfl (by simp) (by simp)
    have hexponent : IsExponent ('E' :: ([] ++ ['9', '9', '9'])) :=
      .marked (.inr rfl) (.inl rfl) (by simp) (by simp)
    exact .parts false hwhole .none hexponent

open Token in
/-- Half of a character. -/
def half : Literal where
  body := ['\\', 'u', 'd', '8', '0', '0']
  wellFormed := by
    have hcode : IsCode ['d', '8', '0', '0'] (((13 * 16 + 8) * 16 + 0) * 16 + 0) :=
      .digits rfl rfl rfl rfl
    exact .code hcode .nil

/-- The transaction as an array. -/
def strewnTransfer : Source := .array (List.ofFn fun i ↦ .ofValue (transfer.entry i))

/-- The batch with its fields in another order. -/
def strewnBatch : Source :=
  .object [
    (.ofString "transactions", .array [strewnTransfer]),
    (.ofString "chainSelector", .ofValue (.word 18446744073709551615))]

/-- The proposal without some of its defaults, and with members under other names. -/
def strewn : Source :=
  .object [
    (.ofString "note", .number huge),
    (.ofString "operations", .array [strewnBatch]),
    (.ofString "odd", .string half),
    (.ofString "version", .ofValue (.string "v1"))]

/-- What the document writes, from the first bracket to the last. -/
def strewnLexemes : List String :=
  ["\x7b", "\"note\"", ":", "1E999", ",", "\"operations\"", ":", "[",
    "\x7b", "\"transactions\"", ":", "[",
      "[", "\"0xab\"", ",", "\"0x00ff\"", ",", "\"\"", ",", "[", "\"pay\"", "]", ",",
        "\x7b", "\"note\"", ":", "\"\\\"1\\\"\\n2\"", ",",
          "\"range\"", ":", "[", "-5", ",", "18446744073709551615", "]", "\x7d", "]", "]", ",",
      "\"chainSelector\"", ":", "18446744073709551615", "\x7d", "]", ",",
    "\"odd\"", ":", "\"\\ud800\"", ",", "\"version\"", ":", "\"v1\"", "\x7d"]

def strewnText : String := String.ofList (strewnLexemes.flatMap fun l ↦ ' ' :: l.toList)

theorem lexemes_strewn : strewn.lexemes = strewnLexemes.map String.toList := by
  rfl

theorem spaced_strewn : Spaced strewn.lexemes strewnText.toList := by
  rw [strewnText, String.toList_ofList, ← List.flatMap_map String.toList (' ' :: ·),
    ← lexemes_strewn]
  exact spaced_apart strewn.lexemes

theorem form_strewnTransfer : transfer.Form strewnTransfer :=
  .array fun i ↦ (transfer.value_forms i _).2 rfl

theorem form_strewnBatch : Batch.Form ⟨18446744073709551615, [transfer]⟩ strewnBatch := by
  have htransactions : ListForm Transaction.Form [transfer] (.array [strewnTransfer]) :=
    .array (.cons form_strewnTransfer .nil)
  have hall : ∀ i : Fin 2, i ∈ [1, 0] := by decide
  have hshows : Shows (Batch.forms ⟨18446744073709551615, [transfer]⟩) [1, 0]
      [(.ofString "transactions", .array [strewnTransfer]),
        (.ofString "chainSelector", .ofValue (.word 18446744073709551615))] := by
    apply Shows.field 1 (Literal.writes_ofString _) htransactions
    exact .field 0 (Literal.writes_ofString _) (Eq.refl (Source.ofValue _)) .nil
  exact .object hshows (by decide) fun i hi ↦ absurd (hall i) hi

theorem form_strewn : proposal.Form strewn := by
  have hoperations : ListForm Batch.Form proposal.operations (.array [strewnBatch]) :=
    .array (.cons form_strewnBatch .nil)
  have homitted : ∀ i : Fin 5, i ∉ [4, 0] → (proposal.forms i).optional
    | 0, h | 4, h => absurd (by decide) h
    | 1, _ | 2, _ | 3, _ => rfl
  have hshows : Shows proposal.forms [4, 0] [(.ofString "note", .number huge),
      (.ofString "operations", .array [strewnBatch]), (.ofString "odd", .string half),
      (.ofString "version", .ofValue (.string "v1"))] := by
    apply Shows.unknown _ (Literal.writes_ofString _) (by decide)
    apply Shows.field 4 (Literal.writes_ofString _) hoperations
    apply Shows.unknown _ (Literal.writes_ofString _) (by decide)
    exact .field 0 (Literal.writes_ofString _) (Eq.refl (Source.ofValue _)) .nil
  exact .object hshows (by decide) homitted

theorem forms_read_alike_of_strewn : proposal.Floatless ∧ proposal.toJson.depth ≤ 127 ∧
    proposal.Form strewn ∧ Proposal.ofText strewnText = .ok proposal := by
  have hp : proposal.Floatless := floatless_of_transfers (by simp [proposal])
  have hd : proposal.toJson.depth ≤ 127 := by decide
  exact ⟨hp, hd, form_strewn,
    ((Proposal.forms_read_alike hp hd).2 strewn form_strewn strewnText spaced_strewn).2.valid rfl⟩

end Grant

end Timelock
