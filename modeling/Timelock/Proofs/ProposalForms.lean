import Timelock.Proofs.RecordForms
import Timelock.Proposal.Json

/-!
# Ways to write a proposal

A proposal, its batches and their transactions can each be written in any of the ways of a record.
However that is done, the proposal is read that they make up.
-/

namespace Timelock

open Json

variable {b : Nat} {x : Source}

namespace Action

theorem decoder_toJson (b : Nat) (a : Action) : decoder b a.toJson.reading = .ok a := by
  cases a <;> exact Decoder.choice_reading b rfl

end Action

namespace Transaction

def fields (t : Transaction) : (i : Fin 5) → shape.Field i
  | 0 => t.destination
  | 1 => t.data
  | 2 => t.contractType
  | 3 => t.tags
  | 4 => t.additionalFields

def entry (t : Transaction) : Fin 5 → Value
  | 0 => .string t.destination
  | 1 => .string (Hex.encode t.data)
  | 2 => .string t.contractType
  | 3 => .strings t.tags
  | 4 => t.additionalFields.value

theorem decoder_entry {t : Transaction} (ht : t.additionalFields.value.Floatless)
    (hb : t.toJson.depth ≤ b + 1) :
    ∀ i : Fin 5, shape.decoder i b (t.entry i).reading = .ok (t.fields i) := by
  obtain ⟨c, hbc, hc⟩ := Value.exists_of_depth_object_le hb
  obtain rfl : b = c := Nat.succ.inj hbc
  have htags := hc ("tags", .strings t.tags) (by simp)
  have hextra := hc ("additionalFields", t.additionalFields.value) (by simp)
  intro i
  match i with
  | 0 => exact Decoder.string_reading b t.destination
  | 1 => exact Decoder.hex_reading b t.data
  | 2 => exact Decoder.string_reading b t.contractType
  | 3 => exact Decoder.list_reading_self htags fun _ _ _ _ ↦ rfl
  | 4 => exact decodeFree_reading ht hextra

/-- Address and data must be written, the other fields only if they are not empty. -/
def forms (t : Transaction) : Fin 5 → FieldForm
  | 0 => .printed "to" (.string t.destination) False
  | 1 => .printed "data" (.string (Hex.encode t.data)) False
  | 2 => .printed "contractType" (.string t.contractType) (t.contractType = "")
  | 3 => .printed "tags" (.strings t.tags) (t.tags = [])
  | 4 => .printed "additionalFields" t.additionalFields.value (t.additionalFields = .null)

/-- The documents for a transaction. -/
def Form (t : Transaction) : Source → Prop := RecordForm t.forms

theorem value_forms (t : Transaction) :
    ∀ i x, (t.forms i).value x ↔ x = .ofValue (t.entry i)
  | 0, _ | 1, _ | 2, _ | 3, _ | 4, _ => Iff.rfl

theorem form_toJson (t : Transaction) : t.Form (.ofValue t.toJson) :=
  RecordForm.ofValue fun i ↦ (t.value_forms i _).2 rfl

theorem accepts {t : Transaction} (ht : t.additionalFields.value.Floatless)
    (hb : t.toJson.depth ≤ b + 1) : shape.Accepts b t.fields t.forms := by
  have hnames : ∀ i : Fin 5, shape.indexOf? (t.forms i).name = some i
    | 0 | 1 | 2 | 3 | 4 => rfl
  have hdefaults : ∀ i : Fin 5, (t.forms i).optional → shape.default i = some (t.fields i)
    | 0, h | 1, h => h.elim
    | 2, h | 3, h | 4, h => congrArg some h.symm
  refine ⟨hnames, fun i x hx ↦ ?_, hdefaults⟩
  rw [(t.value_forms i x).1 hx, Source.tree_ofValue]
  exact decoder_entry ht hb i

theorem decode_of_form {t : Transaction} (ht : t.additionalFields.value.Floatless)
    (hb : t.toJson.depth ≤ b) (hx : t.Form x) : shape.decode b x.tree = .ok t := by
  obtain ⟨c, rfl, _⟩ := Value.exists_of_depth_object_le hb
  exact (accepts ht hb).decode_of_recordForm hx

end Transaction

namespace Batch

def fields (x : Batch) : (i : Fin 2) → shape.Field i
  | 0 => x.chainSelector
  | 1 => x.transactions

def entry (x : Batch) : Fin 2 → Value
  | 0 => .word x.chainSelector
  | 1 => .array (x.transactions.map Transaction.toJson)

/-- Both fields must be written. -/
def forms (y : Batch) : Fin 2 → FieldForm
  | 0 => .printed "chainSelector" (.word y.chainSelector) False
  | 1 => ⟨"transactions", ListForm Transaction.Form y.transactions, False⟩

/-- The documents for a batch. -/
def Form (y : Batch) : Source → Prop := RecordForm y.forms

theorem form_toJson (y : Batch) : y.Form (.ofValue y.toJson) := by
  have hentry : ∀ i, (y.forms i).value (.ofValue (y.entry i))
    | 0 => rfl
    | 1 => .ofValue fun t _ ↦ t.form_toJson
  exact RecordForm.ofValue hentry

theorem accepts {y : Batch} (hy : ∀ t ∈ y.transactions, t.additionalFields.value.Floatless)
    (hb : y.toJson.depth ≤ b + 1) : shape.Accepts b y.fields y.forms := by
  obtain ⟨c, hbc, hc⟩ := Value.exists_of_depth_object_le hb
  obtain rfl : b = c := Nat.succ.inj hbc
  have hdepth := hc ("transactions", .array (y.transactions.map Transaction.toJson)) (by simp)
  obtain ⟨d, rfl, hd⟩ := Value.exists_of_depth_array_le hdepth
  have hnames : ∀ i : Fin 2, shape.indexOf? (y.forms i).name = some i
    | 0 | 1 => rfl
  have hdefaults : ∀ i : Fin 2, (y.forms i).optional → shape.default i = some (y.fields i)
    | 0, h | 1, h => h.elim
  have hselector := Decoder.word_reading (d + 1) y.chainSelector
  have htransactions : ∀ x, ListForm Transaction.Form y.transactions x →
      Decoder.list Transaction.shape.decode (d + 1) x.tree = .ok y.transactions := fun x hx ↦
    Decoder.list_of_listForm hx fun t ht z hz ↦
      Transaction.decode_of_form (hy t ht) (hd _ (List.mem_map_of_mem ht)) hz
  have hreads : ∀ (i : Fin 2) x, (y.forms i).value x →
      shape.decoder i (d + 1) x.tree = .ok (y.fields i)
    | 0, _, hx => FieldForm.reads_printed hx hselector
    | 1, x, hx => htransactions x hx
  exact ⟨hnames, hreads, hdefaults⟩

theorem decode_of_form {y : Batch} (hy : ∀ t ∈ y.transactions, t.additionalFields.value.Floatless)
    (hb : y.toJson.depth ≤ b) (hx : y.Form x) : shape.decode b x.tree = .ok y := by
  obtain ⟨c, rfl, _⟩ := Value.exists_of_depth_object_le hb
  exact (accepts hy hb).decode_of_recordForm hx

end Batch

namespace Proposal

/-- No transaction's additional fields hold a double. -/
def Floatless (p : Proposal) : Prop :=
  ∀ x ∈ p.operations, ∀ t ∈ x.transactions, t.additionalFields.value.Floatless

def fields (p : Proposal) : (i : Fin 5) → shape.Field i
  | 0 => p.version
  | 1 => p.description
  | 2 => p.action
  | 3 => p.delaySeconds
  | 4 => p.operations

def entry (p : Proposal) : Fin 5 → Value
  | 0 => .string p.version
  | 1 => .string p.description
  | 2 => p.action.toJson
  | 3 => .word p.delaySeconds
  | 4 => .array (p.operations.map Batch.toJson)

/-- Only the operations must be written. -/
def forms (p : Proposal) : Fin 5 → FieldForm
  | 0 => .printed "version" (.string p.version) (p.version = "v1")
  | 1 => .printed "description" (.string p.description) (p.description = "")
  | 2 => .printed "action" p.action.toJson (p.action = .schedule)
  | 3 => .printed "delaySeconds" (.word p.delaySeconds) (p.delaySeconds = 0)
  | 4 => ⟨"operations", ListForm Batch.Form p.operations, False⟩

/-- The documents for a proposal. -/
def Form (p : Proposal) : Source → Prop := RecordForm p.forms

theorem form_toJson (p : Proposal) : p.Form (.ofValue p.toJson) := by
  have hentry : ∀ i, (p.forms i).value (.ofValue (p.entry i))
    | 0 | 1 | 2 | 3 => rfl
    | 4 => .ofValue fun y _ ↦ y.form_toJson
  exact RecordForm.ofValue hentry

theorem accepts {p : Proposal} (hp : p.Floatless) (hb : p.toJson.depth ≤ b + 1) :
    shape.Accepts b p.fields p.forms := by
  obtain ⟨c, hbc, hc⟩ := Value.exists_of_depth_object_le hb
  obtain rfl : b = c := Nat.succ.inj hbc
  have hdepth := hc ("operations", .array (p.operations.map Batch.toJson)) (by simp)
  obtain ⟨d, rfl, hd⟩ := Value.exists_of_depth_array_le hdepth
  have hnames : ∀ i : Fin 5, shape.indexOf? (p.forms i).name = some i
    | 0 | 1 | 2 | 3 | 4 => rfl
  have hdefaults : ∀ i : Fin 5, (p.forms i).optional → shape.default i = some (p.fields i)
    | 0, h | 1, h | 2, h | 3, h => congrArg some h.symm
    | 4, h => h.elim
  have hversion := Decoder.string_reading (d + 1) p.version
  have hdescription := Decoder.string_reading (d + 1) p.description
  have haction := Action.decoder_toJson (d + 1) p.action
  have hdelay := Decoder.word_reading (d + 1) p.delaySeconds
  have hoperations : ∀ x, ListForm Batch.Form p.operations x →
      Decoder.list Batch.shape.decode (d + 1) x.tree = .ok p.operations := fun x hx ↦
    Decoder.list_of_listForm hx fun y hy z hz ↦
      Batch.decode_of_form (hp y hy) (hd _ (List.mem_map_of_mem hy)) hz
  have hreads : ∀ (i : Fin 5) x, (p.forms i).value x →
      shape.decoder i (d + 1) x.tree = .ok (p.fields i)
    | 0, _, hx => FieldForm.reads_printed hx hversion
    | 1, _, hx => FieldForm.reads_printed hx hdescription
    | 2, _, hx => FieldForm.reads_printed hx haction
    | 3, _, hx => FieldForm.reads_printed hx hdelay
    | 4, x, hx => hoperations x hx
  exact ⟨hnames, hreads, hdefaults⟩

theorem decode_of_form {p : Proposal} (hp : p.Floatless) (hb : p.toJson.depth ≤ b)
    (hx : p.Form x) : shape.decode b x.tree = .ok p := by
  obtain ⟨c, rfl, _⟩ := Value.exists_of_depth_object_le hb
  exact (accepts hp hb).decode_of_recordForm hx

end Proposal

end Timelock
