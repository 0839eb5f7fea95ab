import Mathlib.Data.List.FinRange
import Timelock.Proofs.Decoders

/-!
# Ways to write a record

A record can be written as an object, with its fields in any order, without some of those that hold
their default, and with members under other names among them.  It can also be written as the array
of all its fields.  All these documents are read alike.
-/

namespace Timelock.Json

/-- How a field of a record can be written. -/
structure FieldForm where
  name : String
  /-- The documents for the value of the field. -/
  value : Source → Prop
  /-- The field holds its default, so it may be left out. -/
  optional : Prop

namespace FieldForm

/-- A field with one document for its value, the one that is printed. -/
def printed (name : String) (v : Value) (optional : Prop) : FieldForm :=
  ⟨name, fun x ↦ x = .ofValue v, optional⟩

end FieldForm

/-- The members show the fields `is` in this order.  Whatever stands among them has a name that no
field has; a name is a text, so its surrogates are paired. -/
inductive Shows {k : Nat} (forms : Fin k → FieldForm) :
    List (Fin k) → List (Literal × Source) → Prop
  | nil : Shows forms [] []
  | field {is : List (Fin k)} {ms : List (Literal × Source)} {l : Literal} {x : Source}
      (i : Fin k) (named : l.Writes (forms i).name) (value : (forms i).value x)
      (rest : Shows forms is ms) : Shows forms (i :: is) ((l, x) :: ms)
  | unknown {is : List (Fin k)} {ms : List (Literal × Source)} {l : Literal} {name : String}
      (x : Source) (named : l.Writes name) (other : ∀ i, name ≠ (forms i).name)
      (rest : Shows forms is ms) : Shows forms is ((l, x) :: ms)

/-- The documents for a record. -/
inductive RecordForm {k : Nat} (forms : Fin k → FieldForm) : Source → Prop
  | object {is : List (Fin k)} {ms : List (Literal × Source)} (shows : Shows forms is ms)
      (nodup : is.Nodup) (omitted : ∀ i, i ∉ is → (forms i).optional) :
      RecordForm forms (.object ms)
  | array {xs : Fin k → Source} (values : ∀ i, (forms i).value (xs i)) :
      RecordForm forms (.array (List.ofFn xs))

/-- The documents for a list, item by item. -/
inductive ListForm {α : Type} (form : α → Source → Prop) (as : List α) : Source → Prop
  | array {xs : List Source} (items : List.Forall₂ form as xs) : ListForm form as (.array xs)

variable {α : Type} {b k : Nat}

theorem FieldForm.reads_printed {name : String} {v : Value} {optional : Prop} {d : Decoder α}
    {a : α} {x : Source} (hx : (printed name v optional).value x) (h : d b v.reading = .ok a) :
    d b x.tree = .ok a := by
  obtain rfl : x = .ofValue v := hx
  rwa [Source.tree_ofValue]

/-! ## Lists -/

theorem Decoder.list_of_listForm {d : Decoder α} {form : α → Source → Prop} {as : List α}
    {x : Source} (hx : ListForm form as x)
    (h : ∀ a ∈ as, ∀ y, form a y → d b y.tree = .ok a) : list d (b + 1) x.tree = .ok as := by
  cases hx with
  | @array xs hitems =>
      have hread : List.Forall₂ (fun a n ↦ d b n = .ok a) as (xs.map Source.tree) := by
        rw [List.forall₂_map_right_iff]
        apply ((List.forall₂_and_left as xs).2 ⟨fun a ha ↦ ha, hitems⟩).imp
        intro a y hy
        exact h a hy.1 y hy.2
      rw [Source.tree, Source.itemTrees_eq]
      simp only [list, enter, Bind.bind, Except.bind, items_ok hread]
      rfl

theorem ListForm.ofValue {form : α → Source → Prop} {f : α → Value} {as : List α}
    (h : ∀ a ∈ as, form a (.ofValue (f a))) : ListForm form as (.ofValue (.array (as.map f))) := by
  rw [Source.ofValue, Source.ofItems_eq, List.map_map]
  apply ListForm.array
  rw [List.forall₂_map_right_iff, List.forall₂_same]
  exact h

/-! ## Records -/

theorem Shows.of_printed {forms : Fin k → FieldForm} {entry : Fin k → Value}
    (h : ∀ i, (forms i).value (.ofValue (entry i))) (is : List (Fin k)) :
    Shows forms is (Source.ofMembers (is.map fun i ↦ ((forms i).name, entry i))) := by
  induction is with
  | nil => exact .nil
  | cons i is ih => exact .field i (Literal.writes_ofString _) (h i) ih

/-- A record that is printed with all its fields is one of its documents. -/
theorem RecordForm.ofValue {forms : Fin k → FieldForm} {entry : Fin k → Value}
    (h : ∀ i, (forms i).value (.ofValue (entry i))) :
    RecordForm forms
      (.ofValue (.object ((List.finRange k).map fun i ↦ ((forms i).name, entry i)))) :=
  .object (.of_printed h _) (List.nodup_finRange k) fun i hi ↦ absurd (List.mem_finRange i) hi

namespace Shape

variable {s : Shape α} {f : (i : Fin s.size) → s.Field i} {forms : Fin s.size → FieldForm}

/-- The fields of the record `f` are read from all their documents. -/
structure Accepts (s : Shape α) (b : Nat) (f : (i : Fin s.size) → s.Field i)
    (forms : Fin s.size → FieldForm) : Prop where
  names : ∀ i, s.indexOf? (forms i).name = some i
  reads : ∀ i x, (forms i).value x → s.decoder i b x.tree = .ok (f i)
  default_eq : ∀ i, (forms i).optional → s.default i = some (f i)

theorem indexOf?_eq_none {name : String} (h : s.Accepts b f forms)
    (hname : ∀ i, name ≠ (forms i).name) : s.indexOf? name = none := by
  cases hindex : s.indexOf? name with
  | none => rfl
  | some i =>
      have heq : ∀ m, s.indexOf? m = some i → s.name i = m := fun m hm ↦ by
        simpa using List.find?_some hm
      exact absurd ((heq _ hindex).symm.trans (heq _ (h.names i))) (hname i)

theorem Accepts.holds {is : List (Fin s.size)} {ms : List (Literal × Source)}
    (h : s.Accepts b f forms) (hms : Shows forms is ms) :
    Holds s b f is (ms.map fun m ↦ (m.1.key, m.2.tree)) := by
  induction hms with
  | nil => exact .nil
  | @field is ms l x i named value _ ih =>
      rw [List.map_cons, Literal.key_of_writes named]
      exact .field i (h.names i) (h.reads i x value) ih
  | @unknown is ms l name x named other _ ih =>
      rw [List.map_cons, Literal.key_of_writes named]
      exact .other (indexOf?_eq_none h other) (skip_tree x) ih

/-- The items of an array fill the slots one after another. -/
theorem items_ok {is : List (Fin s.size)} {ns : List Node}
    (h : List.Forall₂ (fun i n ↦ s.decoder i b n = .ok (f i)) is ns) (slots : s.Slots) :
    s.items b slots is ns = .ok (fun i ↦ if i ∈ is then some (f i) else slots i, []) := by
  induction h generalizing slots with
  | nil => simp [items]
  | @cons i n is ns hn _ ih =>
      simp only [items, hn, Bind.bind, Except.bind, ih, Except.ok.injEq, Prod.mk.injEq, and_true]
      funext j
      by_cases hij : i = j
      · subst hij
        simp [fill]
      · simp [fill, hij, Ne.symm hij]

theorem Accepts.decode_array {xs : Fin s.size → Source} (h : s.Accepts b f forms)
    (hxs : ∀ i, (forms i).value (xs i)) :
    s.decode (b + 1) (Source.array (List.ofFn xs)).tree = .ok (s.build f) := by
  have hread : List.Forall₂ (fun i n ↦ s.decoder i b n = .ok (f i)) (List.finRange s.size)
      ((List.ofFn xs).map Source.tree) := by
    rw [List.ofFn_eq_map, List.map_map, List.forall₂_map_right_iff, List.forall₂_same]
    exact fun i _ ↦ h.reads i (xs i) (hxs i)
  rw [Source.tree, Source.itemTrees_eq]
  simp only [decode, enter, Bind.bind, Except.bind, items_ok hread, Ending.check]
  exact complete_ok fun i ↦ .inl (if_pos (List.mem_finRange i))

/-- A record is read from each of its documents. -/
theorem Accepts.decode_of_recordForm {x : Source} (h : s.Accepts b f forms)
    (hx : RecordForm forms x) : s.decode (b + 1) x.tree = .ok (s.build f) := by
  cases hx with
  | @object is ms shows nodup omitted =>
      rw [Source.tree, Source.memberTrees_eq]
      apply decode_of_holds (h.holds shows) nodup
      intro i
      by_cases hi : i ∈ is
      · exact .inl hi
      · exact .inr (h.default_eq i (omitted i hi))
  | array values => exact h.decode_array values

end Shape

end Timelock.Json
