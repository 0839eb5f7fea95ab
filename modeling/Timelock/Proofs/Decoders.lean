import Mathlib.Order.Fin.Basic
import Timelock.Json.Record
import Timelock.Proofs.HexTexts
import Timelock.Proofs.Sources

/-!
# What decoders read

Each decoder undoes the printing of what it decodes, as long as it may open as many containers
inside one another as the printed value has.  A record is read from its fields in any order; fields
that hold their default may be left out, and members with other names do not matter.
-/

namespace Timelock

/-! ## Tables -/

namespace Table

variable {α : Type}

theorem putEntry_of_forall_lt {k : String} (v : α) {es : List (String × α)}
    (h : ∀ e ∈ es, e.1 < k) : putEntry k v es = es ++ [(k, v)] := by
  induction es with
  | nil => rfl
  | cons e es ih =>
      rw [List.forall_mem_cons] at h
      have hlt : ¬ k < e.1 := fun hk ↦ String.lt_irrefl k (String.lt_trans hk h.1)
      rw [putEntry, if_neg hlt, if_pos h.1, ih h.2, List.cons_append]

theorem entries_foldl_put (t : Table α) {es : List (String × α)}
    (h : (t.entries ++ es).Pairwise (fun a b ↦ a.1 < b.1)) :
    (es.foldl (fun t e ↦ t.put e.1 e.2) t).entries = t.entries ++ es := by
  induction es generalizing t with
  | nil => simp
  | cons e es ih =>
      have hput : (t.put e.1 e.2).entries = t.entries ++ [e] :=
        putEntry_of_forall_lt e.2 fun x hx ↦ (List.pairwise_append.1 h).2.2 x hx e (by simp)
      rw [List.foldl_cons, ih _ (by simpa [hput] using h), hput]
      simp

/-- Ascending entries are kept as they are. -/
theorem entries_ofList {es : List (String × α)} (h : es.Pairwise (fun a b ↦ a.1 < b.1)) :
    (ofList es).entries = es :=
  entries_foldl_put empty h

end Table

namespace Json

/-! ## Nesting -/

namespace Value

mutual

/-- The number of arrays and objects inside one another. -/
def depth : Value → Nat
  | .null | .bool _ | .number _ | .string _ => 0
  | .array vs => itemsDepth vs + 1
  | .object ms => membersDepth ms + 1

def itemsDepth : List Value → Nat
  | [] => 0
  | v :: vs => max v.depth (itemsDepth vs)

def membersDepth : List (String × Value) → Nat
  | [] => 0
  | (_, v) :: ms => max v.depth (membersDepth ms)

end

variable {b : Nat}

theorem itemsDepth_le_iff {vs : List Value} : itemsDepth vs ≤ b ↔ ∀ v ∈ vs, v.depth ≤ b := by
  induction vs with
  | nil => simp [itemsDepth]
  | cons v vs ih => rw [itemsDepth, Nat.max_le, ih, List.forall_mem_cons]

theorem membersDepth_le_iff {ms : List (String × Value)} :
    membersDepth ms ≤ b ↔ ∀ m ∈ ms, m.2.depth ≤ b := by
  induction ms with
  | nil => simp [membersDepth]
  | cons m ms ih => rw [membersDepth, Nat.max_le, ih, List.forall_mem_cons]

theorem exists_of_depth_array_le {vs : List Value} (h : (array vs).depth ≤ b) :
    ∃ c, b = c + 1 ∧ ∀ v ∈ vs, v.depth ≤ c := by
  rw [depth] at h
  exact ⟨b - 1, by omega, itemsDepth_le_iff.1 (by omega)⟩

theorem exists_of_depth_object_le {ms : List (String × Value)} (h : (object ms).depth ≤ b) :
    ∃ c, b = c + 1 ∧ ∀ m ∈ ms, m.2.depth ≤ c := by
  rw [depth] at h
  exact ⟨b - 1, by omega, membersDepth_le_iff.1 (by omega)⟩

end Value

/-! ## Free values and skipped values -/

variable {α : Type} {b : Nat}

theorem decodeFreeItems_nodes {vs : List Value}
    (h : ∀ v ∈ vs, ∃ w, decodeFree b v.node = .ok w ∧ w.value = v) :
    ∃ ws, decodeFreeItems b (vs.map Value.node) = .ok ws ∧ ws.map FreeValue.value = vs := by
  induction vs with
  | nil => exact ⟨[], rfl, rfl⟩
  | cons v vs ih =>
      rw [List.forall_mem_cons] at h
      obtain ⟨⟨w, hw, rfl⟩, hvs⟩ := h
      obtain ⟨ws, hws, rfl⟩ := ih hvs
      exact ⟨w :: ws, by simp only [List.map_cons, decodeFreeItems, hw, hws]; rfl, rfl⟩

theorem decodeFreeMembers_nodes {ms : List (String × Value)}
    (h : ∀ m ∈ ms, ∃ w, decodeFree b m.2.node = .ok w ∧ w.value = m.2) :
    ∃ ws, decodeFreeMembers b (ms.map fun m ↦ (.name m.1, m.2.node)) = .ok ws ∧
      ws.map (fun e ↦ (e.1, e.2.value)) = ms := by
  induction ms with
  | nil => exact ⟨[], rfl, rfl⟩
  | cons m ms ih =>
      rw [List.forall_mem_cons] at h
      obtain ⟨⟨w, hw, hwm⟩, hms⟩ := h
      obtain ⟨ws, hws, rfl⟩ := ih hms
      refine ⟨(m.1, w) :: ws, ?_, by simp [hwm]⟩
      simp only [List.map_cons, decodeFreeMembers, Key.text, hw, hws]
      rfl

theorem FreeValue.value_ofMembers {ms : List (String × FreeValue)}
    (h : (ms.map fun e ↦ (e.1, e.2.value)).Pairwise (fun a b ↦ a.1 < b.1)) :
    (ofMembers ms).value = .object (ms.map fun e ↦ (e.1, e.2.value)) := by
  rw [List.pairwise_map] at h
  simp only [ofMembers, object, Table.entries_ofList h]

theorem exists_decodeFree_node {v : Value} (hv : v.Canonical) (hb : v.depth ≤ b) :
    ∃ w, decodeFree b v.node = .ok w ∧ w.value = v := by
  induction hv generalizing b with
  | null => exact ⟨.null, rfl, rfl⟩
  | bool c => exact ⟨.bool c, rfl, rfl⟩
  | number n => exact ⟨.number n, rfl, rfl⟩
  | string s => exact ⟨.string s, rfl, rfl⟩
  | array _ ih =>
      obtain ⟨c, rfl, hc⟩ := Value.exists_of_depth_array_le hb
      obtain ⟨ws, hws, rfl⟩ := decodeFreeItems_nodes fun v hv ↦ ih v hv (hc v hv)
      refine ⟨.array ws, ?_, rfl⟩
      simp only [Value.node, Value.itemNodes_eq, decodeFree, enter, Bind.bind, Except.bind, hws]
      rfl
  | object _ ascending ih =>
      obtain ⟨c, rfl, hc⟩ := Value.exists_of_depth_object_le hb
      obtain ⟨ws, hws, rfl⟩ := decodeFreeMembers_nodes fun m hm ↦ ih m hm (hc m hm)
      refine ⟨.ofMembers ws, ?_, FreeValue.value_ofMembers ascending⟩
      simp only [Value.node, Value.memberNodes_eq, decodeFree, enter, Bind.bind, Except.bind, hws]
      rfl

theorem decodeFree_reading {v : FreeValue} (hv : v.value.Floatless) (hb : v.value.depth ≤ b) :
    decodeFree b v.value.reading = .ok v := by
  obtain ⟨w, hw, hwv⟩ := exists_decodeFree_node v.canonical hb
  have heq : w = v := by cases v; cases w; cases hwv; rfl
  rw [Value.reading_of_floatless hv, hw, heq]

theorem skipItems_ok {ns : List Node} (h : ∀ n ∈ ns, n.skip = .ok ()) :
    Node.skipItems ns = .ok () := by
  induction ns with
  | nil => rfl
  | cons n ns ih =>
      rw [List.forall_mem_cons] at h
      rw [Node.skipItems, h.1]
      exact ih h.2

/-- A name is skipped even when a surrogate in it is unpaired. -/
theorem skipMembers_ok {ms : List (Literal × Source)} (h : ∀ m ∈ ms, m.2.tree.skip = .ok ()) :
    Node.skipMembers (ms.map fun m ↦ (m.1.key, m.2.tree)) = .ok () := by
  induction ms with
  | nil => rfl
  | cons m ms ih =>
      rw [List.forall_mem_cons] at h
      have hkey : m.1.key = .unpaired ∨ ∃ s, m.1.key = .name s := by
        rw [Literal.key]
        cases m.1.value <;> simp
      rcases hkey with hkey | ⟨s, hkey⟩
      · rw [List.map_cons, hkey, Node.skipMembers, h.1]
        · exact ih h.2
        · simp
      · rw [List.map_cons, hkey, Node.skipMembers, h.1]
        · exact ih h.2
        · simp

/-- Any well-formed document is skipped, however deep it is. -/
theorem skip_tree (x : Source) : x.tree.skip = .ok () := by
  induction x using Source.induction with
  | null | bool | number | string => rfl
  | array xs ih =>
      have hitems : Node.skipItems (xs.map Source.tree) = .ok () :=
        skipItems_ok (by simpa using ih)
      rw [Source.tree, Source.itemTrees_eq, Node.skip, hitems]
      rfl
  | object ms ih =>
      rw [Source.tree, Source.memberTrees_eq, Node.skip, skipMembers_ok ih]
      rfl

theorem skip_reading (v : Value) : v.reading.skip = .ok () :=
  Source.tree_ofValue v ▸ skip_tree (.ofValue v)

/-! ## Simple decoders -/

namespace Decoder

theorem string_reading (b : Nat) (s : String) : string b (Value.string s).reading = .ok s := rfl

theorem word_reading (b : Nat) (n : UInt64) : word b (Value.word n).reading = .ok n := by
  have hn : ¬ (n.toNat : Int) < 0 := by omega
  simp only [Value.word, Number.ofWord, Value.reading, Number.reading_integer, word, if_neg hn,
    Int.toNat_natCast, UInt64.ofNat_toNat]

theorem hex_reading (b : Nat) (bytes : List UInt8) :
    hex b (Value.string (Hex.encode bytes)).reading = .ok bytes := by
  simp only [hex, string_reading, Bind.bind, Except.bind, Hex.decode_encode]
  rfl

theorem items_ok {d : Decoder α} {ns : List Node} {as : List α}
    (h : List.Forall₂ (fun a n ↦ d b n = .ok a) as ns) : items d b ns = .ok as := by
  induction h with
  | nil => rfl
  | cons ha _ ih =>
      rw [items, ha, ih]
      rfl

theorem items_map {β : Type} {d : Decoder α} {f : β → Value} {g : β → α} {xs : List β}
    (h : ∀ x ∈ xs, d b (f x).reading = .ok (g x)) :
    items d b ((xs.map f).map Value.reading) = .ok (xs.map g) := by
  apply items_ok
  rw [List.map_map, List.forall₂_map_left_iff, List.forall₂_map_right_iff, List.forall₂_same]
  exact h

/-- A list is read item by item.  The items may print deeper than what is read of them: `k` prints
as much of an item as the decoder enters. -/
theorem list_reading {β : Type} {d : Decoder α} {f k : β → Value} {g : β → α} {xs : List β}
    (hb : (Value.array (xs.map k)).depth ≤ b)
    (h : ∀ x ∈ xs, ∀ c, (k x).depth ≤ c → d c (f x).reading = .ok (g x)) :
    list d b (Value.array (xs.map f)).reading = .ok (xs.map g) := by
  obtain ⟨c, rfl, hc⟩ := Value.exists_of_depth_array_le hb
  have hitems := items_map fun x hx ↦ h x hx c (hc _ (List.mem_map_of_mem hx))
  simp only [Value.reading, Value.itemReadings_eq, list, enter, Bind.bind, Except.bind, hitems]
  rfl

theorem list_reading_self {d : Decoder α} {f : α → Value} {xs : List α}
    (hb : (Value.array (xs.map f)).depth ≤ b)
    (h : ∀ x ∈ xs, ∀ c, (f x).depth ≤ c → d c (f x).reading = .ok x) :
    list d b (Value.array (xs.map f)).reading = .ok xs := by
  rw [list_reading (g := id) hb h, List.map_id]

theorem choice_reading (b : Nat) {known : List (String × α)} {s : String} {a : α}
    (h : known.lookup s = some a) : choice known b (Value.string s).reading = .ok a := by
  simp only [Value.reading, choice, named, h]

/-- Spaces between the tokens of a printed value do not matter. -/
theorem text_of_layout {d : Decoder α} {v : Value} {a : α} {s : String}
    (hs : Token.Layout v.tokens s.toList) (hv : d nesting v.reading = .ok a) :
    text d s = .ok a := by
  simp only [text, Document.ofText_of_layout hs, document, hv, Bind.bind, Except.bind]
  rfl

end Decoder

/-! ## Records -/

namespace Shape

variable {s : Shape α} {f : (i : Fin s.size) → s.Field i}

/-- The members of an object hold fields `is` of the record `f`, and perhaps something that is
skipped under other names. -/
inductive Holds (s : Shape α) (b : Nat) (f : (i : Fin s.size) → s.Field i) :
    List (Fin s.size) → List (Key × Node) → Prop
  | nil : Holds s b f [] []
  | field {name : String} {n : Node} {is : List (Fin s.size)} {ms : List (Key × Node)}
      (i : Fin s.size) (named : s.indexOf? name = some i) (reads : s.decoder i b n = .ok (f i))
      (rest : Holds s b f is ms) :
      Holds s b f (i :: is) ((.name name, n) :: ms)
  | other {name : String} {n : Node} {is : List (Fin s.size)} {ms : List (Key × Node)}
      (unknown : s.indexOf? name = none) (skipped : n.skip = .ok ()) (rest : Holds s b f is ms) :
      Holds s b f is ((.name name, n) :: ms)

namespace Holds

theorem append {is js : List (Fin s.size)} {ms ns : List (Key × Node)} (h : Holds s b f is ms)
    (h' : Holds s b f js ns) : Holds s b f (is ++ js) (ms ++ ns) := by
  induction h with
  | nil => exact h'
  | field i named reads _ ih => exact .field i named reads ih
  | other unknown skipped _ ih => exact .other unknown skipped ih

/-- Some of the fields, printed in some order. -/
theorem of_entries (hnames : ∀ i, s.indexOf? (s.name i) = some i) {entry : Fin s.size → Value}
    (h : ∀ i, s.decoder i b (entry i).reading = .ok (f i)) (is : List (Fin s.size)) :
    Holds s b f is (Value.memberReadings (is.map fun i ↦ (s.name i, entry i))) := by
  induction is with
  | nil => exact .nil
  | cons i is ih => exact .field i (hnames i) (h i) ih

theorem of_unknown {ms : List (String × Value)} (h : ∀ m ∈ ms, s.indexOf? m.1 = none) :
    Holds s b f [] (Value.memberReadings ms) := by
  induction ms with
  | nil => exact .nil
  | cons m ms ih =>
      rw [List.forall_mem_cons] at h
      exact .other h.1 (skip_reading m.2) (ih h.2)

end Holds

theorem collect_ok {ε : Type} {n : Nat} {Field : Fin n → Type}
    {read : (i : Fin n) → Except ε (Field i)} {g : (i : Fin n) → Field i}
    (h : ∀ i, read i = .ok (g i)) : collect n Field read = .ok g := by
  induction n with
  | zero => exact congrArg Except.ok (funext fun i ↦ i.elim0)
  | succ n ih =>
      simp only [collect, h 0, ih fun i ↦ h i.succ, Bind.bind, Except.bind]
      refine congrArg Except.ok (funext fun i ↦ ?_)
      cases i using Fin.cases <;> rfl

theorem complete_ok {slots : s.Slots} {missing : Fin s.size → Mismatch}
    (h : ∀ i, slots i = some (f i) ∨ slots i = none ∧ s.default i = some (f i)) :
    s.complete slots missing = .ok (s.build f) := by
  simp only [complete, Bind.bind, Except.bind]
  rw [collect_ok fun i ↦ ?_]
  · rfl
  · rcases h i with hi | ⟨hi, hdefault⟩
    · simp only [hi]
    · simp only [hi, hdefault]

theorem members_of_holds {is : List (Fin s.size)} {ms : List (Key × Node)}
    (h : Holds s b f is ms) (hnodup : is.Nodup) (slots : s.Slots)
    (hslots : ∀ i ∈ is, slots i = none) :
    s.members b slots ms = .ok fun i ↦ if i ∈ is then some (f i) else slots i := by
  induction h generalizing slots with
  | nil => simp [members]
  | @field name n is ms i named reads rest ih =>
      rw [List.nodup_cons] at hnodup
      rw [List.forall_mem_cons] at hslots
      -- The slots of the fields behind this one stay empty, so none of them is a duplicate.
      have hfill : ∀ j ∈ is, s.fill slots i (f i) j = none := fun j hj ↦ by
        have hij : i ≠ j := fun hij ↦ hnodup.1 (hij ▸ hj)
        rw [fill, dif_neg hij, hslots.2 j hj]
      simp only [members, Key.text, named, hslots.1, Bind.bind, Except.bind, Option.isSome_none,
        reads, ih hnodup.2 _ hfill]
      refine congrArg Except.ok (funext fun j ↦ ?_)
      by_cases hij : i = j
      · subst hij
        simp [fill, hnodup.1]
      · simp [fill, hij, Ne.symm hij]
  | other unknown skipped rest ih =>
      simp only [members, Key.text, unknown, skipped, Bind.bind, Except.bind, ih hnodup _ hslots]

/-- A record is read from an object that holds all fields without a default. -/
theorem decode_of_holds {is : List (Fin s.size)} {ms : List (Key × Node)} (h : Holds s b f is ms)
    (hnodup : is.Nodup) (hall : ∀ i, i ∈ is ∨ s.default i = some (f i)) :
    s.decode (b + 1) (.object ms .closed) = .ok (s.build f) := by
  simp only [decode, enter, Bind.bind, Except.bind,
    members_of_holds h hnodup s.noSlots fun _ _ ↦ rfl, Ending.check]
  refine complete_ok fun i ↦ ?_
  by_cases hi : i ∈ is
  · exact .inl (if_pos hi)
  · exact .inr ⟨if_neg hi, (hall i).resolve_left hi⟩

/-- A record is read from its fields in any order, with other members behind them. -/
theorem decode_entries (hnames : ∀ i, s.indexOf? (s.name i) = some i) {entry : Fin s.size → Value}
    (h : ∀ i, s.decoder i b (entry i).reading = .ok (f i)) (is : List (Fin s.size))
    (hnodup : is.Nodup) (hall : ∀ i, i ∈ is ∨ s.default i = some (f i))
    (ms : List (String × Value)) (hms : ∀ m ∈ ms, s.indexOf? m.1 = none) :
    s.decode (b + 1) (Value.object (is.map (fun i ↦ (s.name i, entry i)) ++ ms)).reading =
      .ok (s.build f) := by
  have hholds := (Holds.of_entries hnames h is).append (.of_unknown hms)
  rw [← Value.memberReadings_append, List.append_nil] at hholds
  exact decode_of_holds hholds hnodup hall

theorem decode_declared (hnames : ∀ i, s.indexOf? (s.name i) = some i)
    {entry : Fin s.size → Value} (h : ∀ i, s.decoder i b (entry i).reading = .ok (f i))
    (ms : List (String × Value)) (hms : ∀ m ∈ ms, s.indexOf? m.1 = none) :
    s.decode (b + 1)
        (Value.object ((List.finRange s.size).map (fun i ↦ (s.name i, entry i)) ++ ms)).reading =
      .ok (s.build f) :=
  decode_entries hnames h _ (List.nodup_finRange _) (fun i ↦ .inl (List.mem_finRange i)) ms hms

end Shape

end Json

end Timelock
