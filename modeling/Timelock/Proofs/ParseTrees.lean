import Mathlib.Data.List.Forall2
import Timelock.Json.Node
import Timelock.Proofs.TokenTexts

/-!
# Trees of printed values

A text of a printed value has one tree, closed throughout, in which every number stands as it reads
back.  For a value without doubles this is the value's own tree.
-/

namespace Timelock.Json

/-- What stands between an opening and a closing mark, with a comma between any two parts. -/
def enclosed {α : Type} (opening closing comma : α) : List (List α) → List α
  | [] => [opening, closing]
  | part :: parts => opening :: (part ++ (parts.flatMap (comma :: ·) ++ [closing]))

theorem map_enclosed {α β : Type} (f : α → β) (opening closing comma : α)
    (parts : List (List α)) :
    (enclosed opening closing comma parts).map f =
      enclosed (f opening) (f closing) (f comma) (parts.map (List.map f)) := by
  cases parts <;> simp [enclosed, List.map_flatMap, List.flatMap_map]

namespace Value

theorem laterItemTokens_eq (vs : List Value) :
    laterItemTokens vs = (vs.map tokens).flatMap (.comma :: ·) := by
  induction vs with
  | nil => rfl
  | cons v vs ih => simp [laterItemTokens, ih]

theorem tokens_array (vs : List Value) :
    (array vs).tokens = enclosed .openArray .closeArray .comma (vs.map tokens) := by
  cases vs <;> simp [tokens, itemTokens, enclosed, laterItemTokens_eq]

def memberTokensOf (m : String × Value) : List Token := .string (some m.1) :: .colon :: m.2.tokens

theorem laterMemberTokens_eq (ms : List (String × Value)) :
    laterMemberTokens ms = (ms.map memberTokensOf).flatMap (.comma :: ·) := by
  induction ms with
  | nil => rfl
  | cons m ms ih => simp [laterMemberTokens, memberTokensOf, ih]

theorem tokens_object (ms : List (String × Value)) :
    (object ms).tokens = enclosed .openObject .closeObject .comma (ms.map memberTokensOf) := by
  cases ms <;> simp [tokens, memberTokens, memberTokensOf, enclosed, laterMemberTokens_eq]

mutual

/-- The tree of the value's text. -/
def reading : Value → Node
  | .null => .null
  | .bool b => .bool b
  | .number n => .number n.reading
  | .string s => .string (some s)
  | .array vs => .array (itemReadings vs) .closed
  | .object ms => .object (memberReadings ms) .closed

def itemReadings : List Value → List Node
  | [] => []
  | v :: vs => v.reading :: itemReadings vs

def memberReadings : List (String × Value) → List (Key × Node)
  | [] => []
  | (k, v) :: ms => (.name k, v.reading) :: memberReadings ms

end

@[simp] theorem itemReadings_eq (vs : List Value) : itemReadings vs = vs.map reading := by
  induction vs with
  | nil => rfl
  | cons v vs ih => simp [itemReadings, ih]

@[simp] theorem memberReadings_eq (ms : List (String × Value)) :
    memberReadings ms = ms.map fun m ↦ (.name m.1, m.2.reading) := by
  induction ms with
  | nil => rfl
  | cons m ms ih => simp [memberReadings, ih]

theorem memberReadings_append (ms ns : List (String × Value)) :
    memberReadings (ms ++ ns) = memberReadings ms ++ memberReadings ns := by
  simp

/-- The value holds no doubles. -/
inductive Floatless : Value → Prop
  | null : Floatless .null
  | bool (b : Bool) : Floatless (.bool b)
  | integer (i : Int) (fits : -0x8000000000000000 ≤ i ∧ i < 0x10000000000000000) :
      Floatless (.number (.integer i fits))
  | string (s : String) : Floatless (.string s)
  | array {vs : List Value} (items : ∀ v ∈ vs, Floatless v) : Floatless (.array vs)
  | object {ms : List (String × Value)} (members : ∀ m ∈ ms, Floatless m.2) :
      Floatless (.object ms)

@[simp] theorem itemNodes_eq (vs : List Value) : itemNodes vs = vs.map node := by
  induction vs with
  | nil => rfl
  | cons v vs ih => simp [itemNodes, ih]

@[simp] theorem memberNodes_eq (ms : List (String × Value)) :
    memberNodes ms = ms.map fun m ↦ (.name m.1, m.2.node) := by
  induction ms with
  | nil => rfl
  | cons m ms ih => simp [memberNodes, ih]

theorem reading_of_floatless {v : Value} (h : v.Floatless) : v.reading = v.node := by
  induction h with
  | null | bool | string => rfl
  | integer i fits => simp [reading, node]
  | array _ ih => simpa [reading, node] using ih
  | object _ ih => simpa [reading, node] using fun k v hm ↦ ih (k, v) hm

end Value

namespace Node

open Value

variable {x : Expectation} {stack : List Frame} {t : Token} {ts : List Token}

/-- What becomes of a complete node: the root, or an item or member of the innermost container. -/
def resume (n : Node) : List Frame → List Token → Document
  | [], ts => ⟨n, !ts.isEmpty⟩
  | top :: rest, ts => run .separator (top.add n :: rest) ts

theorem run_of_complete {n : Node} {rest : List Frame} (h : move t x stack = .complete n rest) :
    run x stack (t :: ts) = resume n rest ts := by
  rw [run, h]
  cases rest <;> rfl

theorem run_of_go (y : Expectation) (next : List Frame) (h : move t x stack = .go y next) :
    run x stack (t :: ts) = run y next ts := by
  rw [run, h]

/-- A value may stand here. -/
def Open (x : Expectation) (stack : List Frame) : Prop :=
  x = .value ∨ x = .firstItem ∧ ∃ before rest, stack = .items before :: rest

theorem move_of_open (hx : Open x stack) (ht : t ≠ .closeArray) :
    move t x stack = valueMove t stack := by
  rcases hx with rfl | ⟨rfl, before, rest, rfl⟩
  · rfl
  · exact if_neg ht

/-- The tokens are read as the node, wherever a value may stand. -/
def Reads (us : List Token) (n : Node) : Prop :=
  ∀ x stack ts, Open x stack → run x stack (us ++ ts) = resume n stack ts

/-- The tokens are read as a member of an object. -/
inductive ReadsMember : List Token → Key × Node → Prop
  | intro {o : Option String} {k : Key} {us : List Token} {n : Node}
      (named : nameOf? (.string o) = some k) (reads : Reads us n) :
      ReadsMember (.string o :: .colon :: us) (k, n)

theorem reads_scalar {n : Node} (h : ∀ stack, valueMove t stack = .complete n stack)
    (ht : t ≠ .closeArray) : Reads [t] n := by
  intro x stack ts hx
  exact run_of_complete ((move_of_open hx ht).trans (h stack))

theorem run_laterItems {parts : List (List Token)} {ns : List Node}
    (h : List.Forall₂ Reads parts ns) (before : List Node) :
    run .separator (.items before :: stack) (parts.flatMap (.comma :: ·) ++ .closeArray :: ts) =
      resume (.array (before.reverse ++ ns) .closed) stack ts := by
  induction h generalizing before with
  | nil =>
      rw [List.append_nil]
      exact run_of_complete rfl
  | @cons part n parts ns hpart _ ih =>
      rw [List.flatMap_cons, List.cons_append, List.cons_append, List.append_assoc,
        run_of_go .value (.items before :: stack) rfl, hpart _ _ _ (.inl rfl), resume, Frame.add,
        ih]
      simp

theorem reads_array {parts : List (List Token)} {ns : List Node} (h : List.Forall₂ Reads parts ns) :
    Reads (enclosed .openArray .closeArray .comma parts) (.array ns .closed) := by
  intro x stack ts hx
  have hopen : ∀ us, run x stack (.openArray :: us) = run .firstItem (.items [] :: stack) us :=
    fun _ ↦ run_of_go .firstItem (.items [] :: stack) (move_of_open hx (by decide))
  -- The first item stands where the array may also end, the later ones behind a comma.
  cases h with
  | nil =>
      rw [enclosed, List.cons_append, hopen]
      exact run_of_complete rfl
  | @cons part n parts ns hpart hparts =>
      rw [enclosed, List.cons_append, hopen, List.append_assoc, List.append_assoc,
        hpart _ _ _ (.inr ⟨rfl, _, _, rfl⟩)]
      exact run_laterItems hparts [n]

theorem run_member {us : List Token} {m : Key × Node} (h : ReadsMember us m)
    (hx : x = .firstName ∨ x = .nextName) (before : List (Key × Node)) :
    run x (.members before none :: stack) (us ++ ts) =
      run .separator (.members (m :: before) none :: stack) ts := by
  obtain @⟨o, k, us, n, named, reads⟩ := h
  have hname : move (.string o) x (.members before none :: stack) =
      .go .colon (.members before (some k) :: stack) := by
    rcases hx with rfl | rfl <;> simp [move, named]
  rw [List.cons_append, List.cons_append, run_of_go _ _ hname,
    run_of_go .value (.members before (some k) :: stack) rfl, reads _ _ _ (.inl rfl)]
  rfl

theorem run_laterMembers {parts : List (List Token)} {ms : List (Key × Node)}
    (h : List.Forall₂ ReadsMember parts ms) (before : List (Key × Node)) :
    run .separator (.members before none :: stack)
        (parts.flatMap (.comma :: ·) ++ .closeObject :: ts) =
      resume (.object (before.reverse ++ ms) .closed) stack ts := by
  induction h generalizing before with
  | nil =>
      rw [List.append_nil]
      exact run_of_complete rfl
  | @cons part m parts ms hpart _ ih =>
      rw [List.flatMap_cons, List.cons_append, List.cons_append, List.append_assoc,
        run_of_go .nextName (.members before none :: stack) rfl, run_member hpart (.inr rfl), ih]
      simp

theorem reads_object {parts : List (List Token)} {ms : List (Key × Node)}
    (h : List.Forall₂ ReadsMember parts ms) :
    Reads (enclosed .openObject .closeObject .comma parts) (.object ms .closed) := by
  intro x stack ts hx
  have hopen : ∀ us,
      run x stack (.openObject :: us) = run .firstName (.members [] none :: stack) us :=
    fun _ ↦ run_of_go .firstName (.members [] none :: stack) (move_of_open hx (by decide))
  cases h with
  | nil =>
      rw [enclosed, List.cons_append, hopen]
      exact run_of_complete rfl
  | @cons part m parts ms hpart hparts =>
      rw [enclosed, List.cons_append, hopen, List.append_assoc, List.append_assoc,
        run_member hpart (.inl rfl)]
      exact run_laterMembers hparts [m]

theorem reads (v : Value) : Reads (v.tokens.map Token.reading) v.reading := by
  induction v using Value.induction with
  | null | bool b | number n | string s =>
      exact reads_scalar (fun _ ↦ rfl) (by simp [Token.reading])
  | array vs ih =>
      rw [tokens_array, map_enclosed, reading, itemReadings_eq]
      apply reads_array
      simpa [List.forall₂_map_left_iff, List.forall₂_map_right_iff, List.forall₂_same] using ih
  | object ms ih =>
      rw [tokens_object, map_enclosed, reading, memberReadings_eq]
      apply reads_object
      simp only [List.forall₂_map_left_iff, List.forall₂_map_right_iff, List.forall₂_same]
      exact fun m hm ↦ .intro rfl (ih m hm)

end Node

namespace Document

theorem ofTokens_of_reads {us : List Token} {n : Node} (h : Node.Reads us n) :
    ofTokens us = ⟨n, false⟩ := by
  simpa [ofTokens, Node.resume] using h .value [] [] (.inl rfl)

/-- Spaces between the tokens do not matter. -/
theorem ofText_of_layout {v : Value} {s : String} (h : Token.Layout v.tokens s.toList) :
    ofText s = ⟨v.reading, false⟩ := by
  rw [ofText, h.scan_eq, ofTokens_of_reads (Node.reads v)]

end Document

end Timelock.Json
