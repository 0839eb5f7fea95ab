import Timelock.Proofs.ParseTrees

/-!
# Documents as they are written

A document together with its spelling: every number as it is written, every string with its escapes,
every member of an object in its place.  Any spaces may stand between the lexemes of a document, and
a text of it has the tree of the document, whatever they are.
-/

namespace Timelock.Json

open Token

/-! ## Lexemes -/

/-- A number as it is written. -/
structure Numeral where
  chars : List Char
  wellFormed : IsNumeral chars

/-- A string as it is written between its quotation marks. -/
structure Literal where
  body : List Char
  wellFormed : IsQuoted body

/-- The token that is read from a lexeme. -/
def tokenOf (l : List Char) : Token := (scan l).headD .null

theorem tokenOf_eq {l : List Char} {t : Token} (h : Completes .start l t) : tokenOf l = t := by
  have hends : t.EndsBefore [] := by cases t <;> simp [EndsBefore, Delimited]
  have hscan := h [] hends
  rw [List.append_nil] at hscan
  rw [tokenOf, scan, hscan]
  rfl

namespace Numeral

def ofNumber (n : Number) : Numeral := ⟨n.text, n.isNumeral_text⟩

/-- The number that is read, or `none` when it is too large. -/
def value (n : Numeral) : Option Number :=
  match tokenOf n.chars with
  | .number v => v
  | _ => none

theorem completes (n : Numeral) : Completes .start n.chars (.number n.value) := by
  obtain ⟨v, hv⟩ := n.wellFormed.completes
  rwa [value, tokenOf_eq hv]

theorem value_ofNumber (n : Number) : (ofNumber n).value = n.reading := by
  rw [value, tokenOf_eq (l := (ofNumber n).chars) n.completes_text]

end Numeral

namespace Literal

variable {l : Literal} {s : String}

def chars (l : Literal) : List Char := '"' :: (l.body ++ ['"'])

def ofString (s : String) : Literal :=
  ⟨s.toList.flatMap escapeChar, (spells_escaped s.toList).isQuoted⟩

/-- The literal writes the text, with any escapes. -/
def Writes (l : Literal) (s : String) : Prop := Spells l.body s.toList

theorem writes_ofString (s : String) : (ofString s).Writes s := spells_escaped s.toList

/-- The text that is read, or `none` when a surrogate is unpaired. -/
def value (l : Literal) : Option String :=
  match tokenOf l.chars with
  | .string o => o
  | _ => none

theorem completes (l : Literal) : Completes .start l.chars (.string l.value) := by
  obtain ⟨o, ho⟩ := l.wellFormed.completes .empty
  have hchars : Completes .start l.chars (.string o) := .cons rfl ho
  rwa [value, tokenOf_eq hchars]

theorem value_of_writes (h : l.Writes s) : l.value = some s := by
  have hchars : Completes .start l.chars (.string (some (String.ofList s.toList))) :=
    h.completes_quoted
  rw [value, tokenOf_eq hchars, String.ofList_toList]

/-- What the literal is as the name of a member. -/
def key (l : Literal) : Key :=
  match l.value with
  | some s => .name s
  | none => .unpaired

theorem key_of_writes (h : l.Writes s) : l.key = .name s := by
  rw [key, value_of_writes h]

theorem nameOf?_value (l : Literal) : Node.nameOf? (.string l.value) = some l.key := by
  rw [key]
  cases l.value <;> rfl

end Literal

/-! ## Documents -/

/-- Well-formed JSON as it is written, but for the spaces. -/
inductive Source where
  | null
  | bool (value : Bool)
  | number (numeral : Numeral)
  | string (literal : Literal)
  | array (items : List Source)
  | object (members : List (Literal × Source))

namespace Source

/-- Prove something of a document from the same for the documents inside it. -/
@[elab_as_elim]
theorem induction {motive : Source → Prop} (null : motive .null) (bool : ∀ b, motive (.bool b))
    (number : ∀ n, motive (.number n)) (string : ∀ l, motive (.string l))
    (array : ∀ xs : List Source, (∀ x ∈ xs, motive x) → motive (.array xs))
    (object : ∀ ms : List (Literal × Source), (∀ m ∈ ms, motive m.2) → motive (.object ms))
    (x : Source) : motive x :=
  @Source.rec motive (fun xs ↦ ∀ x ∈ xs, motive x) (fun ms ↦ ∀ m ∈ ms, motive m.2)
    (fun m ↦ motive m.2) null bool number string array object
    (by simp) (fun _ _ hx hxs ↦ List.forall_mem_cons.2 ⟨hx, hxs⟩)
    (by simp) (fun _ _ hm hms ↦ List.forall_mem_cons.2 ⟨hm, hms⟩) (fun _ _ h ↦ h) x

mutual

/-- What is written, from one pair of spaces to the next. -/
def lexemes : Source → List (List Char)
  | .null => [['n', 'u', 'l', 'l']]
  | .bool true => [['t', 'r', 'u', 'e']]
  | .bool false => [['f', 'a', 'l', 's', 'e']]
  | .number n => [n.chars]
  | .string l => [l.chars]
  | .array xs => enclosed ['['] [']'] [','] (itemLexemes xs)
  | .object ms => enclosed ['\x7b'] ['\x7d'] [','] (memberLexemes ms)

def itemLexemes : List Source → List (List (List Char))
  | [] => []
  | x :: xs => x.lexemes :: itemLexemes xs

def memberLexemes : List (Literal × Source) → List (List (List Char))
  | [] => []
  | (k, x) :: ms => (k.chars :: [':'] :: x.lexemes) :: memberLexemes ms

end

mutual

def tree : Source → Node
  | .null => .null
  | .bool b => .bool b
  | .number n => .number n.value
  | .string l => .string l.value
  | .array xs => .array (itemTrees xs) .closed
  | .object ms => .object (memberTrees ms) .closed

def itemTrees : List Source → List Node
  | [] => []
  | x :: xs => x.tree :: itemTrees xs

def memberTrees : List (Literal × Source) → List (Key × Node)
  | [] => []
  | (k, x) :: ms => (k.key, x.tree) :: memberTrees ms

end

mutual

/-- A value as it is printed. -/
def ofValue : Value → Source
  | .null => .null
  | .bool b => .bool b
  | .number n => .number (.ofNumber n)
  | .string s => .string (.ofString s)
  | .array vs => .array (ofItems vs)
  | .object ms => .object (ofMembers ms)

def ofItems : List Value → List Source
  | [] => []
  | v :: vs => ofValue v :: ofItems vs

def ofMembers : List (String × Value) → List (Literal × Source)
  | [] => []
  | (k, v) :: ms => (.ofString k, ofValue v) :: ofMembers ms

end

@[simp] theorem itemLexemes_eq (xs : List Source) : itemLexemes xs = xs.map lexemes := by
  induction xs with
  | nil => rfl
  | cons x xs ih => simp [itemLexemes, ih]

@[simp] theorem memberLexemes_eq (ms : List (Literal × Source)) :
    memberLexemes ms = ms.map fun m ↦ m.1.chars :: [':'] :: m.2.lexemes := by
  induction ms with
  | nil => rfl
  | cons m ms ih => simp [memberLexemes, ih]

@[simp] theorem itemTrees_eq (xs : List Source) : itemTrees xs = xs.map tree := by
  induction xs with
  | nil => rfl
  | cons x xs ih => simp [itemTrees, ih]

@[simp] theorem memberTrees_eq (ms : List (Literal × Source)) :
    memberTrees ms = ms.map fun m ↦ (m.1.key, m.2.tree) := by
  induction ms with
  | nil => rfl
  | cons m ms ih => simp [memberTrees, ih]

@[simp] theorem ofItems_eq (vs : List Value) : ofItems vs = vs.map ofValue := by
  induction vs with
  | nil => rfl
  | cons v vs ih => simp [ofItems, ih]

@[simp] theorem ofMembers_eq (ms : List (String × Value)) :
    ofMembers ms = ms.map fun m ↦ (.ofString m.1, ofValue m.2) := by
  induction ms with
  | nil => rfl
  | cons m ms ih => simp [ofMembers, ih]

end Source

/-! ## Spaces -/

/-- The lexemes one after another, with any spaces before, between and behind them. -/
inductive Spaced : List (List Char) → List Char → Prop
  | nil : Spaced [] []
  | space {ls : List (List Char)} {c : Char} {cs : List Char} (blank : isSpace c)
      (rest : Spaced ls cs) : Spaced ls (c :: cs)
  | lexeme (l : List Char) {ls : List (List Char)} {cs : List Char} (rest : Spaced ls cs) :
      Spaced (l :: ls) (l ++ cs)

/-- No number runs into the first of the lexemes. -/
def Follows (ls : List (List Char)) : Prop := ∀ l ∈ ls.head?, l ≠ [] ∧ Delimited l

/-- Each lexeme completes a token, and no number runs into the next one. -/
inductive Separated : List (List Char) → Prop
  | nil : Separated []
  | cons {l : List Char} {ls : List (List Char)} {t : Token} (completes : Completes .start l t)
      (ends : ∀ v, t = .number v → Follows ls) (rest : Separated ls) : Separated (l :: ls)

variable {l : List Char} {ls part : List (List Char)} {cs : List Char}

theorem spaced_apart (ls : List (List Char)) : Spaced ls (ls.flatMap (' ' :: ·)) := by
  induction ls with
  | nil => exact .nil
  | cons l ls ih => exact .space rfl (.lexeme l ih)

theorem Spaced.delimited (h : Spaced ls cs) (hls : Follows ls) : Delimited cs := by
  cases h with
  | nil => simp [Delimited]
  | space blank _ => exact Value.delimited_of_isSpace blank
  | lexeme l rest =>
      obtain ⟨hne, hl⟩ := hls l rfl
      obtain ⟨c, l, rfl⟩ := List.exists_cons_of_ne_nil hne
      exact hl

theorem Spaced.scan_eq (h : Spaced ls cs) (hls : Separated ls) : scan cs = ls.map tokenOf := by
  induction h with
  | nil => rfl
  | space blank _ ih => simpa [scan, scanFrom, step, startStep, blank] using ih hls
  | @lexeme l ls cs rest ih =>
      obtain _ | @⟨_, _, t, completes, ends, hrest⟩ := hls
      have hends : t.EndsBefore cs := by
        cases t with
        | number v => exact rest.delimited (ends v rfl)
        | _ => trivial
      rw [scan, completes cs hends, List.map_cons, tokenOf_eq completes, ← ih hrest, scan]

/-- The lexemes are separated from one another, and a number at their end is if none runs into what
comes next. -/
def Stands (part : List (List Char)) : Prop :=
  ∀ ls, Separated ls → Follows ls → Separated (part ++ ls)

theorem stands_singleton {t : Token} (h : Completes .start l t) : Stands [l] :=
  fun _ hls hfollows ↦ .cons h (fun _ _ ↦ hfollows) hls

theorem follows_cons (hne : l ≠ []) (hl : Delimited l) : Follows (l :: ls) := by
  intro k hk
  obtain rfl := Option.some.inj hk
  exact ⟨hne, hl⟩

/-- A bracket, a comma or a colon. -/
inductive IsMark : List Char → Prop
  | openArray : IsMark ['[']
  | closeArray : IsMark [']']
  | openObject : IsMark ['\x7b']
  | closeObject : IsMark ['\x7d']
  | comma : IsMark [',']
  | colon : IsMark [':']

theorem IsMark.follows (h : IsMark l) : Follows (l :: ls) := by
  apply follows_cons
  · cases h <;> simp
  · cases h <;> simp [Delimited] <;> decide

theorem IsMark.exists_completes (h : IsMark l) :
    ∃ t, Completes .start l t ∧ ∀ v, t ≠ .number v := by
  cases h with
  | openArray => exact ⟨.openArray, .last rfl, by simp⟩
  | closeArray => exact ⟨.closeArray, .last rfl, by simp⟩
  | openObject => exact ⟨.openObject, .last rfl, by simp⟩
  | closeObject => exact ⟨.closeObject, .last rfl, by simp⟩
  | comma => exact ⟨.comma, .last rfl, by simp⟩
  | colon => exact ⟨.colon, .last rfl, by simp⟩

theorem IsMark.separated (h : IsMark l) (hls : Separated ls) : Separated (l :: ls) := by
  obtain ⟨t, hcompletes, hne⟩ := h.exists_completes
  exact .cons hcompletes (fun v hv ↦ absurd hv (hne v)) hls

variable {opening closing comma : List Char} {parts : List (List (List Char))}

theorem stands_later (hclosing : IsMark closing) (hcomma : IsMark comma)
    (hparts : ∀ part ∈ parts, Stands part) (hls : Separated ls) :
    Separated (parts.flatMap (comma :: ·) ++ closing :: ls) ∧
      Follows (parts.flatMap (comma :: ·) ++ closing :: ls) := by
  induction parts with
  | nil => exact ⟨hclosing.separated hls, hclosing.follows⟩
  | cons part parts ih =>
      rw [List.forall_mem_cons] at hparts
      obtain ⟨hseparated, hfollows⟩ := ih hparts.2
      rw [List.flatMap_cons, List.cons_append, List.cons_append, List.append_assoc]
      exact ⟨hcomma.separated (hparts.1 _ hseparated hfollows), hcomma.follows⟩

theorem stands_enclosed (hopening : IsMark opening) (hclosing : IsMark closing)
    (hcomma : IsMark comma) (hparts : ∀ part ∈ parts, Stands part) :
    Stands (enclosed opening closing comma parts) := by
  intro ls hls _
  cases parts with
  | nil => exact hopening.separated (hclosing.separated hls)
  | cons part parts =>
      rw [List.forall_mem_cons] at hparts
      obtain ⟨hseparated, hfollows⟩ := stands_later hclosing hcomma hparts.2 hls
      rw [enclosed, List.cons_append, List.append_assoc, List.append_assoc]
      exact hopening.separated (hparts.1 _ hseparated hfollows)

namespace Source

/-- The lexemes of a document are separated without spaces already. -/
theorem stands (x : Source) : Stands x.lexemes := by
  induction x using induction with
  | null => exact stands_singleton (completes_spell (t := .null) trivial)
  | bool b =>
      cases b
      · exact stands_singleton (completes_spell (t := .bool false) trivial)
      · exact stands_singleton (completes_spell (t := .bool true) trivial)
  | number n => exact stands_singleton n.completes
  | string l => exact stands_singleton l.completes
  | array xs ih =>
      rw [lexemes, itemLexemes_eq]
      apply stands_enclosed .openArray .closeArray .comma
      simpa using ih
  | object ms ih =>
      rw [lexemes, memberLexemes_eq]
      apply stands_enclosed .openObject .closeObject .comma
      simp only [List.forall_mem_map]
      intro m hm ls hls hfollows
      apply Separated.cons m.1.completes (by simp)
      exact IsMark.colon.separated (ih m hm ls hls hfollows)

theorem separated (x : Source) : Separated x.lexemes := by
  simpa using x.stands [] .nil (by simp [Follows])

/-! ## The tree of a document -/

theorem reads (x : Source) : Node.Reads (x.lexemes.map tokenOf) x.tree := by
  induction x using induction with
  | null => exact Node.reads_scalar (t := .null) (fun _ ↦ rfl) (by simp)
  | bool b =>
      cases b
      · exact Node.reads_scalar (t := .bool false) (fun _ ↦ rfl) (by simp)
      · exact Node.reads_scalar (t := .bool true) (fun _ ↦ rfl) (by simp)
  | number n =>
      rw [lexemes, List.map_singleton, tokenOf_eq n.completes]
      exact Node.reads_scalar (fun _ ↦ rfl) (by simp)
  | string l =>
      rw [lexemes, List.map_singleton, tokenOf_eq l.completes]
      exact Node.reads_scalar (fun _ ↦ rfl) (by simp)
  | array xs ih =>
      rw [lexemes, map_enclosed, tree, itemTrees_eq, itemLexemes_eq]
      apply Node.reads_array
      simpa [List.forall₂_map_left_iff, List.forall₂_map_right_iff, List.forall₂_same] using ih
  | object ms ih =>
      rw [lexemes, map_enclosed, tree, memberTrees_eq, memberLexemes_eq]
      apply Node.reads_object
      simp only [List.forall₂_map_left_iff, List.forall₂_map_right_iff, List.forall₂_same]
      intro m hm
      rw [List.map_cons, List.map_cons, tokenOf_eq m.1.completes]
      exact .intro m.1.nameOf?_value (ih m hm)

end Source

/-- Spaces between the lexemes do not matter. -/
theorem Document.ofText_of_spaced {x : Source} {s : String} (h : Spaced x.lexemes s.toList) :
    ofText s = ⟨x.tree, false⟩ := by
  rw [ofText, h.scan_eq x.separated, ofTokens_of_reads x.reads]

/-! ## Printed values -/

namespace Source

theorem tree_ofValue (v : Value) : (ofValue v).tree = v.reading := by
  induction v using Value.induction with
  | null | bool => rfl
  | number n => rw [ofValue, tree, Numeral.value_ofNumber, Value.reading]
  | string s => rw [ofValue, tree, Literal.value_of_writes (Literal.writes_ofString s),
      Value.reading]
  | array vs ih =>
      rw [ofValue, tree, Value.reading, itemTrees_eq, ofItems_eq, Value.itemReadings_eq,
        List.map_map]
      exact congrArg (Node.array · .closed) (List.map_congr_left ih)
  | object ms ih =>
      rw [ofValue, tree, Value.reading, memberTrees_eq, ofMembers_eq, Value.memberReadings_eq,
        List.map_map]
      refine congrArg (Node.object · .closed) (List.map_congr_left fun m hm ↦ ?_)
      exact Prod.ext (Literal.key_of_writes (Literal.writes_ofString m.1)) (ih m hm)

theorem lexemes_ofValue (v : Value) : (ofValue v).lexemes = v.tokens.map spell := by
  induction v using Value.induction with
  | null => rfl
  | bool b => cases b <;> rfl
  | number n => rfl
  | string s => rfl
  | array vs ih =>
      rw [ofValue, lexemes, Value.tokens_array, map_enclosed, itemLexemes_eq, ofItems_eq,
        List.map_map, List.map_map]
      exact congrArg (enclosed _ _ _) (List.map_congr_left ih)
  | object ms ih =>
      rw [ofValue, lexemes, Value.tokens_object, map_enclosed, memberLexemes_eq, ofMembers_eq,
        List.map_map, List.map_map]
      refine congrArg (enclosed _ _ _) (List.map_congr_left fun m hm ↦ ?_)
      exact congrArg (fun ls ↦ quote m.1 :: [':'] :: ls) (ih m hm)

theorem spaced_map_spell {ts : List Token} (h : Layout ts cs) : Spaced (ts.map spell) cs := by
  induction h with
  | nil => exact .nil
  | space blank _ ih => exact .space blank ih
  | token _ _ _ ih => exact .lexeme _ ih

theorem spaced_of_layout {v : Value} (h : Layout v.tokens cs) : Spaced (ofValue v).lexemes cs :=
  lexemes_ofValue v ▸ spaced_map_spell h

end Source

end Timelock.Json
