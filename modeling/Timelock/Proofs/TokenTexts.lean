import Timelock.Proofs.NumberTexts

/-!
# Texts of tokens

The text of a list of tokens, with spaces between them where a printer puts them, reads back as
these tokens.  Both printed forms of a value are such texts.
-/

namespace Timelock.Json

namespace Token

variable {m m' : Mode} {c e : Char} {cs ds after text : List Char} {t : Token}
  {ts : List Token} {q : Quotation} {d n value bytes : Nat}

/-! ## Strings -/

theorem hexDigit?_hexChar (h : n < 16) : hexDigit? (hexChar n) = some n := by
  revert n
  decide

theorem utf8Size_of_hexDigit? (h : hexDigit? c = some n) : c.utf8Size = 1 := by
  have hle : c ≤ 'f' := by
    unfold hexDigit? at h
    split at h
    next hc => exact Char.le_trans hc.2 (by decide)
    next =>
      split at h
      next hc => exact hc.2
      next =>
        split at h
        next hc => exact Char.le_trans hc.2 (by decide)
        next => cases h
  exact if_pos (UInt32.le_trans (Char.le_def.1 hle) (by decide))

/-- Four digits to the base 16 and the number that they write. -/
inductive IsCode : List Char → Nat → Prop
  | digits {a b c d : Char} {i j k l : Nat} (ha : hexDigit? a = some i) (hb : hexDigit? b = some j)
      (hc : hexDigit? c = some k) (hd : hexDigit? d = some l) :
      IsCode [a, b, c, d] (((i * 16 + j) * 16 + k) * 16 + l)

/-- A character that stands for itself. -/
def IsPlain (c : Char) : Prop := c ≠ '"' ∧ c ≠ '\\' ∧ 0x20 ≤ c.toNat

theorem completes_plain (hc : IsPlain c) (h : Completes (.quoted (q.push c)) after t) :
    Completes (.quoted q) (c :: after) t := by
  obtain ⟨hquote, hslash, hcode⟩ := hc
  refine .cons ?_ h
  simp [step, quotedStep, hquote, hslash, Nat.not_lt.2 hcode]

/-- A character that is written as a letter behind a backslash. -/
theorem completes_letter (he : escaped? e = some c) (h : Completes (.quoted (q.push c)) after t) :
    Completes (.quoted q) ('\\' :: e :: after) t := by
  have hu : e ≠ 'u' := by
    rintro rfl
    cases he
  refine .cons rfl (.cons ?_ h)
  simp [step, escapeStep, hu, he]

theorem step_unicode (hc : hexDigit? c = some d) (hbytes : bytes < 3) :
    step (.unicode q value bytes true) c =
      ([], some (.unicode q (value * 16 + d) (bytes + 1) true)) := by
  have hmore : bytes + 1 < 4 := Nat.succ_lt_succ hbytes
  simp [step, unicodeStep, hc, utf8Size_of_hexDigit? hc, hmore]

theorem step_unicode_last (hc : hexDigit? c = some d) :
    step (.unicode q value 3 true) c = ([], some (.quoted (q.pushUnit (value * 16 + d)))) := by
  simp [step, unicodeStep, hc, utf8Size_of_hexDigit? hc]

/-- A character, or half of one, that is written as its code. -/
theorem completes_code (hds : IsCode ds n) (h : Completes (.quoted (q.pushUnit n)) after t) :
    Completes (.quoted q) ('\\' :: 'u' :: (ds ++ after)) t := by
  cases hds with
  | @digits a b c d i j k l ha hb hc hd =>
      have hfirst : step (.unicode q 0 0 true) a = ([], some (.unicode q i 1 true)) := by
        simp [step, unicodeStep, ha, utf8Size_of_hexDigit? ha]
      exact .cons rfl (.cons rfl (.cons hfirst (.cons (step_unicode hb (by decide))
        (.cons (step_unicode hc (by decide)) (.cons (step_unicode_last hd) h)))))

/-- What may stand between the quotation marks of a string. -/
inductive IsQuoted : List Char → Prop
  | nil : IsQuoted []
  | plain {c : Char} {cs : List Char} (hc : IsPlain c) (rest : IsQuoted cs) : IsQuoted (c :: cs)
  | letter {e c : Char} {cs : List Char} (he : escaped? e = some c) (rest : IsQuoted cs) :
      IsQuoted ('\\' :: e :: cs)
  | code {ds cs : List Char} {n : Nat} (hds : IsCode ds n) (rest : IsQuoted cs) :
      IsQuoted ('\\' :: 'u' :: (ds ++ cs))

theorem completes_closing (q : Quotation) : Completes (.quoted q) ['"'] q.token := .last rfl

/-- Every string is read to its end, whether or not its surrogates are paired. -/
theorem IsQuoted.completes (h : IsQuoted cs) (q : Quotation) :
    ∃ o, Completes (.quoted q) (cs ++ ['"']) (.string o) := by
  induction h generalizing q with
  | nil => exact ⟨_, completes_closing q⟩
  | @plain c cs hc _ ih =>
      obtain ⟨o, ho⟩ := ih (q.push c)
      exact ⟨o, completes_plain hc ho⟩
  | @letter e c cs he _ ih =>
      obtain ⟨o, ho⟩ := ih (q.push c)
      exact ⟨o, completes_letter he ho⟩
  | @code ds cs n hds _ ih =>
      obtain ⟨o, ho⟩ := ih (q.pushUnit n)
      rw [List.cons_append, List.cons_append, List.append_assoc]
      exact ⟨o, completes_code hds ho⟩

/-- What stands between the quotation marks writes the text.  A character outside the basic plane
may be written as two codes. -/
inductive Spells : List Char → List Char → Prop
  | nil : Spells [] []
  | plain {c : Char} {cs text : List Char} (hc : IsPlain c) (rest : Spells cs text) :
      Spells (c :: cs) (c :: text)
  | letter {e c : Char} {cs text : List Char} (he : escaped? e = some c) (rest : Spells cs text) :
      Spells ('\\' :: e :: cs) (c :: text)
  | code {ds cs text : List Char} {n : Nat} (hds : IsCode ds n) (hn : n < 0xD800 ∨ 0xDFFF < n)
      (rest : Spells cs text) : Spells ('\\' :: 'u' :: (ds ++ cs)) (Char.ofNat n :: text)
  | pair {ds es cs text : List Char} {n k : Nat} (hds : IsCode ds n)
      (hn : 0xD800 ≤ n ∧ n ≤ 0xDBFF) (hes : IsCode es k) (hk : 0xDC00 ≤ k ∧ k ≤ 0xDFFF)
      (rest : Spells cs text) :
      Spells ('\\' :: 'u' :: (ds ++ '\\' :: 'u' :: (es ++ cs)))
        (Char.ofNat ((n - 0xD800) * 0x400 + (k - 0xDC00) + 0x10000) :: text)

theorem Spells.isQuoted (h : Spells cs text) : IsQuoted cs := by
  induction h with
  | nil => exact .nil
  | plain hc _ ih => exact .plain hc ih
  | letter he _ ih => exact .letter he ih
  | code hds _ _ ih => exact .code hds ih
  | pair hds _ hes _ _ ih => exact .code hds (.code hes ih)

theorem Spells.completes (h : Spells cs text) (before : List Char) :
    Completes (.quoted ⟨before, none, true⟩) (cs ++ ['"'])
      (.string (some (String.ofList (before.reverse ++ text)))) := by
  induction h generalizing before with
  | nil => simpa [Quotation.token] using completes_closing ⟨before, none, true⟩
  | @plain c cs text hc _ ih =>
      apply completes_plain hc
      simpa [Quotation.push] using ih (c :: before)
  | @letter e c cs text he _ ih =>
      apply completes_letter he
      simpa [Quotation.push] using ih (c :: before)
  | @code ds cs text n hds hn _ ih =>
      have hlow : ¬ (0xDC00 ≤ n ∧ n ≤ 0xDFFF) := by omega
      have hhigh : ¬ (0xD800 ≤ n ∧ n ≤ 0xDBFF) := by omega
      rw [List.cons_append, List.cons_append, List.append_assoc]
      apply completes_code hds
      simpa [Quotation.pushUnit, hlow, hhigh] using ih (Char.ofNat n :: before)
  | @pair ds es cs text n k hds hn hes hk _ ih =>
      have hlow : ¬ (0xDC00 ≤ n ∧ n ≤ 0xDFFF) := by omega
      simp only [List.cons_append, List.append_assoc]
      apply completes_code hds
      apply completes_code hes
      simpa [Quotation.pushUnit, hlow, hn, hk] using
        ih (Char.ofNat ((n - 0xD800) * 0x400 + (k - 0xDC00) + 0x10000) :: before)

/-- A control character is printed as its code. -/
theorem isCode_hexChar (hc : c.toNat < 0x20) :
    IsCode ['0', '0', hexChar (c.toNat / 16), hexChar (c.toNat % 16)] c.toNat := by
  have hcode : ((0 * 16 + 0) * 16 + c.toNat / 16) * 16 + c.toNat % 16 = c.toNat := by omega
  have hzero : hexDigit? '0' = some 0 := rfl
  have hhigh := hexDigit?_hexChar (n := c.toNat / 16) (by omega)
  have hlow := hexDigit?_hexChar (n := c.toNat % 16) (by omega)
  have hdigits := IsCode.digits hzero hzero hhigh hlow
  rwa [hcode] at hdigits

theorem spells_escapeChar (c : Char) (h : Spells cs text) :
    Spells (escapeChar c ++ cs) (c :: text) := by
  unfold escapeChar
  -- Seven characters have a letter of their own, the other control characters a code.
  iterate 7
    split
    next hc =>
      obtain rfl := beq_iff_eq.1 hc
      exact .letter rfl h
  split
  next hc => simpa using Spells.code (isCode_hexChar hc) (.inl (by omega)) h
  next hquote hslash _ _ _ _ _ hcode =>
    refine .plain ⟨?_, ?_, Nat.not_lt.1 hcode⟩ h
    · simpa using hquote
    · simpa using hslash

theorem spells_escaped (text : List Char) : Spells (text.flatMap escapeChar) text := by
  induction text with
  | nil => exact .nil
  | cons c text ih => exact spells_escapeChar c ih

theorem Spells.completes_quoted (h : Spells cs text) :
    Completes .start ('"' :: (cs ++ ['"'])) (.string (some (String.ofList text))) :=
  .cons rfl (h.completes [])

theorem completes_quote (s : String) : Completes .start (quote s) (.string (some s)) := by
  have h := (spells_escaped s.toList).completes_quoted
  rwa [String.ofList_toList] at h

/-! ## Spelling -/

/-- The token is not faulty, so it has a text. -/
def Sound : Token → Prop
  | .number none | .string none | .brokenString _ _ | .brokenScalar _ _ => False
  | _ => True

/-- The token that reads back. -/
def reading : Token → Token
  | .number (some n) => .number n.reading
  | t => t

theorem completes_spell (h : t.Sound) : Completes .start t.spell t.reading := by
  cases t with
  | openArray | closeArray | openObject | closeObject | comma | colon => exact .last rfl
  | null => exact .cons rfl (.cons rfl (.cons rfl (.last rfl)))
  | bool b =>
      cases b
      · exact .cons rfl (.cons rfl (.cons rfl (.cons rfl (.last rfl))))
      · exact .cons rfl (.cons rfl (.cons rfl (.last rfl)))
  | number n =>
      cases n with
      | none => exact h.elim
      | some n => exact n.completes_text
  | string s =>
      cases s with
      | none => exact h.elim
      | some s => exact completes_quote s
  | brokenString _ _ | brokenScalar _ _ => exact h.elim

/-! ## Layouts -/

/-- Texts that spell the tokens, with spaces between them. -/
inductive Layout : List Token → List Char → Prop
  | nil : Layout [] []
  | space {ts : List Token} {c : Char} {cs : List Char} (blank : isSpace c) (rest : Layout ts cs) :
      Layout ts (c :: cs)
  | token {t : Token} {ts : List Token} {cs : List Char} (sound : t.Sound) (ends : t.EndsBefore cs)
      (rest : Layout ts cs) : Layout (t :: ts) (t.spell ++ cs)

namespace Layout

theorem scan_eq (h : Layout ts cs) : scan cs = ts.map reading := by
  induction h with
  | nil => rfl
  | space blank _ ih => simpa [scan, scanFrom, step, startStep, blank] using ih
  | @token t _ cs sound ends _ ih =>
      have hends : t.reading.EndsBefore cs := by
        cases t with
        | number n => cases n <;> exact ends
        | _ => trivial
      rw [scan, completes_spell sound cs hends, List.map_cons, ← ih, scan]

theorem spaces {blanks : List Char} (hblanks : ∀ c ∈ blanks, isSpace c) (h : Layout ts cs) :
    Layout ts (blanks ++ cs) := by
  induction blanks with
  | nil => exact h
  | cons c blanks ih =>
      rw [List.forall_mem_cons] at hblanks
      exact .space hblanks.1 (ih hblanks.2)

end Layout

end Token

/-! ## Printed values -/

namespace Value

open Token

/-- Prove something of a value from the same for the values inside it. -/
@[elab_as_elim]
theorem induction {motive : Value → Prop} (null : motive .null) (bool : ∀ b, motive (.bool b))
    (number : ∀ n, motive (.number n)) (string : ∀ s, motive (.string s))
    (array : ∀ vs : List Value, (∀ v ∈ vs, motive v) → motive (.array vs))
    (object : ∀ ms : List (String × Value), (∀ m ∈ ms, motive m.2) → motive (.object ms))
    (v : Value) : motive v :=
  @Value.rec motive (fun vs ↦ ∀ v ∈ vs, motive v) (fun ms ↦ ∀ m ∈ ms, motive m.2)
    (fun m ↦ motive m.2) null bool number string array object
    (by simp) (fun _ _ hv hvs ↦ List.forall_mem_cons.2 ⟨hv, hvs⟩)
    (by simp) (fun _ _ hm hms ↦ List.forall_mem_cons.2 ⟨hm, hms⟩) (fun _ _ h ↦ h) v

/-- The text is one of the value, whatever stands behind it. -/
def Prints (v : Value) (text : List Char) : Prop :=
  ∀ ts cs, Layout ts cs → Delimited cs → Layout (v.tokens ++ ts) (text ++ cs)

theorem Prints.layout {v : Value} {text : List Char} (h : v.Prints text) :
    Layout v.tokens text := by
  simpa using h [] [] .nil (by simp [Delimited])

theorem prints_scalar {v : Value} {t : Token} {text : List Char} (hv : v.tokens = [t])
    (htext : text = t.spell) (ht : t.Sound) (hends : ∀ cs, Delimited cs → t.EndsBefore cs) :
    v.Prints text := by
  intro ts cs h hcs
  rw [hv, htext]
  exact .token ht (hends cs hcs) h

variable {gap blanks cs : List Char} {ts : List Token} {print : Value → List Char}

def laterItemChars (print : Value → List Char) (gap : List Char) (vs : List Value) : List Char :=
  vs.flatMap fun v ↦ ',' :: (gap ++ print v)

def laterMemberChars (print : Value → List Char) (gap blanks : List Char)
    (ms : List (String × Value)) : List Char :=
  ms.flatMap fun m ↦ ',' :: (gap ++ (quote m.1 ++ ':' :: (blanks ++ print m.2)))

theorem delimited_of_isSpace {c : Char} (h : isSpace c) : Delimited (c :: cs) := by
  have hc : c = ' ' ∨ c = '\n' ∨ c = '\t' ∨ c = '\r' := by simpa [isSpace, or_assoc] using h
  rcases hc with rfl | rfl | rfl | rfl <;> simp [Delimited] <;> decide

theorem delimited_spaces (hblanks : ∀ c ∈ blanks, isSpace c) (h : Delimited cs) :
    Delimited (blanks ++ cs) := by
  cases blanks with
  | nil => exact h
  | cons c blanks => exact delimited_of_isSpace (hblanks c (by simp))

theorem layout_laterItems {vs : List Value} (hgap : ∀ c ∈ gap, isSpace c)
    (hvs : ∀ v ∈ vs, v.Prints (print v)) (h : Layout ts cs) (hcs : Delimited cs) :
    Layout (laterItemTokens vs ++ ts) (laterItemChars print gap vs ++ cs) ∧
      Delimited (laterItemChars print gap vs ++ cs) := by
  induction vs with
  | nil => exact ⟨h, hcs⟩
  | cons v vs ih =>
      rw [List.forall_mem_cons] at hvs
      obtain ⟨hlayout, hdelimited⟩ := ih hvs.2
      refine ⟨?_, by simp [laterItemChars, Delimited]; decide⟩
      have hv := (hvs.1 _ _ hlayout hdelimited).spaces hgap
      simpa [laterItemTokens, laterItemChars, spell] using
        Layout.token (t := .comma) trivial trivial hv

theorem layout_member {m : String × Value} (hblanks : ∀ c ∈ blanks, isSpace c)
    (hm : m.2.Prints (print m.2)) (h : Layout ts cs) (hcs : Delimited cs) :
    Layout (.string (some m.1) :: .colon :: (m.2.tokens ++ ts))
      (quote m.1 ++ ':' :: (blanks ++ (print m.2 ++ cs))) :=
  .token (t := .string (some m.1)) trivial trivial
    (.token (t := .colon) trivial trivial ((hm ts cs h hcs).spaces hblanks))

theorem layout_laterMembers {ms : List (String × Value)} (hgap : ∀ c ∈ gap, isSpace c)
    (hblanks : ∀ c ∈ blanks, isSpace c) (hms : ∀ m ∈ ms, m.2.Prints (print m.2))
    (h : Layout ts cs) (hcs : Delimited cs) :
    Layout (laterMemberTokens ms ++ ts) (laterMemberChars print gap blanks ms ++ cs) ∧
      Delimited (laterMemberChars print gap blanks ms ++ cs) := by
  induction ms with
  | nil => exact ⟨h, hcs⟩
  | cons m ms ih =>
      rw [List.forall_mem_cons] at hms
      obtain ⟨hlayout, hdelimited⟩ := ih hms.2
      refine ⟨?_, by simp [laterMemberChars, Delimited]; decide⟩
      have hm := (layout_member hblanks hms.1 hlayout hdelimited).spaces hgap
      simpa [laterMemberTokens, laterMemberChars, spell] using
        Layout.token (t := .comma) trivial trivial hm

theorem prints_array {v : Value} {vs : List Value} (gap last : List Char)
    (hgap : ∀ c ∈ gap, isSpace c) (hlast : ∀ c ∈ last, isSpace c) (print : Value → List Char)
    (hvs : ∀ w ∈ v :: vs, w.Prints (print w)) :
    (array (v :: vs)).Prints
      ('[' :: (gap ++ (print v ++ (laterItemChars print gap vs ++ (last ++ [']']))))) := by
  intro ts cs h _
  rw [List.forall_mem_cons] at hvs
  have hclose : Layout (.closeArray :: ts) (last ++ (']' :: cs)) :=
    (Layout.token (t := .closeArray) trivial trivial h).spaces hlast
  obtain ⟨hlater, hdelimited⟩ := layout_laterItems hgap hvs.2 hclose
    (delimited_spaces hlast (by simp [Delimited]; decide))
  simpa [tokens, itemTokens, spell] using
    Layout.token (t := .openArray) trivial trivial ((hvs.1 _ _ hlater hdelimited).spaces hgap)

theorem prints_object {m : String × Value} {ms : List (String × Value)}
    (gap blanks last : List Char) (hgap : ∀ c ∈ gap, isSpace c) (hblanks : ∀ c ∈ blanks, isSpace c)
    (hlast : ∀ c ∈ last, isSpace c) (print : Value → List Char)
    (hms : ∀ n ∈ m :: ms, n.2.Prints (print n.2)) :
    (object (m :: ms)).Prints ('\x7b' :: (gap ++ (quote m.1 ++ ':' :: (blanks ++ (print m.2 ++
      (laterMemberChars print gap blanks ms ++ (last ++ ['\x7d']))))))) := by
  intro ts cs h _
  rw [List.forall_mem_cons] at hms
  have hclose : Layout (.closeObject :: ts) (last ++ ('\x7d' :: cs)) :=
    (Layout.token (t := .closeObject) trivial trivial h).spaces hlast
  obtain ⟨hlater, hdelimited⟩ := layout_laterMembers hgap hblanks hms.2 hclose
    (delimited_spaces hlast (by simp [Delimited]; decide))
  simpa [tokens, memberTokens, spell] using Layout.token (t := .openObject) trivial trivial
    ((layout_member hblanks hms.1 hlater hdelimited).spaces hgap)

theorem prints_nil : (array []).Prints ['[', ']'] ∧ (object []).Prints ['\x7b', '\x7d'] :=
  ⟨fun _ _ h _ ↦ .token (t := .openArray) trivial trivial
      (.token (t := .closeArray) trivial trivial h),
    fun _ _ h _ ↦ .token (t := .openObject) trivial trivial
      (.token (t := .closeObject) trivial trivial h)⟩

/-! ### The compact form -/

theorem flatMap_spell_laterItems (vs : List Value) :
    (laterItemTokens vs).flatMap spell = laterItemChars compactChars [] vs := by
  induction vs with
  | nil => rfl
  | cons v vs ih => simp [laterItemTokens, laterItemChars, compactChars, spell, ih]

theorem flatMap_spell_laterMembers (ms : List (String × Value)) :
    (laterMemberTokens ms).flatMap spell = laterMemberChars compactChars [] [] ms := by
  induction ms with
  | nil => rfl
  | cons m ms ih => simp [laterMemberTokens, laterMemberChars, compactChars, spell, ih]

theorem prints_compactChars (v : Value) : v.Prints v.compactChars := by
  induction v using induction with
  | null => exact prints_scalar rfl rfl trivial fun _ _ ↦ trivial
  | bool b => exact prints_scalar rfl (by simp [compactChars, tokens]) trivial fun _ _ ↦ trivial
  | number n => exact prints_scalar rfl (by simp [compactChars, tokens]) trivial fun _ h ↦ h
  | string s => exact prints_scalar rfl (by simp [compactChars, tokens]) trivial fun _ _ ↦ trivial
  | array vs ih =>
      cases vs with
      | nil => exact prints_nil.1
      | cons v vs =>
          have h := prints_array [] [] (by simp) (by simp) compactChars ih
          simpa [compactChars, tokens, itemTokens, spell, ← flatMap_spell_laterItems] using h
  | object ms ih =>
      cases ms with
      | nil => exact prints_nil.2
      | cons m ms =>
          have h := prints_object [] [] [] (by simp) (by simp) (by simp) compactChars ih
          simpa [compactChars, tokens, memberTokens, spell, ← flatMap_spell_laterMembers] using h

theorem layout_compact (v : Value) : Layout v.tokens v.compact.toList := by
  simpa [compact] using v.prints_compactChars.layout

/-! ### The pretty form -/

theorem isSpace_of_mem_newline {depth : Nat} : ∀ c ∈ newline depth, isSpace c := by
  simp only [newline, List.forall_mem_cons]
  exact ⟨rfl, fun c hc ↦ List.eq_of_mem_replicate hc ▸ rfl⟩

theorem prettyItems_eq (depth : Nat) (vs : List Value) :
    prettyItems depth vs = laterItemChars (prettyChars depth) (newline depth) vs := by
  induction vs with
  | nil => rfl
  | cons v vs ih => simp [prettyItems, laterItemChars, ih]

theorem prettyMembers_eq (depth : Nat) (ms : List (String × Value)) :
    prettyMembers depth ms = laterMemberChars (prettyChars depth) (newline depth) [' '] ms := by
  induction ms with
  | nil => rfl
  | cons m ms ih => simp [prettyMembers, laterMemberChars, ih]

theorem prints_prettyChars (v : Value) (depth : Nat) : v.Prints (v.prettyChars depth) := by
  induction v using induction generalizing depth with
  | null => exact prints_scalar rfl rfl trivial fun _ _ ↦ trivial
  | bool b => exact prints_scalar rfl rfl trivial fun _ _ ↦ trivial
  | number n => exact prints_scalar rfl rfl trivial fun _ h ↦ h
  | string s => exact prints_scalar rfl rfl trivial fun _ _ ↦ trivial
  | array vs ih =>
      cases vs with
      | nil => exact prints_nil.1
      | cons v vs =>
          have h := prints_array (newline (depth + 1)) (newline depth) isSpace_of_mem_newline
            isSpace_of_mem_newline (prettyChars (depth + 1)) fun w hw ↦ ih w hw (depth + 1)
          simpa [prettyChars, prettyItems_eq] using h
  | object ms ih =>
      cases ms with
      | nil => exact prints_nil.2
      | cons m ms =>
          have h := prints_object (newline (depth + 1)) [' '] (newline depth)
            isSpace_of_mem_newline (by simp [isSpace]) isSpace_of_mem_newline
            (prettyChars (depth + 1)) fun n hn ↦ ih n hn (depth + 1)
          simpa [prettyChars, prettyMembers_eq] using h

theorem layout_pretty (v : Value) : Layout v.tokens v.pretty.toList := by
  simpa [pretty] using (v.prints_prettyChars 0).layout

end Value

end Timelock.Json
