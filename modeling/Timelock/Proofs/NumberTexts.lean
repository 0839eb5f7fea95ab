import Mathlib.Data.List.DropRight
import Timelock.Json.Printer

/-!
# Texts of numbers

The text of a number reads back as one number, unless it is followed by something that continues
it.  An integer reads back as itself.
-/

namespace Timelock.Json

namespace Token

/-! ## Reading one token -/

/-- A text that does not continue a number before it. -/
def Delimited (cs : List Char) : Prop :=
  ∀ c ∈ cs.head?, digit? c = none ∧ c ≠ '.' ∧ c ≠ 'e' ∧ c ≠ 'E'

/-- What follows a token does not continue it. -/
def EndsBefore : Token → List Char → Prop
  | .number _, cs => Delimited cs
  | _, _ => True

/-- In mode `m` the text completes the token `t` and nothing else. -/
def Completes (m : Mode) (cs : List Char) (t : Token) : Prop :=
  ∀ rest, t.EndsBefore rest → scanFrom m (cs ++ rest) = t :: scanFrom .start rest

variable {m m' : Mode} {c : Char} {cs after : List Char} {t : Token}

theorem Completes.cons (h : step m c = ([], some m')) (hcs : Completes m' cs t) :
    Completes m (c :: cs) t := by
  intro rest hrest
  simp only [List.cons_append, scanFrom, h, List.nil_append, hcs rest hrest]

theorem Completes.last (h : step m c = ([t], some .start)) : Completes m [c] t := by
  intro rest _
  simp only [List.cons_append, List.nil_append, scanFrom, h]

/-! ## Digits -/

def digitValue (c : Char) : Nat := c.toNat - '0'.toNat

theorem digit?_of_isDigit (h : c.isDigit) : digit? c = some (digitValue c) := by
  have : '0' ≤ c ∧ c ≤ '9' := by simpa [Char.isDigit, Char.le_def] using h
  simp [digit?, this, digitValue]

theorem digitValue_ne_zero (h : c.isDigit) (hc : c ≠ '0') : digitValue c ≠ 0 := by
  intro h0
  have h48 : 48 ≤ c.toNat := by
    have : 48 ≤ c.val.toNat ∧ c.val.toNat ≤ 57 := by
      simpa [Char.isDigit, UInt32.le_iff_toNat_le] using h
    exact this.1
  refine hc (Char.toNat_inj.1 ?_)
  have h0' : c.toNat - 48 = 0 := h0
  exact Nat.le_antisymm (Nat.sub_eq_zero_iff_le.1 h0') h48

/-- Digits that are read one after another in one part of a number. -/
theorem completes_digits {part : NumberPart} {f : Digits → Nat → Digits}
    (hf : ∀ ds c, c.isDigit →
      numberStep part ds c = ([], some (.number part (f ds (digitValue c)))))
    (hcs : ∀ c ∈ cs, c.isDigit) {ds : Digits}
    (h : Completes (.number part ((cs.map digitValue).foldl f ds)) after t) :
    Completes (.number part ds) (cs ++ after) t := by
  induction cs generalizing ds with
  | nil => exact h
  | cons c cs ih =>
      rw [List.forall_mem_cons] at hcs
      exact .cons (hf ds c hcs.1) (ih hcs.2 h)

/-- The parts of a number after which it may end. -/
def NumberPart.closes : NumberPart → Bool
  | .zero | .whole | .fraction | .exponent => true
  | _ => false

theorem numberStep_of_delimited {part : NumberPart} (h : part.closes) (ds : Digits)
    (hc : Delimited (c :: cs)) :
    numberStep part ds c = (.number ds.value :: (startStep c).1, (startStep c).2) := by
  obtain ⟨hd, hp, he, hE⟩ := hc c rfl
  cases part <;> simp_all [NumberPart.closes, numberStep]

theorem completes_nil (part : NumberPart) (h : part.closes) (ds : Digits) :
    Completes (.number part ds) [] (.number ds.value) := by
  rintro (_ | ⟨c, rest⟩) hrest
  · cases part <;> simp_all [NumberPart.closes, scanFrom, finish]
  · simp only [List.nil_append, scanFrom, step, numberStep_of_delimited h ds hrest]
    cases (startStep c).2 <;> rfl

/-! ## Whole numbers -/

/-- The digits of a whole number, with no zero in front. -/
inductive IsWhole : List Char → Prop
  | zero : IsWhole ['0']
  | positive {c : Char} {cs : List Char} (digit : c.isDigit) (leading : c ≠ '0')
      (digits : ∀ d ∈ cs, d.isDigit) : IsWhole (c :: cs)

def sign (negative : Bool) : List Char := if negative then ['-'] else []

def wholeDigits (negative : Bool) (cs : List Char) : Digits :=
  ⟨negative, (cs.map digitValue).reverse, none, none⟩

theorem foldl_wholeStep (negative : Bool) (whole ds : List Nat) :
    ds.foldl wholeStep ⟨negative, whole, none, none⟩ =
      ⟨negative, ds.reverse ++ whole, none, none⟩ := by
  induction ds generalizing whole with
  | nil => rfl
  | cons d ds ih => simp [wholeStep, ih]

/-- The first digit of a number decides between a single zero and a longer number. -/
theorem startStep_of_isDigit (h : c.isDigit) (hc : c ≠ '0') :
    startStep c = ([], some (.number .whole (wholeDigits false [c]))) := by
  have hne : ∀ d : Char, ¬ d.isDigit → c ≠ d := fun d hd hcd ↦ hd (hcd ▸ h)
  have hspace : isSpace c = false := by
    simp [isSpace, hne ' ' (by decide), hne '\n' (by decide), hne '\t' (by decide),
      hne '\r' (by decide)]
  simp [startStep, hspace, hne '[' (by decide), hne ']' (by decide), hne '\x7b' (by decide),
    hne '\x7d' (by decide), hne ',' (by decide), hne ':' (by decide), hne 'n' (by decide),
    hne 't' (by decide), hne 'f' (by decide), hne '"' (by decide), hne '-' (by decide), hc,
    digit?_of_isDigit h, wholeDigits]

theorem completes_whole (negative : Bool) (hcs : IsWhole cs) :
    ∃ part : NumberPart, (part = .zero ∨ part = .whole) ∧
      ∀ after t, Completes (.number part (wholeDigits negative cs)) after t →
        Completes .start (sign negative ++ (cs ++ after)) t := by
  cases hcs with
  | zero =>
      refine ⟨.zero, .inl rfl, fun after t h ↦ ?_⟩
      cases negative
      · exact .cons rfl h
      · exact .cons rfl (.cons rfl h)
  | @positive c cs digit leading digits =>
      refine ⟨.whole, .inr rfl, fun after t h ↦ ?_⟩
      have hrest : Completes (.number .whole (wholeDigits negative [c])) (cs ++ after) t := by
        refine completes_digits (f := wholeStep) (fun ds d hd ↦ ?_) digits ?_
        · simp [numberStep, digit?_of_isDigit hd]
        · simpa [foldl_wholeStep, wholeDigits] using h
      cases negative
      · exact .cons (startStep_of_isDigit digit leading) hrest
      · refine .cons rfl (.cons ?_ hrest)
        simp [step, numberStep, digit?_of_isDigit digit, digitValue_ne_zero digit leading,
          wholeStep, wholeDigits]

/-! ## Fractions and exponents -/

/-- Nothing, or digits behind a point. -/
inductive IsFraction : List Char → Prop
  | none : IsFraction []
  | point {cs : List Char} (ne : cs ≠ []) (digits : ∀ c ∈ cs, c.isDigit) : IsFraction ('.' :: cs)

/-- Nothing, or digits behind a mark, with a sign or without one. -/
inductive IsExponent : List Char → Prop
  | none : IsExponent []
  | marked {mark : Char} {signed cs : List Char} (hmark : mark = 'e' ∨ mark = 'E')
      (hsigned : signed = [] ∨ signed = ['+'] ∨ signed = ['-']) (ne : cs ≠ [])
      (digits : ∀ c ∈ cs, c.isDigit) : IsExponent (mark :: (signed ++ cs))

/-- The texts of numbers. -/
inductive IsNumeral : List Char → Prop
  | parts (negative : Bool) {whole fraction exponent : List Char} (hwhole : IsWhole whole)
      (hfraction : IsFraction fraction) (hexponent : IsExponent exponent) :
      IsNumeral (sign negative ++ (whole ++ (fraction ++ exponent)))

theorem IsExponent.completes (h : IsExponent cs) {part : NumberPart}
    (hpart : part = .zero ∨ part = .whole ∨ part = .fraction) (ds : Digits) :
    ∃ v, Completes (.number part ds) cs (.number v) := by
  cases h with
  | none =>
      have hcloses : part.closes := by rcases hpart with rfl | rfl | rfl <;> rfl
      exact ⟨_, completes_nil part hcloses ds⟩
  | @marked mark signed cs hmark hsigned ne digits =>
      obtain ⟨d, cs, rfl⟩ := List.exists_cons_of_ne_nil ne
      rw [List.forall_mem_cons] at digits
      have hstart : step (.number part ds) mark = ([], some (.number .exponentMark ds)) := by
        rcases hmark with rfl | rfl <;> rcases hpart with rfl | rfl | rfl <;> rfl
      -- With a sign or without one, the first digit comes next.
      have hsign : ∃ es, ∀ t after,
          Completes (.number .exponent (exponentStep es (digitValue d))) after t →
          Completes (.number .exponentMark ds) (signed ++ d :: after) t := by
        rcases hsigned with rfl | rfl | rfl
        · refine ⟨ds, fun t after h ↦ .cons ?_ h⟩
          simp [step, numberStep, digit?_of_isDigit digits.1]
        · refine ⟨signStep ds false, fun t after h ↦ .cons rfl (.cons ?_ h)⟩
          simp [step, numberStep, digit?_of_isDigit digits.1]
        · refine ⟨signStep ds true, fun t after h ↦ .cons rfl (.cons ?_ h)⟩
          simp [step, numberStep, digit?_of_isDigit digits.1]
      obtain ⟨es, hes⟩ := hsign
      have hdigits := completes_digits (f := exponentStep)
        (fun ds d hd ↦ by simp [numberStep, digit?_of_isDigit hd]) digits.2
        (completes_nil .exponent rfl
          ((cs.map digitValue).foldl exponentStep (exponentStep es (digitValue d))))
      rw [List.append_nil] at hdigits
      exact ⟨_, .cons hstart (hes _ _ hdigits)⟩

theorem IsFraction.completes (h : IsFraction cs) {part : NumberPart}
    (hpart : part = .zero ∨ part = .whole)
    (hafter : ∀ part', part' = .zero ∨ part' = .whole ∨ part' = .fraction → ∀ ds,
      ∃ v, Completes (.number part' ds) after (.number v)) (ds : Digits) :
    ∃ v, Completes (.number part ds) (cs ++ after) (.number v) := by
  cases h with
  | none => exact hafter part (hpart.imp_right .inl) ds
  | point ne digits =>
      obtain ⟨c, cs, rfl⟩ := List.exists_cons_of_ne_nil ne
      rw [List.forall_mem_cons] at digits
      have hpoint : step (.number part ds) '.' = ([], some (.number .point ds)) := by
        rcases hpart with rfl | rfl <;> rfl
      have hfirst : step (.number .point ds) c =
          ([], some (.number .fraction (fractionStep ds (digitValue c)))) := by
        simp [step, numberStep, digit?_of_isDigit digits.1]
      obtain ⟨v, hv⟩ := hafter .fraction (.inr (.inr rfl))
        ((cs.map digitValue).foldl fractionStep (fractionStep ds (digitValue c)))
      have hdigits := completes_digits (f := fractionStep)
        (fun ds d hd ↦ by simp [numberStep, digit?_of_isDigit hd]) digits.2 hv
      exact ⟨v, .cons hpoint (.cons hfirst hdigits)⟩

/-- Every text of a number is read as one number, which may be too large. -/
theorem IsNumeral.completes (h : IsNumeral cs) : ∃ v, Completes .start cs (.number v) := by
  obtain ⟨negative, hwhole, hfraction, hexponent⟩ := h
  obtain ⟨part, hpart, hstart⟩ := completes_whole negative hwhole
  obtain ⟨v, hv⟩ := hfraction.completes hpart (fun _ hpart' ds ↦ hexponent.completes hpart' ds)
    (wholeDigits negative _)
  exact ⟨v, hstart _ _ hv⟩

theorem IsWhole.isNumeral (negative : Bool) (h : IsWhole cs) : IsNumeral (sign negative ++ cs) := by
  simpa using IsNumeral.parts negative h .none .none

end Token

/-! ## Integers -/

theorem isDigit_of_mem_toDigits {n : Nat} : ∀ c ∈ Nat.toDigits 10 n, c.isDigit :=
  fun _ hc ↦ Nat.isDigit_of_mem_toDigits (by decide) (by decide) hc

theorem toDigits_injective : Function.Injective (Nat.toDigits 10) := by
  intro m n h
  calc
    m = Nat.ofDigitChars 10 (Nat.toDigits 10 m) 0 := Nat.ofDigitChars_ten_toDigits.symm
    _ = Nat.ofDigitChars 10 (Nat.toDigits 10 n) 0 := by rw [h]
    _ = n := Nat.ofDigitChars_ten_toDigits

theorem exists_toDigits_eq {n : Nat} (hn : 0 < n) :
    ∃ c cs, Nat.toDigits 10 n = c :: cs ∧ c ≠ '0' := by
  induction n using Nat.strongRecOn with
  | ind n ih =>
      rw [Nat.toDigits_eq_if (by decide)]
      split
      next h =>
        have hdigit : ∀ n < 10, 0 < n → n.digitChar ≠ '0' := by decide
        exact ⟨_, [], rfl, hdigit n h hn⟩
      next h =>
        obtain ⟨c, cs, hcs, hc⟩ := ih (n / 10) (by omega) (by omega)
        exact ⟨c, cs ++ [(n % 10).digitChar], by rw [hcs, List.cons_append], hc⟩

theorem isWhole_toDigits (n : Nat) : Token.IsWhole (Nat.toDigits 10 n) := by
  rcases Nat.eq_zero_or_pos n with rfl | hn
  · exact .zero
  · have hdigits := isDigit_of_mem_toDigits (n := n)
    obtain ⟨c, cs, hcs, hc⟩ := exists_toDigits_eq hn
    rw [hcs, List.forall_mem_cons] at hdigits
    exact hcs ▸ .positive hdigits.1 hc hdigits.2

namespace Token.Digits

theorem le_ofDigitChars (cs : List Char) (n : Nat) : n ≤ Nat.ofDigitChars 10 cs n := by
  rw [Nat.ofDigitChars_eq_ofDigitChars_zero]
  exact (Nat.le_mul_of_pos_left n (Nat.pow_pos (by decide))).trans (Nat.le_add_right _ _)

theorem accumulate_digits {cs : List Char} {n : Nat} (h : Nat.ofDigitChars 10 cs n < wordBound) :
    accumulate n (cs.map digitValue) = (Nat.ofDigitChars 10 cs n, 0) := by
  induction cs generalizing n with
  | nil => rfl
  | cons c cs ih =>
      have hcons : Nat.ofDigitChars 10 (c :: cs) n =
          Nat.ofDigitChars 10 cs (n * 10 + digitValue c) := by
        rw [Nat.ofDigitChars_cons, Nat.mul_comm]; rfl
      rw [hcons] at h ⊢
      have hlt := Nat.lt_of_le_of_lt (le_ofDigitChars cs _) h
      simp only [List.map_cons, accumulate, if_pos hlt, ih h]

theorem accumulate_toDigits {n : Nat} (h : n < wordBound) :
    accumulate 0 ((Nat.toDigits 10 n).map digitValue) = (n, 0) := by
  have hvalue : Nat.ofDigitChars 10 (Nat.toDigits 10 n) 0 = n := Nat.ofDigitChars_ten_toDigits
  rw [accumulate_digits (hvalue.symm ▸ h), hvalue]

theorem value_wholeDigits_toDigits {i : Int}
    (fits : -0x8000000000000000 ≤ i ∧ i < 0x10000000000000000) :
    (wholeDigits (i < 0) (Nat.toDigits 10 i.natAbs)).value = some (.integer i fits) := by
  have hbound : i.natAbs < wordBound := by unfold wordBound; omega
  simp only [value, wholeDigits, List.reverse_reverse, accumulate_toDigits hbound,
    decide_eq_true_eq]
  split
  next hneg =>
    have habs : (-(i.natAbs : Int)) = i := by omega
    rw [dif_pos (by omega)]
    simp only [habs]
  next hpos =>
    have habs : (i.natAbs : Int) = i := by omega
    rw [dif_pos (by omega)]
    simp only [habs]

end Token.Digits

namespace Number

open Token

theorem intText_eq (i : Int) : intText i = sign (i < 0) ++ Nat.toDigits 10 i.natAbs := by
  simp only [intText, sign, decide_eq_true_eq]
  split <;> rfl

theorem completes_intText {i : Int} (fits : -0x8000000000000000 ≤ i ∧ i < 0x10000000000000000) :
    Completes .start (intText i) (.number (some (.integer i fits))) := by
  obtain ⟨part, hpart, hwhole⟩ := completes_whole (i < 0) (isWhole_toDigits i.natAbs)
  have hcloses : part.closes := by rcases hpart with rfl | rfl <;> rfl
  rw [intText_eq, ← Digits.value_wholeDigits_toDigits fits]
  simpa using hwhole [] _ (completes_nil part hcloses _)

end Number

end Timelock.Json

namespace Timelock.Binary64

open Json Token

/-! ## Doubles -/

variable {x : Binary64} {n : Nat} {g : Int}

theorem shiftRatio_pos {num : Nat} (hnum : 0 < num) (den : Nat) (k : Int) :
    0 < (shiftRatio num den k).1 := by
  unfold shiftRatio
  split
  · exact hnum
  · exact Nat.shiftLeft_eq num _ ▸ Nat.mul_pos hnum (Nat.pow_pos (by decide))

theorem gridPoint?_pos (hx : x.isZero = false) (h : x.gridPoint? g = some n) : 0 < n := by
  have hlow : 0 < x.roundingInterval.1 := by
    have : x.significand ≠ 0 := by simpa [isZero] using hx
    simp only [roundingInterval]
    split <;> omega
  have hunit := shiftRatio_pos Nat.one_pos 1 (2 - x.exponent)
  have hgrid : 0 < (if 0 ≤ g then (Nat.pow 10 g.toNat, 1) else (1, Nat.pow 10 (-g).toNat)).2 := by
    split
    · exact Nat.one_pos
    · exact Nat.pow_pos (by decide)
  simp only [gridPoint?] at h
  rcases hr : x.roundingInterval with ⟨lo, v, hi⟩
  rcases hu : shiftRatio 1 1 (2 - x.exponent) with ⟨un, ud⟩
  rcases hg : (if 0 ≤ g then (Nat.pow 10 g.toNat, 1) else (1, Nat.pow 10 (-g).toNat)) with ⟨gn, gd⟩
  rw [hr] at hlow
  rw [hu] at hunit
  rw [hg] at hgrid
  have hscale : 0 < lo * (un * gd) := Nat.mul_pos hlow (Nat.mul_pos hunit hgrid)
  simp only [hr, hu, hg] at h
  generalize v * (un * gd) / (ud * gn) = c at h
  -- Zero lies below the interval, so the lower neighbour is only taken when it is positive.
  rcases Nat.eq_zero_or_pos c with rfl | hc
  · simp only [Nat.zero_mul, Nat.le_zero, hscale.ne', Nat.not_lt_zero, decide_false, Bool.false_and,
      ite_self] at h
    split at h <;> grind
  · split at h <;> grind

theorem shortestDecimal_eq_or_pos (hx : x.isZero = false) :
    x.shortestDecimal = (0, 0) ∨ 0 < x.shortestDecimal.1 := by
  simp only [shortestDecimal]
  rcases hhit : (List.range 17).findSome? _ with _ | ⟨n, g⟩
  · exact .inl rfl
  · obtain ⟨k, _, hk⟩ := List.exists_of_findSome?_eq_some hhit
    obtain ⟨m, hm, hmn⟩ := Option.map_eq_some_iff.1 hk
    cases hmn
    exact .inr (gridPoint?_pos hx hm)

/-- Without the zeros at its end a positive number keeps its first digit. -/
theorem exists_stripZeros_eq (hn : 0 < n) :
    ∃ c cs, stripZeros (Nat.toDigits 10 n) = c :: cs ∧ c.isDigit ∧ c ≠ '0' ∧
      ∀ d ∈ cs, d.isDigit := by
  have hdigits := isDigit_of_mem_toDigits (n := n)
  obtain ⟨c, cs, hcs, hc⟩ := exists_toDigits_eq hn
  rw [hcs] at hdigits ⊢
  have hprefix : stripZeros (c :: cs) <+: c :: cs := List.rdropWhile_prefix (· == '0') (c :: cs)
  have hne : stripZeros (c :: cs) ≠ [] := fun hnil ↦ by
    have := List.rdropWhile_eq_nil_iff.1 hnil c (by simp)
    exact hc (beq_iff_eq.1 this)
  obtain ⟨d, ds, hstrip⟩ := List.exists_cons_of_ne_nil hne
  rw [hstrip, List.cons_prefix_cons] at hprefix
  obtain ⟨rfl, hsub⟩ := hprefix
  rw [List.forall_mem_cons] at hdigits
  exact ⟨d, ds, hstrip, hdigits.1, hc, fun e he ↦ hdigits.2 e (hsub.subset he)⟩

theorem isDigit_of_mem_zeros {k : Nat} {c : Char} (h : c ∈ List.replicate k '0') : c.isDigit := by
  rw [List.eq_of_mem_replicate h]
  decide

theorem isWhole_padded {c : Char} {cs : List Char} (hc : c.isDigit) (hne : c ≠ '0')
    (hcs : ∀ d ∈ cs, d.isDigit) (k m : Nat) :
    IsWhole ((c :: cs).take (k + 1) ++ List.replicate m '0') := by
  refine .positive hc hne fun d hd ↦ ?_
  rcases List.mem_append.1 hd with hd | hd
  · exact hcs d (List.mem_of_mem_take hd)
  · exact isDigit_of_mem_zeros hd

variable {whole fraction es : List Char} {e : Char}

theorem isNumeral_point (negative : Bool) (hwhole : IsWhole whole) (hne : fraction ≠ [])
    (hfraction : ∀ c ∈ fraction, c.isDigit) :
    IsNumeral (sign negative ++ (whole ++ '.' :: fraction)) := by
  simpa using IsNumeral.parts negative hwhole (.point hne hfraction) .none

theorem isExponent_mark (he : e = '+' ∨ e = '-') (hes : es ≠ []) (hdigits : ∀ c ∈ es, c.isDigit) :
    IsExponent ('e' :: e :: es) := by
  have hsigned : [e] = [] ∨ [e] = ['+'] ∨ [e] = ['-'] := by rcases he with rfl | rfl <;> simp
  exact .marked (.inl rfl) hsigned hes hdigits

/-- The notation is chosen by the decimal exponent: digits and a point, zeros behind the point, or
one digit in front of it and an exponent. -/
theorem isNumeral_magnitudeText (negative : Bool) (x : Binary64) :
    IsNumeral (sign negative ++ x.magnitudeText) := by
  have hzero : IsNumeral (sign negative ++ ['0', '.', '0']) :=
    isNumeral_point negative .zero (by simp) fun c hc ↦ isDigit_of_mem_zeros (k := 1) hc
  simp only [magnitudeText]
  split
  next => exact hzero
  next hx =>
    rcases shortestDecimal_eq_or_pos (x := x) (by simpa using hx) with h | h
    · simpa [h, stripZeros] using hzero
    obtain ⟨c, cs, hstrip, hc, hne, hcs⟩ := exists_stripZeros_eq h
    simp only [hstrip]
    split
    next =>
      refine isNumeral_point negative (isWhole_padded hc hne hcs _ _) ?_ fun d hd ↦ ?_
      · split <;> simp_all
      · split at hd
        · exact isDigit_of_mem_zeros (k := 1) hd
        · exact hcs d (List.mem_of_mem_drop hd)
    next =>
      split
      next =>
        refine isNumeral_point negative .zero (by simp) fun d hd ↦ ?_
        rcases List.mem_append.1 hd with hd | hd
        · exact isDigit_of_mem_zeros hd
        · rcases List.mem_cons.1 hd with rfl | hd
          · exact hc
          · exact hcs d hd
      next =>
        have hone : IsWhole [c] := .positive hc hne (by simp)
        cases cs with
        | nil =>
            apply IsNumeral.parts negative hone .none
            refine isExponent_mark ?_ Nat.toDigits_ne_nil isDigit_of_mem_toDigits
            split <;> simp
        | cons d ds =>
            apply IsNumeral.parts negative hone (.point (List.cons_ne_nil d ds) hcs)
            refine isExponent_mark ?_ Nat.toDigits_ne_nil isDigit_of_mem_toDigits
            split <;> simp

theorem isNumeral_text (x : Binary64) : IsNumeral x.text := by
  have h := isNumeral_magnitudeText x.negative x
  unfold sign at h
  unfold text
  split at h <;> simpa [*] using h

end Timelock.Binary64

namespace Timelock.Json.Number

open Token

/-- The number that the text of a number denotes. -/
def reading (n : Number) : Option Number :=
  match scan n.text with
  | [.number v] => v
  | _ => none

theorem reading_eq_of_completes {n : Number} {v : Option Number}
    (h : Completes .start n.text (.number v)) : n.reading = v := by
  have hscan : scan n.text = [.number v] := by
    simpa [scan, scanFrom, finish] using h [] (by simp [EndsBefore, Delimited])
  simp only [reading, hscan]

theorem isNumeral_text (n : Number) : IsNumeral n.text := by
  cases n with
  | integer i fits =>
      rw [text, intText_eq]
      exact (isWhole_toDigits i.natAbs).isNumeral _
  | float x => exact x.isNumeral_text

theorem completes_text (n : Number) : Completes .start n.text (.number n.reading) := by
  obtain ⟨v, hv⟩ := n.isNumeral_text.completes
  rwa [reading_eq_of_completes hv]

@[simp] theorem reading_integer (i : Int)
    (fits : -0x8000000000000000 ≤ i ∧ i < 0x10000000000000000) :
    (integer i fits).reading = some (.integer i fits) :=
  reading_eq_of_completes (completes_intText fits)

end Timelock.Json.Number
