import Mathlib.Data.List.Basic
import Timelock.AnalysisError
import Timelock.NodeScope
import Timelock.Proofs.NumberTexts
import Timelock.Proofs.Splitting

/-!
# Texts of paths

The text of a path consists of parts with points between them, each of them a word and, in
brackets, an index.  No part has a point or a space, so a text is cut into its parts at the points,
and it is cut off at the first space of a text that goes on behind it.
-/

namespace Timelock

@[simp] theorem Direction.name_inj {d d' : Direction} : d.name = d'.name ↔ d = d' := by
  cases d <;> cases d' <;> decide

theorem Level.space_notMem_name (l : Level) : ' ' ∉ l.name.toList := by
  cases l <;> decide

namespace NodePath

variable {word word' : String} {n n' : Nat} {c : Char}

/-! ## Indices -/

theorem toList_indexText (word : String) (n : Nat) :
    (indexText word n).toList = word.toList ++ '[' :: (Nat.toDigits 10 n ++ [']']) := by
  simp [indexText, Text.decimal]

theorem indexText_inj (hword : '[' ∉ word.toList) (hword' : '[' ∉ word'.toList)
    (h : indexText word n = indexText word' n') : word = word' ∧ n = n' := by
  rw [← String.toList_inj, toList_indexText, toList_indexText] at h
  have hne : ∀ {w : String}, '[' ∉ w.toList → ∀ c ∈ w.toList, ¬ c = '[' :=
    fun hw c hc hbracket ↦ hw (hbracket ▸ hc)
  obtain ⟨hwords, _, hdigits⟩ := Splitting.append_cons_inj (hne hword) rfl (hne hword') rfl h
  exact ⟨String.toList_inj.1 hwords, Json.toDigits_injective (List.append_cancel_right hdigits)⟩

/-! ## Parts -/

/-- A word of letters, with an index if it does not name the root. -/
structure Part where
  word : String
  index : Option Nat
  letters : word.toList.all Char.isAlpha

namespace Part

def proposal : Part := ⟨"proposal", none, by decide⟩

def batch (b : Nat) : Part := ⟨"batch", some b, by decide⟩

def call (c : Nat) : Part := ⟨"call", some c, by decide⟩

def parameter (d : Direction) (i : Nat) : Part := ⟨d.name, some i, by cases d <;> decide⟩

def text (p : Part) : String :=
  match p.index with
  | none => p.word
  | some n => indexText p.word n

theorem notMem_word (p : Part) (hc : c.isAlpha = false) : c ∉ p.word.toList :=
  fun hmem ↦ by simp [List.all_eq_true.1 p.letters c hmem] at hc

theorem text_injective : Function.Injective text := by
  rintro ⟨word, index, hword⟩ ⟨word', index', hword'⟩ h
  have hbracket : '[' ∉ word.toList := notMem_word ⟨word, index, hword⟩ (by decide)
  have hbracket' : '[' ∉ word'.toList := notMem_word ⟨word', index', hword'⟩ (by decide)
  -- Only a part with an index has a bracket.
  have hindexed : ∀ w k, '[' ∈ (indexText w k).toList := fun w k ↦ by simp [toList_indexText]
  cases index with
  | none =>
      cases index' with
      | none =>
          obtain rfl : word = word' := h
          rfl
      | some n' =>
          obtain rfl : word = indexText word' n' := h
          exact absurd (hindexed word' n') hbracket
  | some n =>
      cases index' with
      | none =>
          obtain rfl : indexText word n = word' := h
          exact absurd (hindexed word n) hbracket'
      | some n' =>
          obtain ⟨rfl, rfl⟩ := indexText_inj hbracket hbracket' h
          rfl

/-- There are letters, digits and brackets only. -/
theorem notMem_text (p : Part) (hc : (c.isAlpha || c.isDigit || c == '[' || c == ']') = false) :
    c ∉ p.text.toList := by
  simp only [Bool.or_eq_false_iff, beq_eq_false_iff_ne] at hc
  obtain ⟨⟨⟨halpha, hdigit⟩, hopen⟩, hclose⟩ := hc
  have hword := p.notMem_word halpha
  unfold text
  split
  next => exact hword
  next n _ =>
    have hdigits : c ∉ Nat.toDigits 10 n := fun hmem ↦ by
      simp [Json.isDigit_of_mem_toDigits c hmem] at hdigit
    simp [toList_indexText, hword, hopen, hdigits, hclose]

end Part

def parts : NodePath → List Part
  | .proposal => [.proposal]
  | .batch b => [.batch b]
  | .call b c => [.batch b, .call c]
  | .parameter b c d i => [.batch b, .call c, .parameter d i]

theorem parts_injective : Function.Injective parts := by
  intro p q h
  cases p <;> cases q <;>
    simp_all [parts, Part.proposal, Part.batch, Part.call, Part.parameter]

/-! ## Texts -/

theorem text_eq_intercalate (p : NodePath) : p.text = ".".intercalate (p.parts.map Part.text) := by
  cases p <;>
    simp [text, parts, Part.text, Part.proposal, Part.batch, Part.call, Part.parameter,
      String.append_assoc]

theorem splitOn_text (p : NodePath) :
    p.text.toList.splitOn '.' = p.parts.map (fun part ↦ part.text.toList) := by
  have hpoint : ∀ l ∈ p.parts.map (fun part ↦ part.text.toList), '.' ∉ l := by
    rw [List.forall_mem_map]
    exact fun part _ ↦ part.notMem_text (by decide)
  have hne : p.parts.map (fun part ↦ part.text.toList) ≠ [] := by cases p <;> simp [parts]
  rw [text_eq_intercalate, String.toList_intercalate, List.map_map]
  exact List.splitOn_intercalate '.' hpoint hne

theorem text_injective : Function.Injective text := by
  intro p q h
  have hchars : Function.Injective (fun part : Part ↦ part.text.toList) := fun _ _ hparts ↦
    Part.text_injective (String.toList_inj.1 hparts)
  apply parts_injective
  apply List.map_injective_iff.2 hchars
  rw [← splitOn_text p, h, splitOn_text q]

theorem space_notMem_text (p : NodePath) : ' ' ∉ p.text.toList := by
  have hparts : ∀ part : Part, ' ' ∉ part.text.toList := fun part ↦ part.notMem_text (by decide)
  rw [text_eq_intercalate]
  cases p <;> simp [parts, hparts]

end NodePath

/-! ## Texts that go on behind a space -/

namespace Text

variable {word word' s s' : String}

/-- Nothing, or something behind a space. -/
def SetOff (s : String) : Prop := s = "" ∨ ∃ t, s = " " ++ t

theorem SetOff.append (h : SetOff s) (h' : SetOff s') : SetOff (s ++ s') := by
  rcases h with rfl | ⟨t, rfl⟩
  · exact String.empty_append.symm ▸ h'
  · exact .inr ⟨t ++ s', String.append_assoc⟩

theorem takeWhile_append_setOff (hword : ' ' ∉ word.toList) (h : SetOff s) :
    (word ++ s).toList.takeWhile (· != ' ') = word.toList := by
  have hpos : ∀ c ∈ word.toList, (c != ' ') = true := fun c hc ↦
    bne_iff_ne.2 fun hspace ↦ hword (hspace ▸ hc)
  rw [String.toList_append, List.takeWhile_append_of_pos hpos]
  rcases h with rfl | ⟨t, rfl⟩
  · simp
  · simp [String.toList_append]

theorem append_setOff_inj (hword : ' ' ∉ word.toList) (hword' : ' ' ∉ word'.toList)
    (hs : SetOff s) (hs' : SetOff s') (h : word ++ s = word' ++ s') : word = word' ∧ s = s' := by
  have hwords : word = word' := by
    rw [← String.toList_inj, ← takeWhile_append_setOff hword hs, h,
      takeWhile_append_setOff hword' hs']
  subst hwords
  exact ⟨rfl, (String.append_right_inj word).1 h⟩

end Text

namespace NodeScope

open Text (SetOff)

/-- What is told of a scope behind its path. -/
theorem exists_text_eq (s : NodeScope) : ∃ rest, s.text = s.path.text ++ rest ∧ SetOff rest := by
  have hempty : SetOff "" := .inl rfl
  have hspace : ∀ t, SetOff (" " ++ t) := fun t ↦ .inr ⟨t, rfl⟩
  simp only [text, String.append_assoc]
  -- Chain, call and parameter are each told behind a space, or not told at all.
  refine ⟨_, rfl, .append ?_ (.append ?_ ?_)⟩
  all_goals
    split
    · exact hspace _
    · exact hempty

theorem path_eq_of_text_eq {s s' : NodeScope} (h : s.text = s'.text) : s.path = s'.path := by
  obtain ⟨rest, heq, hrest⟩ := s.exists_text_eq
  obtain ⟨rest', heq', hrest'⟩ := s'.exists_text_eq
  rw [heq, heq'] at h
  exact NodePath.text_injective (Text.append_setOff_inj s.path.space_notMem_text
    s'.path.space_notMem_text hrest hrest' h).1

end NodeScope

namespace Stage

/-- The first word of a stage's text. -/
def opening : Stage → String
  | .startup => "startup"
  | .environmentLoading => "environment"
  | .decoding => "decoding"
  | .level p => p.level.name

def remainder : Stage → String
  | .startup => ""
  | .environmentLoading => " loading"
  | .decoding => ""
  | .level p => " pass at " ++ p.text

theorem text_eq (s : Stage) : s.text = s.opening ++ s.remainder := by
  cases s with
  | startup | environmentLoading | decoding => decide
  | level p => exact String.append_assoc

theorem space_notMem_opening (s : Stage) : ' ' ∉ s.opening.toList := by
  cases s with
  | startup | environmentLoading | decoding => decide
  | level p => exact p.level.space_notMem_name

theorem setOff_remainder (s : Stage) : Text.SetOff s.remainder := by
  cases s with
  | startup | decoding => exact .inl rfl
  | environmentLoading => exact .inr ⟨"loading", rfl⟩
  | level p =>
      have hmark : " pass at " = " " ++ "pass at " := rfl
      exact .inr ⟨"pass at " ++ p.text, by rw [remainder, hmark, String.append_assoc]⟩

theorem text_injective : Function.Injective text := by
  intro s s' h
  rw [text_eq, text_eq] at h
  obtain ⟨hopening, hremainder⟩ := Text.append_setOff_inj s.space_notMem_opening
    s'.space_notMem_opening s.setOff_remainder s'.setOff_remainder h
  -- Only a level goes on with a path, and only two stages go on at all.
  have hname : ∀ l : Level, "environment" ≠ l.name := by
    intro l
    cases l <;> decide
  have hname' : ∀ l : Level, l.name ≠ "environment" := fun l ↦ (hname l).symm
  cases s <;> cases s' <;> simp_all [opening, remainder, NodePath.text_injective.eq_iff]

end Stage

/-- A path, a stage of a run, an error and a scope tell by their texts which node they are about. -/
theorem texts_name_one_node :
    Function.Injective NodePath.text ∧ Function.Injective Stage.text ∧
      (∀ s s', AnalysisError.message (.cancelled s) = AnalysisError.message (.cancelled s') →
        s = s') ∧
      (∀ p p', AnalysisError.message (.missingNode p) = AnalysisError.message (.missingNode p') →
        p = p') ∧
      ∀ s s' : NodeScope, s.text = s'.text → s.path = s'.path := by
  refine ⟨NodePath.text_injective, Stage.text_injective, fun s s' h ↦ ?_, fun p p' h ↦ ?_,
    fun s s' ↦ NodeScope.path_eq_of_text_eq⟩
  · exact Stage.text_injective ((String.append_right_inj _).1 h)
  · exact NodePath.text_injective ((String.append_right_inj _).1 h)

example : (Stage.level (.parameter 0 1 .output 12)).text =
    "parameter pass at batch[0].call[1].output[12]" := by
  decide

end Timelock
