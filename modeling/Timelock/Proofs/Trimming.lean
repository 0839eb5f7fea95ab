import Mathlib.Data.List.DropRight
import Timelock.Text.Blank

/-!
# Trimming

Trimming cuts a text into blanks, what is left, and blanks.  Nothing is left of a text exactly if
all of it is blank.
-/

namespace Timelock.Text

theorem trimChars_eq_nil_iff {cs : List Char} :
    trimChars cs = [] ↔ ∀ c ∈ cs, isBlank c = true := by
  change (cs.dropWhile isBlank).rdropWhile isBlank = [] ↔ _
  rw [List.rdropWhile_eq_nil_iff]
  constructor
  · intro h c hc
    rw [← List.takeWhile_append_dropWhile (l := cs) (p := isBlank), List.mem_append] at hc
    exact hc.elim List.mem_takeWhile_imp (h c)
  · exact fun h c hc ↦ h c ((List.dropWhile_suffix isBlank).mem hc)

theorem trim_eq_empty_iff {s : String} : trim s = "" ↔ allBlank s = true := by
  rw [trim, allBlank, List.all_eq_true, ← trimChars_eq_nil_iff, ← String.toList_inj,
    String.toList_ofList]
  rfl

/-- Blanks are all that trimming takes away. -/
theorem exists_trimChars (cs : List Char) :
    ∃ before after, (∀ c ∈ before ++ after, isBlank c = true) ∧
      cs = before ++ (trimChars cs ++ after) := by
  refine ⟨cs.takeWhile isBlank, (cs.dropWhile isBlank).rtakeWhile isBlank, ?_, ?_⟩
  · intro c hc
    rcases List.mem_append.1 hc with hc | hc
    · exact List.mem_takeWhile_imp hc
    · exact List.mem_rtakeWhile_imp hc
  · exact (List.takeWhile_append_dropWhile.symm).trans
      (congrArg _ List.rdropWhile_append_rtakeWhile.symm)

/-- Nothing of a word without blanks is taken away. -/
theorem trimChars_append {before word after : List Char}
    (hblank : ∀ c ∈ before ++ after, isBlank c = true) (hword : ∀ c ∈ word, ¬ isBlank c = true) :
    trimChars (before ++ (word ++ after)) = word := by
  rw [List.forall_mem_append] at hblank
  change ((before ++ (word ++ after)).dropWhile isBlank).rdropWhile isBlank = word
  rw [List.dropWhile_append_of_pos hblank.1]
  cases word with
  | nil =>
      rw [List.nil_append, List.dropWhile_eq_nil_iff.2 hblank.2, List.rdropWhile_nil]
  | cons c word =>
      rw [List.cons_append, List.dropWhile_cons_of_neg (hword c List.mem_cons_self),
        List.rdropWhile, ← List.cons_append, List.reverse_append,
        List.dropWhile_append_of_pos fun c hc ↦ hblank.2 c (List.mem_reverse.1 hc)]
      have hlast := List.rdropWhile_eq_self_iff (p := isBlank) (l := c :: word)
      exact hlast.2 fun hne ↦ hword _ (List.getLast_mem hne)

end Timelock.Text
