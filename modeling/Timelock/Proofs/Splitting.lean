import Mathlib.Logic.Function.Basic

/-!
# Splitting at marks

A list splits in one way only at the first element that is a mark.  So its parts can be told from
one another if each of them ends, or begins, with a mark and has no other.
-/

namespace Timelock.Splitting

variable {α β : Type} {q : α → Prop} {a a' : α} {xs xs' ys ys' : List α}

theorem append_cons_inj (hxs : ∀ x ∈ xs, ¬ q x) (ha : q a) (hxs' : ∀ x ∈ xs', ¬ q x) (ha' : q a')
    (h : xs ++ a :: ys = xs' ++ a' :: ys') : xs = xs' ∧ a = a' ∧ ys = ys' := by
  induction xs generalizing xs' with
  | nil =>
      cases xs' with
      | nil =>
          obtain ⟨rfl, rfl⟩ := List.cons.inj h
          exact ⟨rfl, rfl, rfl⟩
      | cons x xs' =>
          obtain ⟨rfl, _⟩ := List.cons.inj h
          exact absurd ha (hxs' a List.mem_cons_self)
  | cons x xs ih =>
      cases xs' with
      | nil =>
          obtain ⟨rfl, _⟩ := List.cons.inj h
          exact absurd ha' (hxs x List.mem_cons_self)
      | cons x' xs' =>
          obtain ⟨rfl, htail⟩ := List.cons.inj h
          rw [List.forall_mem_cons] at hxs hxs'
          obtain ⟨rfl, heq⟩ := ih hxs.2 hxs'.2 htail
          exact ⟨rfl, heq⟩

/-- Parts that end with a mark. -/
theorem eq_of_flatMap_terminated {a : α} {ls ls' : List (List α)} (hls : ∀ l ∈ ls, a ∉ l)
    (hls' : ∀ l ∈ ls', a ∉ l) (h : ls.flatMap (· ++ [a]) = ls'.flatMap (· ++ [a])) : ls = ls' := by
  induction ls generalizing ls' with
  | nil =>
      cases ls' with
      | nil => rfl
      | cons l' ls' => simp at h
  | cons l ls ih =>
      cases ls' with
      | nil => simp at h
      | cons l' ls' =>
          rw [List.forall_mem_cons] at hls hls'
          simp only [List.flatMap_cons, List.append_assoc, List.singleton_append] at h
          have hne : ∀ l : List α, a ∉ l → ∀ x ∈ l, ¬ x = a := fun l hl x hx hxa ↦ hl (hxa ▸ hx)
          obtain ⟨rfl, _, htail⟩ := append_cons_inj (hne l hls.1) rfl (hne l' hls'.1) rfl h
          rw [ih hls.2 hls'.2 htail]

/-- A part begins with a mark and has no other. -/
def Headed (q : α → Prop) (xs : List α) : Prop := ∃ a as, xs = a :: as ∧ q a ∧ ∀ x ∈ as, ¬ q x

/-- Parts that begin with a mark, with what stands before the first of them. -/
theorem eq_of_append_flatMap {f : β → List α} (hf : Function.Injective f)
    (hheaded : ∀ b, Headed q (f b)) {bs bs' : List β} (hxs : ∀ x ∈ xs, ¬ q x)
    (hxs' : ∀ x ∈ xs', ¬ q x) (h : xs ++ bs.flatMap f = xs' ++ bs'.flatMap f) :
    xs = xs' ∧ bs = bs' := by
  induction bs generalizing xs xs' bs' with
  | nil =>
      cases bs' with
      | nil => simpa using h
      | cons b' bs' =>
          obtain ⟨a, as, hb', ha, _⟩ := hheaded b'
          rw [List.flatMap_nil, List.append_nil, List.flatMap_cons, hb'] at h
          exact absurd ha (hxs a (h ▸ by simp))
  | cons b bs ih =>
      obtain ⟨a, as, hb, ha, has⟩ := hheaded b
      cases bs' with
      | nil =>
          rw [List.flatMap_nil, List.append_nil, List.flatMap_cons, hb] at h
          exact absurd ha (hxs' a (h ▸ by simp))
      | cons b' bs' =>
          obtain ⟨a', as', hb', ha', has'⟩ := hheaded b'
          rw [List.flatMap_cons, List.flatMap_cons, hb, hb'] at h
          obtain ⟨rfl, rfl, htail⟩ := append_cons_inj hxs ha hxs' ha' h
          obtain ⟨rfl, rfl⟩ := ih has has' htail
          obtain rfl := hf (hb.trans hb'.symm)
          exact ⟨rfl, rfl⟩

end Timelock.Splitting
