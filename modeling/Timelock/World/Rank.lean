/-!
# Ranks of several parts

A list of ranks gets smaller when one of them does.  The order is well-founded when the order of
the ranks is.
-/

namespace Timelock

/-- One element is smaller, and the others are the same. -/
inductive OneSmaller {α : Type} (r : α → α → Prop) : List α → List α → Prop
  | here {a b : α} {as : List α} (h : r a b) : OneSmaller r (a :: as) (b :: as)
  | there {a : α} {as bs : List α} (h : OneSmaller r as bs) : OneSmaller r (a :: as) (a :: bs)

namespace OneSmaller

variable {α : Type} {r : α → α → Prop}

theorem acc_cons {b : α} (hb : Acc r b) {bs : List α} (hbs : Acc (OneSmaller r) bs) :
    Acc (OneSmaller r) (b :: bs) := by
  induction hb generalizing bs with
  | intro b _ ihb =>
      induction hbs with
      | intro bs hbs ihbs =>
          refine ⟨_, fun as h ↦ ?_⟩
          cases h with
          | here h => exact ihb _ h ⟨_, hbs⟩
          | there h => exact ihbs _ h

theorem acc (h : WellFounded r) (bs : List α) : Acc (OneSmaller r) bs := by
  induction bs with
  | nil => exact ⟨_, fun _ h ↦ nomatch h⟩
  | cons b bs ih => exact acc_cons (h.apply b) ih

theorem wellFounded (h : WellFounded r) : WellFounded (OneSmaller r) := ⟨acc h⟩

theorem map_modify {β : Type} {f : β → α} {g : β → β} {xs : List β} {i : Nat} {x : β}
    (hx : xs[i]? = some x) (h : r (f (g x)) (f x)) :
    OneSmaller r ((xs.modify i g).map f) (xs.map f) := by
  induction xs generalizing i with
  | nil => simp at hx
  | cons y ys ih =>
      cases i with
      | zero =>
          simp only [List.getElem?_cons_zero, Option.some.injEq] at hx
          subst hx
          simpa using here h
      | succ i =>
          simp only [List.getElem?_cons_succ] at hx
          simpa using there (ih hx)

end OneSmaller

end Timelock
