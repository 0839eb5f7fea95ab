import Mathlib.Data.List.TakeWhile
import Mathlib.Logic.Relation
import Timelock.World.Turns

/-!
# Steps of a world

What may happen next, in whatever order: any thread that can move moves, or time passes to the
next due moment when none can.  A world that comes to rest in turns has got there by such steps.
-/

namespace Timelock

namespace World

inductive Step (e : Engine) (w : World) : World → Prop
  | move (x : Thread) (w' : World) (h : w.move? e x = some w') : Step e w w'
  | wait (due : Nat) (idle : ∀ x, w.canMove e x = false) (h : earliest? (w.dues e) = some due) :
      Step e w (w.waitUntil due)

abbrev Steps (e : Engine) : World → World → Prop := Relation.ReflTransGen (Step e)

theorem mem_threads_of_run {w : World} {r : Nat} {x : Run} {y : Thread}
    (hx : w.runs[r]? = some x) (hy : y ∈ runThreads r x.phase) : y ∈ w.threads :=
  List.mem_append_left _
    (List.mem_flatMap.2 ⟨(x, r), List.mem_zipIdx_iff_getElem?.2 hx, hy⟩)

theorem run_mem_runThreads {e : Engine} {j : Job} {numbers : TaskNumbers} {now r : Nat}
    {cancelled : Bool} {p : Phase} {a : Phase.Advance}
    (h : p.advance? e j numbers now cancelled = some a) :
    .run r ∈ runThreads r p := by
  have hp : p.isSettled = false := by
    cases p <;> first | rfl | simp [Phase.advance?] at h
  simp [runThreads, hp]

theorem task_mem_runThreads {e : Engine} {now r i : Nat} {cancelled : Bool} {p : Phase}
    {a : Phase.Advance} (h : p.advanceTask? e now cancelled i = some a) :
    .task r i ∈ runThreads r p := by
  unfold Phase.advanceTask? at h
  split at h
  next x q l =>
    split at h
    · cases h
    next t ht =>
      split at h
      · cases h
      next b hb =>
        have hn : t.hasEnded = false := by
          cases hs : t.state with
          | ended => simp [Task.advance?, hs] at hb
          | waiting => simp [Task.hasEnded, hs]
          | running => simp [Task.hasEnded, hs]
        refine List.mem_cons_of_mem _ (List.mem_filterMap.2 ⟨(t, i), ?_, by simp [hn]⟩)
        exact List.mem_zipIdx_iff_getElem?.2 ht
  next => cases h

/-- Only threads that have not come to their end can move. -/
theorem mem_threads_of_move {e : Engine} {w w' : World} {x : Thread}
    (h : w.move? e x = some w') : x ∈ w.threads := by
  cases x with
  | run r =>
      simp only [move?, moveRun?] at h
      split at h
      · cases h
      next hx =>
        split at h
        · cases h
        next ha => exact mem_threads_of_run hx (run_mem_runThreads ha)
  | task r i =>
      simp only [move?, moveTask?] at h
      split at h
      · cases h
      next hx =>
        split at h
        · cases h
        next ha => exact mem_threads_of_run hx (task_mem_runThreads ha)
  | alarm k =>
      simp only [move?, moveAlarm?] at h
      split at h
      · cases h
      next a ha =>
        simp only [Option.ite_none_right_eq_some, Bool.and_eq_true, Bool.not_eq_true'] at h
        refine List.mem_append_right _ (List.mem_filterMap.2 ⟨(a, k), ?_, by simp [h.1.1]⟩)
        exact List.mem_zipIdx_iff_getElem?.2 ha

theorem canMove_of_refresh {e : Engine} {w : World} {t : Turns} {x : Thread} {xs : List Thread}
    (h : (w.refresh e t).queue = x :: xs) : w.canMove e x = true := by
  obtain ⟨l, hl⟩ : ∃ l : List Thread,
      (w.refresh e t).queue = l.dropWhile (fun x ↦ !w.canMove e x) := ⟨_, rfl⟩
  have hd := List.head?_dropWhile_not (fun x ↦ !w.canMove e x) l
  rw [← hl, h] at hd
  simpa using hd

/-- No turn is left only if no thread can move. -/
theorem idle_of_refresh {e : Engine} {w : World} {t : Turns} (h : (w.refresh e t).queue = [])
    {x : Thread} (hx : x ∈ w.threads) : w.canMove e x = false := by
  simp only [refresh, List.dropWhile_eq_nil_iff, List.mem_append, List.mem_filter,
    List.mem_eraseDups] at h
  by_cases hq : x ∈ t.queue
  · simpa using h x (.inl (.inl ⟨hq, by simpa using hx⟩))
  · by_cases hp : .turn x ∈ t.waits
    · cases hm : w.canMove e x with
      | false => rfl
      | true =>
          have ho : x ∈ ((t.waits.filter (fun y ↦ w.threads.contains y.thread)).filter
              (w.isOver e)).map Wait.thread :=
            List.mem_map.2 ⟨.turn x, by simp [hp, hx, hm, isOver, Wait.thread], rfl⟩
          simpa [hm] using h x (.inl (.inr ⟨ho, by simpa using hp⟩))
    · simpa using h x (.inr ⟨hx, by simp [hq, hp]⟩)

theorem step_of_moveNow {e : Engine} {w w' : World} {t t' : Turns}
    (h : w.moveNow? e t = some (w', t')) : Step e w w' := by
  simp only [moveNow?] at h
  split at h
  · cases h
  next x xs _ =>
    split at h
    next hm =>
      cases h
      exact .move x _ hm
    · cases h

theorem idle_of_moveNow {e : Engine} {w : World} {t : Turns} (h : w.moveNow? e t = none)
    (x : Thread) : w.canMove e x = false := by
  simp only [moveNow?] at h
  split at h
  next hq =>
    cases hm : w.move? e x with
    | none => simp [canMove, hm]
    | some w' => exact idle_of_refresh hq (mem_threads_of_move hm)
  next y ys hq =>
    have hy := canMove_of_refresh hq
    split at h
    · cases h
    next hm => simp [canMove, hm] at hy

theorem steps_of_next {e : Engine} {w w' : World} {t t' : Turns}
    (h : w.next? e t = some (w', t')) : Steps e w w' := by
  simp only [next?] at h
  split at h
  · cases h
  · split at h
    next hm =>
      cases h
      exact .single (step_of_moveNow hm)
    next hm =>
      split at h
      next due hd =>
        exact .tail (.single (.wait due (idle_of_moveNow hm) hd)) (step_of_moveNow h)
      · cases h

theorem steps_settle (e : Engine) (w : World) (t : Turns) : Steps e w (w.settle e t) := by
  fun_induction settle e w t with
  | case1 w t w' t' h _ ih => exact (steps_of_next h).trans ih
  | case2 => exact .refl

/-- Running in turns is one of the ways in which runs can go. -/
theorem steps_run (e : Engine) (w : World) : Steps e w (w.run e) := steps_settle e w {}

end World

end Timelock
