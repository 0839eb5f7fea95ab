import Timelock.Proofs.Leveling

/-!
# Errors of a dependency graph

A list of declarations that is not accepted is reported for its first repeated name.  Without one
it is reported for the first dependency, along the list, that may not be declared, and for a cycle
only if there is no such dependency either.  The name reported for a cycle lies on one.
-/

namespace Timelock

namespace DependencyGraph

open Declaration Relation

variable {ds : List Declaration} {resolved ids seen xs ys : List String} {x y : String}
  {e : GraphError}

/-! ## The first repeated name -/

/-- The first name of a list that has stood in it before. -/
def IsFirstRepeated (xs : List String) (x : String) : Prop :=
  ∃ before after, xs = before ++ x :: after ∧ before.Nodup ∧ x ∈ before

theorem IsFirstRepeated.not_nodup (h : IsFirstRepeated xs x) : ¬ xs.Nodup := by
  obtain ⟨before, after, rfl, _, hx⟩ := h
  intro hn
  exact (List.nodup_append.1 hn).2.2 x hx x List.mem_cons_self rfl

theorem firstRepeated?_append :
    firstRepeated? seen (xs ++ ys) =
      (firstRepeated? seen xs).or (firstRepeated? (xs.reverse ++ seen) ys) := by
  induction xs generalizing seen with
  | nil => simp [firstRepeated?]
  | cons z xs ih =>
      by_cases hz : z ∈ seen
      · simp [firstRepeated?, hz]
      · simp [firstRepeated?, hz, ih]

theorem exists_split_of_firstRepeated? (h : firstRepeated? seen xs = some x) :
    ∃ before after, xs = before ++ x :: after ∧ firstRepeated? seen before = none ∧
      (x ∈ before ∨ x ∈ seen) := by
  induction xs generalizing seen with
  | nil => simp [firstRepeated?] at h
  | cons z xs ih =>
      by_cases hz : z ∈ seen
      · obtain rfl : z = x := by simpa [firstRepeated?, hz] using h
        exact ⟨[], xs, rfl, rfl, .inr hz⟩
      · simp only [firstRepeated?, List.contains_iff_mem, hz, if_false] at h
        obtain ⟨before, after, rfl, hnone, hx⟩ := ih h
        refine ⟨z :: before, after, rfl, by simpa [firstRepeated?, hz] using hnone, ?_⟩
        rcases hx with hx | hx
        · exact .inl (List.mem_cons_of_mem _ hx)
        · rcases List.mem_cons.1 hx with rfl | hx
          · exact .inl List.mem_cons_self
          · exact .inr hx

theorem firstRepeated?_nil_eq_none_iff : firstRepeated? [] xs = none ↔ xs.Nodup := by
  simp [firstRepeated?_eq_none_iff]

theorem firstRepeated?_nil_eq_some_iff :
    firstRepeated? [] xs = some x ↔ IsFirstRepeated xs x := by
  constructor
  · intro h
    obtain ⟨before, after, hs, hnone, hx⟩ := exists_split_of_firstRepeated? h
    exact ⟨before, after, hs, firstRepeated?_nil_eq_none_iff.1 hnone, by simpa using hx⟩
  · rintro ⟨before, after, rfl, hn, hx⟩
    rw [firstRepeated?_append, firstRepeated?_nil_eq_none_iff.2 hn]
    simp [firstRepeated?, hx]

/-! ## The first dependency that may not be declared -/

/-- Every name with each of its dependencies, along the declarations. -/
def dependencyPairs (ds : List Declaration) : List (String × String) :=
  ds.flatMap fun d ↦ d.dependencies.map fun y ↦ (d.id, y)

/-- A name may depend on the other names of the list and on those that have been resolved. -/
def MayDeclare (ds : List Declaration) (resolved : List String) (x y : String) : Prop :=
  y ≠ x ∧ (y ∈ ds.map Declaration.id ∨ y ∈ resolved)

instance : Decidable (MayDeclare ds resolved x y) :=
  inferInstanceAs (Decidable (_ ∧ _))

def IsFirstRefused (ds : List Declaration) (resolved : List String) (x y : String) : Prop :=
  ∃ before after, dependencyPairs ds = before ++ (x, y) :: after ∧
    (∀ p ∈ before, MayDeclare ds resolved p.1 p.2) ∧ ¬ MayDeclare ds resolved x y

def refusal (x y : String) : GraphError :=
  if y = x then .selfDependency x else .danglingDependency x y

section Refusal

variable {z w : String}

@[simp] theorem duplicateAnalyzer_ne_refusal : ¬ .duplicateAnalyzer z = refusal x y := by
  unfold refusal
  split <;> simp

@[simp] theorem cycleDetected_ne_refusal : ¬ .cycleDetected z = refusal x y := by
  unfold refusal
  split <;> simp

@[simp] theorem selfDependency_eq_refusal_iff :
    .selfDependency z = refusal x y ↔ y = x ∧ z = x := by
  by_cases h : y = x <;> simp [refusal, h]

@[simp] theorem danglingDependency_eq_refusal_iff :
    .danglingDependency z w = refusal x y ↔ y ≠ x ∧ z = x ∧ w = y := by
  by_cases h : y = x <;> simp [refusal, h]

end Refusal

theorem dependencyError?_eq :
    dependencyError? (ds.map Declaration.id) resolved x y =
      if MayDeclare ds resolved x y then none else some (refusal x y) := by
  by_cases hy : y = x
  · simp [dependencyError?, MayDeclare, refusal, hy]
  · simp [dependencyError?, MayDeclare, refusal, hy]

theorem findSome?_declarationError?_eq :
    ds.findSome? (declarationError? ids resolved) =
      (dependencyPairs ds).findSome? (fun p ↦ dependencyError? ids resolved p.1 p.2) := by
  induction ds with
  | nil => rfl
  | cons d ds ih =>
      have hpairs : dependencyPairs (d :: ds) =
          d.dependencies.map (fun y ↦ (d.id, y)) ++ dependencyPairs ds := rfl
      rw [hpairs, List.findSome?_append, List.findSome?_map, ← ih, List.findSome?_cons]
      change _ = (declarationError? ids resolved d).or _
      cases declarationError? ids resolved d <;> rfl

theorem findSome?_declarationError?_eq_some_iff :
    ds.findSome? (declarationError? (ds.map Declaration.id) resolved) = some e ↔
      ∃ x y, IsFirstRefused ds resolved x y ∧ e = refusal x y := by
  simp only [findSome?_declarationError?_eq, List.findSome?_eq_some_iff, dependencyError?_eq,
    Option.ite_none_left_eq_some, Option.some.injEq, ite_eq_left_iff, reduceCtorEq, imp_false,
    not_not]
  constructor
  · rintro ⟨before, ⟨x, y⟩, after, hs, ⟨hno, rfl⟩, hbefore⟩
    exact ⟨x, y, ⟨before, after, hs, hbefore, hno⟩, rfl⟩
  · rintro ⟨x, y, ⟨before, after, hs, hbefore, hno⟩, rfl⟩
    exact ⟨before, (x, y), after, hs, ⟨hno, rfl⟩, hbefore⟩

/-! ## What is reported -/

/-- The three stages at which a list is rejected. -/
theorem build_eq_error_iff :
    build ds resolved = .error e ↔
      (∃ x, IsFirstRepeated (ds.map Declaration.id) x ∧ e = .duplicateAnalyzer x) ∨
      ((ds.map Declaration.id).Nodup ∧ ∃ x y, IsFirstRefused ds resolved x y ∧ e = refusal x y) ∨
      ((ds.map Declaration.id).Nodup ∧
        (∀ d ∈ ds, ∀ y ∈ d.dependencies, MayDeclare ds resolved d.id y) ∧
        ∃ x, firstBackward? (inside ds) [] (order (inside ds)) = some x ∧
          e = .cycleDetected x) := by
  have hnone : ds.findSome? (declarationError? (ds.map Declaration.id) resolved) = none ↔
      ∀ d ∈ ds, ∀ y ∈ d.dependencies, MayDeclare ds resolved d.id y :=
    findSome?_declarationError?_eq_none_iff
  simp only [← firstRepeated?_nil_eq_none_iff, ← firstRepeated?_nil_eq_some_iff,
    ← findSome?_declarationError?_eq_some_iff, ← hnone, build]
  cases hrep : firstRepeated? [] (ds.map Declaration.id) with
  | some z => simp [eq_comm]
  | none =>
      cases herr : ds.findSome? (declarationError? (ds.map Declaration.id) resolved) with
      | some f => simp [eq_comm]
      | none =>
          simp only
          split
          next z hback =>
            have hsome : firstBackward? (inside ds) [] (order (inside ds)) = some z := hback
            simp [hsome, eq_comm]
          next hback =>
            have hnone : firstBackward? (inside ds) [] (order (inside ds)) = none := hback
            simp [hnone]

theorem build_ne_duplicateAnalyzer (hn : (ds.map Declaration.id).Nodup) :
    build ds resolved ≠ .error (.duplicateAnalyzer x) := by
  intro h
  have hfirst : IsFirstRepeated (ds.map Declaration.id) x := by simpa [build_eq_error_iff] using h
  exact hfirst.not_nodup hn

/-- Which lists of declarations are accepted, and what is reported for the others. -/
theorem build_ok_or_error_iff (ds : List Declaration) (resolved : List String) :
    ((∃ g, build ds resolved = .ok g) ↔ WellFormed ds resolved) ∧
    (∀ x, build ds resolved = .error (.duplicateAnalyzer x) ↔
      IsFirstRepeated (ds.map Declaration.id) x) ∧
    (∀ x, build ds resolved = .error (.selfDependency x) ↔
      (ds.map Declaration.id).Nodup ∧ IsFirstRefused ds resolved x x) ∧
    (∀ x y, build ds resolved = .error (.danglingDependency x y) ↔
      (ds.map Declaration.id).Nodup ∧ IsFirstRefused ds resolved x y ∧ y ≠ x) ∧
    ((∃ x, build ds resolved = .error (.cycleDetected x)) ↔
      (ds.map Declaration.id).Nodup ∧
        (∀ d ∈ ds, ∀ y ∈ d.dependencies, MayDeclare ds resolved d.id y) ∧ ¬ Acyclic ds) := by
  refine ⟨?_, ?_, ?_, ?_, ?_⟩
  · simp only [build_eq_ok_iff, exists_and_left, exists_eq, and_true]
  · intro x
    simp [build_eq_error_iff]
  · intro x
    simp [build_eq_error_iff]
  · intro x y
    simp [build_eq_error_iff]
  · have hcycle : (∃ x, firstBackward? (inside ds) [] (order (inside ds)) = some x) ↔
        ¬ firstBackward? (inside ds) [] (order (inside ds)) = none := by
      rw [← Option.isSome_iff_exists, Option.isSome_iff_ne_none]
    simp only [build_eq_error_iff, reduceCtorEq, and_false, exists_false, false_or,
      cycleDetected_ne_refusal, GraphError.cycleDetected.injEq, exists_and_left, exists_eq_right',
      hcycle]
    apply and_congr_right
    intro hn
    rw [firstBackward?_inside_eq_none_iff hn]

/-- A dependency that may not be declared is reported before a cycle. -/
example : build [⟨"a", ["b"]⟩, ⟨"b", ["a", "c"]⟩] [] = .error (.danglingDependency "b" "c") := rfl

/-! ## The reported cycle -/

/-- A chain of dependencies, each declared by a name of the list on a name of the list. -/
def Reaches (ds : List Declaration) : String → String → Prop :=
  TransGen fun x y ↦ Declares ds x y ∧ y ∈ ds.map Declaration.id

theorem transGen_inside_iff :
    TransGen (Declares (inside ds)) x y ↔ Reaches ds x y := by
  have heq : Declares (inside ds) = fun x y ↦ Declares ds x y ∧ y ∈ ds.map Declaration.id := by
    funext x y
    exact propext declares_inside
  rw [Reaches, heq]

theorem build_eq_cycleDetected_iff :
    build ds resolved = .error (.cycleDetected x) ↔
      (ds.map Declaration.id).Nodup ∧
        (∀ d ∈ ds, ∀ y ∈ d.dependencies, MayDeclare ds resolved d.id y) ∧
          firstBackward? (inside ds) [] (order (inside ds)) = some x := by
  simp only [build_eq_error_iff, reduceCtorEq, and_false, exists_false, false_or,
    cycleDetected_ne_refusal, GraphError.cycleDetected.injEq, exists_eq_right']

/-- The name reported for a cycle lies on one: it depends on itself within the list. -/
theorem reaches_self_of_cycleDetected (h : build ds resolved = .error (.cycleDetected x)) :
    x ∈ ds.map Declaration.id ∧ Reaches ds x x := by
  obtain ⟨hn, _, hback⟩ := build_eq_cycleDetected_iff.1 h
  have hcycle : Reaches ds x x := by
    refine transGen_inside_iff.1 (transGen_of_firstBackward?_order ?_ ?_ hback)
    · simpa using hn
    · intro y z hyz
      simpa using (declares_inside.1 hyz).2
  obtain ⟨y, hxy, _⟩ := TransGen.head'_iff.1 hcycle
  exact ⟨hxy.1.id_mem, hcycle⟩

/-- A cycle of two, with a name that depends on it and a name on which it depends. -/
def looped : List Declaration :=
  [⟨"report", ["price"]⟩, ⟨"price", ["rate", "root"]⟩, ⟨"rate", ["price"]⟩, ⟨"root", []⟩]

theorem reaches_self_of_looped :
    build looped [] = .error (.cycleDetected "rate") ∧ Reaches looped "rate" "rate" := by
  have hbuild : build looped [] = .error (.cycleDetected "rate") := by cbv
  exact ⟨hbuild, (reaches_self_of_cycleDetected hbuild).2⟩

end DependencyGraph

end Timelock
