/-!
# Ordered sets and keyed tables

Finite sets kept as strictly ascending lists, and tables kept as lists of entries with
strictly ascending keys.  Text is ordered by code points, which is the order of its UTF-8
bytes.
-/

namespace Timelock

section Insertion

variable {α : Type} [LT α] [DecidableRel (fun a b : α ↦ a < b)]

def insertAscending (a : α) : List α → List α
  | [] => [a]
  | b :: bs =>
      if a < b then a :: b :: bs
      else if b < a then b :: insertAscending a bs
      else b :: bs

theorem mem_of_mem_insertAscending {a x : α} {bs : List α}
    (h : x ∈ insertAscending a bs) : x = a ∨ x ∈ bs := by
  induction bs with
  | nil => simpa [insertAscending] using h
  | cons b bs ih =>
      simp only [insertAscending] at h
      split at h
      · simpa using h
      · split at h
        · rcases List.mem_cons.mp h with rfl | h
          · simp
          · rcases ih h with rfl | h <;> simp_all
        · exact Or.inr h

theorem mem_insertAscending (htri : ∀ a b : α, ¬ a < b → ¬ b < a → a = b) {a x : α} {bs : List α} :
    x ∈ insertAscending a bs ↔ x = a ∨ x ∈ bs := by
  refine ⟨mem_of_mem_insertAscending, fun h ↦ ?_⟩
  induction bs with
  | nil => simpa [insertAscending] using h
  | cons b bs ih =>
      simp only [insertAscending]
      split
      · simpa using h
      · split
        next hba =>
          rcases h with rfl | h
          · exact List.mem_cons_of_mem b (ih (.inl rfl))
          · rcases List.mem_cons.mp h with rfl | h
            · exact List.mem_cons_self
            · exact List.mem_cons_of_mem b (ih (.inr h))
        next hab hba =>
          rcases h with rfl | h
          · exact htri _ _ hab hba ▸ List.mem_cons_self
          · exact h

theorem pairwise_insertAscending [Trans (fun a b : α ↦ a < b) (fun a b ↦ a < b) (fun a b ↦ a < b)]
    (a : α) {bs : List α} (h : bs.Pairwise (fun a b ↦ a < b)) :
    (insertAscending a bs).Pairwise (fun a b ↦ a < b) := by
  induction bs with
  | nil => simp [insertAscending]
  | cons b bs ih =>
      rw [List.pairwise_cons] at h
      simp only [insertAscending]
      split
      next hab =>
        refine List.pairwise_cons.mpr ⟨fun x hx ↦ ?_, List.pairwise_cons.mpr h⟩
        rcases List.mem_cons.mp hx with rfl | hx
        · exact hab
        · exact Trans.trans hab (h.1 x hx)
      next =>
        split
        next hba =>
          refine List.pairwise_cons.mpr ⟨fun x hx ↦ ?_, ih h.2⟩
          rcases mem_of_mem_insertAscending hx with rfl | hx
          · exact hba
          · exact h.1 x hx
        next => exact List.pairwise_cons.mpr h

end Insertion

/-- A finite set of numbers of sixty-four bits, as the ascending list of its members. -/
structure Selectors where
  toList : List UInt64
  ascending : toList.Pairwise (fun a b ↦ a < b)
  deriving DecidableEq

namespace Selectors

instance : Trans (fun a b : UInt64 ↦ a < b) (fun a b ↦ a < b) (fun a b ↦ a < b) :=
  ⟨fun hab hbc ↦ UInt64.lt_trans hab hbc⟩

def empty : Selectors := ⟨[], List.Pairwise.nil⟩

def insert (s : Selectors) (a : UInt64) : Selectors :=
  ⟨insertAscending a s.toList, pairwise_insertAscending a s.ascending⟩

def ofList (as : List UInt64) : Selectors :=
  as.foldl insert empty

def contains (s : Selectors) (a : UInt64) : Bool :=
  s.toList.contains a

end Selectors

/-- Entries under distinct keys, in ascending order of the keys. -/
structure Table (α : Type) where
  entries : List (String × α)
  ascending : entries.Pairwise (fun a b ↦ a.1 < b.1)

namespace Table

variable {α β : Type}

instance [DecidableEq α] : DecidableEq (Table α) := fun s t ↦
  if h : s.entries = t.entries then
    isTrue (by cases s; cases t; cases h; rfl)
  else
    isFalse fun hst ↦ h (congrArg entries hst)

def empty : Table α := ⟨[], List.Pairwise.nil⟩

instance : Inhabited (Table α) := ⟨empty⟩

def putEntry (k : String) (v : α) : List (String × α) → List (String × α)
  | [] => [(k, v)]
  | e :: es =>
      if k < e.1 then (k, v) :: e :: es
      else if e.1 < k then e :: putEntry k v es
      else (e.1, v) :: es

theorem key_of_mem_putEntry {k : String} {v : α} {x : String × α} {es : List (String × α)}
    (h : x ∈ putEntry k v es) : x.1 = k ∨ ∃ y ∈ es, y.1 = x.1 := by
  induction es with
  | nil => simp only [putEntry, List.mem_singleton] at h; simp [h]
  | cons e es ih =>
      simp only [putEntry] at h
      split at h
      · rcases List.mem_cons.mp h with rfl | h
        · simp
        · exact Or.inr ⟨x, h, rfl⟩
      · split at h
        · rcases List.mem_cons.mp h with rfl | h
          · exact Or.inr ⟨x, by simp, rfl⟩
          · rcases ih h with h | ⟨y, hy, hyx⟩
            · exact Or.inl h
            · exact Or.inr ⟨y, by simp [hy], hyx⟩
        · rcases List.mem_cons.mp h with rfl | h
          · exact Or.inr ⟨e, by simp, rfl⟩
          · exact Or.inr ⟨x, by simp [h], rfl⟩

theorem pairwise_putEntry (k : String) (v : α) {es : List (String × α)}
    (h : es.Pairwise (fun a b ↦ a.1 < b.1)) :
    (putEntry k v es).Pairwise (fun a b ↦ a.1 < b.1) := by
  induction es with
  | nil => simp [putEntry]
  | cons e es ih =>
      rw [List.pairwise_cons] at h
      simp only [putEntry]
      split
      next hk =>
        refine List.pairwise_cons.mpr ⟨fun x hx ↦ ?_, List.pairwise_cons.mpr h⟩
        rcases List.mem_cons.mp hx with rfl | hx
        · exact hk
        · exact String.lt_trans hk (h.1 x hx)
      next =>
        split
        next he =>
          refine List.pairwise_cons.mpr ⟨fun x hx ↦ ?_, ih h.2⟩
          rcases key_of_mem_putEntry hx with hx | ⟨y, hy, hyx⟩
          · exact hx ▸ he
          · exact hyx ▸ h.1 y hy
        next => exact List.pairwise_cons.mpr ⟨fun x hx ↦ h.1 x hx, h.2⟩

def put (t : Table α) (k : String) (v : α) : Table α :=
  ⟨putEntry k v t.entries, pairwise_putEntry k v t.ascending⟩

/-- Of several values under one key the last one stays. -/
def ofList (es : List (String × α)) : Table α :=
  es.foldl (fun t e ↦ t.put e.1 e.2) empty

def get? (t : Table α) (k : String) : Option α :=
  t.entries.lookup k

def contains (t : Table α) (k : String) : Bool :=
  t.entries.any (fun e ↦ e.1 == k)

def keys (t : Table α) : List String :=
  t.entries.map Prod.fst

def size (t : Table α) : Nat :=
  t.entries.length

def map (f : α → β) (t : Table α) : Table β :=
  ⟨t.entries.map (fun e ↦ (e.1, f e.2)),
    List.pairwise_map.mpr (t.ascending.imp (fun h ↦ h))⟩

end Table

end Timelock
