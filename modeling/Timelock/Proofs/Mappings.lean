import Timelock.Proofs.Registers
import Timelock.Proofs.Tables
import Timelock.Proofs.TextOrder
import Timelock.Proofs.Trimming

/-!
# Tables for decoding

A call that adds entries to a table adds all of them or none.  It adds none if one of them is
refused, and then it tells why the one with the smallest key is refused.  What a table holds it
keeps.
-/

namespace Timelock

section Entries

variable {α : Type} {kind : MappingKind} {text : α → String} {old new : Table α}
  {x : String × α} {y : RegistrationError}

/-- Nothing speaks against a new entry. -/
structure Acceptable (text : α → String) (old : Table α) (x : String × α) : Prop where
  key : Text.trim x.1 ≠ ""
  fresh : x.1 ∉ old.keys
  value : Text.trim (text x.2) ≠ ""

/-- What is told against a new entry: that its key is blank, or else that its key is taken, or else
that its text is blank. -/
inductive Refused (kind : MappingKind) (text : α → String) (old : Table α) :
    String × α → RegistrationError → Prop where
  | blankKey {x : String × α} (hkey : Text.trim x.1 = "") :
      Refused kind text old x (.emptyMappingKey kind)
  | taken {x : String × α} (hkey : Text.trim x.1 ≠ "") (htaken : x.1 ∈ old.keys) :
      Refused kind text old x (.duplicateMapping kind x.1)
  | blankValue {x : String × α} (hkey : Text.trim x.1 ≠ "") (hfresh : x.1 ∉ old.keys)
      (hvalue : Text.trim (text x.2) = "") : Refused kind text old x (.emptyMappingValue kind x.1)

/-- Of the entries that are refused this one has the smallest key, byte by byte. -/
structure FirstRefused (kind : MappingKind) (text : α → String) (old new : Table α)
    (x : String × α) (y : RegistrationError) : Prop where
  mem : x ∈ new.entries
  refused : Refused kind text old x y
  first : ∀ x' ∈ new.entries, ∀ y', Refused kind text old x' y' →
    x' = x ∨ Text.BytesBefore x.1 x'.1

/-- What comes of adding entries to a table: all are added to those that are there, or none. -/
inductive AllOrNone (kind : MappingKind) (text : α → String) (old new : Table α)
    (write : Table α → Engine) : Except RegistrationError Engine → Prop where
  | all (t : Table α) (haccepted : ∀ x ∈ new.entries, Acceptable text old x)
      (hunion : t.entries.Perm (old.entries ++ new.entries)) :
      AllOrNone kind text old new write (.ok (write t))
  | none (x : String × α) (y : RegistrationError) (hfirst : FirstRefused kind text old new x y) :
      AllOrNone kind text old new write (.error y)

/-! ## The check of an entry -/

theorem refused_of_entryError? (h : DecoderConfig.entryError? kind text old x = some y) :
    Refused kind text old x y := by
  simp only [DecoderConfig.entryError?, Table.contains_iff, ← Text.trim_eq_empty_iff] at h
  split at h
  next hkey =>
    obtain rfl := Option.some.inj h
    exact .blankKey hkey
  next hkey =>
    split at h
    next htaken =>
      obtain rfl := Option.some.inj h
      exact .taken hkey htaken
    next hfresh =>
      split at h
      next hvalue =>
        obtain rfl := Option.some.inj h
        exact .blankValue hkey hfresh hvalue
      next => cases h

theorem acceptable_iff_entryError? :
    Acceptable text old x ↔ DecoderConfig.entryError? kind text old x = none := by
  simp only [DecoderConfig.entryError?, Table.contains_iff, ← Text.trim_eq_empty_iff]
  constructor
  · intro h
    rw [if_neg h.key, if_neg h.fresh, if_neg h.value]
  · intro h
    split_ifs at h with hkey hfresh hvalue
    exact ⟨hkey, hfresh, hvalue⟩

theorem Refused.not_acceptable (h : Refused kind text old x y) : ¬ Acceptable text old x := by
  intro hacc
  cases h with
  | blankKey hkey => exact hacc.key hkey
  | taken _ htaken => exact hacc.fresh htaken
  | blankValue _ _ hvalue => exact hacc.value hvalue

/-! ## Adding entries -/

theorem exists_firstRefused
    (h : new.entries.findSome? (DecoderConfig.entryError? kind text old) = some y) :
    ∃ x, FirstRefused kind text old new x y := by
  obtain ⟨before, x, after, hsplit, hx, hbefore⟩ := List.findSome?_eq_some_iff.1 h
  refine ⟨x, by simp [hsplit], refused_of_entryError? hx, fun x' hx' y' hy' ↦ ?_⟩
  -- The keys ascend, so what is refused later has a greater key.
  have hascending := new.ascending
  rw [hsplit] at hx' hascending
  rcases List.mem_append.1 hx' with hx' | hx'
  · exact absurd (acceptable_iff_entryError?.2 (hbefore x' hx')) hy'.not_acceptable
  · rcases List.mem_cons.1 hx' with rfl | hx'
    · exact .inl rfl
    · have hafter := (List.pairwise_append.1 hascending).2.1
      exact .inr (Text.lt_iff_bytesBefore.1 ((List.pairwise_cons.1 hafter).1 x' hx'))

theorem firstRefused_of_addEntries (h : DecoderConfig.addEntries kind text old new = .error y) :
    ∃ x, FirstRefused kind text old new x y := by
  rw [DecoderConfig.addEntries] at h
  split at h
  next hfirst =>
    obtain rfl := Except.error.inj h
    exact exists_firstRefused hfirst
  next => cases h

theorem union_of_addEntries {t : Table α} (h : DecoderConfig.addEntries kind text old new = .ok t) :
    (∀ x ∈ new.entries, Acceptable text old x) ∧
      t.entries.Perm (old.entries ++ new.entries) := by
  rw [DecoderConfig.addEntries] at h
  split at h
  next => cases h
  next hfirst =>
    obtain rfl := Except.ok.inj h
    have haccepted : ∀ x ∈ new.entries, Acceptable text old x := fun x hx ↦
      acceptable_iff_entryError?.2 (List.findSome?_eq_none_iff.1 hfirst x hx)
    refine ⟨haccepted, Table.perm_foldl_put old ?_⟩
    refine List.nodup_append.2 ⟨old.nodup_keys, new.nodup_keys, ?_⟩
    rintro k hk k' hk' rfl
    obtain ⟨x, hx, rfl⟩ := List.mem_map.1 hk'
    exact (haccepted x hx).fresh hk

theorem subset_of_addEntries {t : Table α}
    (h : DecoderConfig.addEntries kind text old new = .ok t) : old.entries ⊆ t.entries :=
  fun _ hx ↦ (union_of_addEntries h).2.mem_iff.2 (List.mem_append_left _ hx)

theorem allOrNone_addEntries (kind : MappingKind) (text : α → String) (old new : Table α)
    (write : Table α → Engine) :
    AllOrNone kind text old new write
      ((DecoderConfig.addEntries kind text old new).map write) := by
  cases hadd : DecoderConfig.addEntries kind text old new with
  | error y =>
      obtain ⟨x, hx⟩ := firstRefused_of_addEntries hadd
      exact .none x y hx
  | ok t =>
      obtain ⟨haccepted, hunion⟩ := union_of_addEntries hadd
      exact .all t haccepted hunion

end Entries

/-! ## What the tables keep -/

/-- Every entry of one configuration is an entry of another one. -/
structure DecoderConfig.Within (c c' : DecoderConfig) : Prop where
  abis : c.evmAbis.entries ⊆ c'.evmAbis.entries
  programs : c.solanaDecoders.entries ⊆ c'.solanaDecoders.entries

namespace DecoderConfig.Within

theorem refl (c : DecoderConfig) : c.Within c := ⟨List.Subset.refl _, List.Subset.refl _⟩

theorem trans {c₁ c₂ c₃ : DecoderConfig} (h : c₁.Within c₂) (h' : c₂.Within c₃) : c₁.Within c₃ :=
  ⟨fun _ hx ↦ h'.abis (h.abis hx), fun _ hx ↦ h'.programs (h.programs hx)⟩

end DecoderConfig.Within

namespace Engine

theorem allOrNone_abis (e : Engine) (new : Table String) :
    AllOrNone .evmAbi id e.decoderConfig.evmAbis new
      (fun t ↦ { e with decoderConfig := { e.decoderConfig with evmAbis := t } })
      (e.perform (.abis new)) := by
  rw [perform_abis]
  exact allOrNone_addEntries _ _ _ _ _

theorem allOrNone_programs (e : Engine) (new : Table InstructionDecoder) :
    AllOrNone .solanaDecoder InstructionDecoder.programName e.decoderConfig.solanaDecoders new
      (fun t ↦ { e with decoderConfig := { e.decoderConfig with solanaDecoders := t } })
      (e.perform (.programs new)) := by
  rw [perform_programs]
  exact allOrNone_addEntries _ _ _ _ _

theorem Changes.within {e e' : Engine} {c : Registration} (h : e.Changes c e') :
    e.decoderConfig.Within e'.decoderConfig := by
  cases h with
  | analyzer => exact .refl _
  | analyzerOf => exact .refl _
  | renderer => exact .refl _
  | abis new t ht => exact ⟨subset_of_addEntries ht, List.Subset.refl _⟩
  | programs new t ht => exact ⟨List.Subset.refl _, subset_of_addEntries ht⟩

theorem within_after (e : Engine) (c : Registration) :
    e.decoderConfig.Within (e.after c).decoderConfig := by
  rw [after]
  cases hperform : e.perform c with
  | error y => exact .refl _
  | ok e' => exact (changes_of_perform hperform).within

theorem within_afterAll (e : Engine) (cs : List Registration) :
    e.decoderConfig.Within (e.afterAll cs).decoderConfig := by
  induction cs generalizing e with
  | nil => exact .refl _
  | cons c cs ih => exact (e.within_after c).trans (ih _)

/-- What an engine promises of the calls that fill its tables. -/
structure KeepsTables (e : Engine) : Prop where
  abis : ∀ new, AllOrNone .evmAbi id e.decoderConfig.evmAbis new
    (fun t ↦ { e with decoderConfig := { e.decoderConfig with evmAbis := t } })
    (e.perform (.abis new))
  programs : ∀ new, AllOrNone .solanaDecoder InstructionDecoder.programName
    e.decoderConfig.solanaDecoders new
    (fun t ↦ { e with decoderConfig := { e.decoderConfig with solanaDecoders := t } })
    (e.perform (.programs new))
  /-- A call that fails leaves the registers as they were. -/
  inPlace : ∀ c, (Registers.perform c).run (.ofEngine e) = e.outcome (e.perform c)
  abisStay : ∀ cs k v, e.decoderConfig.abi? k = some v →
    (e.afterAll cs).decoderConfig.abi? k = some v
  programsStay : ∀ cs k v, e.decoderConfig.solanaDecoder? k = some v →
    (e.afterAll cs).decoderConfig.solanaDecoder? k = some v

theorem keepsTables (e : Engine) : e.KeepsTables where
  abis := e.allOrNone_abis
  programs := e.allOrNone_programs
  inPlace := Registers.run_perform e
  abisStay cs _ _ h :=
    Table.get?_eq_some_iff.2 ((e.within_afterAll cs).abis (Table.get?_eq_some_iff.1 h))
  programsStay cs _ _ h :=
    Table.get?_eq_some_iff.2 ((e.within_afterAll cs).programs (Table.get?_eq_some_iff.1 h))

/-- After any calls the registers are those of the engine, and the next call for a table adds all of
its entries or none. -/
theorem tables_all_or_none (start : Engine) (cs : List Registration) :
    (Registers.ofEngine start).afterAll cs = .ofEngine (start.afterAll cs) ∧
      (start.afterAll cs).KeepsTables :=
  ⟨Registers.afterAll_ofEngine start cs, keepsTables _⟩

example :
    (Registers.perform (.abis (.ofList [("B v1", "[]"), ("A v1", " ")]))).run {} =
      .error (.emptyMappingValue .evmAbi "A v1") {} := by
  rfl

end Engine

end Timelock
