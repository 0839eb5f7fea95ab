import Timelock.Proofs.Mappings
import Timelock.Proofs.Tables

/-!
# Identifiers of contracts

An identifier shows the type of a contract and, behind a mark, its version.  The mark may also stand
within a type or a version, so there are two ways for contracts to share an identifier: they agree,
or the type of one of them runs on into the version of the other one.  What a table finds for a
contract it holds for one with the same identifier.
-/

namespace Timelock

/-- A contract, as its interface description is registered or asked for. -/
structure Contract where
  kind : String
  version : String
  deriving DecidableEq

namespace Contract

def identifier (c : Contract) : String := contractIdentifier c.kind c.version

/-- The version without the `v`s that it starts with. -/
def number (c : Contract) : String := String.ofList (c.version.toList.dropWhile (· == 'v'))

/-- What an identifier shows behind the type. -/
def versionText (c : Contract) : String := if c.version = "" then "" else " v" ++ c.number

/-- The same type, and no version on either side or the same number on both. -/
structure Agrees (a b : Contract) : Prop where
  kind : a.kind = b.kind
  version : (a.version = "" ∧ b.version = "") ∨
    (a.version ≠ "" ∧ b.version ≠ "" ∧ a.number = b.number)

/-- The second type is the first one, the mark, and the beginning of the first number; the rest of
this number is what the second identifier shows behind the type. -/
def RunsInto (a b : Contract) : Prop :=
  a.version ≠ "" ∧ ∃ start, b.kind = a.kind ++ " v" ++ start ∧ a.number = start ++ b.versionText

/-- One of the ways to share an identifier. -/
def Meets (a b : Contract) : Prop := a.Agrees b ∨ a.RunsInto b ∨ b.RunsInto a

/-- A text with the mark of a version in it. -/
def Marked (s : String) : Prop := ∃ before after, s = before ++ " v" ++ after

variable {a b : Contract} {cs : List Char}

/-! ## Identifiers in two parts -/

theorem identifier_eq (c : Contract) : c.identifier = c.kind ++ c.versionText := by
  unfold identifier contractIdentifier versionText
  split
  · exact String.append_empty.symm
  · exact String.append_assoc

theorem toList_versionText (h : a.version ≠ "") :
    a.versionText.toList = ' ' :: 'v' :: a.number.toList := by
  rw [versionText, if_neg h, String.toList_append]
  rfl

theorem versionText_eq_empty_iff : a.versionText = "" ↔ a.version = "" := by
  constructor
  · intro h
    by_contra hversion
    have hchars := toList_versionText hversion
    rw [h] at hchars
    cases hchars
  · intro h
    rw [versionText, if_pos h]

theorem agrees_iff : a.Agrees b ↔ a.kind = b.kind ∧ a.versionText = b.versionText := by
  constructor
  · rintro ⟨hkind, ⟨ha, hb⟩ | ⟨ha, hb, hnumber⟩⟩
    · exact ⟨hkind, (versionText_eq_empty_iff.2 ha).trans (versionText_eq_empty_iff.2 hb).symm⟩
    · exact ⟨hkind, by rw [versionText, versionText, if_neg ha, if_neg hb, hnumber]⟩
  · rintro ⟨hkind, htext⟩
    refine ⟨hkind, ?_⟩
    have hempty : a.version = "" ↔ b.version = "" := by
      rw [← versionText_eq_empty_iff, htext, versionText_eq_empty_iff]
    by_cases ha : a.version = ""
    · exact .inl ⟨ha, hempty.1 ha⟩
    · have hb : b.version ≠ "" := fun hb ↦ ha (hempty.2 hb)
      rw [versionText, versionText, if_neg ha, if_neg hb, String.append_right_inj] at htext
      exact .inr ⟨ha, hb, htext⟩

theorem Agrees.symm (h : a.Agrees b) : b.Agrees a :=
  agrees_iff.2 ((agrees_iff.1 h).imp Eq.symm Eq.symm)

/-! ## Identifiers that are shared -/

theorem identifier_eq_of_agrees (h : a.Agrees b) : a.identifier = b.identifier := by
  obtain ⟨hkind, htext⟩ := agrees_iff.1 h
  rw [identifier_eq, identifier_eq, hkind, htext]

theorem identifier_eq_of_runsInto (h : a.RunsInto b) : a.identifier = b.identifier := by
  obtain ⟨hversion, start, hkind, hnumber⟩ := h
  rw [identifier_eq, identifier_eq, versionText, if_neg hversion, hkind, hnumber]
  simp only [String.append_assoc]

/-- Identifiers are equal if one type goes on with what the other one's identifier shows next. -/
theorem agrees_or_runsInto (hkind : b.kind.toList = a.kind.toList ++ cs)
    (htext : a.versionText.toList = cs ++ b.versionText.toList) : a.Agrees b ∨ a.RunsInto b := by
  cases cs with
  | nil =>
      rw [List.append_nil, String.toList_inj] at hkind
      rw [List.nil_append, String.toList_inj] at htext
      exact .inl (agrees_iff.2 ⟨hkind.symm, htext⟩)
  | cons c cs =>
      have hversion : a.version ≠ "" := fun h ↦ by
        rw [versionText_eq_empty_iff.2 h] at htext
        cases htext
      rw [toList_versionText hversion, List.cons_append, List.cons.injEq] at htext
      obtain ⟨rfl, htext⟩ := htext
      cases cs with
      | nil =>
          -- What an identifier shows of a version does not start with the second half of the mark.
          rw [List.nil_append] at htext
          by_cases hb : b.version = ""
          · rw [versionText_eq_empty_iff.2 hb] at htext
            cases htext
          · rw [toList_versionText hb] at htext
            cases (List.cons.inj htext).1
      | cons c cs =>
          rw [List.cons_append, List.cons.injEq] at htext
          obtain ⟨rfl, htext⟩ := htext
          refine .inr ⟨hversion, String.ofList cs, ?_, ?_⟩
          · rw [← String.toList_inj, hkind]
            simp
          · rw [← String.toList_inj, htext]
            simp

theorem identifier_eq_iff : a.identifier = b.identifier ↔ a.Meets b := by
  constructor
  · intro h
    rw [identifier_eq, identifier_eq, ← String.toList_inj, String.toList_append,
      String.toList_append] at h
    rcases List.append_eq_append_iff.1 h with ⟨cs, hkind, htext⟩ | ⟨cs, hkind, htext⟩
    · exact (agrees_or_runsInto hkind htext).imp_right .inl
    · exact (agrees_or_runsInto hkind htext).imp Agrees.symm .inr
  · rintro (h | h | h)
    · exact identifier_eq_of_agrees h
    · exact identifier_eq_of_runsInto h
    · exact (identifier_eq_of_runsInto h).symm

/-! ## Contracts that are told apart -/

theorem RunsInto.marked_kind (h : a.RunsInto b) : Marked b.kind := by
  obtain ⟨_, start, hkind, _⟩ := h
  exact ⟨a.kind, start, hkind⟩

theorem exists_version_eq (c : Contract) : ∃ start, c.version = start ++ c.number := by
  refine ⟨String.ofList (c.version.toList.takeWhile (· == 'v')), ?_⟩
  rw [number, ← String.ofList_append, List.takeWhile_append_dropWhile, String.ofList_toList]

theorem RunsInto.marked_version (h : a.RunsInto b) (hversion : b.version ≠ "") :
    Marked a.version := by
  obtain ⟨_, start, _, hnumber⟩ := h
  obtain ⟨vs, hvs⟩ := a.exists_version_eq
  refine ⟨vs ++ start, b.number, ?_⟩
  rw [hvs, hnumber, versionText, if_neg hversion]
  simp only [String.append_assoc]

theorem meets_iff_of_kinds (ha : ¬ Marked a.kind) (hb : ¬ Marked b.kind) :
    a.Meets b ↔ a.Agrees b := by
  refine ⟨?_, .inl⟩
  rintro (h | h | h)
  · exact h
  · exact absurd h.marked_kind hb
  · exact absurd h.marked_kind ha

theorem meets_iff_of_versions (ha : a.version ≠ "" ∧ ¬ Marked a.version)
    (hb : b.version ≠ "" ∧ ¬ Marked b.version) : a.Meets b ↔ a.Agrees b := by
  refine ⟨?_, .inl⟩
  rintro (h | h | h)
  · exact h
  · exact absurd (h.marked_version hb.1) ha.2
  · exact absurd (h.marked_version ha.1) hb.2

/-- What identifiers tell of two contracts. -/
structure IdentifiersTell (a b : Contract) : Prop where
  meets : a.identifier = b.identifier ↔ a.Meets b
  kinds : ¬ Marked a.kind → ¬ Marked b.kind → (a.identifier = b.identifier ↔ a.Agrees b)
  versions : a.version ≠ "" ∧ ¬ Marked a.version → b.version ≠ "" ∧ ¬ Marked b.version →
    (a.identifier = b.identifier ↔ a.Agrees b)

theorem identifiersTell (a b : Contract) : a.IdentifiersTell b where
  meets := identifier_eq_iff
  kinds ha hb := identifier_eq_iff.trans (meets_iff_of_kinds ha hb)
  versions ha hb := identifier_eq_iff.trans (meets_iff_of_versions ha hb)

end Contract

/-! ## Tables of contracts -/

namespace DecoderConfig

variable {d d' : DecoderConfig} {new : Table String} {rs rs' : List (Contract × String)}

/-- The table has an interface description for each of these contracts, and no other ones. -/
def Files (t : Table String) (rs : List (Contract × String)) : Prop :=
  t.entries.Perm (rs.map (fun r ↦ (r.1.identifier, r.2)))

def Holds (d : DecoderConfig) (rs : List (Contract × String)) : Prop := Files d.evmAbis rs

/-- Any text is the identifier of a contract without a version. -/
theorem exists_holds (d : DecoderConfig) : ∃ rs, d.Holds rs := by
  refine ⟨d.evmAbis.entries.map (fun e ↦ (⟨e.1, ""⟩, e.2)), ?_⟩
  rw [Holds, Files, List.map_map]
  exact .of_eq (List.map_id _).symm

namespace Holds

theorem abiFor?_eq_some_iff (h : d.Holds rs) {kind version abi : String} :
    d.abiFor? kind version = some abi ↔ ∃ r ∈ rs, r.2 = abi ∧ r.1.Meets ⟨kind, version⟩ := by
  rw [abiFor?, abi?, Table.get?_eq_some_iff, h.mem_iff, List.mem_map]
  simp only [Prod.mk.injEq, ← Contract.identifier_eq_iff]
  exact exists_congr fun r ↦ and_congr_right fun _ ↦ and_comm

theorem pairwise_not_meets (h : d.Holds rs) : rs.Pairwise (fun r r' ↦ ¬ r.1.Meets r'.1) := by
  have hkeys : d.evmAbis.keys.Perm (rs.map (fun r ↦ r.1.identifier)) := by
    have hmap := h.map Prod.fst
    rwa [List.map_map] at hmap
  have hnodup := hkeys.nodup_iff.1 d.evmAbis.nodup_keys
  exact (List.pairwise_map.1 hnodup).imp fun hne hmeets ↦ hne (Contract.identifier_eq_iff.2 hmeets)

theorem registered (h : d.Holds rs) (hnew : Files new rs') (hok : d.registerAbis new = .ok d') :
    d'.Holds (rs ++ rs') := by
  cases hadd : addEntries .evmAbi id d.evmAbis new with
  | error y =>
      simp only [registerAbis, hadd, Bind.bind, Except.bind] at hok
      cases hok
  | ok t =>
      simp only [registerAbis, hadd, Bind.bind, Except.bind] at hok
      cases hok
      rw [Holds, Files, List.map_append]
      exact (union_of_addEntries hadd).2.trans (h.append hnew)

end Holds

/-- What is found in a table that holds the interface descriptions of these contracts. -/
structure Finds (d : DecoderConfig) (rs : List (Contract × String)) : Prop where
  meeting : ∀ kind version abi, d.abiFor? kind version = some abi ↔
    ∃ r ∈ rs, r.2 = abi ∧ r.1.Meets ⟨kind, version⟩
  /-- If no type has a mark in it, then what is found is held for the contract that is asked for. -/
  own : (∀ r ∈ rs, ¬ Contract.Marked r.1.kind) → ∀ kind, ¬ Contract.Marked kind →
    ∀ version abi, d.abiFor? kind version = some abi ↔
      ∃ r ∈ rs, r.2 = abi ∧ r.1.Agrees ⟨kind, version⟩
  /-- No identifier is held for two contracts. -/
  apart : rs.Pairwise (fun r r' ↦ ¬ r.1.Meets r'.1)
  /-- What is registered is held with what is there. -/
  registered : ∀ new rs' d', Files new rs' → d.registerAbis new = .ok d' → d'.Holds (rs ++ rs')

theorem Holds.finds (h : d.Holds rs) : d.Finds rs where
  meeting _ _ _ := h.abiFor?_eq_some_iff
  own hrs kind hkind version abi := by
    rw [h.abiFor?_eq_some_iff]
    refine exists_congr fun r ↦ and_congr_right fun hr ↦ and_congr_right fun _ ↦ ?_
    exact Contract.meets_iff_of_kinds (hrs r hr) hkind
  apart := h.pairwise_not_meets
  registered _ _ _ hnew hok := h.registered hnew hok

/-- Identifiers are equal exactly if contracts meet, and a table finds what it holds for a contract
that meets the one it is asked for. -/
theorem contracts_found_by_identifier (d : DecoderConfig) :
    (∀ a b : Contract, a.IdentifiersTell b) ∧ (∃ rs, d.Holds rs) ∧
      ∀ rs, d.Holds rs → d.Finds rs :=
  ⟨Contract.identifiersTell, d.exists_holds, fun _ ↦ Holds.finds⟩

end DecoderConfig

/-! ## Two contracts with one identifier -/

namespace Spelled

def release : Contract := ⟨"OffRamp", "1.6.0"⟩

/-- The identifier of the release, taken for a type. -/
def whole : Contract := ⟨"OffRamp v1.6.0", ""⟩

def config : DecoderConfig := { evmAbis := .ofList [(release.identifier, "[]")] }

/-- What is held for one type is found for another one. -/
theorem abi_found_for_other_kind : release.identifier = whole.identifier ∧
    release.kind ≠ whole.kind ∧ release.version ≠ "" ∧ release.number ≠ whole.number ∧
    config.Holds [(release, "[]")] ∧ config.abiFor? whole.kind whole.version = some "[]" :=
  ⟨rfl, by decide, by decide, by decide, .refl _, rfl⟩

end Spelled

end Timelock
