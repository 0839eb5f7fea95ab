import Mathlib.Data.List.Induction
import Timelock.Json.Decoding
import Timelock.Proofs.HexTexts
import Timelock.Proofs.Splitting
import Timelock.Proofs.TextOrder

/-!
# Reading texts of bytes

A text is read as bytes exactly if it has an even number of digits after its mark, and nothing
else.  Then the same digits, in lower case, are written of the bytes.  Of every other text it is
told that its length is odd, or which byte of it is the first that is no digit.
-/

namespace Timelock.Hex

open Text (utf8 quotedChar decimal)

variable {c : Char} {cs ds : List Char} {s t : String} {n position : Nat}

/-! ## Digits -/

/-- The code of a digit, a small letter up to `f`, or a capital one up to `F`. -/
def IsDigit (code : Nat) : Prop :=
  (48 ≤ code ∧ code ≤ 57) ∨ (97 ≤ code ∧ code ≤ 102) ∨ (65 ≤ code ∧ code ≤ 70)

instance (code : Nat) : Decidable (IsDigit code) :=
  inferInstanceAs (Decidable ((48 ≤ code ∧ code ≤ 57) ∨ (97 ≤ code ∧ code ≤ 102) ∨
    (65 ≤ code ∧ code ≤ 70)))

theorem IsDigit.lt (h : IsDigit n) : n < 128 := by
  unfold IsDigit at h
  omega

theorem digitValue?_eq_none_iff : digitValue? c = none ↔ ¬ IsDigit c.toNat := by
  have hle : ∀ a b : Char, a ≤ b ↔ a.toNat ≤ b.toNat := fun _ _ ↦ Iff.rfl
  simp only [digitValue?, hle, IsDigit, Char.reduceToNat]
  split_ifs <;> simp <;> omega

theorem digitChar_ofNat : ∀ m < 128, ∀ v ∈ digitValue? (Char.ofNat m),
    v < 16 ∧ digitChar v = (Char.ofNat m).toLower := by
  decide

theorem exists_digitValue? (h : IsDigit c.toNat) :
    ∃ v, digitValue? c = some v ∧ v < 16 ∧ digitChar v = c.toLower := by
  have hsome : digitValue? c ≠ none := fun hnone ↦ digitValue?_eq_none_iff.1 hnone h
  obtain ⟨v, hv⟩ := Option.ne_none_iff_exists'.1 hsome
  have hspec := digitChar_ofNat c.toNat h.lt v
  rw [Char.ofNat_toNat] at hspec
  exact ⟨v, hv, hspec hv⟩

/-! ## Bytes of characters -/

theorem utf8EncodeChar_of_isDigit (h : IsDigit c.toNat) :
    String.utf8EncodeChar c = [UInt8.ofNat c.toNat] ∧ IsDigit (UInt8.ofNat c.toNat).toNat := by
  have hlt := h.lt
  constructor
  · unfold String.utf8EncodeChar
    exact if_pos (by change c.toNat ≤ 127; omega)
  · rwa [UInt8.toNat_ofNat_of_lt' (by change c.toNat < 256; omega)]

/-- The first byte of a character that is no digit is no digit either. -/
theorem exists_utf8EncodeChar_eq (h : ¬ IsDigit c.toNat) :
    ∃ b bs, String.utf8EncodeChar c = b :: bs ∧ ¬ IsDigit b.toNat := by
  have hlead : ∀ m, 128 ≤ m → m < UInt8.size → ¬ IsDigit (UInt8.ofNat m).toNat := by
    intro m hm hbound hdigit
    have hlt := hdigit.lt
    rw [UInt8.toNat_ofNat_of_lt' hbound] at hlt
    omega
  have hcode : c.val.toNat = c.toNat := rfl
  have hsize : UInt8.size = 256 := rfl
  unfold String.utf8EncodeChar
  rw [hcode]
  dsimp only
  split_ifs
  · refine ⟨_, _, rfl, ?_⟩
    rwa [UInt8.toNat_ofNat_of_lt' (by omega)]
  all_goals
    refine ⟨_, _, rfl, ?_⟩
    apply hlead <;> omega

theorem flatMap_utf8EncodeChar_of_isDigit (h : ∀ d ∈ ds, IsDigit d.toNat) :
    ds.flatMap String.utf8EncodeChar = ds.map (fun d ↦ UInt8.ofNat d.toNat) := by
  induction ds with
  | nil => rfl
  | cons d ds ih =>
      rw [List.forall_mem_cons] at h
      rw [List.flatMap_cons, (utf8EncodeChar_of_isDigit h.1).1, ih h.2]
      rfl

theorem isDigit_of_mem_map {b : UInt8} (h : ∀ d ∈ ds, IsDigit d.toNat)
    (hb : b ∈ ds.map (fun d ↦ UInt8.ofNat d.toNat)) : IsDigit b.toNat := by
  obtain ⟨d, hd, rfl⟩ := List.mem_map.1 hb
  exact (utf8EncodeChar_of_isDigit (h d hd)).2

/-! ## Pairs of digits -/

theorem decodePairs_pair {d : Char} {hi lo : Nat} (hc : digitValue? c = some hi)
    (hd : digitValue? d = some lo) : decodePairs position (c :: d :: cs) =
      (decodePairs (position + 2) cs).map (UInt8.ofNat (16 * hi + lo) :: ·) := by
  simp only [decodePairs, hc, hd]
  cases decodePairs (position + 2) cs <;> rfl

theorem encodeByte_ofNat {hi lo : Nat} (hhi : hi < 16) (hlo : lo < 16) :
    encodeByte (UInt8.ofNat (16 * hi + lo)) = [digitChar hi, digitChar lo] := by
  have hsize : UInt8.size = 256 := rfl
  have hdiv : (16 * hi + lo) / 16 = hi := by omega
  have hmod : (16 * hi + lo) % 16 = lo := by omega
  rw [encodeByte, UInt8.toNat_ofNat_of_lt' (by omega), hdiv, hmod]

/-- An even number of digits is read, and written again in lower case. -/
theorem exists_decodePairs (hdigits : ∀ c ∈ cs, IsDigit c.toNat) (heven : cs.length % 2 = 0)
    (position : Nat) : ∃ bytes, decodePairs position cs = .ok bytes ∧
      bytes.flatMap encodeByte = cs.map Char.toLower := by
  induction cs using List.twoStepInduction generalizing position with
  | nil => exact ⟨[], rfl, rfl⟩
  | singleton c => cases heven
  | cons_cons c d cs ih _ =>
      simp only [List.forall_mem_cons] at hdigits
      obtain ⟨hi, hc, hhi, hclower⟩ := exists_digitValue? hdigits.1
      obtain ⟨lo, hd, hlo, hdlower⟩ := exists_digitValue? hdigits.2.1
      simp only [List.length_cons] at heven
      obtain ⟨bytes, hbytes, hwritten⟩ := ih hdigits.2.2 (by omega) (position + 2)
      refine ⟨UInt8.ofNat (16 * hi + lo) :: bytes, ?_, ?_⟩
      · rw [decodePairs_pair hc hd, hbytes]
        rfl
      · rw [List.flatMap_cons, encodeByte_ofNat hhi hlo, hwritten, hclower, hdlower]
        rfl

/-- The first character that is no digit is reported where it stands. -/
theorem decodePairs_append (hdigits : ∀ d ∈ ds, IsDigit d.toNat) (hc : ¬ IsDigit c.toNat)
    (position : Nat) : decodePairs position (ds ++ c :: cs) =
      .error (.notADigit ((String.utf8EncodeChar c).headD 0) (position + ds.length)) := by
  have hnone : digitValue? c = none := digitValue?_eq_none_iff.2 hc
  induction ds using List.twoStepInduction generalizing position with
  | nil => simp only [List.nil_append, decodePairs, hnone, List.length_nil, Nat.add_zero]
  | singleton d =>
      obtain ⟨v, hd, _⟩ := exists_digitValue? (hdigits d List.mem_cons_self)
      simp only [List.cons_append, List.nil_append, decodePairs, hd, hnone, List.length_singleton]
  | cons_cons d d' ds ih _ =>
      simp only [List.forall_mem_cons] at hdigits
      obtain ⟨v, hd, _⟩ := exists_digitValue? hdigits.1
      obtain ⟨v', hd', _⟩ := exists_digitValue? hdigits.2.1
      have hlength : position + 2 + ds.length = position + (d :: d' :: ds).length := by
        simp only [List.length_cons]
        omega
      rw [List.cons_append, List.cons_append, decodePairs_pair hd hd', ih hdigits.2.2, hlength]
      rfl

/-! ## Texts -/

/-- A text without the one mark that may stand before it. -/
inductive Unmarked : String → String → Prop where
  | marked (t : String) : Unmarked ("0x" ++ t) t
  | bare (t : String) (h : ∀ t', t ≠ "0x" ++ t') : Unmarked t t

/-- What comes of reading a text that has no mark, with what is told if it is not read. -/
inductive Reads (t : String) : Except String (List UInt8) → Prop where
  | bytes (bs : List UInt8) (heven : t.length % 2 = 0) (hdigits : ∀ c ∈ t.toList, IsDigit c.toNat)
      (hwritten : encode bs = "0x" ++ t.toLower) : Reads t (.ok bs)
  | odd (hodd : (utf8 t).length % 2 = 1) : Reads t (.error "Odd number of digits")
  /-- The first byte that is no digit, and how many bytes there are before it. -/
  | stray (before after : List UInt8) (b : UInt8) (htext : utf8 t = before ++ b :: after)
      (heven : (utf8 t).length % 2 = 0) (hdigits : ∀ d ∈ before, IsDigit d.toNat)
      (hb : ¬ IsDigit b.toNat) :
      Reads t (.error ("Invalid character " ++ quotedChar (Char.ofNat b.toNat) ++
        " at position " ++ decimal before.length))

/-- What is promised of a text and of what it is without its mark. -/
structure ReadsAs (s t : String) : Prop where
  unmarked : Unmarked s t
  succeeds_iff : (∃ bytes, decode s = .ok bytes) ↔
    t.length % 2 = 0 ∧ ∀ c ∈ t.toList, IsDigit c.toNat
  result_iff : ∀ result, (decode s).mapError HexError.message = result ↔ Reads t result
  /-- A text in a document is read in the same way, and the same is told of it. -/
  document : ∀ budget : Nat, Json.Decoder.hex budget (.string (some s)) =
    (decode s).mapError (fun y ↦ .mismatch (.badHex y))

theorem exists_unmarked (s : String) : ∃ t, Unmarked s t ∧ t.toList = stripMark s.toList := by
  by_cases hmark : ∃ t, s = "0x" ++ t
  · obtain ⟨t, rfl⟩ := hmark
    refine ⟨t, .marked t, ?_⟩
    rw [String.toList_append]
    rfl
  · refine ⟨s, .bare s (fun t h ↦ hmark ⟨t, h⟩), ?_⟩
    unfold stripMark
    split
    next cs hcs =>
      have hrest : (String.ofList cs).toList = cs := String.toList_ofList
      refine absurd ⟨String.ofList cs, ?_⟩ hmark
      apply String.toList_injective
      rw [hcs, String.toList_append, hrest]
      rfl
    · rfl

theorem forall_isDigit_or (cs : List Char) : (∀ c ∈ cs, IsDigit c.toNat) ∨
    ∃ ds c cs', cs = ds ++ c :: cs' ∧ (∀ d ∈ ds, IsDigit d.toNat) ∧ ¬ IsDigit c.toNat := by
  induction cs with
  | nil => exact .inl nofun
  | cons c cs ih =>
      by_cases hc : IsDigit c.toNat
      · rcases ih with hcs | ⟨ds, d, cs', rfl, hds, hd⟩
        · exact .inl (List.forall_mem_cons.2 ⟨hc, hcs⟩)
        · exact .inr ⟨c :: ds, d, cs', rfl, List.forall_mem_cons.2 ⟨hc, hds⟩, hd⟩
      · exact .inr ⟨[], c, cs, rfl, nofun, hc⟩

theorem length_utf8 (hdigits : ∀ c ∈ t.toList, IsDigit c.toNat) : (utf8 t).length = t.length := by
  rw [Text.utf8_eq_flatMap, flatMap_utf8EncodeChar_of_isDigit hdigits, List.length_map,
    String.length_toList]

section

variable (ht : t.toList = stripMark s.toList)

include ht

theorem decode_eq : decode s =
    if (utf8 t).length % 2 = 1 then .error .oddLength else decodePairs 0 t.toList := by
  rw [decode, decodeChars, ← ht, byteLength, ← Text.utf8_eq_flatMap]

theorem exists_decode_eq_ok (hdigits : ∀ c ∈ t.toList, IsDigit c.toNat)
    (heven : t.length % 2 = 0) :
    ∃ bytes, decode s = .ok bytes ∧ encode bytes = "0x" ++ t.toLower := by
  obtain ⟨bytes, hbytes, hwritten⟩ :=
    exists_decodePairs hdigits (String.length_toList.symm ▸ heven) 0
  refine ⟨bytes, ?_, ?_⟩
  · rw [decode_eq ht, length_utf8 hdigits, if_neg (by omega), hbytes]
  · have hlower : t.toLower.toList = t.toList.map Char.toLower := String.toList_map
    apply String.toList_injective
    rw [encode, String.toList_ofList, encodeChars, hwritten, String.toList_append, hlower]
    rfl

theorem decode_eq_error_stray {before after : List UInt8} {b : UInt8}
    (htext : utf8 t = before ++ b :: after) (heven : (utf8 t).length % 2 = 0)
    (hdigits : ∀ d ∈ before, IsDigit d.toNat) (hb : ¬ IsDigit b.toNat) :
    decode s = .error (.notADigit b before.length) := by
  rw [decode_eq ht, if_neg (by omega)]
  rw [Text.utf8_eq_flatMap] at htext
  rcases forall_isDigit_or t.toList with hall | ⟨ds, c, cs, hcs, hds, hc⟩
  · rw [flatMap_utf8EncodeChar_of_isDigit hall] at htext
    have hmem : b ∈ t.toList.map (fun d ↦ UInt8.ofNat d.toNat) := by
      rw [htext]
      simp
    exact absurd (isDigit_of_mem_map hall hmem) hb
  · -- The same byte is the first of the character that is no digit.
    obtain ⟨b', bs, hbytes, hb'⟩ := exists_utf8EncodeChar_eq hc
    have hdigits' := fun d hd (hstray : ¬ IsDigit d.toNat) ↦ hstray (hdigits d hd)
    rw [hcs, List.flatMap_append, List.flatMap_cons, hbytes, flatMap_utf8EncodeChar_of_isDigit hds,
      List.cons_append] at htext
    obtain ⟨rfl, rfl, _⟩ := Splitting.append_cons_inj (q := fun d : UInt8 ↦ ¬ IsDigit d.toNat)
      (fun d hd ↦ not_not.2 (isDigit_of_mem_map hds hd)) hb' hdigits' hb htext
    rw [hcs, decodePairs_append hds hc, hbytes, List.length_map, Nat.zero_add]
    rfl

theorem reads_decode : Reads t ((decode s).mapError HexError.message) := by
  by_cases hodd : (utf8 t).length % 2 = 1
  · rw [decode_eq ht, if_pos hodd]
    exact .odd hodd
  · rcases forall_isDigit_or t.toList with hall | ⟨ds, c, cs, hcs, hds, hc⟩
    · have heven : t.length % 2 = 0 := by
        rw [length_utf8 hall] at hodd
        omega
      obtain ⟨bytes, hbytes, hwritten⟩ := exists_decode_eq_ok ht hall heven
      rw [hbytes]
      exact .bytes bytes heven hall hwritten
    · obtain ⟨b, bs, hbytes, hb⟩ := exists_utf8EncodeChar_eq hc
      have htext : utf8 t = ds.map (fun d ↦ UInt8.ofNat d.toNat) ++
          b :: (bs ++ cs.flatMap String.utf8EncodeChar) := by
        rw [Text.utf8_eq_flatMap, hcs, List.flatMap_append, List.flatMap_cons, hbytes,
          flatMap_utf8EncodeChar_of_isDigit hds, List.cons_append]
      have hbefore := fun d ↦ isDigit_of_mem_map (b := d) hds
      rw [decode_eq_error_stray ht htext (by omega) hbefore hb]
      exact .stray _ _ b htext (by omega) hbefore hb

theorem decode_eq_of_reads {result : Except String (List UInt8)} (h : Reads t result) :
    (decode s).mapError HexError.message = result := by
  cases h with
  | bytes bs heven hdigits hwritten =>
      obtain ⟨bytes, hbytes, hwritten'⟩ := exists_decode_eq_ok ht hdigits heven
      obtain rfl := encode_injective (hwritten'.trans hwritten.symm)
      rw [hbytes]
      rfl
  | odd hodd =>
      rw [decode_eq ht, if_pos hodd]
      rfl
  | stray before after b htext heven hdigits hb =>
      rw [decode_eq_error_stray ht htext heven hdigits hb]
      rfl

theorem exists_decode_eq_ok_iff : (∃ bytes, decode s = .ok bytes) ↔
    t.length % 2 = 0 ∧ ∀ c ∈ t.toList, IsDigit c.toNat := by
  constructor
  · rintro ⟨bytes, hbytes⟩
    have hreads := reads_decode ht
    rw [hbytes] at hreads
    cases hreads with
    | bytes _ heven hdigits _ => exact ⟨heven, hdigits⟩
  · rintro ⟨heven, hdigits⟩
    obtain ⟨bytes, hbytes, _⟩ := exists_decode_eq_ok ht hdigits heven
    exact ⟨bytes, hbytes⟩

end

/-- Written bytes are read back, and every text is read in one way. -/
theorem decode_encode_and_readsAs :
    (∀ bytes, decode (encode bytes) = .ok bytes) ∧ ∀ s, ∃ t, ReadsAs s t := by
  refine ⟨decode_encode, fun s ↦ ?_⟩
  obtain ⟨t, hunmarked, ht⟩ := exists_unmarked s
  refine ⟨t, hunmarked, exists_decode_eq_ok_iff ht, fun result ↦ ⟨?_, decode_eq_of_reads ht⟩, ?_⟩
  · rintro rfl
    exact reads_decode ht
  · intro budget
    cases hdecode : decode s with
    | ok bytes =>
        simp only [Json.Decoder.hex, Json.Decoder.string, Bind.bind, Except.bind, hdecode]
        rfl
    | error y =>
        simp only [Json.Decoder.hex, Json.Decoder.string, Bind.bind, Except.bind, hdecode]
        rfl

end Timelock.Hex
