import Timelock.Text.Hex

/-!
# Texts of bytes

Written bytes have two digits each, which are read back as the same bytes.
-/

namespace Timelock

namespace Hex

theorem digitValue?_digitChar {n : Nat} (h : n < 16) :
    digitValue? (digitChar n) = some n ∧ (String.utf8EncodeChar (digitChar n)).length = 1 := by
  revert n
  decide

theorem byteLength_encodeByte (b : UInt8) : byteLength (encodeByte b) = 2 := by
  have hb := b.toNat_lt
  have hhi := (digitValue?_digitChar (n := b.toNat / 16) (by omega)).2
  have hlo := (digitValue?_digitChar (n := b.toNat % 16) (by omega)).2
  simp [byteLength, encodeByte, -String.length_utf8EncodeChar, hhi, hlo]

theorem byteLength_flatMap_encodeByte (bytes : List UInt8) :
    byteLength (bytes.flatMap encodeByte) = 2 * bytes.length := by
  induction bytes with
  | nil => rfl
  | cons b bytes ih =>
      have happend : ∀ cs ds, byteLength (cs ++ ds) = byteLength cs + byteLength ds := by
        simp [byteLength]
      rw [List.flatMap_cons, happend, byteLength_encodeByte, ih, List.length_cons]
      omega

theorem decodePairs_flatMap_encodeByte (bytes : List UInt8) (position : Nat) :
    decodePairs position (bytes.flatMap encodeByte) = .ok bytes := by
  induction bytes generalizing position with
  | nil => rfl
  | cons b bytes ih =>
      have hb := b.toNat_lt
      have hhi := (digitValue?_digitChar (n := b.toNat / 16) (by omega)).1
      have hlo := (digitValue?_digitChar (n := b.toNat % 16) (by omega)).1
      have hbyte : UInt8.ofNat (16 * (b.toNat / 16) + b.toNat % 16) = b := by
        rw [Nat.div_add_mod, UInt8.ofNat_toNat]
      simp only [List.flatMap_cons, encodeByte, List.cons_append, List.nil_append, decodePairs, hhi,
        hlo, ih, hbyte]
      rfl

theorem decode_encode (bytes : List UInt8) : decode (encode bytes) = .ok bytes := by
  have heven : ¬ byteLength (bytes.flatMap encodeByte) % 2 = 1 := by
    rw [byteLength_flatMap_encodeByte]; omega
  simp only [decode, encode, String.toList_ofList, decodeChars, encodeChars, stripMark,
    if_neg heven, decodePairs_flatMap_encodeByte]

theorem encode_injective : Function.Injective encode := by
  intro bytes bytes' h
  have hdecode : (Except.ok bytes : Except HexError (List UInt8)) = .ok bytes' := by
    rw [← decode_encode bytes, h, decode_encode]
  exact Except.ok.inj hdecode

end Hex

end Timelock
