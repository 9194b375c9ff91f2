import EvidenceExchange.Bytes
import Mathlib

namespace EvidenceExchange.BigEndian

theorem decode_lt (bytes : Bytes) : decode bytes < 256 ^ bytes.length := by
  induction bytes using List.reverseRecOn with
  | nil => simp [decode]
  | append_singleton bytes b ih =>
    have hb : b.toNat < 256 := b.toNat_lt
    rw [decode_concat, List.length_append, List.length_singleton, pow_succ]
    omega

theorem decode_encode (width n : Nat) : decode (encode width n) = n % 256 ^ width := by
  induction width generalizing n with
  | zero => simp [encode, decode, Nat.mod_one]
  | succ width ih =>
    have byte : (UInt8.ofNat n).toNat = n % 256 := by simp
    rw [encode, decode_concat, ih, byte, pow_succ', Nat.mod_mul]
    omega

theorem decode_encode_of_lt {width n : Nat} (h : n < 256 ^ width) :
    decode (encode width n) = n := by
  rw [decode_encode, Nat.mod_eq_of_lt h]

theorem encode_decode (bytes : Bytes) : encode bytes.length (decode bytes) = bytes := by
  induction bytes using List.reverseRecOn with
  | nil => rfl
  | append_singleton bytes b ih =>
    have hb : b.toNat < 256 := b.toNat_lt
    have high : (decode bytes * 256 + b.toNat) / 256 = decode bytes := by omega
    have low : UInt8.ofNat (decode bytes * 256 + b.toNat) = b := by
      apply UInt8.toNat_inj.mp
      simp only [UInt8.toNat_ofNat']
      omega
    rw [decode_concat, List.length_append, List.length_singleton, encode, high, low, ih]

/-- Any bytes are a number of their width. -/
theorem exists_encode {width : Nat} {bytes : Bytes} (h : bytes.length = width) :
    ∃ n, n < 256 ^ width ∧ bytes = encode width n := by
  subst h
  exact ⟨decode bytes, decode_lt bytes, (encode_decode bytes).symm⟩

end EvidenceExchange.BigEndian
