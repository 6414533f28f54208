import Gosub.Signature
import Gosub.Proofs.Encoding

/-!
# Compact signatures

A signature whose `s` leaves its top bit clear, two words and 64 bytes are three forms of one thing
(`compact_one_to_one`). Folding the parity into `s` and splitting it off again are the two directions of one
relation (`Holds`), and so are writing the two words as bytes and reading them.
-/

namespace Gosub.Compacting

open Gosub.Encoding

variable {sig : Signature} {c : CompactSignature} {bytes : List UInt8}

/-! ## The top bit -/

theorem msb_iff (w : Word) : w.msb = true ↔ 2 ^ 255 ≤ w.toNat := by
  rw [BitVec.msb_eq_decide, decide_eq_true_iff]

/-- The word without its top bit. -/
theorem toNat_low (w : Word) : (w &&& ~~~Word.highBit).toNat = w.toNat % 2 ^ 255 := by
  have mask : (~~~Word.highBit).toNat = 2 ^ 255 - 1 := by decide +kernel
  rw [BitVec.toNat_and, mask, Nat.and_two_pow_sub_one_eq_mod]

/-- The word with its top bit set, which was clear. -/
theorem toNat_high {w : Word} (low : w.toNat < 2 ^ 255) : (w ||| Word.highBit).toNat = 2 ^ 255 + w.toNat := by
  have bit : Word.highBit.toNat = 2 ^ 255 * 1 := by decide +kernel
  rw [BitVec.toNat_or, bit, Nat.or_comm, ← Nat.two_pow_add_eq_or_of_lt low, Nat.mul_one]

/-- A word is its top bit and the number below it, and no other bit and number. -/
theorem toNat_eq_iff (w : Word) {top : Bool} {rest : Nat} (low : rest < 2 ^ 255) :
    w.toNat = top.toNat * 2 ^ 255 + rest ↔ w.msb = top ∧ w.toNat % 2 ^ 255 = rest := by
  have bound : w.toNat < 2 ^ 256 := w.isLt
  rw [Bool.eq_iff_iff, msb_iff]
  cases top with
  | false =>
    simp only [Bool.toNat_false, Bool.false_eq_true, iff_false]
    omega
  | true =>
    simp only [Bool.toNat_true, iff_true]
    omega

/-! ## Folding and splitting -/

/-- The two words hold the signature: the first is its `r`, the second its parity above its `s`. -/
structure Holds (c : CompactSignature) (sig : Signature) : Prop where
  r : c.r = sig.r
  low : sig.s.toNat < 2 ^ 255
  vs : c.vs.toNat = sig.yParity.toNat * 2 ^ 255 + sig.s.toNat

theorem toCompact_eq_error {e : SignatureError} :
    sig.toCompact = .error e ↔ e = .highS ∧ 2 ^ 255 ≤ sig.s.toNat := by
  unfold Signature.toCompact
  rw [← msb_iff]
  by_cases top : sig.s.msb = true
  · simp [top, eq_comm]
  · simp [top]

theorem toCompact_eq_ok : sig.toCompact = .ok c ↔ Holds c sig := by
  unfold Signature.toCompact
  by_cases top : sig.s.msb = true
  · have high := (msb_iff _).1 top
    rw [if_pos top]
    constructor
    · intro done
      cases done
    · intro holds
      have low := holds.low
      omega
  · have low : sig.s.toNat < 2 ^ 255 := Nat.not_le.1 (mt (msb_iff _).2 top)
    have folded : (if sig.yParity then sig.s ||| Word.highBit else sig.s).toNat =
        sig.yParity.toNat * 2 ^ 255 + sig.s.toNat := by
      cases sig.yParity with
      | false => simp
      | true =>
        rw [if_pos rfl, toNat_high low]
        simp
    rw [if_neg top]
    constructor
    · intro done
      cases done
      exact ⟨rfl, low, folded⟩
    · intro holds
      obtain ⟨r, vs⟩ := c
      obtain rfl : r = sig.r := holds.r
      have same : (if sig.yParity then sig.s ||| Word.highBit else sig.s) = vs :=
        BitVec.eq_of_toNat_eq (folded.trans holds.vs.symm)
      rw [same]

theorem expand_eq : c.expand = sig ↔ Holds c sig := by
  obtain ⟨r, s, yParity⟩ := sig
  have toNat_s : (c.vs &&& ~~~Word.highBit).toNat = c.vs.toNat % 2 ^ 255 := toNat_low c.vs
  constructor
  · intro expanded
    cases expanded
    have low : (c.vs &&& ~~~Word.highBit).toNat < 2 ^ 255 := by
      rw [toNat_s]
      exact Nat.mod_lt _ (by decide)
    exact ⟨rfl, low, (toNat_eq_iff c.vs low).2 ⟨rfl, toNat_s.symm⟩⟩
  · intro holds
    obtain ⟨parity, rest⟩ := (toNat_eq_iff c.vs holds.low).1 holds.vs
    have sameR : c.r = r := holds.r
    have sameS : c.vs &&& ~~~Word.highBit = s := BitVec.eq_of_toNat_eq (toNat_s.trans rest)
    rw [CompactSignature.expand, sameR, sameS, parity]

/-- Compacting is the converse of expanding. -/
theorem toCompact_eq_ok_iff_expand : sig.toCompact = .ok c ↔ c.expand = sig :=
  toCompact_eq_ok.trans expand_eq.symm

/-- A recovery id is the parity, or the parity plus 27. -/
theorem ofRecoveryId_eq_ok {r s : Word} {v : Nat} : Signature.ofRecoveryId r s v = .ok sig ↔
    (v = sig.yParity.toNat ∨ v = 27 + sig.yParity.toNat) ∧ sig.r = r ∧ sig.s = s := by
  constructor
  · intro accepted
    unfold Signature.ofRecoveryId at accepted
    split at accepted
    · next even =>
      cases accepted
      exact ⟨even, rfl, rfl⟩
    · split at accepted
      · next odd =>
        cases accepted
        exact ⟨odd, rfl, rfl⟩
      · cases accepted
  · rintro ⟨id, rfl, rfl⟩
    obtain ⟨r, s, yParity⟩ := sig
    cases yParity with
    | false => exact if_pos id
    | true =>
      rcases id with rfl | rfl
      · rfl
      · rfl

theorem ofRecoveryId_succeeds {r s : Word} {v : Nat} :
    (∃ sig, Signature.ofRecoveryId r s v = .ok sig) ↔ v ∈ [0, 1, 27, 28] := by
  constructor
  · rintro ⟨sig, accepted⟩
    obtain ⟨id, -, -⟩ := ofRecoveryId_eq_ok.1 accepted
    have small := sig.yParity.toNat_lt
    simp only [List.mem_cons, List.not_mem_nil, or_false]
    omega
  · intro listed
    simp only [List.mem_cons, List.not_mem_nil, or_false] at listed
    rcases listed with rfl | rfl | rfl | rfl
    · exact ⟨_, rfl⟩
    · exact ⟨_, rfl⟩
    · exact ⟨_, rfl⟩
    · exact ⟨_, rfl⟩

/-! ## Bytes -/

theorem toBytes_ofBytes (size : bytes.length = Word.size) : (Word.ofNat (natOfBytes bytes)).toBytes = bytes := by
  have fits := natOfBytes_lt bytes
  rw [size] at fits
  have value : (Word.ofNat (natOfBytes bytes)).toNat = natOfBytes bytes := by
    rw [Word.ofNat, BitVec.toNat_ofNat]
    exact Nat.mod_eq_of_lt fits
  rw [Word.toBytes, value, ← size]
  exact bytesOfNat_natOfBytes bytes

theorem ofBytes_toBytes (w : Word) : Word.ofNat (natOfBytes w.toBytes) = w := by
  have fits : w.toNat < 256 ^ Word.size := w.isLt
  rw [Word.toBytes, natOfBytes_bytesOfNat fits, Word.ofNat, BitVec.ofNat_toNat, BitVec.setWidth_eq]

theorem length_toBytes (c : CompactSignature) : c.toBytes.length = CompactSignature.size := by
  rw [CompactSignature.toBytes, List.length_append, Word.toBytes, Word.toBytes, length_bytesOfNat, length_bytesOfNat]
  rfl

/-- Reading bytes is the converse of writing them. -/
theorem ofBytes_eq_ok : CompactSignature.ofBytes bytes = .ok c ↔ c.toBytes = bytes := by
  unfold CompactSignature.ofBytes
  constructor
  · intro done
    by_cases size : bytes.length = CompactSignature.size
    · have front : (bytes.take Word.size).length = Word.size := by
        rw [List.length_take, size]
        rfl
      have back : (bytes.drop Word.size).length = Word.size := by
        rw [List.length_drop, size]
        rfl
      rw [if_pos size] at done
      cases done
      rw [CompactSignature.toBytes, toBytes_ofBytes front, toBytes_ofBytes back, List.take_append_drop]
    · rw [if_neg size] at done
      cases done
  · rintro rfl
    have front : c.r.toBytes.length = Word.size := length_bytesOfNat _ _
    rw [if_pos (length_toBytes c), CompactSignature.toBytes, List.take_left' front, List.drop_left' front,
      ofBytes_toBytes, ofBytes_toBytes]

theorem ofBytes_succeeds : (∃ c, CompactSignature.ofBytes bytes = .ok c) ↔ bytes.length = CompactSignature.size := by
  unfold CompactSignature.ofBytes
  by_cases size : bytes.length = CompactSignature.size
  · simp [size]
  · simp [size]

/-! ## One to one -/

theorem toCompact_of_low (low : sig.s.toNat < 2 ^ 255) : ∃ c, sig.toCompact = .ok c := by
  cases done : sig.toCompact with
  | ok c => exact ⟨c, rfl⟩
  | error e =>
    obtain ⟨-, high⟩ := toCompact_eq_error.1 done
    omega

/-- The bytes are those of the compact form of the signature, which has one. -/
def Writes (sig : Signature) (bytes : List UInt8) : Prop := ∃ c, sig.toCompact = .ok c ∧ c.toBytes = bytes

theorem writes_iff (read : CompactSignature.ofBytes bytes = .ok c) : Writes sig bytes ↔ sig = c.expand := by
  constructor
  · rintro ⟨c', done, same⟩
    obtain rfl : c = c' := by
      have reread := ofBytes_eq_ok.2 same
      rw [read] at reread
      exact Except.ok.inj reread
    exact (toCompact_eq_ok_iff_expand.1 done).symm
  · rintro rfl
    exact ⟨c, toCompact_eq_ok_iff_expand.2 rfl, ofBytes_eq_ok.1 read⟩

/-- How signatures, their compact forms and the bytes of these correspond. -/
structure OneToOne : Prop where
  accepts : ∀ r s v, (∃ sig, Signature.ofRecoveryId r s v = .ok sig) ↔ v ∈ [0, 1, 27, 28]
  /-- A signature is refused for its top bit alone. -/
  refuses : ∀ r s v sig, Signature.ofRecoveryId r s v = .ok sig →
    ∀ e, sig.toCompact = .error e ↔ e = .highS ∧ 2 ^ 255 ≤ s.toNat
  /-- All others are folded and come back. But for 27, the recovery id is the parity. -/
  folds : ∀ r s v sig, Signature.ofRecoveryId r s v = .ok sig → s.toNat < 2 ^ 255 →
    ∃ c, sig.toCompact = .ok c ∧ c.r = r ∧ c.vs.toNat = v % 27 * 2 ^ 255 + s.toNat ∧ c.expand = sig
  splits : ∀ c : CompactSignature, c.expand.toCompact = .ok c
  reads : ∀ bytes, (∃ c, CompactSignature.ofBytes bytes = .ok c) ↔ bytes.length = 64
  writes : ∀ bytes c, CompactSignature.ofBytes bytes = .ok c → c.toBytes = bytes
  rereads : ∀ c : CompactSignature, CompactSignature.ofBytes c.toBytes = .ok c
  /-- A signature whose `s` is low has one row of 64 bytes. -/
  each : ∀ sig : Signature, sig.s.toNat < 2 ^ 255 →
    ∃ bytes, bytes.length = 64 ∧ ∀ other, Writes sig other ↔ other = bytes
  /-- Every row of 64 bytes is that of one signature, whose `s` is low. -/
  every : ∀ bytes : List UInt8, bytes.length = 64 →
    ∃ sig : Signature, sig.s.toNat < 2 ^ 255 ∧ ∀ other, Writes other bytes ↔ other = sig

/-- Signatures with a low `s`, pairs of words and rows of 64 bytes correspond one to one. -/
theorem compact_one_to_one : OneToOne := by
  refine ⟨fun _ _ _ => ofRecoveryId_succeeds, ?_, ?_, ?_, fun _ => ofBytes_succeeds, ?_, ?_, ?_, ?_⟩
  · intro r s v sig accepted e
    obtain ⟨-, -, rfl⟩ := ofRecoveryId_eq_ok.1 accepted
    exact toCompact_eq_error
  · intro r s v sig accepted low
    obtain ⟨id, rfl, rfl⟩ := ofRecoveryId_eq_ok.1 accepted
    obtain ⟨c, done⟩ := toCompact_of_low low
    obtain ⟨sameR, -, vs⟩ := toCompact_eq_ok.1 done
    have parity : v % 27 = sig.yParity.toNat := by
      have small := Bool.toNat_lt sig.yParity
      omega
    exact ⟨c, done, sameR, parity ▸ vs, toCompact_eq_ok_iff_expand.1 done⟩
  · intro c
    exact toCompact_eq_ok_iff_expand.2 rfl
  · intro bytes c read
    exact ofBytes_eq_ok.1 read
  · intro c
    exact ofBytes_eq_ok.2 rfl
  · intro sig low
    obtain ⟨c, done⟩ := toCompact_of_low low
    refine ⟨c.toBytes, length_toBytes c, fun other => ⟨?_, ?_⟩⟩
    · rintro ⟨c', again, written⟩
      rw [done] at again
      cases again
      exact written.symm
    · intro same
      exact ⟨c, done, same.symm⟩
  · intro bytes size
    obtain ⟨c, read⟩ := ofBytes_succeeds.2 size
    have holds : Holds c c.expand := expand_eq.1 (Eq.refl c.expand)
    exact ⟨c.expand, holds.low, fun other => writes_iff read⟩

end Gosub.Compacting
