import Mathlib.Algebra.Order.Ring.Nat
import Mathlib.Data.Nat.Digits.Lemmas
import Gosub.Proofs.Walk

/-!
# Encoded instructions

Which instructions have an encoding of their own (`Encodable`), and that decoding gives them back:
one by one (`fetch_encode`), and as the walk over the bytes of all of them (`instructions_encode`).
-/

namespace Gosub.Encoding

open Gosub.Walk

/-! ## Bytes -/

/-- Bytes that are read as if zeros followed read the same with zeros behind them. -/
theorem getD_append_zeros (bytes : Array UInt8) (zeros a : Nat) :
    (bytes ++ Array.replicate zeros 0).getD a 0 = bytes.getD a 0 := by
  simp only [Array.getD_eq_getD_getElem?, Array.getElem?_append, Array.getElem?_replicate]
  by_cases inside : a < bytes.size
  · rw [if_pos inside]
  · rw [if_neg inside, Array.getElem?_eq_none (Nat.not_lt.1 inside)]
    split <;> rfl

theorem natOfBytes_snoc (bytes : List UInt8) (b : UInt8) :
    natOfBytes (bytes ++ [b]) = 256 * natOfBytes bytes + b.toNat := by
  simp [natOfBytes]

theorem length_bytesOfNat (width n : Nat) : (bytesOfNat width n).length = width := by
  induction width generalizing n with
  | zero => rfl
  | succ width ih => simp [bytesOfNat, ih]

/-- The last bytes of a number stand for what is left of it there. -/
theorem natOfBytes_bytesOfNat_mod (width n : Nat) : natOfBytes (bytesOfNat width n) = n % 256 ^ width := by
  induction width generalizing n with
  | zero => simp [bytesOfNat, natOfBytes, Nat.mod_one]
  | succ width ih =>
    have low : (UInt8.ofNat n).toNat = n % 256 := UInt8.toNat_ofNat'
    rw [bytesOfNat, natOfBytes_snoc, ih, low, pow_succ', Nat.mod_mul, Nat.add_comm]

/-- A number that fits is what its bytes stand for. -/
theorem natOfBytes_bytesOfNat {width n : Nat} (fits : n < 256 ^ width) : natOfBytes (bytesOfNat width n) = n := by
  rw [natOfBytes_bytesOfNat_mod, Nat.mod_eq_of_lt fits]

/-- Bytes are the bytes of the number that they stand for. -/
theorem bytesOfNat_natOfBytes (bytes : List UInt8) : bytesOfNat bytes.length (natOfBytes bytes) = bytes := by
  induction bytes using List.reverseRecOn with
  | nil => rfl
  | append_singleton front b ih =>
    have low : b.toNat < 256 := b.toNat_lt
    have high : (256 * natOfBytes front + b.toNat) / 256 = natOfBytes front := by omega
    have byte : UInt8.ofNat (256 * natOfBytes front + b.toNat) = b := by
      apply UInt8.toNat.inj
      simp
    rw [List.length_append, List.length_singleton, natOfBytes_snoc, bytesOfNat, high, ih, byte]

/-- The number that bytes stand for has them as its digits, the highest first. -/
theorem natOfBytes_eq_ofDigits (bytes : List UInt8) :
    natOfBytes bytes = Nat.ofDigits 256 (bytes.map UInt8.toNat).reverse := by
  rw [Nat.ofDigits_eq_foldr, List.foldr_reverse, List.foldl_map, natOfBytes]
  simp only [Nat.cast_id, Nat.add_comm]

theorem natOfBytes_lt (bytes : List UInt8) : natOfBytes bytes < 256 ^ bytes.length := by
  rw [natOfBytes_eq_ofDigits]
  have digits : ∀ d ∈ (bytes.map UInt8.toNat).reverse, d < 256 := by
    intro d member
    obtain ⟨b, -, rfl⟩ := List.mem_map.1 (List.mem_reverse.1 member)
    exact b.toNat_lt
  simpa using Nat.ofDigits_lt_base_pow_length (by decide) digits

/-- Each byte of a number is what is left of it above the bytes behind, cut to one byte. -/
theorem getElem?_bytesOfNat {width i : Nat} (n : Nat) (inside : i < width) :
    (bytesOfNat width n)[i]? = some (UInt8.ofNat (n / 256 ^ (width - 1 - i))) := by
  induction width generalizing n with
  | zero => exact absurd inside (Nat.not_lt_zero i)
  | succ width ih =>
    rw [bytesOfNat, List.getElem?_append, length_bytesOfNat]
    by_cases front : i < width
    · have shift : width + 1 - 1 - i = width - 1 - i + 1 := by omega
      rw [if_pos front, ih (n / 256) front, Nat.div_div_eq_div_mul, shift, pow_succ, mul_comm]
    · obtain rfl : i = width := by omega
      simp

/-- A number needs no more bytes than it fits in. -/
theorem byteCount_le_iff {width n : Nat} : byteCount n ≤ width ↔ n < 256 ^ width := by
  induction width generalizing n with
  | zero =>
    rw [byteCount]
    by_cases zero : n = 0
    · simp [zero]
    · simp [zero]
  | succ width ih =>
    rw [byteCount]
    by_cases zero : n = 0
    · simp [zero]
    · rw [if_neg zero, Nat.add_le_add_iff_right, ih, pow_succ, Nat.div_lt_iff_lt_mul (by decide)]

theorem byteLength_le_iff {width : Nat} (positive : 1 ≤ width) {w : Word} :
    w.byteLength ≤ width ↔ w.toNat < 256 ^ width := by
  rw [Word.byteLength, max_le_iff, byteCount_le_iff]
  exact and_iff_right positive

/-! ## One instruction -/

/-- The instructions that have an encoding of their own. -/
def Encodable : Instruction → Prop
  | .op _ => True
  | .push width value => 1 ≤ width ∧ width ≤ 32 ∧ value.toNat < 256 ^ width
  | .dup n | .swap n => 1 ≤ n ∧ n ≤ 16
  | .invalid b => b = Opcode.invalidByte ∨ Opcode.ofByte? b = none

instance decidableEncodable : (i : Instruction) → Decidable (Encodable i)
  | .op _ => inferInstanceAs (Decidable True)
  | .push width value => inferInstanceAs (Decidable (1 ≤ width ∧ width ≤ 32 ∧ value.toNat < 256 ^ width))
  | .dup n | .swap n => inferInstanceAs (Decidable (1 ≤ n ∧ n ≤ 16))
  | .invalid b => inferInstanceAs (Decidable (b = Opcode.invalidByte ∨ Opcode.ofByte? b = none))

theorem ofByte?_byte (o : Opcode) : Opcode.ofByte? o.byte = some o := by
  cases o with
  | op o => cases o <;> rfl
  | push k => decide +revert +kernel
  | dup k => decide +revert +kernel
  | swap k => decide +revert +kernel
  | invalid => rfl

theorem member?_eq_some {first n : Nat} {b : UInt8} {k : Fin n} (member : Opcode.member? first n b = some k) :
    b.toNat = first + k.val := by
  unfold Opcode.member? at member
  split at member
  · next inside =>
    cases member
    show b.toNat = first + (b.toNat - first)
    omega
  · cases member

/-- An opcode is assigned to no byte but its own. -/
theorem byte_of_ofByte? {b : UInt8} {o : Opcode} (assigned : Opcode.ofByte? b = some o) : o.byte = b := by
  have ofNat_eq {n : Nat} (same : b.toNat = n) : UInt8.ofNat n = b := by rw [← same, UInt8.ofNat_toNat]
  unfold Opcode.ofByte? at assigned
  split at assigned
  · next invalid =>
    cases assigned
    exact invalid.symm
  · split at assigned
    · next k found =>
      cases assigned
      exact ofNat_eq (member?_eq_some found)
    · split at assigned
      · next k found =>
        cases assigned
        exact ofNat_eq (member?_eq_some found)
      · split at assigned
        · next k found =>
          cases assigned
          exact ofNat_eq (member?_eq_some found)
        · obtain ⟨o, found, rfl⟩ := Option.map_eq_some_iff.1 assigned
          exact eq_of_beq (List.find?_some found :)

theorem encodable_ofOpcode {o : Opcode} (noImmediate : o.immediateSize = 0) :
    Encodable (.ofOpcode o) ∧ (Instruction.ofOpcode o).size = 1 := by
  cases o with
  | push k => cases noImmediate
  | op _ => exact ⟨trivial, rfl⟩
  | dup k | swap k => exact ⟨⟨Nat.le_add_left 1 k.val, k.isLt⟩, rfl⟩
  | invalid => exact ⟨.inl rfl, rfl⟩

theorem encode_ofOpcode {o : Opcode} (noImmediate : o.immediateSize = 0) :
    (Instruction.ofOpcode o).encode = [o.byte] := by
  cases o with
  | push k => cases noImmediate
  | op _ | invalid => rfl
  | dup k =>
    have found : Opcode.dup? (k.val + 1) = some (.dup k) := dif_pos ⟨Nat.le_add_left 1 k.val, k.isLt⟩
    simp [Instruction.ofOpcode, Instruction.encode, Instruction.opcode?, found]
  | swap k =>
    have found : Opcode.swap? (k.val + 1) = some (.swap k) := dif_pos ⟨Nat.le_add_left 1 k.val, k.isLt⟩
    simp [Instruction.ofOpcode, Instruction.encode, Instruction.opcode?, found]

theorem encode_push (k : Fin 32) (value : Word) :
    (Instruction.push (k.val + 1) value).encode = (Opcode.push k).byte :: bytesOfNat (k.val + 1) value.toNat := by
  have found : Opcode.push? (k.val + 1) = some (.push k) := dif_pos ⟨Nat.le_add_left 1 k.val, k.isLt⟩
  simp only [Instruction.encode, found]

/-- The code has this byte at the address behind those in front. -/
theorem byteAt_append (before after : List UInt8) (b : UInt8) :
    (Code.ofList (before ++ b :: after)).bytes[before.length]? = some b := by
  simp [Code.ofList]

theorem immediate_append (before bytes after : List UInt8) :
    (Code.ofList (before ++ bytes ++ after)).immediate before.length bytes.length = .ofNat (natOfBytes bytes) := by
  have same : (List.range bytes.length).map
      (fun i => (Code.ofList (before ++ bytes ++ after)).byteAt (before.length + i)) = bytes := by
    refine List.ext_getElem (by simp) fun i _ inside => ?_
    simp [Code.ofList, Code.byteAt, List.getElem?_append, inside]
  rw [Code.immediate, same]

/-- What is counted from one up to a bound has an index below it. -/
theorem exists_index {bound n : Nat} (positive : 1 ≤ n) (small : n ≤ bound) : ∃ k : Fin bound, k.val + 1 = n :=
  ⟨⟨n - 1, by omega⟩, Nat.sub_add_cancel positive⟩

/-- The forms of encoded instructions. -/
inductive Form : Instruction → List UInt8 → Prop
  /-- The byte of an opcode, with nothing behind it. -/
  | plain (o : Opcode) : o.immediateSize = 0 → Form (.ofOpcode o) [o.byte]
  | push (k : Fin 32) (value : Word) : value.toNat < 256 ^ (k.val + 1) →
      Form (.push (k.val + 1) value) ((Opcode.push k).byte :: bytesOfNat (k.val + 1) value.toNat)
  | unassigned (b : UInt8) : Opcode.ofByte? b = none → Form (.invalid b) [b]

theorem form_encode {i : Instruction} (encodable : Encodable i) : Form i i.encode := by
  cases i with
  | op o => exact .plain (.op o) rfl
  | push width value =>
    obtain ⟨positive, small, fits⟩ := encodable
    obtain ⟨k, rfl⟩ := exists_index positive small
    rw [encode_push]
    exact .push k value fits
  | dup n =>
    obtain ⟨positive, small⟩ := encodable
    obtain ⟨k, rfl⟩ := exists_index positive small
    have bytes : (Instruction.dup (k.val + 1)).encode = [(Opcode.dup k).byte] := encode_ofOpcode (o := .dup k) rfl
    exact bytes ▸ .plain (.dup k) rfl
  | swap n =>
    obtain ⟨positive, small⟩ := encodable
    obtain ⟨k, rfl⟩ := exists_index positive small
    have bytes : (Instruction.swap (k.val + 1)).encode = [(Opcode.swap k).byte] := encode_ofOpcode (o := .swap k) rfl
    exact bytes ▸ .plain (.swap k) rfl
  | invalid b =>
    rcases encodable with rfl | unassigned
    · exact .plain .invalid rfl
    · exact .unassigned b unassigned

theorem length_encode {i : Instruction} (encodable : Encodable i) : i.encode.length = i.size := by
  have form := form_encode encodable
  generalize i.encode = bytes at form
  cases form with
  | plain o noImmediate => cases o <;> first | rfl | cases noImmediate
  | push k value _ => simp [length_bytesOfNat, Instruction.size]
  | unassigned b _ => rfl

/-- An encoded instruction is fetched from where its encoding begins, whatever stands around it. -/
theorem fetch_encode (before after : List UInt8) {i : Instruction} (encodable : Encodable i) :
    (Code.ofList (before ++ i.encode ++ after)).fetch before.length = i := by
  have form := form_encode encodable
  generalize i.encode = bytes at form
  cases form with
  | plain o noImmediate =>
    rw [Code.fetch, List.append_assoc, List.singleton_append, byteAt_append]
    cases o with
    | push k => cases noImmediate
    | op _ | dup _ | swap _ | invalid => simp only [ofByte?_byte]
  | push k value fits =>
    have immediate := immediate_append (before ++ [(Opcode.push k).byte]) (bytesOfNat (k.val + 1) value.toNat) after
    rw [natOfBytes_bytesOfNat fits, length_bytesOfNat, List.length_append, List.length_singleton] at immediate
    rw [Code.fetch, List.append_assoc, List.cons_append, byteAt_append]
    simp only [ofByte?_byte]
    simp only [List.append_assoc, List.cons_append, List.nil_append] at immediate
    rw [immediate, Word.ofNat, BitVec.ofNat_toNat, BitVec.setWidth_eq]
  | unassigned b unassigned =>
    rw [Code.fetch, List.append_assoc, List.singleton_append, byteAt_append]
    simp only [unassigned]

/-! ## A row of instructions -/

/-- Instructions one behind the other from an address on, with their addresses. -/
def placedFrom (a : Nat) : List Instruction → List (Nat × Instruction)
  | [] => []
  | i :: rest => (a, i) :: placedFrom (a + i.size) rest

/-- The bytes of a row of instructions. -/
def encodeAll (row : List Instruction) : List UInt8 := row.flatMap Instruction.encode

/-- The size of a row of instructions. -/
def totalSize (row : List Instruction) : Nat := (row.map Instruction.size).sum

theorem totalSize_cons (i : Instruction) (row : List Instruction) : totalSize (i :: row) = i.size + totalSize row := by
  simp [totalSize]

theorem map_placedFrom (a : Nat) (row : List Instruction) : (placedFrom a row).map (·.2) = row := by
  induction row generalizing a with
  | nil => rfl
  | cons i row ih => rw [placedFrom, List.map_cons, ih]

/-- Each instruction begins where those before it end. -/
theorem getElem?_placedFrom (a k : Nat) (row : List Instruction) :
    (placedFrom a row)[k]? = row[k]?.map fun i => (a + totalSize (row.take k), i) := by
  induction row generalizing a k with
  | nil => rfl
  | cons i row ih =>
    cases k with
    | zero => simp [placedFrom, totalSize]
    | succ k => simp [placedFrom, ih, totalSize_cons, Nat.add_assoc]

/-- All instructions of a row end within it. -/
theorem mem_placedFrom_le {a : Nat} {row : List Instruction} {p : Nat × Instruction} (member : p ∈ placedFrom a row) :
    p.1 + p.2.size ≤ a + totalSize row := by
  induction row generalizing a with
  | nil => cases member
  | cons i row ih =>
    rw [totalSize_cons]
    rcases List.mem_cons.1 member with rfl | later
    · dsimp only
      omega
    · have := ih later
      omega

theorem length_encodeAll {row : List Instruction} (encodable : ∀ i ∈ row, Encodable i) :
    (encodeAll row).length = totalSize row := by
  induction row with
  | nil => rfl
  | cons i row ih =>
    have rest := ih fun j member => encodable j (List.mem_cons_of_mem i member)
    have here := length_encode (encodable i List.mem_cons_self)
    rw [totalSize_cons, encodeAll, List.flatMap_cons, List.length_append, here, ← encodeAll, rest]

theorem size_encodeAll {row : List Instruction} (encodable : ∀ i ∈ row, Encodable i) :
    (Code.ofList (encodeAll row)).size = totalSize row := by
  rw [← length_encodeAll encodable]
  exact List.size_toArray

theorem instructionsFrom_encode (before : List UInt8) {row : List Instruction} (encodable : ∀ i ∈ row, Encodable i) :
    (Code.ofList (before ++ encodeAll row)).instructionsFrom before.length = placedFrom before.length row := by
  induction row generalizing before with
  | nil => exact instructionsFrom_outside (by simp [Code.ofList, Code.size, encodeAll])
  | cons i row ih =>
    have here := encodable i List.mem_cons_self
    have rest := ih (before ++ i.encode) fun j member => encodable j (List.mem_cons_of_mem i member)
    have fetched := fetch_encode before (encodeAll row) here
    have whole : encodeAll (i :: row) = i.encode ++ encodeAll row := List.flatMap_cons
    rw [List.length_append, length_encode here] at rest
    rw [whole, ← List.append_assoc, instructionsFrom_inside, fetched, rest, placedFrom]
    have nonempty := i.size_pos
    simp only [Code.ofList, Code.size, List.size_toArray, List.length_append, length_encode here]
    omega

/-- Walking the bytes of a row of instructions gives the row. -/
theorem instructions_encode {row : List Instruction} (encodable : ∀ i ∈ row, Encodable i) :
    (Code.ofList (encodeAll row)).instructions = placedFrom 0 row :=
  instructionsFrom_encode [] encodable

end Gosub.Encoding
