import Mathlib.Data.List.Chain
import Gosub.Proofs.Encoding

/-!
# Decoded codes

The walk over any bytes loses nothing: its instructions lie end to end, and their encodings are the bytes of the
code, with the zeros that the immediate of a last push lacks (`walk_lossless`). A row of instructions that have
encodings of their own is the only one with its bytes (`decoding_unique`).
-/

namespace Gosub.Decoding

open Gosub.Walk Gosub.Encoding

variable {code : Code}

/-! ## The code as a tape -/

/-- So many bytes from an address on, zeros past the end. -/
def bytesFrom (code : Code) (a n : Nat) : List UInt8 := (List.range n).map fun i => code.byteAt (a + i)

theorem length_bytesFrom (code : Code) (a n : Nat) : (bytesFrom code a n).length = n := by
  simp [bytesFrom]

theorem bytesFrom_add (code : Code) (a m n : Nat) :
    bytesFrom code a (m + n) = bytesFrom code a m ++ bytesFrom code (a + m) n := by
  simp [bytesFrom, List.range_add, Nat.add_assoc]

theorem bytesFrom_succ (code : Code) (a n : Nat) :
    bytesFrom code a (n + 1) = code.byteAt a :: bytesFrom code (a + 1) n := by
  rw [Nat.add_comm n 1, bytesFrom_add]
  rfl

/-- From the start on there is the code and then nothing but zeros. -/
theorem bytesFrom_start {n : Nat} (whole : code.size ≤ n) :
    bytesFrom code 0 n = code.toList ++ List.replicate (n - code.size) 0 := by
  have size : code.toList.length = code.size := Array.length_toList
  refine List.ext_getElem ?_ fun i inside _ => ?_
  · rw [length_bytesFrom, List.length_append, List.length_replicate, size]
    omega
  · rw [List.getElem_append]
    by_cases within : i < code.size
    · have here : i < code.bytes.size := within
      simp [bytesFrom, Code.byteAt, Code.toList, here]
    · have outside : ¬ i < code.bytes.size := within
      simp [bytesFrom, Code.byteAt, Code.toList, outside]

/-! ## What is fetched -/

theorem immediate_eq (code : Code) (a width : Nat) :
    code.immediate a width = .ofNat (natOfBytes (bytesFrom code a width)) := rfl

/-- A word takes the bytes of an immediate as they are. -/
theorem toNat_immediate (code : Code) (a : Nat) {width : Nat} (small : width ≤ 32) :
    (code.immediate a width).toNat = natOfBytes (bytesFrom code a width) := by
  have below := natOfBytes_lt (bytesFrom code a width)
  rw [length_bytesFrom] at below
  have fits : natOfBytes (bytesFrom code a width) < 2 ^ 256 := below.trans_le (Nat.pow_le_pow_right (by decide) small)
  rw [immediate_eq, Word.ofNat, BitVec.toNat_ofNat]
  exact Nat.mod_eq_of_lt fits

/-- The forms of what is fetched, by the byte at the address and the bytes behind it. -/
inductive Fetched (code : Code) (a : Nat) : Instruction → Prop
  | plain {o : Opcode} : o.immediateSize = 0 → o.byte = code.byteAt a → Fetched code a (.ofOpcode o)
  | push (k : Fin 32) : (Opcode.push k).byte = code.byteAt a →
      Fetched code a (.push (k.val + 1) (code.immediate (a + 1) (k.val + 1)))
  | unassigned : Opcode.ofByte? (code.byteAt a) = none → Fetched code a (.invalid (code.byteAt a))

theorem fetched_fetch (code : Code) (a : Nat) : Fetched code a (code.fetch a) := by
  rw [fetch_eq]
  cases assigned : Opcode.ofByte? (code.byteAt a) with
  | none => exact .unassigned assigned
  | some o =>
    have byte := byte_of_ofByte? assigned
    cases o with
    | push k => exact .push k byte
    | op _ | dup _ | swap _ | invalid => exact .plain rfl byte

/-- Encoding what is fetched gives the bytes that it was fetched from. -/
theorem encode_fetch (code : Code) (a : Nat) : (code.fetch a).encode = bytesFrom code a (code.fetch a).size := by
  have fetched := fetched_fetch code a
  generalize code.fetch a = i at fetched
  cases fetched with
  | plain noImmediate byte =>
    have size := (encodable_ofOpcode noImmediate).2
    rw [encode_ofOpcode noImmediate, size, byte]
    rfl
  | push k byte =>
    have bytes := bytesOfNat_natOfBytes (bytesFrom code (a + 1) (k.val + 1))
    rw [length_bytesFrom] at bytes
    rw [encode_push, toNat_immediate code (a + 1) k.isLt, bytes, byte, Instruction.size,
      bytesFrom_succ code a (k.val + 1)]
  | unassigned _ => rfl

theorem encodable_fetch (code : Code) (a : Nat) : Encodable (code.fetch a) := by
  have fetched := fetched_fetch code a
  generalize code.fetch a = i at fetched
  cases fetched with
  | plain noImmediate _ => exact (encodable_ofOpcode noImmediate).1
  | push k _ =>
    have below := natOfBytes_lt (bytesFrom code (a + 1) (k.val + 1))
    rw [length_bytesFrom, ← toNat_immediate code (a + 1) k.isLt] at below
    exact ⟨Nat.le_add_left 1 k.val, k.isLt, below⟩
  | unassigned none => exact .inr none

/-! ## The walk, end to end -/

/-- The instructions of the walk lie one behind the other. -/
theorem instructionsFrom_placed (code : Code) (a : Nat) :
    code.instructionsFrom a = placedFrom a ((code.instructionsFrom a).map (·.2)) := by
  induction a using Code.instructionsFrom.induct code with
  | case1 a inside ih =>
    rw [instructionsFrom_inside inside, List.map_cons, placedFrom, ← ih]
  | case2 a outside =>
    rw [instructionsFrom_outside (Nat.not_lt.1 outside)]
    rfl

/-- Their encodings are the bytes that they were read from. -/
theorem encodeAll_instructionsFrom (code : Code) (a : Nat) :
    encodeAll ((code.instructionsFrom a).map (·.2)) =
      bytesFrom code a (totalSize ((code.instructionsFrom a).map (·.2))) := by
  induction a using Code.instructionsFrom.induct code with
  | case1 a inside ih =>
    have first := encode_fetch code a
    rw [instructionsFrom_inside inside, List.map_cons, totalSize_cons, bytesFrom_add, ← ih, ← first]
    exact List.flatMap_cons
  | case2 a outside =>
    rw [instructionsFrom_outside (Nat.not_lt.1 outside)]
    rfl

theorem length_instructionsFrom_le (code : Code) (a : Nat) : (code.instructionsFrom a).length ≤ code.size - a := by
  induction a using Code.instructionsFrom.induct code with
  | case1 a inside ih =>
    have progress := (code.fetch a).size_pos
    rw [instructionsFrom_inside inside, List.length_cons]
    omega
  | case2 a outside => simp [instructionsFrom_outside (Nat.not_lt.1 outside)]

/-- The walk does not stop before the end of the code. -/
theorem size_le_totalSize (code : Code) (a : Nat) :
    code.size ≤ a + totalSize ((code.instructionsFrom a).map (·.2)) := by
  induction a using Code.instructionsFrom.induct code with
  | case1 a inside ih =>
    rw [instructionsFrom_inside inside, List.map_cons, totalSize_cons]
    dsimp only
    omega
  | case2 a outside => omega

theorem encodable_instructions (code : Code) (i : Instruction) (listed : i ∈ code.instructions.map (·.2)) :
    Encodable i := by
  obtain ⟨p, member, rfl⟩ := List.mem_map.1 listed
  rw [(mem_instructions member).2]
  exact encodable_fetch code p.1

/-- Every byte belongs to an instruction. -/
theorem covered_from {a b : Nat} (behind : a ≤ b) (within : b < code.size) :
    ∃ p ∈ code.instructionsFrom a, p.1 ≤ b ∧ b < p.1 + p.2.size := by
  induction a using Code.instructionsFrom.induct code with
  | case1 a inside ih =>
    rw [instructionsFrom_inside inside]
    by_cases here : b < a + (code.fetch a).size
    · exact ⟨_, List.mem_cons_self, behind, here⟩
    · obtain ⟨p, listed, covers⟩ := ih (Nat.not_lt.1 here)
      exact ⟨p, List.mem_cons_of_mem _ listed, covers⟩
  | case2 a outside => omega

/-- And to no other. -/
theorem eq_of_covers {p q : Nat × Instruction} {b : Nat} (first : p ∈ code.instructions)
    (second : q ∈ code.instructions) (inFirst : p.1 ≤ b ∧ b < p.1 + p.2.size)
    (inSecond : q.1 ≤ b ∧ b < q.1 + q.2.size) : p = q := by
  have fetchedFirst := (mem_instructions first).2
  have fetchedSecond := (mem_instructions second).2
  rcases Nat.lt_trichotomy p.1 q.1 with before | same | after
  · have apart := listed_apart (listed_of_mem first) (listed_of_mem second) before
    rw [← fetchedFirst] at apart
    omega
  · exact Prod.ext same (by rw [fetchedFirst, fetchedSecond, same])
  · have apart := listed_apart (listed_of_mem second) (listed_of_mem first) after
    rw [← fetchedSecond] at apart
    omega

/-! ## The end of the code -/

/-- How many bytes of the immediate of a push lie past the end of the code. -/
def missing (code : Code) : Nat × Instruction → Nat
  | (a, .push width _) => a + 1 + width - code.size
  | _ => 0

/-- How many bytes are missing of the last instruction. -/
def missingAtEnd (code : Code) : Nat :=
  match code.instructions.getLast? with
  | some p => missing code p
  | none => 0

theorem missing_eq {p : Nat × Instruction} (inside : p.1 < code.size) :
    missing code p = p.1 + p.2.size - code.size := by
  obtain ⟨a, i⟩ := p
  have within : a < code.size := inside
  cases i with
  | push width value =>
    simp only [missing, Instruction.size]
    omega
  | op _ | dup _ | swap _ | invalid _ =>
    simp only [missing, Instruction.size]
    omega

theorem getLast?_placedFrom {a : Nat} {row : List Instruction} {p : Nat × Instruction}
    (last : (placedFrom a row).getLast? = some p) : p.1 + p.2.size = a + totalSize row := by
  induction row generalizing a with
  | nil => cases last
  | cons i row ih =>
    rw [totalSize_cons]
    cases row with
    | nil =>
      obtain rfl : (a, i) = p := by simpa [placedFrom] using last
      rfl
    | cons j row =>
      have later := ih (a := a + i.size) last
      omega

theorem totalSize_instructions (code : Code) :
    totalSize (code.instructions.map (·.2)) = code.size + missingAtEnd code := by
  have reaches := size_le_totalSize code 0
  rw [Nat.zero_add] at reaches
  unfold missingAtEnd
  cases ending : code.instructions.getLast? with
  | none =>
    have nothing : code.instructions = [] := List.getLast?_eq_none_iff.1 ending
    have short : totalSize ((code.instructionsFrom 0).map (·.2)) = 0 := by
      rw [← Code.instructions, nothing]
      rfl
    simp only [nothing, List.map_nil]
    rw [short] at reaches
    show 0 = code.size + 0
    omega
  | some p =>
    have inside := (mem_instructions (List.mem_of_getLast? ending)).1
    have placed := instructionsFrom_placed code 0
    rw [← Code.instructions] at placed reaches
    rw [placed] at ending
    have ends := getLast?_placedFrom ending
    simp only [missing_eq inside]
    omega

/-- Nothing is missing where every instruction ends within the code. -/
theorem missingAtEnd_eq_zero (whole : ∀ p ∈ code.instructions, p.1 + p.2.size ≤ code.size) :
    missingAtEnd code = 0 := by
  unfold missingAtEnd
  cases ending : code.instructions.getLast? with
  | none => rfl
  | some p =>
    have listed := List.mem_of_getLast? ending
    have inside := (mem_instructions listed).1
    have ends := whole p listed
    simp only [missing_eq inside]
    omega

/-! ## Codes and rows of instructions -/

/-- What the walk over a code has to do with its bytes. -/
structure Lossless (code : Code) : Prop where
  /-- It ends, after no more instructions than there are bytes. -/
  ends : code.instructions.length ≤ code.size
  first : code.instructions.head?.map (·.1) = if code.size = 0 then none else some 0
  next : code.instructions.IsChain fun p q => q.1 = p.1 + p.2.size
  fetched : ∀ p ∈ code.instructions, p.2 = code.fetch p.1
  /-- What is encoded is the code, filled up with zeros where the last push is cut off. -/
  bytes : encodeAll (code.instructions.map (·.2)) = code.toList ++ List.replicate (missingAtEnd code) 0
  /-- Each byte of the code belongs to exactly one instruction. -/
  covers : ∀ a < code.size, ∃! p, p ∈ code.instructions ∧ p.1 ≤ a ∧ a < p.1 + p.2.size

theorem isChain_placedFrom (a : Nat) (row : List Instruction) :
    (placedFrom a row).IsChain fun p q => q.1 = p.1 + p.2.size := by
  induction row generalizing a with
  | nil => exact .nil
  | cons i row ih =>
    cases row with
    | nil => exact .singleton _
    | cons j row => exact .cons_cons rfl (ih (a + i.size))

theorem encodeAll_instructions (code : Code) :
    encodeAll (code.instructions.map (·.2)) = code.toList ++ List.replicate (missingAtEnd code) 0 := by
  have bytes := encodeAll_instructionsFrom code 0
  have size := totalSize_instructions code
  rw [← Code.instructions, size, bytesFrom_start (Nat.le_add_right _ _), Nat.add_sub_cancel_left] at bytes
  exact bytes

/-- Walking over any bytes loses nothing. -/
theorem walk_lossless (code : Code) : Lossless code := by
  have placed := instructionsFrom_placed code 0
  rw [← Code.instructions] at placed
  refine ⟨length_instructionsFrom_le code 0, ?_, ?_, ?_, encodeAll_instructions code, ?_⟩
  · rw [Code.instructions]
    by_cases empty : code.size = 0
    · rw [instructionsFrom_outside (Nat.le_of_eq empty), if_pos empty]
      rfl
    · rw [instructionsFrom_inside (Nat.pos_of_ne_zero empty), if_neg empty]
      rfl
  · rw [placed]
    exact isChain_placedFrom 0 _
  · intro p listed
    exact (mem_instructions listed).2
  · intro a within
    obtain ⟨p, listed, inside⟩ := covered_from (Nat.zero_le a) within
    refine ⟨p, ⟨listed, inside⟩, ?_⟩
    rintro q ⟨other, within⟩
    exact eq_of_covers other listed within inside

/-- Instructions that have encodings of their own are read back from their bytes, each where those before it end,
and no other row of such instructions has these bytes. -/
theorem decoding_unique {row : List Instruction} (encodable : ∀ i ∈ row, Encodable i) :
    (∀ k, (Code.ofList (encodeAll row)).instructions[k]? = row[k]?.map fun i => (totalSize (row.take k), i)) ∧
      ∀ other : List Instruction, (∀ i ∈ other, Encodable i) → encodeAll other = encodeAll row → other = row := by
  have decoded := instructions_encode encodable
  constructor
  · intro k
    rw [decoded, getElem?_placedFrom]
    simp only [Nat.zero_add]
  · intro other encodableOther same
    have decodedOther := instructions_encode encodableOther
    rw [same, decoded] at decodedOther
    have rows := congrArg (List.map (·.2)) decodedOther
    rw [map_placedFrom, map_placedFrom] at rows
    exact rows.symm

/-- Immediates made of the bytes of other instructions, and bytes that are no instructions. -/
def lookalikes : List Instruction :=
  [.push 3 0x5b605b, .op .jumpdest, .invalid 0x0c, .invalid Opcode.invalidByte, .push 32 (.ofNat (2 ^ 256 - 1)),
    .dup 16, .swap 1]

theorem lookalikes_unique :
    (∀ i ∈ lookalikes, Encodable i) ∧
      (Code.ofList (encodeAll lookalikes)).instructions[1]? = some (4, .op .jumpdest) ∧
      (Code.ofList (encodeAll lookalikes)).instructions[6]? = some (41, .swap 1) ∧
      ∀ other : List Instruction, (∀ i ∈ other, Encodable i) → encodeAll other = encodeAll lookalikes →
        other = lookalikes := by
  have encodable : ∀ i ∈ lookalikes, Encodable i := by decide
  obtain ⟨read, unique⟩ := decoding_unique encodable
  exact ⟨encodable, read 1, read 6, unique⟩

end Gosub.Decoding
