import Gosub.Machine.Memory
import Gosub.Proofs.Encoding

/-!
# Accesses to the memory

What an access does, byte by byte: the memory reads as before but for what is stored, and it reaches the
end of the access, in whole words (`Touches`).
-/

namespace Gosub.Accesses

open Memory Encoding

variable {mem after : Memory} {offset value : Word}

/-! ## Growing, writing, reading -/

theorem le_roundUp (n : Nat) : n ≤ roundUp n := by
  unfold roundUp Word.size
  omega

theorem size_growTo (mem : Memory) (size : Nat) : (mem.growTo size).size = max mem.size size := by
  simp only [growTo, Memory.size, Array.size_append, Array.size_replicate]
  omega

theorem byteAt_growTo (mem : Memory) (size a : Nat) : (mem.growTo size).byteAt a = mem.byteAt a :=
  getD_append_zeros mem.bytes _ a

theorem size_write (mem : Memory) (start : Nat) (bytes : List UInt8) : (mem.write start bytes).size = mem.size := by
  induction bytes generalizing mem start with
  | nil => rfl
  | cons b bytes ih =>
    rw [write, ih]
    simp [Memory.size]

theorem limit_write (mem : Memory) (start : Nat) (bytes : List UInt8) :
    (mem.write start bytes).limit = mem.limit := by
  induction bytes generalizing mem start with
  | nil => rfl
  | cons b bytes ih => rw [write, ih]

/-- Bytes that are written where the memory reaches are there afterwards, and no other byte changes. -/
theorem byteAt_write {start : Nat} {bytes : List UInt8} (reaches : start + bytes.length ≤ mem.size) (a : Nat) :
    (mem.write start bytes).byteAt a =
      if start ≤ a ∧ a < start + bytes.length then bytes.getD (a - start) 0 else mem.byteAt a := by
  induction bytes generalizing mem start with
  | nil =>
    have outside : ¬ (start ≤ a ∧ a < start + 0) := by omega
    rw [write, List.length_nil, if_neg outside]
  | cons b bytes ih =>
    rw [List.length_cons] at reaches ⊢
    have stored : ∀ a, ({ mem with bytes := mem.bytes.setIfInBounds start b } : Memory).byteAt a =
        if a = start then b else mem.byteAt a := by
      intro a
      have inside : start < mem.bytes.size := by
        have := reaches
        unfold Memory.size at this
        omega
      simp only [byteAt, Array.getD_eq_getD_getElem?, Array.getElem?_setIfInBounds]
      by_cases here : start = a
      · subst here
        simp [inside]
      · rw [if_neg here, if_neg (Ne.symm here)]
    have reachesRest : start + 1 + bytes.length ≤
        ({ mem with bytes := mem.bytes.setIfInBounds start b } : Memory).size := by
      simp only [Memory.size, Array.size_setIfInBounds] at reaches ⊢
      omega
    rw [write, ih reachesRest, stored]
    rcases Nat.lt_trichotomy a start with before | rfl | behind
    · rw [if_neg (by omega), if_neg (by omega), if_neg (by omega)]
    · rw [if_neg (by omega), if_pos rfl, if_pos (by omega), Nat.sub_self]
      rfl
    · have step : a - start = a - (start + 1) + 1 := by omega
      rw [if_neg (by omega : ¬ a = start), step, List.getD_cons_succ]
      by_cases inside : a < start + 1 + bytes.length
      · rw [if_pos (by omega), if_pos (by omega)]
      · rw [if_neg (by omega), if_neg (by omega)]

theorem slice_eq {start length : Nat} (reaches : start + length ≤ mem.size) :
    mem.slice start length = (List.range length).map fun i => mem.byteAt (start + i) := by
  unfold Memory.size at reaches
  refine List.ext_getElem? fun i => ?_
  simp only [slice, Array.getElem?_toList, Array.getElem?_extract, List.getElem?_map, Nat.min_eq_left reaches,
    Nat.add_sub_cancel_left]
  by_cases inside : i < length
  · have within : start + i < mem.bytes.size := by omega
    rw [if_pos inside, List.getElem?_range inside]
    simp [byteAt, within]
  · rw [if_neg inside, List.getElem?_eq_none (by simpa using inside)]
    rfl

/-! ## The four accesses -/

/-- The memory after an access that ends at `stop`. -/
structure Touches (mem after : Memory) (stop : Nat) : Prop where
  size : after.size = max mem.size (roundUp stop)
  limit : after.limit = mem.limit

theorem Touches.reaches {stop : Nat} (touches : Touches mem after stop) : stop ≤ after.size := by
  have := le_roundUp stop
  rw [touches.size]
  omega

/-- What is made addressable reads as before. -/
theorem expand_eq_ok {length start : Nat} (done : mem.expand offset length = .ok (start, after)) :
    start = offset.toNat ∧ Touches mem after (offset.toNat + length) ∧ after.byteAt = mem.byteAt := by
  unfold expand Word.address? at done
  by_cases small : offset.toNat < addressBound
  · simp only [if_pos small] at done
    split at done
    · cases done
    · split at done
      · cases done
      · cases done
        exact ⟨rfl, ⟨size_growTo mem _, rfl⟩, funext (byteAt_growTo mem _)⟩
  · simp only [if_neg small] at done
    cases done

/-- What ends at an address and within the limit can be made addressable, and nothing else. -/
theorem expand_succeeds {length : Nat} : (∃ p, mem.expand offset length = .ok p) ↔
    offset.toNat + length < addressBound ∧ offset.toNat + length ≤ mem.limit := by
  unfold expand Word.address?
  by_cases small : offset.toNat < addressBound
  · simp only [if_pos small]
    by_cases far : addressBound ≤ offset.toNat + length
    · simp [far, Nat.not_lt.2 far]
    · by_cases beyond : mem.limit < offset.toNat + length
      · simp [far, beyond, Nat.not_le.2 beyond]
      · simp [far, beyond, Nat.not_lt.1 beyond, Nat.not_le.1 far]
  · have far : ¬ offset.toNat + length < addressBound := by omega
    simp [small, far]

theorem load_eq_ok {w : Word} (done : mem.load offset = .ok (w, after)) :
    w.toNat = natOfBytes ((List.range 32).map fun i => mem.byteAt (offset.toNat + i)) ∧
      Touches mem after (offset.toNat + 32) ∧ after.byteAt = mem.byteAt := by
  unfold load at done
  cases expanded : mem.expand offset Word.size with
  | error e =>
    rw [expanded] at done
    cases done
  | ok p =>
    rw [expanded] at done
    cases done
    obtain ⟨start, touches, reads⟩ := expand_eq_ok expanded
    refine ⟨?_, touches, reads⟩
    have fits := natOfBytes_lt ((List.range 32).map fun i => p.2.byteAt (offset.toNat + i))
    rw [List.length_map, List.length_range] at fits
    rw [start, slice_eq touches.reaches, Word.ofNat, BitVec.toNat_ofNat, ← reads]
    exact Nat.mod_eq_of_lt fits

/-- The bytes of a word, stored from an address on. -/
theorem store_eq_ok (done : mem.store offset value = .ok after) :
    Touches mem after (offset.toNat + 32) ∧ ∀ a, after.byteAt a =
      if offset.toNat ≤ a ∧ a < offset.toNat + 32 then UInt8.ofNat (value.toNat / 256 ^ (31 - (a - offset.toNat)))
      else mem.byteAt a := by
  unfold store at done
  cases expanded : mem.expand offset Word.size with
  | error e =>
    rw [expanded] at done
    cases done
  | ok p =>
    rw [expanded] at done
    obtain rfl : p.2.write p.1 value.toBytes = after := Except.ok.inj done
    obtain ⟨start, touches, reads⟩ := expand_eq_ok expanded
    have length : value.toBytes.length = 32 := length_bytesOfNat _ _
    have reaches : p.1 + value.toBytes.length ≤ p.2.size := by
      rw [start, length]
      exact touches.reaches
    refine ⟨⟨?_, ?_⟩, fun a => ?_⟩
    · rw [size_write, touches.size]
      rfl
    · rw [limit_write, touches.limit]
    · rw [byteAt_write reaches, start, length, reads]
      by_cases inside : offset.toNat ≤ a ∧ a < offset.toNat + 32
      · have byte : (bytesOfNat 32 value.toNat)[a - offset.toNat]? =
            some (UInt8.ofNat (value.toNat / 256 ^ (31 - (a - offset.toNat)))) :=
          getElem?_bytesOfNat value.toNat (by omega)
        rw [if_pos inside, if_pos inside, List.getD_eq_getElem?_getD, Word.toBytes, Word.size, byte]
        rfl
      · rw [if_neg inside, if_neg inside]

theorem store8_eq_ok (done : mem.store8 offset value = .ok after) :
    Touches mem after (offset.toNat + 1) ∧ ∀ a, after.byteAt a =
      if a = offset.toNat then UInt8.ofNat value.toNat else mem.byteAt a := by
  unfold store8 at done
  cases expanded : mem.expand offset 1 with
  | error e =>
    rw [expanded] at done
    cases done
  | ok p =>
    rw [expanded] at done
    cases done
    obtain ⟨start, touches, reads⟩ := expand_eq_ok expanded
    have reaches : p.1 + [value.lowByte].length ≤ p.2.size := by
      rw [start]
      exact touches.reaches
    refine ⟨⟨?_, ?_⟩, fun a => ?_⟩
    · rw [size_write, touches.size]
    · rw [limit_write, touches.limit]
    · rw [byteAt_write reaches, start, reads, List.length_singleton]
      by_cases here : a = offset.toNat
      · rw [if_pos here, if_pos (by omega), here, Nat.sub_self]
        rfl
      · rw [if_neg here, if_neg (by omega)]

/-- Nothing is read without touching anything. -/
theorem read_eq_ok {length : Word} {output : List UInt8} (done : mem.read offset length = .ok (output, after)) :
    output = ((List.range length.toNat).map fun i => mem.byteAt (offset.toNat + i)) ∧ after.byteAt = mem.byteAt ∧
      after.limit = mem.limit ∧
      after.size = if length.toNat = 0 then mem.size else max mem.size (roundUp (offset.toNat + length.toNat)) := by
  unfold Memory.read Word.address? at done
  by_cases none : length = 0
  · subst none
    simp only [if_true] at done
    cases done
    exact ⟨rfl, rfl, rfl, rfl⟩
  · have some : ¬ length.toNat = 0 := fun zero => none (BitVec.eq_of_toNat_eq zero)
    simp only [if_neg none] at done
    by_cases small : length.toNat < addressBound
    · simp only [if_pos small] at done
      cases expanded : mem.expand offset length.toNat with
      | error e =>
        rw [expanded] at done
        cases done
      | ok p =>
        rw [expanded] at done
        cases done
        obtain ⟨start, touches, reads⟩ := expand_eq_ok expanded
        refine ⟨?_, reads, touches.limit, ?_⟩
        · rw [start, slice_eq touches.reaches, ← reads]
        · rw [if_neg some, touches.size]
    · simp only [if_neg small] at done
      cases done

end Gosub.Accesses
