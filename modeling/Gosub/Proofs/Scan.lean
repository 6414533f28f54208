import Mathlib.Data.List.Sort
import Gosub.Proofs.Policies

/-!
# The scan for destinations

Destinations can be found without decoding an instruction: a loop goes over the bytes from opcode to opcode, skips the
immediates by their sizes and notes in a table what is marked at each address. The loop and the walk stay in step over
every code (`getD_scanFrom`), so that the table holds exactly the destinations (`scan_agrees`).
-/

namespace Gosub

/-- The markers that an opcode sets. -/
def Policy.marksOf : Policy → Opcode → Markers
  | shared, .op .jumpdest => ⟨true, true⟩
  | distinct, .op .jumpdest => ⟨true, false⟩
  | distinct, .op .beginsub => ⟨false, true⟩
  | _, _ => .empty

/-- Notes the markers of the opcodes from an address on. An unassigned byte is passed over. -/
def Code.scanFrom (code : Code) (policy : Policy) (address : Nat) (table : Array Markers) : Array Markers :=
  if address < code.size then
    match Opcode.ofByte? (code.byteAt address) with
    | none => code.scanFrom policy (address + 1) table
    | some o =>
      code.scanFrom policy (address + 1 + o.immediateSize) (table.setIfInBounds address (policy.marksOf o))
  else table
termination_by code.size - address

/-- The markers of every address of the code. -/
def Code.scan (code : Code) (policy : Policy) : Array Markers :=
  code.scanFrom policy 0 (Array.replicate code.size .empty)

/-- The markers of an address, none past the end. -/
def Code.scannedAt (code : Code) (policy : Policy) (address : Nat) : Markers :=
  (code.scan policy).getD address .empty

end Gosub

namespace Gosub.Scan

open Gosub.Walk Gosub.Policies

variable {code : Code} {policy : Policy} {d : Destinations} {kind : DestinationKind} {a b : Nat}

/-! ## One opcode -/

theorem ext_has {m n : Markers} (same : ∀ kind, m.has kind = n.has kind) : m = n := by
  have jump : m.jump = n.jump := same .jump
  have subroutine : m.subroutine = n.subroutine := same .subroutine
  cases m
  cases n
  simp_all

theorem markers_ofOpcode (policy : Policy) {o : Opcode} (noImmediate : o.immediateSize = 0) :
    policy.markers (.ofOpcode o) = policy.marksOf o := by
  cases o with
  | push k => cases noImmediate
  | op o => cases policy <;> cases o <;> rfl
  | dup _ | swap _ | invalid => cases policy <;> rfl

/-- An instruction marks what its opcode marks and is as long as its opcode says. -/
theorem fetch_assigned (policy : Policy) {o : Opcode} (assigned : Opcode.ofByte? (code.byteAt a) = some o) :
    policy.markers (code.fetch a) = policy.marksOf o ∧ (code.fetch a).size = 1 + o.immediateSize := by
  rw [fetch_eq, assigned]
  cases o with
  | push k =>
    constructor
    · cases policy <;> rfl
    · exact Nat.add_comm (k.val + 1) 1
  | op _ | dup _ | swap _ | invalid => exact ⟨markers_ofOpcode policy rfl, rfl⟩

theorem fetch_unassigned (policy : Policy) (unassigned : Opcode.ofByte? (code.byteAt a) = none) :
    policy.markers (code.fetch a) = .empty ∧ (code.fetch a).size = 1 := by
  rw [fetch_eq, unassigned]
  constructor
  · cases policy <;> rfl
  · rfl

/-! ## The table -/

theorem getD_setIfInBounds (table : Array Markers) (marks : Markers) (inside : a < table.size) :
    (table.setIfInBounds a marks).getD b .empty = if a = b then marks else table.getD b .empty := by
  rw [Array.getD_eq_getD_getElem?, Array.getElem?_setIfInBounds, Array.getD_eq_getD_getElem?]
  by_cases same : a = b
  · subst same
    simp [inside]
  · simp [same]

theorem listed_here (inside : a < code.size) : (a, code.fetch a) ∈ code.instructionsFrom a := by
  rw [instructionsFrom_inside inside]
  exact List.mem_cons_self

/-- All but the first instruction of the walk from an address are those of the walk behind it. -/
theorem listed_behind (inside : a < code.size) (other : b ≠ a) :
    (b, code.fetch b) ∈ code.instructionsFrom a ↔
      (b, code.fetch b) ∈ code.instructionsFrom (a + (code.fetch a).size) := by
  rw [instructionsFrom_inside inside, List.mem_cons]
  simp [other]

theorem not_listed_before {c : Nat} (before : b < c) : (b, code.fetch b) ∉ code.instructionsFrom c := by
  intro listed
  have behind := (mem_instructionsFrom listed).1
  omega

/-- The loop and the walk stay in step: from an address on, where nothing is noted yet, the loop notes what the
instructions of the walk mark, and it leaves alone what was noted before. -/
theorem getD_scanFrom (policy : Policy) {table : Array Markers} (whole : table.size = code.size)
    (clean : ∀ c, a ≤ c → table.getD c .empty = .empty) (b : Nat) :
    (code.scanFrom policy a table).getD b .empty =
      if (b, code.fetch b) ∈ code.instructionsFrom a then policy.markers (code.fetch b) else table.getD b .empty := by
  induction a, table using Code.scanFrom.induct code policy with
  | case1 a table inside unassigned ih =>
    obtain ⟨marks, size⟩ := fetch_unassigned policy unassigned
    rw [Code.scanFrom, if_pos inside, unassigned]
    apply (ih whole fun c behind => clean c (by omega)).trans
    by_cases same : b = a
    · subst same
      -- An unassigned byte marks nothing, which is what the table holds there already.
      rw [if_neg (not_listed_before (Nat.lt_succ_self b)), if_pos (listed_here inside), marks]
      exact clean b (Nat.le_refl b)
    · simp only [listed_behind inside same, size]
  | case2 a table inside o assigned ih =>
    obtain ⟨marks, size⟩ := fetch_assigned policy assigned
    have next : a + 1 + o.immediateSize = a + (code.fetch a).size := by omega
    rw [Code.scanFrom, if_pos inside, assigned]
    have noted (c : Nat) := getD_setIfInBounds (b := c) table (policy.marksOf o) (whole.symm ▸ inside)
    apply (ih (by simpa using whole) fun c behind => ?_).trans
    · simp only [noted, next]
      by_cases same : b = a
      · subst same
        rw [if_neg (not_listed_before (by omega)), if_pos (listed_here inside), if_pos rfl, marks]
      · simp only [listed_behind inside same, Ne.symm same, if_false]
    · rw [noted, if_neg (by omega)]
      exact clean c (by omega)
  | case3 a table outside =>
    rw [Code.scanFrom, if_neg outside, instructionsFrom_outside (Nat.not_lt.1 outside)]
    simp

/-- The scan notes what the instructions of the walk mark, and nothing else. -/
theorem scannedAt_eq_ite (policy : Policy) (a : Nat) :
    code.scannedAt policy a =
      if (a, code.fetch a) ∈ code.instructions then policy.markers (code.fetch a) else .empty := by
  have clean (c : Nat) : (Array.replicate code.size Markers.empty).getD c .empty = .empty := by
    rw [Array.getD_eq_getD_getElem?, Array.getElem?_replicate]
    split <;> rfl
  rw [Code.scannedAt, Code.scan, getD_scanFrom policy Array.size_replicate (fun c _ => clean c), clean]
  rfl

theorem scannedAt_eq (policy : Policy) (a : Nat) :
    code.scannedAt policy a = (code.destinations policy).markersAt a := by
  apply ext_has
  intro kind
  have valid : ((code.destinations policy).markersAt a).has kind = true ↔
      (a, code.fetch a) ∈ code.instructions ∧ (policy.markers (code.fetch a)).has kind = true :=
    valid_iff
  rw [Bool.eq_iff_iff, valid, scannedAt_eq_ite]
  by_cases listed : (a, code.fetch a) ∈ code.instructions
  · simp [listed]
  · cases kind <;> simp [listed, Markers.empty, Markers.has]

/-! ## The destinations in order -/

theorem pairwise_instructionsFrom (code : Code) (a : Nat) :
    (code.instructionsFrom a).Pairwise fun p q => p.1 < q.1 := by
  induction a using Code.instructionsFrom.induct code with
  | case1 a inside ih =>
    rw [instructionsFrom_inside inside, List.pairwise_cons]
    refine ⟨fun p later => ?_, ih⟩
    have behind := (mem_instructionsFrom later).1
    have positive := (code.fetch a).size_pos
    omega
  | case2 a outside =>
    rw [instructionsFrom_outside (Nat.not_lt.1 outside)]
    exact .nil

theorem increasing_ofKind (code : Code) (policy : Policy) (kind : DestinationKind) :
    ((code.destinations policy).ofKind kind).Pairwise (· < ·) := by
  unfold Destinations.ofKind
  rw [List.pairwise_map]
  apply List.Pairwise.filter
  apply List.Pairwise.filter
  rw [List.pairwise_map]
  exact pairwise_instructionsFrom code 0

theorem mem_ofKind : a ∈ d.ofKind kind ↔ d.isValid kind a = true := by
  rw [valid_iff, Destinations.ofKind, d.marked_eq, List.mem_map]
  constructor
  · rintro ⟨⟨a, marks⟩, found, rfl⟩
    obtain ⟨member, has⟩ := List.mem_filter.1 found
    obtain ⟨listed, rfl⟩ := marked_listed member
    exact ⟨listed, has⟩
  · rintro ⟨listed, has⟩
    exact ⟨_, List.mem_filter.2 ⟨listed_marked listed (ne_empty_of_has has), has⟩, rfl⟩

theorem ofKind_eq (code : Code) (policy : Policy) (kind : DestinationKind) :
    (code.destinations policy).ofKind kind =
      (List.range code.size).filter fun a => (code.scannedAt policy a).has kind := by
  apply (increasing_ofKind code policy kind).eq_of_mem_iff
  · exact List.pairwise_lt_range.filter _
  · intro a
    rw [mem_ofKind, List.mem_filter, List.mem_range, scannedAt_eq]
    constructor
    · intro valid
      exact ⟨(mem_instructions (valid_iff_mark.1 valid)).1, valid⟩
    · exact fun found => found.2

/-- The destinations are exactly those that the walk meets, and those that the loop finds. -/
structure Analysed (code : Code) (policy : Policy) (d : Destinations) : Prop where
  scanned : ∀ a, d.markersAt a = code.scannedAt policy a
  jump : ∀ a, (d.markersAt a).jump = true ↔ (a, .op .jumpdest) ∈ code.instructions
  shared : policy = .shared → ∀ a, (d.markersAt a).subroutine = true ↔ (a, .op .jumpdest) ∈ code.instructions
  distinct : policy = .distinct → ∀ a, (d.markersAt a).subroutine = true ↔ (a, .op .beginsub) ∈ code.instructions
  outside : ∀ a, code.size ≤ a → d.markersAt a = .empty
  listed : ∀ kind, d.ofKind kind = (List.range code.size).filter fun a => (code.scannedAt policy a).has kind
  member : ∀ kind a, a ∈ d.ofKind kind ↔ d.isValid kind a = true
  increasing : ∀ kind, (d.ofKind kind).Pairwise (· < ·)
  policies : ∀ other, (code.destinations other).ofKind .jump = d.ofKind .jump

/-- The analysis of any code is its walk and its scan at once, under both policies. -/
theorem scan_agrees (code : Code) (policy : Policy) : Analysed code policy (code.destinations policy) where
  scanned a := (scannedAt_eq policy a).symm
  jump _ := valid_jump
  shared same a := by
    subst same
    show (code.destinations .shared).isValid .subroutine a = true ↔ _
    exact valid_iff_mark
  distinct same a := by
    subst same
    show (code.destinations .distinct).isValid .subroutine a = true ↔ _
    exact valid_iff_mark
  outside a outside := by
    rw [← scannedAt_eq, scannedAt_eq_ite, if_neg]
    intro listed
    exact absurd (mem_instructions listed).1 (Nat.not_lt.2 outside)
  listed := ofKind_eq code policy
  member _ _ := mem_ofKind
  increasing := increasing_ofKind code policy
  policies other := by
    apply (increasing_ofKind code other .jump).eq_of_mem_iff (increasing_ofKind code policy .jump)
    intro a
    rw [mem_ofKind, mem_ofKind, valid_jump, valid_jump]
    rfl

end Gosub.Scan
