import Gosub.Code.Destinations

/-!
# The walk over a code

Where instructions begin. The walk starts at the first byte, each of its instructions is what is
fetched at its address, the next one begins where it ends (`next_listed`), and no instruction begins
inside another (`listed_apart`). The destinations are the instructions of the walk that mark one
(`valid_iff_mark`).
-/

namespace Gosub.Walk

variable {code : Code}

theorem instructionsFrom_inside {a : Nat} (inside : a < code.size) :
    code.instructionsFrom a = (a, code.fetch a) :: code.instructionsFrom (a + (code.fetch a).size) := by
  rw [Code.instructionsFrom]
  exact if_pos inside

theorem instructionsFrom_outside {a : Nat} (outside : code.size ≤ a) : code.instructionsFrom a = [] := by
  rw [Code.instructionsFrom]
  exact if_neg (Nat.not_lt.2 outside)

/-- Past the end there is nothing but `stop`. -/
theorem fetch_outside {a : Nat} (outside : code.size ≤ a) : code.fetch a = .op .stop := by
  have nothing : code.bytes[a]? = none := Array.getElem?_eq_none outside
  rw [Code.fetch, nothing]

/-- What is fetched is told by the byte at the address, which is zero past the end, and by the bytes behind
it: the code reads like a tape that goes on with zeros. -/
theorem fetch_eq (code : Code) (a : Nat) :
    code.fetch a = match Opcode.ofByte? (code.byteAt a) with
      | none => .invalid (code.byteAt a)
      | some (.push k) => .push (k.val + 1) (code.immediate (a + 1) (k.val + 1))
      | some o => .ofOpcode o := by
  cases found : code.bytes[a]? with
  | none =>
    have outside : code.size ≤ a := Array.getElem?_eq_none_iff.1 found
    have zero : code.byteAt a = 0 := by simp [Code.byteAt, found]
    rw [fetch_outside outside, zero]
    rfl
  | some b =>
    have byte : code.byteAt a = b := by simp [Code.byteAt, found]
    rw [byte]
    cases assigned : Opcode.ofByte? b with
    | none => simp only [Code.fetch, found, assigned]
    | some o => cases o <;> simp only [Code.fetch, found, assigned]

/-- The walk from an address lists instructions of the code at their addresses, from there on. -/
theorem mem_instructionsFrom {a : Nat} {p : Nat × Instruction} (listed : p ∈ code.instructionsFrom a) :
    a ≤ p.1 ∧ p.1 < code.size ∧ p.2 = code.fetch p.1 := by
  induction a using Code.instructionsFrom.induct code with
  | case1 a inside ih =>
    rw [instructionsFrom_inside inside] at listed
    rcases List.mem_cons.1 listed with rfl | later
    · exact ⟨Nat.le_refl a, inside, rfl⟩
    · obtain ⟨behind, within, fetched⟩ := ih later
      exact ⟨by omega, within, fetched⟩
  | case2 a outside =>
    rw [instructionsFrom_outside (Nat.not_lt.1 outside)] at listed
    cases listed

theorem mem_instructions {p : Nat × Instruction} (listed : p ∈ code.instructions) :
    p.1 < code.size ∧ p.2 = code.fetch p.1 :=
  (mem_instructionsFrom listed).2

/-! ## Where instructions begin -/

/-- An instruction of the walk begins at an address. -/
def Listed (code : Code) (a : Nat) : Prop := (a, code.fetch a) ∈ code.instructions

theorem listed_of_mem {p : Nat × Instruction} (member : p ∈ code.instructions) : Listed code p.1 := by
  have fetched := (mem_instructions member).2
  rw [Listed, ← fetched]
  exact member

theorem first_listed (nonempty : 0 < code.size) : Listed code 0 := by
  rw [Listed, Code.instructions, instructionsFrom_inside nonempty]
  exact List.mem_cons_self

/-- From one of its instructions on, the walk goes on behind it. -/
theorem next_from {a b : Nat} (listed : (b, code.fetch b) ∈ code.instructionsFrom a)
    (inside : b + (code.fetch b).size < code.size) :
    (b + (code.fetch b).size, code.fetch (b + (code.fetch b).size)) ∈ code.instructionsFrom a := by
  induction a using Code.instructionsFrom.induct code with
  | case1 a within ih =>
    rw [instructionsFrom_inside within] at listed ⊢
    rcases List.mem_cons.1 listed with same | later
    · cases same
      rw [instructionsFrom_inside inside]
      exact List.mem_cons_of_mem _ List.mem_cons_self
    · exact List.mem_cons_of_mem _ (ih later)
  | case2 a outside =>
    rw [instructionsFrom_outside (Nat.not_lt.1 outside)] at listed
    cases listed

/-- From one of its instructions on, the walk is the walk from there. -/
theorem instructionsFrom_suffix {start a : Nat} (listed : (a, code.fetch a) ∈ code.instructionsFrom start) :
    code.instructionsFrom a <:+ code.instructionsFrom start := by
  induction start using Code.instructionsFrom.induct code with
  | case1 start inside ih =>
    rw [instructionsFrom_inside inside] at listed ⊢
    rcases List.mem_cons.1 listed with same | later
    · cases same
      exact ⟨[], instructionsFrom_inside inside⟩
    · exact (ih later).trans (List.suffix_cons _ _)
  | case2 start outside =>
    rw [instructionsFrom_outside (Nat.not_lt.1 outside)] at listed
    cases listed

theorem next_listed {a : Nat} (listed : Listed code a) (inside : a + (code.fetch a).size < code.size) :
    Listed code (a + (code.fetch a).size) :=
  next_from listed inside

/-- Of two instructions of the walk, the first ends before the second begins. -/
theorem apart_from {start a b : Nat} (first : (a, code.fetch a) ∈ code.instructionsFrom start)
    (second : (b, code.fetch b) ∈ code.instructionsFrom start) (before : a < b) :
    a + (code.fetch a).size ≤ b := by
  induction start using Code.instructionsFrom.induct code with
  | case1 start within ih =>
    rw [instructionsFrom_inside within] at first second
    rcases List.mem_cons.1 second with same | secondLater
    · cases same
      rcases List.mem_cons.1 first with same | firstLater
      · cases same
        omega
      · have := (mem_instructionsFrom firstLater).1
        dsimp only at this
        omega
    · rcases List.mem_cons.1 first with same | firstLater
      · cases same
        exact (mem_instructionsFrom secondLater).1
      · exact ih firstLater secondLater
  | case2 start outside =>
    rw [instructionsFrom_outside (Nat.not_lt.1 outside)] at first
    cases first

theorem listed_apart {a b : Nat} (first : Listed code a) (second : Listed code b) (before : a < b) :
    a + (code.fetch a).size ≤ b :=
  apart_from first second before

/-! ## Destinations -/

/-- The operation that marks a kind of destination. -/
def markOf : Policy → DestinationKind → Operation
  | _, .jump => .jumpdest
  | .shared, .subroutine => .jumpdest
  | .distinct, .subroutine => .beginsub

theorem has_iff (policy : Policy) (kind : DestinationKind) (i : Instruction) :
    (policy.markers i).has kind = true ↔ i = .op (markOf policy kind) := by
  cases i with
  | op o =>
    cases policy <;> cases kind <;> cases o <;> simp [Policy.markers, Markers.has, Markers.empty, markOf]
  | push _ _ | dup _ | swap _ | invalid _ =>
    cases policy <;> cases kind <;> simp [Policy.markers, Markers.has, Markers.empty]

/-- A marked address holds the instruction of the walk that marks it. -/
theorem marked_listed {policy : Policy} {a : Nat} {marks : Markers} (marked : (a, marks) ∈ code.marked policy) :
    Listed code a ∧ marks = policy.markers (code.fetch a) := by
  obtain ⟨p, member, same⟩ := List.mem_map.1 (List.mem_filter.1 marked).1
  cases same
  exact ⟨listed_of_mem member, by rw [(mem_instructions member).2]⟩

theorem mem_of_lookup {d : Destinations} {a : Nat} {marks : Markers} (found : d.marked.lookup a = some marks) :
    (a, marks) ∈ d.code.marked d.policy := by
  obtain ⟨before, after, split, -⟩ := List.lookup_eq_some_iff.1 found
  rw [← d.marked_eq, split]
  simp

/-- A destination of a kind is an instruction of the walk that marks this kind. -/
theorem valid_listed {d : Destinations} {kind : DestinationKind} {a : Nat} (valid : d.isValid kind a = true) :
    Listed d.code a ∧ (d.policy.markers (d.code.fetch a)).has kind = true := by
  rw [Destinations.isValid, Destinations.markersAt] at valid
  cases found : d.marked.lookup a with
  | none =>
    rw [found] at valid
    cases kind <;> cases valid
  | some marks =>
    rw [found] at valid
    obtain ⟨listed, marksAre⟩ := marked_listed (mem_of_lookup found)
    exact ⟨listed, marksAre ▸ valid⟩

/-- An instruction of the walk is marked, unless it marks nothing. -/
theorem listed_marked {policy : Policy} {a : Nat} (listed : Listed code a)
    (marks : policy.markers (code.fetch a) ≠ .empty) : (a, policy.markers (code.fetch a)) ∈ code.marked policy := by
  unfold Code.marked
  rw [List.mem_filter]
  constructor
  · exact List.mem_map.2 ⟨_, listed, rfl⟩
  · simpa using marks

theorem ne_empty_of_has {marks : Markers} {kind : DestinationKind} (has : marks.has kind = true) :
    marks ≠ .empty := by
  rintro rfl
  cases kind <;> cases has

/-- The destinations of a kind are the instructions of the walk that mark it. -/
theorem valid_iff {d : Destinations} {kind : DestinationKind} {a : Nat} :
    d.isValid kind a = true ↔ Listed d.code a ∧ (d.policy.markers (d.code.fetch a)).has kind = true := by
  constructor
  · exact valid_listed
  · rintro ⟨listed, has⟩
    have member := listed_marked listed (ne_empty_of_has has)
    rw [← d.marked_eq] at member
    rw [Destinations.isValid, Destinations.markersAt]
    cases found : d.marked.lookup a with
    | none =>
      have absent := List.lookup_eq_none_iff.1 found _ member
      simp at absent
    | some marks =>
      have same := (marked_listed (mem_of_lookup found)).2
      rw [Option.getD_some, same]
      exact has

/-- The destinations of a kind are where the walk meets the mark of this kind. -/
theorem valid_iff_mark {d : Destinations} {kind : DestinationKind} {a : Nat} :
    d.isValid kind a = true ↔ (a, .op (markOf d.policy kind)) ∈ d.code.instructions := by
  rw [valid_iff, has_iff]
  constructor
  · rintro ⟨listed, found⟩
    rw [Listed, found] at listed
    exact listed
  · intro member
    exact ⟨listed_of_mem member, (mem_instructions member).2.symm⟩

end Gosub.Walk
