import Mathlib.Data.List.Forall2
import Gosub.Proofs.Assembling
import Gosub.Proofs.Parts
import Gosub.Proofs.Results
import Gosub.Proofs.Steps

/-!
# Labels as destinations

A label is a destination when the first statement behind its definition is the mark of one, and not otherwise,
whatever bytes stand in immediates (`valid_label`): the layout puts the label where the walk meets this statement. A
machine reports an invalid destination only of a word that is none (`reachable_unresolved`), and so never of the
address of a label before a mark (`labels_are_destinations`).
-/

namespace Gosub.Targets

open Machine
open Gosub.Walk Gosub.Assembling Gosub.Parts Gosub.Results Gosub.Steps

variable {m : Machine} {code : Code} {config : Configuration} {labels : Labels} {s : Statement} {i : Instruction}

/-! ## Invalid destinations -/

/-- A trap that reports an invalid destination tells the truth. -/
def Unresolved (m : Machine) (trap : Trap) : Prop :=
  ∀ kind target, trap = .invalidDestination kind target → m.destinations.resolve? kind target = none

/-- The effect keeps the destinations and does not end the execution, or reports as invalid what is invalid. -/
def Truthful {α : Type} (x : Effect α) : Prop :=
  ∀ m, Yields m x (fun _ n => n.destinations = m.destinations ∧ n.status = m.status) fun trap _ => Unresolved m trap

theorem truthful_bind {α β : Type} {x : Effect α} {f : α → Effect β} (first : Truthful x)
    (second : ∀ a, Truthful (f a)) : Truthful (x >>= f) := by
  intro m
  have start := first m
  refine yields_bind ?_
  unfold Yields at start ⊢
  cases ran : x m with
  | error trap n =>
    rw [ran] at start
    exact start
  | ok a n =>
    rw [ran] at start
    obtain ⟨destinations, status⟩ := start
    have rest := second a n
    simp only [Yields, Unresolved, destinations, status] at rest
    exact rest

theorem truthful_pure {α : Type} (a : α) : Truthful (pure a : Effect α) := fun _ => ⟨rfl, rfl⟩

/-- What an instruction does to the stack last fails for want of words or room. -/
theorem truthful_last {f : Stack → Except Trap Stack}
    (fails : ∀ stack trap, f stack = .error trap → trap = .stackUnderflow ∨ trap = .stackOverflow) :
    Truthful (changeStack f >>= fun _ => pure Flow.next) := by
  intro m
  refine yields_bind (yields_changeStack (fun trap refused kind target same => ?_) fun _ _ => ⟨rfl, rfl⟩)
  rcases fails m.stack trap refused with rfl | rfl <;> cases same

theorem truthful_access {α : Type} (f : Memory → Except MemoryError (α × Memory)) : Truthful (access f) := by
  intro m
  refine yields_access (fun e _ kind target same => ?_) fun _ _ _ => ⟨rfl, rfl⟩
  cases same

theorem truthful_resolve (kind : DestinationKind) (target : Word) : Truthful (resolve kind target) := by
  intro m
  refine yields_resolve (fun refused kind' target' same => ?_) fun _ _ => ⟨rfl, rfl⟩
  cases same
  exact refused

theorem closed_truthful : Closed Truthful Truthful where
  bind := truthful_bind
  ends := truthful_pure
  throws _ _ _ _ same := by cases same
  get _ rest m := rest m m
  takeWord _ := yields_takeWord (fun _ _ _ same => by cases same) fun _ _ _ => ⟨rfl, rfl⟩
  load _ := truthful_access _
  read _ _ := truthful_access _
  store _ _ := truthful_access _
  store8 _ _ := truthful_access _
  resolve := truthful_resolve
  saveCall _ := by
    refine yields_saveCall (fun trap full kind target same => ?_) fun _ _ => ⟨rfl, rfl⟩
    rw [ReturnStack.trap_of_push full] at same
    cases same
  takeCall _ := ⟨rfl, rfl⟩
  put _ := truthful_last fun _ _ refused => .inr (Stack.trap_of_push refused)
  dup _ := truthful_last fun _ _ refused => Stack.trap_of_dup refused
  swap _ := truthful_last fun _ _ refused => .inl (Stack.trap_of_swap refused)

/-- A step that faults for an invalid destination was led to a word that names none. -/
theorem step_unresolved (running : m.status = .running) {pc : Nat} {kind : DestinationKind} {target : Word}
    (faulted : m.step.status = .faulted ⟨pc, .invalidDestination kind target⟩) :
    m.destinations.resolve? kind target = none := by
  cases charged : m.chargeFor m.next with
  | error e =>
    rw [step_refused running charged] at faulted
    cases faulted
  | ok budget =>
    rw [step_charged running charged] at faulted
    have told := closed_truthful.execute m.next (m.withBudget budget)
    unfold Yields at told
    cases ran : m.next.execute (m.withBudget budget) with
    | error trap n =>
      rw [ran] at told faulted
      cases faulted
      exact told kind target rfl
    | ok flow n =>
      -- What ran to its end left the machine running, or halted it.
      rw [ran] at told faulted
      have status : n.status = .running := told.2.trans running
      cases flow with
      | next | jump _ => exact absurd (status.symm.trans faulted) (by simp)
      | halt h => cases faulted

/-- So was every run that ended with such a fault. -/
theorem reachable_unresolved (reachable : Reachable code config m) {pc : Nat} {kind : DestinationKind} {target : Word}
    (faulted : m.status = .faulted ⟨pc, .invalidDestination kind target⟩) :
    (code.destinations config.policy).resolve? kind target = none := by
  induction reachable with
  | start => cases faulted
  | withStack _ filled ih => exact ih ((withStack_sameControl filled).status.symm.trans faulted)
  | withBudget _ _ ih => exact ih faulted
  | @step m reachable ih =>
    by_cases running : m.status = .running
    · rw [← reachable_destinations reachable]
      exact step_unresolved running faulted
    · rw [step_ended running] at faulted
      exact ih faulted

/-! ## Marks -/

/-- The mnemonic of the mark of a kind of destination. -/
def markName : Policy → DestinationKind → String
  | _, .jump => "jumpdest"
  | .shared, .subroutine => "jumpdest"
  | .distinct, .subroutine => "beginsub"

theorem mnemonic_markOf (policy : Policy) (kind : DestinationKind) :
    (markOf policy kind).mnemonic = markName policy kind := by
  cases policy <;> cases kind <;> rfl

/-- The first statement among some items has this mnemonic, in whatever case. -/
def BeginsWith (mnemonic : String) (items : List Item) : Prop :=
  ∃ s ∈ (statementsIn items).head?, Opcode.foldCase s.mnemonic.text = mnemonic

/-- A plain operation is asked for by its name alone. -/
theorem asks_op (asked : Asks labels s i) (mark : Operation) :
    i = .op mark ↔ Opcode.foldCase s.mnemonic.text = mark.mnemonic := by
  have named : Opcode.ofMnemonic? s.mnemonic.text = some (.op mark) ↔
      Opcode.foldCase s.mnemonic.text = mark.mnemonic := ofMnemonic?_eq_some
  rw [← named]
  cases asked with
  | @plain o found _ _ =>
    rw [found]
    cases o <;> simp [Instruction.ofOpcode]
  | push found _ _ => simp [found]
  | bareNumber bare _ | bareLabel bare _ _ =>
    have noPush : mark.mnemonic ≠ "push" := (mnemonics (.op mark) (mem_all _)).2.1
    rw [named, bare]
    simp [noPush.symm]

/-- The label of a program that was assembled is a destination when a mark is the first statement behind it. -/
theorem valid_label {p : Program} {a : Assembled} (faithful : Faithful p a) {before after : List Item} {name : Fragment}
    (split : p.items = before ++ .label name :: after) (policy : Policy) (kind : DestinationKind) :
    (a.code.destinations policy).isValid kind (startOf a.code (statementsIn before).length) = true ↔
      BeginsWith (markName policy kind) after := by
  have asked := List.forall₂_drop (statementsIn before).length faithful.instructions
  have behind : (statements p).drop (statementsIn before).length = statementsIn after := by
    rw [statements_eq, split]
    simp [statementsIn, statementOf?, List.filterMap_cons]
  rw [behind, ← List.map_drop] at asked
  rw [valid_iff_mark, ← mnemonic_markOf, BeginsWith, startOf, ← List.head?_drop]
  cases rest : a.code.instructions.drop (statementsIn before).length with
  | nil =>
    -- The label is at the end of the code, where no instruction begins.
    rw [rest, List.map_nil, List.forall₂_nil_right_iff] at asked
    simp only [asked, List.head?_nil]
    constructor
    · intro inside
      exact absurd (mem_instructions inside).1 (Nat.lt_irrefl _)
    · rintro ⟨s, ⟨⟩, _⟩
  | cons q later =>
    rw [rest, List.map_cons] at asked
    obtain ⟨s, others, asks, -, same⟩ := List.forall₂_cons_right_iff.1 asked
    have listed : q ∈ a.code.instructions := List.mem_of_mem_drop (rest ▸ List.mem_cons_self)
    simp only [same, List.head?_cons, Option.mem_some_iff, exists_eq_left']
    rw [← asks_op asks]
    constructor
    · intro inside
      rw [(mem_instructions listed).2]
      exact (mem_instructions inside).2.symm
    · intro mark
      show (q.1, .op (markOf policy kind)) ∈ a.code.instructions
      rw [← mark]
      exact listed

/-- What an address is as a destination of a kind, for a label at this address with these items behind it. -/
structure Lands (code : Code) (policy : Policy) (kind : DestinationKind) (address : Nat) (after : List Item) :
    Prop where
  /-- It is one exactly where the first statement behind the label is the mark of this kind. -/
  valid : (code.destinations policy).isValid kind address = true ↔ BeginsWith (markName policy kind) after
  /-- Then no run of the code faults for going there. -/
  safe : BeginsWith (markName policy kind) after → ∀ limit m, Reachable code ⟨policy, limit⟩ m →
    ∀ pc target, m.status = .faulted ⟨pc, .invalidDestination kind target⟩ → target.address? ≠ some address

/-- Whatever source is assembled, every label has an address, and under every policy the statement behind the label
tells what this address is as a destination. -/
theorem labels_are_destinations {source : String} {a : Assembled} (assembled : assemble source = .ok a) :
    ∃ p, Program.parse source = .ok p ∧ ∀ before name after, p.items = before ++ .label name :: after →
      ∃ address, a.labels.address? name.text = some address ∧
        ∀ policy kind, Lands a.code policy kind address after := by
  obtain ⟨p, parsed, compiled⟩ := compile_of_assemble assembled
  have faithful := faithful_of_compile compiled
  refine ⟨p, parsed, fun before name after split => ?_⟩
  refine ⟨_, (faithful.labels _ _).2 ⟨before, name, after, split, rfl, rfl⟩, fun policy kind => ?_⟩
  have valid := valid_label faithful split policy kind
  refine ⟨valid, fun marked limit m reachable pc target faulted named => ?_⟩
  have unresolved := reachable_unresolved reachable faulted
  rw [Destinations.resolve?, named, Option.filter_some, valid.2 marked] at unresolved
  cases unresolved

/-- A mark in an immediate, two labels before one, and a label with nothing behind it. -/
def jumpAhead : String := "push 0x5b\npush a\njump\na: ;\nb: jumpdest\nc:"

def jumpAheadAssembled : Assembled :=
  ⟨.ofList [0x60, 0x5b, 0x61, 0x00, 0x06, 0x56, 0x5b], ⟨[("a", 6), ("b", 6), ("c", 7)]⟩⟩

theorem jumpAhead_destinations :
    assemble jumpAhead = .ok jumpAheadAssembled ∧
    ∃ p, Program.parse jumpAhead = .ok p ∧ ∀ before name after, p.items = before ++ .label name :: after →
      ∃ address, jumpAheadAssembled.labels.address? name.text = some address ∧
        ∀ policy kind, Lands jumpAheadAssembled.code policy kind address after := by
  have assembled : assemble jumpAhead = .ok jumpAheadAssembled := assemble_of_emit (by decide +kernel)
  exact ⟨assembled, labels_are_destinations assembled⟩

end Gosub.Targets
