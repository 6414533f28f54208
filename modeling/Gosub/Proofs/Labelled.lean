import Gosub.Proofs.Listings

/-!
# Labels in a listing

The labels of an assembled program stand in its listing, each in a line of its own in front of the instruction at its
address (`labels_shown`). But labels are listed with the instructions: one with no instruction behind it has the end
of the code for its address, and is left out.
-/

namespace Gosub.Labelled

open Gosub.Walk Gosub.Encoding Gosub.Assembling Gosub.Grammar Gosub.Parsing Gosub.Disassembly Gosub.Scan Gosub.Listings

variable {code : Code} {labels : Labels} {destinations : Option Destinations} {p : Program} {a : Assembled}
  {i : Instruction} {address : Nat} {name source : String} {row : List (Nat × Instruction)}

/-! ## Names -/

theorem ident_of_defined {names : List String} {text : List Char} (defined : Defined names text) :
    ∀ name ∈ names, Ident name.toList := by
  induction defined with
  | none => exact List.forall_mem_nil _
  | one ident _ _ _ ih => exact List.forall_mem_cons.2 ⟨ident, ih⟩

theorem ident_of_forms {contents : List Line.Content} {texts : List (List Char)}
    (forms : List.Forall₂ Grammar.Form contents texts) :
    ∀ content ∈ contents, ∀ name ∈ content.labels, Ident name.toList := by
  induction forms with
  | nil => exact List.forall_mem_nil _
  | cons here _ ih =>
    obtain ⟨-, defined, -, -, -⟩ := here
    exact List.forall_mem_cons.2 ⟨ident_of_defined defined, ih⟩

/-- The labels of a program that was read are names. -/
theorem ident_of_parse (read : Program.parse source = .ok p) {f : Fragment} (defined : .label f ∈ p.items) :
    Ident f.text.toList := by
  obtain ⟨l, line, item⟩ := List.mem_flatMap.1 defined
  have label : f ∈ l.labels := by simpa [Line.items] using item
  have forms := (parse_iff source _).1 ⟨p, read, rfl⟩
  exact ident_of_forms forms l.content (List.mem_map_of_mem line) f.text (List.mem_map_of_mem label)

theorem address?_eq_some_of_mem (faithful : Faithful p a) (member : name ∈ a.labels.names) :
    ∃ address, a.labels.address? name = some address := by
  obtain ⟨e, found, rfl⟩ := List.mem_map.1 member
  exact ⟨e.2, (Labels.address?_eq_some faithful.distinct).2 found⟩

theorem ident_of_assembled (read : Program.parse source = .ok p) (faithful : Faithful p a) :
    ∀ name ∈ a.labels.names, Ident name.toList := by
  intro name member
  obtain ⟨address, found⟩ := address?_eq_some_of_mem faithful member
  obtain ⟨before, f, after, items, rfl, -⟩ := (faithful.labels name address).1 found
  exact ident_of_parse read (items ▸ List.mem_append_cons_self)

/-! ## Label tables -/

theorem mem_namesAt (distinct : labels.names.Nodup) :
    name ∈ labels.namesAt address ↔ labels.address? name = some address := by
  rw [Labels.address?_eq_some distinct]
  simp [Labels.namesAt]

theorem sorted_namesAt (sorted : labels.names.Pairwise (· < ·)) (address : Nat) :
    (labels.namesAt address).Pairwise (· < ·) := by
  rw [Labels.names, List.pairwise_map] at sorted
  rw [Labels.namesAt, List.pairwise_map]
  exact sorted.filter _

/-- The labels of an assembled program are in alphabetical order, none twice. -/
theorem sorted_of_compile (compiled : p.compile = .ok a) : a.labels.names.Pairwise (· < ·) := by
  obtain ⟨placed, row, -, -, labels, -⟩ := passes_of_compile compiled
  have sorted : a.labels.names.Pairwise (· ≤ ·) := by
    rw [labels]
    exact sorted_ofList _
  exact sorted.imp₂ (fun _ _ => lt_of_le_of_ne) (faithful_of_compile compiled).distinct

/-- A label is at an instruction, or at the end of the code. -/
theorem listed_of_label (faithful : Faithful p a) (named : a.labels.address? name = some address) :
    (address < a.code.size ∧ Listed a.code address) ∨ address = a.code.size := by
  obtain ⟨before, f, after, -, -, rfl⟩ := (faithful.labels name address).1 named
  unfold startOf
  cases found : a.code.instructions[(statementsIn before).length]? with
  | none => exact .inr rfl
  | some q =>
    have member := List.mem_of_getElem? found
    exact .inl ⟨(mem_instructions member).1, listed_of_mem member⟩

/-! ## The text around an address -/

theorem labelLine_inj {other : String} (same : labelLine name = labelLine other) : name = other :=
  String.toList_inj.1 (List.append_cancel_right same)

theorem mem_texts (ident : Ident name.toList) (encodable : ∀ q ∈ row, Encodable q.2)
    (member : labelLine name ∈ texts labels destinations row) : ∃ q ∈ row, name ∈ labels.namesAt q.1 := by
  obtain ⟨l, inside, text⟩ := List.mem_map.1 member
  obtain ⟨q, among, ⟨other, named, rfl⟩ | rfl⟩ := mem_block.1 inside
  · rw [toList_render_label] at text
    exact ⟨q, among, labelLine_inj text ▸ named⟩
  · -- The line of an instruction has an address.
    have numbered := address?_instruction q.1 (kindsOf destinations q.1) (encodable q among)
    rw [text, address?_label ident] at numbered
    cases numbered

theorem texts_cons (q : Nat × Instruction) (row : List (Nat × Instruction)) :
    texts labels destinations (q :: row) = (labels.namesAt q.1).map labelLine ++
      (ListingLine.instruction q.1 q.2 (kindsOf destinations q.1)).render.toList :: texts labels destinations row := by
  have lines : (labels.namesAt q.1).map (fun name => (ListingLine.label name).render.toList) =
      (labels.namesAt q.1).map labelLine :=
    List.map_congr_left fun name _ => toList_render_label name
  simp [texts, block, ← lines]

theorem texts_append (row other : List (Nat × Instruction)) :
    texts labels destinations (row ++ other) = texts labels destinations row ++ texts labels destinations other := by
  simp [texts, block]

/-- An instruction of the walk is between those at lower addresses and those at higher ones. -/
theorem walk_split (listed : Listed code address) : ∃ front back,
    code.instructions = front ++ (address, code.fetch address) :: back ∧
      (∀ q ∈ front, q.1 < address) ∧ ∀ q ∈ back, address < q.1 := by
  obtain ⟨front, back, split⟩ := List.append_of_mem listed
  have increasing : code.instructions.Pairwise fun q r => q.1 < r.1 := pairwise_instructionsFrom code 0
  rw [split, List.pairwise_append, List.pairwise_cons] at increasing
  obtain ⟨-, ⟨behind, -⟩, below⟩ := increasing
  exact ⟨front, back, split, fun q among => below q among _ List.mem_cons_self, behind⟩

/-- The addresses of instructions that are below an address, and the others, where they part. -/
theorem filter_split {front back : List (Nat × Instruction)} (below : ∀ q ∈ front, q.1 < address)
    (behind : ∀ q ∈ back, address ≤ q.1) :
    ((front ++ back).map (·.1)).filter (· < address) = front.map (·.1) ∧
      ((front ++ back).map (·.1)).filter (address ≤ ·) = back.map (·.1) := by
  rw [List.map_append, List.filter_append, List.filter_append]
  constructor
  · rw [List.filter_eq_self.2 (by simpa using below), List.filter_eq_nil_iff.2 (by simpa using behind), List.append_nil]
  · rw [List.filter_eq_nil_iff.2 (by simpa using below), List.filter_eq_self.2 (by simpa using behind), List.nil_append]

/-- The text of a listing parts in what belongs to the instructions below an address, the labels of the address, and
the rest, which has no other labels of the address. -/
theorem listing_around (idents : ∀ name ∈ labels.names, Ident name.toList) (destinations : Option Destinations)
    (listed : Listed code address) : ∃ front back,
    sourceLines (renderListing (code.listing labels destinations)).toList =
      front ++ (labels.namesAt address).map labelLine ++ back ∧
    front.filterMap address? = (code.instructions.map (·.1)).filter (· < address) ∧
    back.filterMap address? = (code.instructions.map (·.1)).filter (address ≤ ·) ∧
    ∀ name, Ident name.toList → labelLine name ∈ front ++ back → ∃ other ≠ address, name ∈ labels.namesAt other := by
  obtain ⟨front, back, split, below, behind⟩ := walk_split listed
  have encodable : ∀ q ∈ front ++ (address, code.fetch address) :: back, Encodable q.2 := by
    rw [← split]
    exact fun _ => encodable_listed
  obtain ⟨inFront, inRest⟩ := List.forall_mem_append.1 encodable
  obtain ⟨here, inBack⟩ := List.forall_mem_cons.1 inRest
  have rest : ∀ q ∈ (address, code.fetch address) :: back, address ≤ q.1 :=
    List.forall_mem_cons.2 ⟨le_rfl, fun q among => (behind q among).le⟩
  obtain ⟨lower, higher⟩ := filter_split below rest
  have line := address?_instruction address (kindsOf destinations address) here
  refine ⟨texts labels destinations front, (ListingLine.instruction address (code.fetch address)
    (kindsOf destinations address)).render.toList :: texts labels destinations back ++ [[]], ?_, ?_, ?_, ?_⟩
  · rw [sourceLines_listing idents, split, texts_append, texts_cons]
    simp
  · rw [addresses_texts idents destinations inFront, split, lower]
  · have last : ([[]] : List (List Char)).filterMap address? = [] := rfl
    rw [List.filterMap_append, List.filterMap_cons_some line, addresses_texts idents destinations inBack, last,
      List.append_nil, split, higher, List.map_cons]
  · intro name ident member
    rcases List.mem_append.1 member with inFrontText | inRestText
    · obtain ⟨q, among, named⟩ := mem_texts ident inFront inFrontText
      exact ⟨q.1, (below q among).ne, named⟩
    · rcases List.mem_append.1 inRestText with inLines | last
      · rcases List.mem_cons.1 inLines with own | inBackText
        · rw [← own, address?_label ident] at line
          cases line
        · obtain ⟨q, among, named⟩ := mem_texts ident inBack inBackText
          exact ⟨q.1, (behind q among).ne', named⟩
      · simp [labelLine] at last

/-! ## Assembled programs -/

/-- The lines of the listing of an assembled program. -/
def linesOf (a : Assembled) (destinations : Option Destinations) : List (List Char) :=
  sourceLines (renderListing (a.code.listing a.labels destinations)).toList

/-- A line stands once in a text, behind all instructions below an address and in front of the others. -/
def StandsAt (code : Code) (address : Nat) (line : List Char) (text : List (List Char)) : Prop :=
  ∃ before after, text = before ++ line :: after ∧ line ∉ before ∧ line ∉ after ∧
    before.filterMap address? = (code.instructions.map (·.1)).filter (· < address) ∧
    after.filterMap address? = (code.instructions.map (·.1)).filter (address ≤ ·)

theorem standsAt_label (idents : ∀ name ∈ labels.names, Ident name.toList) (distinct : labels.names.Nodup)
    (destinations : Option Destinations) (listed : Listed code address) (found : labels.address? name = some address) :
    StandsAt code address (labelLine name) (sourceLines (renderListing (code.listing labels destinations)).toList) := by
  obtain ⟨front, back, text, lower, higher, others⟩ := listing_around idents destinations listed
  have named : name ∈ labels.namesAt address := (mem_namesAt distinct).2 found
  have absent : labelLine name ∉ front ++ back := by
    intro member
    obtain ⟨other, different, there⟩ := others name (idents name (mem_names_of_namesAt named)) member
    rw [mem_namesAt distinct, found] at there
    exact different (Option.some.inj there).symm
  obtain ⟨noFront, noBack⟩ := not_or.1 (List.mem_append.not.1 absent)
  obtain ⟨above, below, names⟩ := List.append_of_mem named
  have once : (labels.namesAt address).Nodup := distinct.sublist (List.filter_sublist.map _)
  rw [names, List.nodup_middle, List.nodup_cons, List.mem_append, not_or] at once
  obtain ⟨⟨notAbove, notBelow⟩, -⟩ := once
  have another {row : List String} (notAmong : name ∉ row) : labelLine name ∉ row.map labelLine := by
    intro member
    obtain ⟨other, among, same⟩ := List.mem_map.1 member
    exact notAmong (labelLine_inj same ▸ among)
  have unnumbered (row : List String) (inside : row ⊆ labels.namesAt address) :
      (row.map labelLine).filterMap address? = [] := by
    rw [List.filterMap_map, List.filterMap_eq_nil_iff]
    exact fun name among => address?_label (idents name (mem_names_of_namesAt (inside among)))
  refine ⟨front ++ above.map labelLine, below.map labelLine ++ back, ?_, ?_, ?_, ?_, ?_⟩
  · rw [text, names]
    simp
  · exact fun member => (List.mem_append.1 member).elim noFront (another notAbove)
  · exact fun member => (List.mem_append.1 member).elim (another notBelow) noBack
  · rw [List.filterMap_append, unnumbered above (by simp [names]), List.append_nil, lower]
  · rw [List.filterMap_append, unnumbered below (by simp [names]), List.nil_append, higher]

/-- How the labels that a program defines stand in the listing of what it is assembled to. -/
structure Shown (p : Program) (a : Assembled) (destinations : Option Destinations) : Prop where
  defined : ∀ name, (∃ f, .label f ∈ p.items ∧ f.text = name) ↔ ∃ address, a.labels.address? name = some address
  placed : ∀ name address, a.labels.address? name = some address →
    (address < a.code.size ∧ Listed a.code address) ∨ address = a.code.size
  once : ∀ name address, a.labels.address? name = some address → address < a.code.size →
    StandsAt a.code address (labelLine name) (linesOf a destinations)
  alphabetical : ∀ address < a.code.size, ∃ names : List String, names.Pairwise (· < ·) ∧
    (∀ name, name ∈ names ↔ a.labels.address? name = some address) ∧ names.map labelLine <:+: linesOf a destinations
  /-- A label at the end of the code has no line. -/
  trailing : ∀ name, a.labels.address? name = some a.code.size → labelLine name ∉ linesOf a destinations

/-- A label in front of an instruction has one line in the listing of the program, in front of the line of this
instruction and behind all before it, and labels of one instruction are in alphabetical order. A label in front of no
instruction has no line. -/
theorem labels_shown (assembled : assemble source = .ok a) (destinations : Option Destinations) :
    ∃ p, Program.parse source = .ok p ∧ Shown p a destinations := by
  obtain ⟨p, read, compiled⟩ := compile_of_assemble assembled
  have faithful := faithful_of_compile compiled
  have idents := ident_of_assembled read faithful
  refine ⟨p, read, ?_, fun _ _ => listed_of_label faithful, ?_, ?_, ?_⟩
  · intro name
    constructor
    · rintro ⟨f, member, rfl⟩
      obtain ⟨before, after, items⟩ := List.append_of_mem member
      exact ⟨_, (faithful.labels f.text _).2 ⟨before, f, after, items, rfl, rfl⟩⟩
    · rintro ⟨address, found⟩
      obtain ⟨before, f, after, items, named, -⟩ := (faithful.labels name address).1 found
      exact ⟨f, items ▸ List.mem_append_cons_self, named⟩
  · intro name address found inside
    rcases listed_of_label faithful found with ⟨-, listed⟩ | last
    · exact standsAt_label idents faithful.distinct destinations listed found
    · exact absurd last inside.ne
  · intro address inside
    refine ⟨a.labels.namesAt address, sorted_namesAt (sorted_of_compile compiled) address,
      fun name => mem_namesAt faithful.distinct, ?_⟩
    by_cases unnamed : a.labels.namesAt address = []
    · rw [unnamed]
      exact List.nil_infix
    · obtain ⟨name, named⟩ := List.exists_mem_of_ne_nil _ unnamed
      rcases listed_of_label faithful ((mem_namesAt faithful.distinct).1 named) with ⟨-, listed⟩ | last
      · obtain ⟨front, back, text, -⟩ := listing_around idents destinations listed
        exact ⟨front, back, text.symm⟩
      · exact absurd last inside.ne
  · intro name found member
    have ident := idents name (mem_names_of_namesAt ((mem_namesAt faithful.distinct).2 found))
    rw [linesOf, sourceLines_listing idents] at member
    rcases List.mem_append.1 member with inLines | last
    · obtain ⟨q, listed, named⟩ := mem_texts ident (fun _ => encodable_listed) inLines
      rw [mem_namesAt faithful.distinct, found] at named
      exact absurd (mem_instructions listed).1 (Option.some.inj named).not_gt
    · simp [labelLine] at last

/-- Two labels at one instruction, and one behind the last. -/
def stacked : String := "b: a: push b\njump\nend:"

def stackedAssembled : Assembled := ⟨.ofList [0x61, 0x00, 0x00, 0x56], ⟨[("a", 0), ("b", 0), ("end", 4)]⟩⟩

theorem labels_shown_stacked :
    assemble stacked = .ok stackedAssembled ∧
    renderListing (stackedAssembled.code.listing stackedAssembled.labels none) =
      "a:\nb:\n0000    push2 0x0\n0003    jump\n" ∧
    ∃ p, Program.parse stacked = .ok p ∧ Shown p stackedAssembled none := by
  have assembled : assemble stacked = .ok stackedAssembled := assemble_of_emit (by decide +kernel)
  have text : renderListing (stackedAssembled.code.listing stackedAssembled.labels none) =
      "a:\nb:\n0000    push2 0x0\n0003    jump\n" := by
    decide +kernel
  exact ⟨assembled, text, labels_shown assembled none⟩

/-- The label behind the only instruction is defined, at the end of the code, and the listing has no line for it. -/
theorem last_label_unlisted :
    ∃ a, assemble "stop\nend:" = .ok a ∧ a.labels.address? "end" = some 1 ∧ a.code.size = 1 ∧
      renderListing (a.code.listing a.labels none) = "0000    stop\n" ∧ labelLine "end" ∉ linesOf a none := by
  have assembled : assemble "stop\nend:" = .ok ⟨.ofList [0x00], ⟨[("end", 1)]⟩⟩ :=
    assemble_of_emit (by decide +kernel)
  have text : renderListing ((Code.ofList [0x00]).listing ⟨[("end", 1)]⟩ none) = "0000    stop\n" := by
    decide +kernel
  refine ⟨_, assembled, rfl, rfl, text, ?_⟩
  rw [linesOf, text]
  decide +kernel

end Gosub.Labelled
