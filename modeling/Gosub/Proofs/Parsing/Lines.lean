import Gosub.Proofs.Grammar
import Mathlib.Data.List.TakeWhile

/-!
# Where the lines of a source are

A line lies between two texts (`LineAt`): whole lines in front of it, and behind it either nothing or its ending with
all that follows. The lines that are read are these, each with the length of the text in front as its offset
(`linesFrom_getElem?`), so they do not depend on what follows them (`linesFrom_behind`).
-/

namespace Gosub.Parsing

open Text

variable {text before line behind tail rest : List Char} {i : Nat}

/-! ## Texts without and with a line feed -/

theorem isInLine_iff : (∀ ch ∈ text, isInLine ch = true) ↔ '\n' ∉ text := by
  simp only [isInLine, decide_eq_true_eq]
  constructor
  · exact fun others inside => others _ inside rfl
  · rintro absent ch among rfl
    exact absent among

/-- A text is a line, or a line with its feed and a text behind it. -/
theorem lines_induction {P : List Char → Prop} (last : ∀ text, '\n' ∉ text → P text)
    (more : ∀ line rest, '\n' ∉ line → P rest → P (line ++ '\n' :: rest)) (text : List Char) : P text := by
  induction known : text.length using Nat.strongRecOn generalizing text with
  | ind n ih =>
    by_cases feed : '\n' ∈ text
    · obtain ⟨line, rest, rfl, inLine⟩ := List.eq_append_cons_of_mem feed
      refine more line rest inLine (ih rest.length ?_ rest rfl)
      simp only [List.length_append, List.length_cons] at known
      omega
    · exact last text feed

theorem linesFrom_last (inLine : '\n' ∉ text) (offset : Nat) : linesFrom offset text = [⟨offset, text⟩] := by
  have all := isInLine_iff.2 inLine
  have taken : text.takeWhile isInLine = text := List.takeWhile_eq_self_iff.2 all
  have dropped : text.dropWhile isInLine = [] := List.dropWhile_eq_nil_iff.2 all
  rw [linesFrom]
  split
  · rw [taken]
  · next more =>
    rw [dropped] at more
    cases more

theorem linesFrom_append (inLine : '\n' ∉ line) (offset : Nat) : linesFrom offset (line ++ '\n' :: rest) =
    ⟨offset, dropCarriageReturn line⟩ :: linesFrom (offset + byteLength line + 1) rest := by
  have all := isInLine_iff.2 inLine
  have taken : (line ++ '\n' :: rest).takeWhile isInLine = line := by
    rw [List.takeWhile_append_of_pos all, List.takeWhile_cons_of_neg (by decide), List.append_nil]
  have dropped : (line ++ '\n' :: rest).dropWhile isInLine = '\n' :: rest := by
    rw [List.dropWhile_append_of_pos all, List.dropWhile_cons_of_neg (by decide)]
  rw [linesFrom]
  split
  · next last =>
    rw [dropped] at last
    cases last
  · next more =>
    rw [dropped] at more
    cases more
    rw [taken]

theorem linesFrom_ne_nil (offset : Nat) (text : List Char) : linesFrom offset text ≠ [] := by
  cases text using lines_induction with
  | last text inLine => simp [linesFrom_last inLine]
  | more line rest inLine _ => simp [linesFrom_append inLine]

theorem length_linesFrom (offset : Nat) (text : List Char) : (linesFrom offset text).length = text.count '\n' + 1 := by
  induction text using lines_induction generalizing offset with
  | last text inLine => simp [linesFrom_last inLine, List.count_eq_zero_of_not_mem inLine]
  | more line rest inLine ih =>
    simp [linesFrom_append inLine, ih, List.count_eq_zero_of_not_mem inLine]

theorem byteLength_feed (line rest : List Char) :
    byteLength (line ++ '\n' :: rest) = byteLength line + 1 + byteLength rest := by
  have feed : '\n'.utf8Size = 1 := by decide
  rw [byteLength_append, byteLength_cons, feed, Nat.add_assoc]

/-- Behind whole lines the lines go on as if nothing were in front. -/
theorem linesFrom_behind (whole : ∀ ch ∈ before.getLast?, ch = '\n') (offset : Nat) (tail : List Char) :
    linesFrom offset (before ++ tail) =
      (linesFrom offset before).dropLast ++ linesFrom (offset + byteLength before) tail := by
  induction before using lines_induction generalizing offset with
  | last before inLine =>
    have empty : before = [] := by
      by_contra nonempty
      have last := List.getLast?_eq_some_getLast nonempty
      have feed := whole _ last
      exact inLine (feed ▸ List.getLast_mem nonempty)
    subst empty
    rw [linesFrom_last inLine]
    simp
  | more line rest inLine ih =>
    have later : ∀ ch ∈ rest.getLast?, ch = '\n' := by
      intro ch last
      refine whole ch ?_
      rw [List.getLast?_append, List.getLast?_cons, last]
      rfl
    rw [List.append_assoc, List.cons_append, linesFrom_append inLine, linesFrom_append inLine, ih later,
      List.dropLast_cons_of_ne_nil (linesFrom_ne_nil _ _), List.cons_append, byteLength_feed]
    simp only [Nat.add_assoc]

/-! ## Places of lines -/

/-- What ends a line: the end of the text, or a line feed with the carriage return in front of it. -/
inductive Ended (line : List Char) : List Char → Prop
  | last : Ended line []
  | feed {rest : List Char} : line.getLast? ≠ some '\r' → Ended line ('\n' :: rest)
  | returned {rest : List Char} : Ended line ('\r' :: '\n' :: rest)

/-- The line of this number, counted from zero, with the texts in front of it and behind. -/
structure LineAt (text : List Char) (i : Nat) (before line behind : List Char) : Prop where
  split : text = before ++ line ++ behind
  number : before.count '\n' = i
  whole : ∀ ch ∈ before.getLast?, ch = '\n'
  inside : '\n' ∉ line
  ended : Ended line behind

theorem dropCarriageReturn_of_ne (other : line.getLast? ≠ some '\r') : dropCarriageReturn line = line := by
  rw [dropCarriageReturn, if_neg other]

theorem dropCarriageReturn_concat : dropCarriageReturn (line ++ ['\r']) = line := by
  rw [dropCarriageReturn, if_pos List.getLast?_concat, List.dropLast_concat]

/-- The text in front of a line feed is the line, and maybe a carriage return that ends it. -/
theorem dropCarriageReturn_split (line : List Char) : ∃ ending, line = dropCarriageReturn line ++ ending ∧
    ∀ rest, Ended (dropCarriageReturn line) (ending ++ '\n' :: rest) := by
  by_cases returned : line.getLast? = some '\r'
  · obtain ⟨front, rfl⟩ := List.getLast?_eq_some_iff.1 returned
    rw [dropCarriageReturn_concat]
    exact ⟨['\r'], rfl, fun _ => .returned⟩
  · rw [dropCarriageReturn_of_ne returned]
    exact ⟨[], (List.append_nil line).symm, fun _ => .feed returned⟩

theorem not_mem_dropCarriageReturn {ch : Char} (absent : ch ∉ line) : ch ∉ dropCarriageReturn line := by
  obtain ⟨ending, split, -⟩ := dropCarriageReturn_split line
  exact fun inside => absent (split ▸ List.mem_append_left ending inside)

theorem linesFrom_head (inside : '\n' ∉ line) (ended : Ended line behind) (offset : Nat) :
    ∃ more, linesFrom offset (line ++ behind) = ⟨offset, line⟩ :: more := by
  cases ended with
  | last =>
    rw [List.append_nil, linesFrom_last inside]
    exact ⟨[], rfl⟩
  | feed other =>
    rw [linesFrom_append inside, dropCarriageReturn_of_ne other]
    exact ⟨_, rfl⟩
  | @returned rest =>
    have inLine : '\n' ∉ line ++ ['\r'] := by simp [inside]
    have split : line ++ '\r' :: '\n' :: rest = line ++ ['\r'] ++ '\n' :: rest := by simp
    rw [split, linesFrom_append inLine, dropCarriageReturn_concat]
    exact ⟨_, rfl⟩

/-- The lines of a text are those in front of one of them, that one, and others. -/
theorem LineAt.linesFrom (found : LineAt text i before line behind) : ∃ more,
    linesFrom 0 text = (Gosub.linesFrom 0 before).dropLast ++ ⟨byteLength before, line⟩ :: more := by
  obtain ⟨more, head⟩ := linesFrom_head found.inside found.ended (0 + byteLength before)
  refine ⟨more, ?_⟩
  rw [found.split, List.append_assoc, linesFrom_behind found.whole, head, Nat.zero_add]

theorem length_before (found : LineAt text i before line behind) : (linesFrom 0 before).dropLast.length = i := by
  rw [List.length_dropLast, length_linesFrom, Nat.add_sub_cancel, found.number]

/-- With a line more in front, the number is one higher. -/
theorem LineAt.cons {first : List Char} (inLine : '\n' ∉ first) (found : LineAt text i before line behind) :
    LineAt (first ++ '\n' :: text) (i + 1) (first ++ '\n' :: before) line behind := by
  refine ⟨?_, ?_, ?_, found.inside, found.ended⟩
  · rw [found.split]
    simp
  · simp [found.number, List.count_eq_zero_of_not_mem inLine]
  · intro ch last
    rw [List.getLast?_append, List.getLast?_cons, Option.mem_def] at last
    cases later : before.getLast? with
    | none =>
      rw [later] at last
      cases last
      rfl
    | some other =>
      rw [later] at last
      cases last
      exact found.whole other later

/-- A line that is read is where its offset says. -/
theorem lineAt_of_linesFrom {offset : Nat} {c : Cursor} (listed : (linesFrom offset text)[i]? = some c) :
    ∃ before behind, LineAt text i before c.rest behind ∧ c.offset = offset + byteLength before := by
  induction text using lines_induction generalizing offset i with
  | last text inLine =>
    rw [linesFrom_last inLine] at listed
    obtain ⟨rfl, rfl⟩ : i = 0 ∧ c = ⟨offset, text⟩ := by
      cases i with
      | zero => exact ⟨rfl, (Option.some.inj listed).symm⟩
      | succ i => cases listed
    exact ⟨[], [], ⟨by simp, rfl, nofun, inLine, .last⟩, rfl⟩
  | more line rest inLine ih =>
    rw [linesFrom_append inLine] at listed
    cases i with
    | zero =>
      cases listed
      obtain ⟨ending, split, ended⟩ := dropCarriageReturn_split line
      refine ⟨[], _, ⟨?_, rfl, nofun, not_mem_dropCarriageReturn inLine, ended rest⟩, rfl⟩
      rw [List.nil_append, ← List.append_assoc, ← split]
    | succ i =>
      obtain ⟨before, behind, found, place⟩ := ih listed
      refine ⟨_, behind, found.cons inLine, ?_⟩
      rw [place, byteLength_feed]
      omega

theorem linesFrom_getElem? {c : Cursor} : (linesFrom 0 text)[i]? = some c ↔
    ∃ before behind, LineAt text i before c.rest behind ∧ c.offset = byteLength before := by
  constructor
  · intro listed
    obtain ⟨before, behind, found, offset⟩ := lineAt_of_linesFrom listed
    exact ⟨before, behind, found, offset.trans (Nat.zero_add _)⟩
  · rintro ⟨before, behind, found, offset⟩
    obtain ⟨more, lines⟩ := found.linesFrom
    rw [lines, List.getElem?_append_right (length_before found).le, length_before found, Nat.sub_self, ← offset]
    rfl

end Gosub.Parsing
