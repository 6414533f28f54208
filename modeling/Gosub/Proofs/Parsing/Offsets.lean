import Gosub.Proofs.Parsing.Complete

/-!
# Offsets of cursors

Whatever the reader takes, the text left over ends where it did before (`Cursor.stop`). So a cursor is as many bytes
further on as the text that was taken has (`offset_of_stop`), and what is found has the offset where it was found.
-/

namespace Gosub

/-- Where the text of a cursor ends. -/
def Cursor.stop (c : Cursor) : Nat := c.offset + Text.byteLength c.rest

end Gosub

namespace Gosub.Parsing

variable {c d : Cursor}

theorem offset_of_stop {taken : List Char} (same : d.stop = c.stop) (text : c.rest = taken ++ d.rest) :
    d.offset = c.offset + Text.byteLength taken := by
  unfold Cursor.stop at same
  rw [text, Text.byteLength_append] at same
  omega

/-- A cursor that was moved over a text has what is behind it. -/
theorem stop_moved {taken rest : List Char} (text : c.rest = taken ++ rest) :
    (⟨c.offset + Text.byteLength taken, rest⟩ : Cursor).stop = c.stop := by
  unfold Cursor.stop
  rw [text, Text.byteLength_append, Nat.add_assoc]

theorem stop_takeWhile (p : Char → Bool) (c : Cursor) : (c.takeWhile p).2.stop = c.stop :=
  stop_moved List.takeWhile_append_dropWhile.symm

theorem stop_skipBlanks (c : Cursor) : c.skipBlanks.stop = c.stop := stop_takeWhile _ c

theorem stop_name? {f : Fragment} (read : c.name? = some (f, d)) : f.offset = c.offset ∧ d.stop = c.stop := by
  unfold Cursor.name? at read
  split at read
  · split_ifs at read
    cases read
    exact ⟨rfl, stop_takeWhile _ c⟩
  · cases read

theorem stop_eat? {ch : Char} (read : c.eat? ch = some d) : d.stop = c.stop := by
  unfold Cursor.eat? at read
  split at read
  · next first rest text =>
    split_ifs at read
    cases read
    unfold Cursor.stop
    rw [text, Text.byteLength_cons, Nat.add_assoc]
  · cases read

theorem stop_definition? {f : Fragment} (read : c.definition? = some (f, d)) :
    f.offset = c.offset ∧ d.stop = c.stop := by
  unfold Cursor.definition? at read
  split at read
  · next name e named =>
    obtain ⟨d', colon, same⟩ := Option.map_eq_some_iff.1 read
    cases same
    obtain ⟨offset, stop⟩ := stop_name? named
    exact ⟨offset, (stop_eat? colon).trans ((stop_skipBlanks e).trans stop)⟩
  · cases read

theorem stop_definitions (c : Cursor) : c.definitions.2.stop = c.stop := by
  induction c using Cursor.definitions.induct with
  | case1 c absent => rw [definitions_none absent]
  | case2 c f d read _ _ _ ih =>
    rw [definitions_some read]
    exact ih.trans ((stop_skipBlanks d).trans (stop_definition? read).2)

theorem stop_literal {l : NumberLiteral} (read : c.literal = .found l d) :
    l.spelling.offset = c.offset ∧ d.stop = c.stop := by
  obtain ⟨text, tail, value, front, -, rfl, rfl⟩ := literal_found read
  exact ⟨rfl, stop_moved front⟩

theorem stop_argument {a : Option Argument} (read : c.argument = .ok (a, d)) :
    (∀ argument ∈ a, argument.fragment.offset = c.skipBlanks.offset) ∧ d.stop = c.stop := by
  rcases argument_found read with ⟨rfl, rfl⟩ | ⟨-, ⟨l, rfl, found⟩ | ⟨name, rfl, named⟩⟩
  · exact ⟨nofun, rfl⟩
  · obtain ⟨offset, stop⟩ := stop_literal found
    refine ⟨?_, stop.trans (stop_skipBlanks c)⟩
    rintro argument ⟨⟩
    exact offset
  · obtain ⟨offset, stop⟩ := stop_name? named
    refine ⟨?_, stop.trans (stop_skipBlanks c)⟩
    rintro argument ⟨⟩
    exact offset

theorem stop_statement {s : Option Statement} (read : c.statement = .ok (s, d)) : d.stop = c.stop := by
  rcases statement_found read with ⟨-, rfl⟩ | ⟨mnemonic, e, a, -, named, asked⟩
  · rfl
  · exact (stop_argument asked).2.trans (stop_name? named).2

end Gosub.Parsing
