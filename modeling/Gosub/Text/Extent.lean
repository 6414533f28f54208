/-!
# Extents of text

Lengths in UTF-8 bytes, the part of a text before a byte offset, and whether a text begins with
another.
-/

namespace Gosub.Text

def byteLength (text : List Char) : Nat := text.foldr (fun c n => c.utf8Size + n) 0

@[simp] theorem byteLength_nil : byteLength [] = 0 := rfl

@[simp] theorem byteLength_cons (c : Char) (rest : List Char) :
    byteLength (c :: rest) = c.utf8Size + byteLength rest := rfl

@[simp] theorem byteLength_append (front back : List Char) :
    byteLength (front ++ back) = byteLength front + byteLength back := by
  induction front with
  | nil => simp
  | cons c rest ih => simp [ih, Nat.add_assoc]

theorem byteLength_pos {text : List Char} (nonempty : text ≠ []) : 0 < byteLength text := by
  cases text with
  | nil => exact absurd rfl nonempty
  | cons c rest => exact Nat.add_pos_left c.utf8Size_pos _

theorem byteLength_eq_zero {text : List Char} : byteLength text = 0 ↔ text = [] := by
  cases text with
  | nil => simp
  | cons c rest =>
    have positive := c.utf8Size_pos
    simp only [byteLength_cons, reduceCtorEq, iff_false]
    omega

theorem byteLength_reverse (text : List Char) : byteLength text.reverse = byteLength text := by
  induction text with
  | nil => rfl
  | cons c rest ih => simp [ih, Nat.add_comm]

/-- A text parts in only one way at a byte. -/
theorem append_inj_of_byteLength {front back front' back' : List Char} (whole : front ++ back = front' ++ back')
    (same : byteLength front = byteLength front') : front = front' ∧ back = back' := by
  rcases List.append_eq_append_iff.1 whole with ⟨taken, rfl, rfl⟩ | ⟨taken, rfl, rfl⟩
  · obtain rfl : taken = [] := byteLength_eq_zero.1 (by simpa using same.symm)
    simp
  · obtain rfl : taken = [] := byteLength_eq_zero.1 (by simpa using same)
    simp

/-- The first bytes of a text, where they end between two characters. -/
def firstBytes? : Nat → List Char → Option (List Char)
  | 0, _ => some []
  | _ + 1, [] => none
  | n + 1, c :: rest =>
    if c.utf8Size ≤ n + 1 then (firstBytes? (n + 1 - c.utf8Size) rest).map (c :: ·) else none
termination_by _ text => text.length

theorem firstBytes?_append (front back : List Char) : firstBytes? (byteLength front) (front ++ back) = some front := by
  induction front with
  | nil => rw [byteLength_nil, firstBytes?]
  | cons c rest ih =>
    obtain ⟨n, bytes⟩ := Nat.exists_eq_add_one_of_ne_zero (Nat.ne_of_gt (byteLength_pos (List.cons_ne_nil c rest)))
    rw [List.cons_append, bytes, firstBytes?]
    rw [byteLength_cons] at bytes
    have others : n + 1 - c.utf8Size = byteLength rest := by omega
    rw [if_pos (by omega), others, ih]
    rfl

def beginsWith (text start : String) : Bool := start.toList.isPrefixOf text.toList

end Gosub.Text
