/-!
# Label tables

Names of addresses, in alphabetical order.
-/

namespace Gosub

/-- Names with their addresses, in alphabetical order. -/
structure Labels where
  entries : List (String × Nat)
  deriving DecidableEq

namespace Labels

def empty : Labels := ⟨[]⟩

/-- The table of some names, each given once. -/
def ofList (entries : List (String × Nat)) : Labels := ⟨entries.mergeSort fun a b => a.1 ≤ b.1⟩

def size (l : Labels) : Nat := l.entries.length

def names (l : Labels) : List String := l.entries.map (·.1)

def address? (l : Labels) (name : String) : Option Nat := l.entries.lookup name

def namesAt (l : Labels) (address : Nat) : List String :=
  (l.entries.filter fun e => e.2 = address).map (·.1)

theorem mem_ofList {entries : List (String × Nat)} {e : String × Nat} : e ∈ (ofList entries).entries ↔ e ∈ entries :=
  (List.mergeSort_perm entries _).mem_iff

theorem nodup_names_ofList {entries : List (String × Nat)} :
    (ofList entries).names.Nodup ↔ (entries.map (·.1)).Nodup :=
  ((List.mergeSort_perm entries _).map _).nodup_iff

/-- In a table without repetitions each entry is found by its name. -/
theorem address?_eq_some {l : Labels} (distinct : l.names.Nodup) {name : String} {address : Nat} :
    l.address? name = some address ↔ (name, address) ∈ l.entries := by
  obtain ⟨entries⟩ := l
  simp only [address?, names] at distinct ⊢
  induction entries with
  | nil => simp
  | cons e rest ih =>
    obtain ⟨first, value⟩ := e
    simp only [List.map_cons, List.nodup_cons, List.mem_map, not_exists, not_and] at distinct
    rw [List.lookup_cons, List.mem_cons]
    by_cases same : name = first
    · subst same
      have notLater : (name, address) ∉ rest := fun later => distinct.1 _ later rfl
      simp [notLater, eq_comm]
    · rw [beq_false_of_ne same, ih distinct.2]
      simp [same]

end Labels

end Gosub
