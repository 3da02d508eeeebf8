/-!
# Tables: values by name, in the order the names were first set

Symbol tables, import tables and the registry of modules are shown in the order in which their names were first set, so
a table is a list of pairs. Setting a name that is already present replaces its value and keeps its place. `List.lookup`
reads a table.
-/

namespace ScopeFlow

/-- Values by name, in the order the names were first set. -/
abbrev Table (α : Type) := List (String × α)

namespace Table

variable {α : Type}

/-- Sets a name: in place if it is present, at the end otherwise. -/
def put : Table α → String → α → Table α
  | [], name, value => [(name, value)]
  | (n, v) :: rest, name, value => if n = name then (n, value) :: rest else (n, v) :: put rest name value

/-- Applies `f` to the value of a name, if the name is present. -/
def adjust : Table α → String → (α → α) → Table α
  | [], _, _ => []
  | (n, v) :: rest, name, f => if n = name then (n, f v) :: rest else (n, v) :: adjust rest name f

def erase (t : Table α) (name : String) : Table α := t.filter (fun p => p.1 ≠ name)

def names (t : Table α) : List String := t.map Prod.fst

def has (t : Table α) (name : String) : Bool := t.names.contains name

theorem lookup_put_self (t : Table α) (name : String) (value : α) : (t.put name value).lookup name = some value := by
  induction t with
  | nil => simp [put]
  | cons p rest ih =>
    obtain ⟨n, v⟩ := p
    by_cases h : n = name
    · simp [put, h]
    · have hb : (name == n) = false := by simpa using Ne.symm h
      simp [put, h, List.lookup_cons, hb, ih]

theorem lookup_put_ne (t : Table α) {name other : String} (value : α) (h : other ≠ name) :
    (t.put name value).lookup other = t.lookup other := by
  have hb : (other == name) = false := by simpa using h
  induction t with
  | nil => simp [put, List.lookup_cons, hb]
  | cons p rest ih =>
    obtain ⟨n, v⟩ := p
    by_cases hn : n = name
    · subst hn
      simp [put, List.lookup_cons, hb]
    · simp only [put, if_neg hn, List.lookup_cons, ih]

end Table

end ScopeFlow
