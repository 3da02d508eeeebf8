/-!
# Classes of characters given by their runs

A class of characters is given by the lengths of the runs of code points that are alternately outside and inside the class,
starting outside it.
-/

namespace ScopeFlow

/-- The runs that a text stands for. The digits of a length are letters, of which the last one is a capital. -/
def runsOf (text : String) : List Nat := go 0 text.toList
where
  go (high : Nat) : List Char → List Nat
    | [] => []
    | c :: cs => if c.isUpper then (26 * high + (c.toNat - 65)) :: go 0 cs else go (26 * high + (c.toNat - 97)) cs

/-- Whether a code point is a member of the class with these runs. -/
def memberOfRuns : List Nat → Nat → Bool
  | outside :: inside :: runs, code =>
    if code < outside then false
    else if code < outside + inside then true
    else memberOfRuns runs (code - (outside + inside))
  | _, _ => false

end ScopeFlow
