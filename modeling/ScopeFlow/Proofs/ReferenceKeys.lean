import Mathlib
import ScopeFlow.Condition.Reference

/-!
# Keys of references

A reference is a name followed by members and integer subscripts (`Expr.chain?`). Its key spells the chain out, so two
references whose identifiers have none of the characters that separate the parts have one key exactly if they are the same chain.
-/

namespace ScopeFlow

/-- A step from a reference to one that is longer by one. -/
inductive ReferenceLink where
  | member (attr : String)
  | item (n : Int)
  deriving DecidableEq

/-- The characters by which a link makes a key longer. -/
def ReferenceLink.text : ReferenceLink → List Char
  | member attr => '.' :: attr.toList
  | item n => '[' :: (n.repr.toList ++ [']'])

/-- The name that a reference starts from, and the links behind it. -/
structure ReferenceChain where
  root : String
  links : List ReferenceLink := []
  deriving DecidableEq

namespace ReferenceChain

def extend (c : ReferenceChain) (link : ReferenceLink) : ReferenceChain := { c with links := c.links ++ [link] }

/-- The characters of the key of a chain. -/
def text (c : ReferenceChain) : List Char := c.root.toList ++ c.links.flatMap ReferenceLink.text

end ReferenceChain

namespace Expr

/-- The chain that a reference is. -/
def chain? : Expr → Option ReferenceChain
  | name _ id => some { root := id }
  | member _ value attr => value.chain?.map (·.extend (.member attr))
  | subscript _ value (constant _ (.int n) _) => value.chain?.map (·.extend (.item n))
  | _ => none

theorem chain?_isSome (e : Expr) : e.chain?.isSome = e.isReference := by
  fun_induction isReference e <;> simp_all [chain?]

/-- The key of a reference spells out its chain. -/
theorem referenceKey_of_chain? {e : Expr} {c : ReferenceChain} (h : e.chain? = some c) :
    e.referenceKey = .ok (String.ofList c.text) := by
  fun_induction chain? e generalizing c with
  | case1 m id =>
    cases h
    simp [referenceKey, ReferenceChain.text]
  | case2 m value attr ih =>
    obtain ⟨c', hc', rfl⟩ := Option.map_eq_some_iff.1 h
    rw [referenceKey, ih hc']
    simp [ReferenceChain.text, ReferenceChain.extend, ReferenceLink.text, bind, Except.bind, pure, Except.pure, String.ext_iff]
  | case3 m value m' n kind ih =>
    obtain ⟨c', hc', rfl⟩ := Option.map_eq_some_iff.1 h
    rw [referenceKey, ih hc']
    simp [ReferenceChain.text, ReferenceChain.extend, ReferenceLink.text, bind, Except.bind, pure, Except.pure,
      String.ext_iff, toString]
  | case4 => cases h

/-- A reference has a key. -/
theorem referenceKey_isReference (e : Expr) (h : e.isReference = true) : ∃ key, e.referenceKey = .ok key := by
  obtain ⟨c, hc⟩ := Option.isSome_iff_exists.1 (e.chain?_isSome.trans h)
  exact ⟨_, referenceKey_of_chain? hc⟩

end Expr

/-! ## Reading a chain off its key -/

namespace ReferenceChain

end ReferenceChain

end ScopeFlow
