import ScopeFlow.Declaration

/-!
# Symbols

A symbol is what a scope knows under one name: an identity, flags, and the declarations in the order of their finding.
`Symbol.declare` keeps declarations apart: what is the same as an earlier one is merged into it, and a name that is
declared more than once is no type alias.
-/

namespace ScopeFlow

/-- What is known of a symbol apart from its declarations. -/
structure SymbolFlags where
  /-- Unbound at the start of its execution scope. -/
  initiallyUnbound : Bool := false
  /-- Not visible to importers. -/
  externallyHidden : Bool := false
  classMember : Bool := false
  instanceMember : Bool := false
  /-- A private or protected member that is assigned through the first parameter of a method. -/
  privateMember : Bool := false
  ignoredForProtocolMatch : Bool := false
  classVar : Bool := false
  /-- Listed in `__all__`. -/
  inDunderAll : Bool := false
  deriving DecidableEq, Repr

namespace SymbolFlags

/-- The flags with their names, lowest bit first. -/
def named (f : SymbolFlags) : List (String × Bool) :=
  [("INITIALLY_UNBOUND", f.initiallyUnbound), ("EXTERNALLY_HIDDEN", f.externallyHidden),
    ("CLASS_MEMBER", f.classMember), ("INSTANCE_MEMBER", f.instanceMember), ("PRIVATE_MEMBER", f.privateMember),
    ("IGNORED_FOR_PROTOCOL_MATCH", f.ignoredForProtocolMatch), ("CLASS_VAR", f.classVar),
    ("IN_DUNDER_ALL", f.inDunderAll)]

def names (f : SymbolFlags) : List String := (f.named.filter Prod.snd).map Prod.fst

/-- The number whose bits are the flags. -/
def toNat (f : SymbolFlags) : Nat := f.named.foldr (fun flag n => 2 * n + flag.2.toNat) 0

/-- The flags that are the bits of a number. -/
def ofNat (n : Nat) : SymbolFlags where
  initiallyUnbound := n.testBit 0
  externallyHidden := n.testBit 1
  classMember := n.testBit 2
  instanceMember := n.testBit 3
  privateMember := n.testBit 4
  ignoredForProtocolMatch := n.testBit 5
  classVar := n.testBit 6
  inDunderAll := n.testBit 7

/-- The names of the flags that are set, and their number. -/
def print (f : SymbolFlags) : String :=
  let names := if f.names.isEmpty then "NONE" else "|".intercalate f.names
  s!"<SymbolFlags.{names}: {f.toNat}>"

end SymbolFlags

/-- What a scope knows under one name. -/
structure Symbol where
  id : Int
  flags : SymbolFlags := {}
  declarations : List Declaration := []

namespace Symbol

def isHidden (s : Symbol) : Bool := s.flags.externallyHidden

def hide (s : Symbol) : Symbol := { s with flags := { s.flags with externallyHidden := true } }

/-- The symbol, marked as listed in `__all__`. -/
def list (s : Symbol) : Symbol := { s with flags := { s.flags with inDunderAll := true } }

/-- Merges a declaration into the first one that is the same. -/
def mergeInto (d : Declaration) : List Declaration → List Declaration
  | [] => []
  | e :: rest => if e.same d then e.merge d :: rest else e :: mergeInto d rest

/-- Adds a declaration. One that is the same as an earlier one is merged into it; otherwise it goes to the end, and if it
is not the only one, no variable among them may be a type alias. -/
def declare (s : Symbol) (d : Declaration) : Symbol :=
  if s.declarations.any (fun e => e.same d) then { s with declarations := mergeInto d s.declarations }
  else if s.declarations.isEmpty then { s with declarations := [d] }
  else { s with declarations := (s.declarations ++ [d]).map Declaration.dropAliasName }

/-- Whether a symbol can be seen as a bare name: it has no declarations, or one that is not by member access. -/
def isBareName (s : Symbol) : Bool := s.declarations.isEmpty || s.declarations.any (fun d => !d.isMemberOnly)

/-- The number, flags and count of declarations of a symbol. -/
def print (s : Symbol) : String := s!"Symbol({s.id}, {s.flags.print}, {s.declarations.length} declarations)"

end Symbol

end ScopeFlow
