import ScopeFlow.Table
import ScopeFlow.Tree.Basic

/-!
# Annotations with a meaning of their own

Some annotations are special forms of the typing modules: `Final`, `ClassVar`, `Required`, `NotRequired`, `TypeAlias`. A
special form is known by the local name it was imported under, or as a member of a typing module.
-/

namespace ScopeFlow

/-- The local names of the typing modules, and of their symbols. -/
structure TypingNames where
  modules : List String := []
  symbols : Table String := []

namespace TypingNames

/-- Whether an annotation is the special form with a name. -/
def isForm (t : TypingNames) (form : String) (hint : Expr) : Bool :=
  match hint with
  | .name _ id => t.symbols.lookup id == some form
  | .member _ (.name _ id) attr => attr == form && t.modules.contains id
  | _ => false

/-- Whether an annotation is `Final`, and the type it is given: nothing for the bare form. A subscript with several types
or a slice gives none. -/
def final? (t : TypingNames) (hint : Expr) : Option (Option Expr) :=
  if t.isForm "Final" hint then some none
  else
    match hint with
    | .subscript _ _ (.tuple ..) => none
    | .subscript _ _ (.slice ..) => none
    | .subscript _ value slice => (t.final? value).map (fun _ => some slice)
    | _ => none

/-- Whether an annotation is the special form with a name, given one type. -/
def isFormOfOne (t : TypingNames) (form : String) (hint : Expr) : Bool :=
  match hint with
  | .subscript _ _ (.tuple ..) => false
  | .subscript _ value _ => t.isForm form value
  | _ => false

/-- Whether an annotation is the special form with a name, given anything. -/
def isFormOfAny (t : TypingNames) (form : String) (hint : Expr) : Bool :=
  match hint with
  | .subscript _ value _ => t.isForm form value
  | _ => false

end TypingNames

end ScopeFlow
