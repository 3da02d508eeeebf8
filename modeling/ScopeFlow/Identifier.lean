import ScopeFlow.Text.IdentifierChars

/-!
# What a name says

Underscores at the ends of a name say how private it is; capitals say whether it is a constant or a type alias. Tests on
whole names allow for one final line feed, which is not part of what they look at.
-/

namespace ScopeFlow

def isIdentifier (name : String) : Bool :=
  match name.toList with
  | [] => false
  | c :: cs => isIdentifierStart c && cs.all isIdentifierContinue

/-- Starts with two underscores, goes on, and does not end in two. -/
def isPrivateName (name : String) : Bool :=
  name.length > 2 && name.startsWith "__" && !name.endsWith "__"

/-- Starts with a single underscore and goes on. -/
def isProtectedName (name : String) : Bool :=
  name.length > 1 && name.startsWith "_" && !name.startsWith "__"

def isPrivateOrProtectedName (name : String) : Bool := isPrivateName name || isProtectedName name

/-- Starts and ends with two underscores, with more between them. -/
def isDunderName (name : String) : Bool :=
  name.length > 4 && name.startsWith "__" && name.endsWith "__"

/-- The characters of a name without one final line feed. -/
def lineOf (name : String) : List Char :=
  let cs := name.toList
  if cs.getLast? == some '\n' then cs.dropLast else cs

/-- Holds only capitals, digits and underscores, and not underscores alone. -/
def isConstantName (name : String) : Bool :=
  let cs := lineOf name
  cs.all (fun c => c.isUpper || c.isDigit || c == '_') && cs.any (fun c => c != '_')

/-- After at most two underscores, a capital followed by one or more letters, digits or underscores. -/
def isTypeAliasName (name : String) : Bool :=
  let cs := lineOf name
  let rest := cs.dropWhile (fun c => c == '_')
  cs.length - rest.length ≤ 2 &&
    match rest with
    | c :: d :: more => c.isUpper && (d :: more).all (fun c => c.isAlphanum || c == '_')
    | _ => false

/-- The keywords of the language, which no module may be named by. -/
def keywords : List String :=
  ["False", "None", "True", "and", "as", "assert", "async", "await", "break", "class", "continue", "def", "del", "elif",
    "else", "except", "finally", "for", "from", "global", "if", "import", "in", "is", "lambda", "nonlocal", "not", "or",
    "pass", "raise", "return", "try", "while", "with", "yield"]

end ScopeFlow
