/-!
# Positions and ranges in source text

Lines and columns count from zero and are printed from one. A range is a pair of positions; it is empty when they
coincide. Nothing asks a range to be ordered.
-/

namespace ScopeFlow

/-- A place in a text: line and column, both from zero. -/
structure Position where
  line : Int := 0
  character : Int := 0
  deriving DecidableEq, Repr, Inhabited

/-- Line and column from one, with a colon between them. -/
def Position.print (p : Position) : String := s!"{p.line + 1}:{p.character + 1}"

/-- A stretch of text between two positions. -/
structure Range where
  start : Position := {}
  stop : Position := {}
  deriving DecidableEq, Repr, Inhabited

namespace Range

def empty : Range := {}

/-- A range is empty when it starts where it stops. -/
def isEmpty (r : Range) : Bool := r.start == r.stop

/-- Both positions with a dash between them. -/
def print (r : Range) : String := s!"{r.start.print}-{r.stop.print}"

end Range

end ScopeFlow
