/-!
# Splitting text at a character

The pieces of a text are what stands between the occurrences of a separator. There is always at least one piece, and
joining the pieces with the separator gives the text back.
-/

namespace ScopeFlow

/-- The pieces between the occurrences of a separator. -/
def pieces (separator : Char) : List Char → List (List Char)
  | [] => [[]]
  | c :: cs =>
    if c = separator then [] :: pieces separator cs
    else
      match pieces separator cs with
      | [] => [[c]]
      | piece :: rest => (c :: piece) :: rest

/-- Pieces with a separator between each two. -/
def joined (separator : Char) : List (List Char) → List Char
  | [] => []
  | [piece] => piece
  | piece :: rest => piece ++ separator :: joined separator rest

/-- The pieces of a text between the occurrences of a separator. -/
def splitAt (separator : Char) (text : String) : List String := (pieces separator text.toList).map String.ofList

/-- Texts with a separator between each two. -/
def joinWith (separator : Char) (texts : List String) : String :=
  String.ofList (joined separator (texts.map String.toList))

theorem pieces_ne_nil (separator : Char) (cs : List Char) : pieces separator cs ≠ [] := by
  cases cs with
  | nil => simp [pieces]
  | cons c cs =>
    unfold pieces
    split
    · simp
    · split <;> simp

theorem joined_pieces (separator : Char) (cs : List Char) : joined separator (pieces separator cs) = cs := by
  induction cs with
  | nil => rfl
  | cons c cs ih =>
    have hne := pieces_ne_nil separator cs
    unfold pieces
    cases h : pieces separator cs with
    | nil => exact absurd h hne
    | cons piece rest =>
      rw [h] at ih
      split
      · next hc => simp [joined, hc, ih]
      · cases rest with
        | nil => simpa [joined] using ih
        | cons next rest => simpa [joined] using ih

end ScopeFlow
