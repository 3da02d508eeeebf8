import ScopeFlow.Text.Quoted

/-!
# JSON values

The values that trees are read from and reports are written as. Numbers are integers. Fields of an object keep their
order. `Json.parse` reads a text; `Json.compact` and `Json.pretty` write one, the latter in ASCII with four blanks a level.
-/

namespace ScopeFlow

inductive Json where
  | null
  | bool (value : Bool)
  | int (value : Int)
  | str (value : String)
  | arr (items : List Json)
  | obj (fields : List (String × Json))

namespace Json

instance : Inhabited Json := ⟨null⟩
instance : Coe String Json := ⟨str⟩
instance : Coe Int Json := ⟨int⟩
instance : Coe Bool Json := ⟨bool⟩

def nat (n : Nat) : Json := int n

/-- A value that may be missing, and then is null. -/
def given {α : Type} (encode : α → Json) : Option α → Json
  | none => null
  | some a => encode a

def strs (texts : List String) : Json := arr (texts.map str)

/-- The field of an object; null if there is none. -/
def field (j : Json) (key : String) : Json :=
  match j with
  | obj fields => (fields.lookup key).getD null
  | _ => null

def hasField (j : Json) (key : String) : Bool :=
  match j with
  | obj fields => (fields.lookup key).isSome
  | _ => false

/-- The items of an array; none of anything else. -/
def items : Json → List Json
  | arr items => items
  | _ => []

/-- The fields of an object; none of anything else. -/
def fields : Json → List (String × Json)
  | obj fields => fields
  | _ => []

/-- The item of an array at a place; null if there is none. -/
def item (j : Json) (i : Nat) : Json := (j.items[i]?).getD null

def str? : Json → Option String
  | str s => some s
  | _ => none

def int? : Json → Option Int
  | int n => some n
  | _ => none

def bool? : Json → Option Bool
  | bool b => some b
  | _ => none

/-- The text of a string; empty for anything else. -/
def text (j : Json) : String := j.str?.getD ""

def isTrue : Json → Bool
  | bool b => b
  | _ => false

def isNull : Json → Bool
  | null => true
  | _ => false

/-- Whether a value says nothing: null, false, an empty array or an empty object. -/
def isBlank : Json → Bool
  | null | bool false | arr [] | obj [] => true
  | _ => false

/-- The object of those fields that say something. -/
def sparse (fields : List (String × Json)) : Json := obj (fields.filter (fun f => !f.2.isBlank))

/-! ## Writing -/

/-- A `\u` escape of one 16-bit unit. -/
def escapeUnit (n : Nat) : List Char := '\\' :: 'u' :: hexDigits 4 n

/-- A character between double quotes. With `ascii`, everything beyond ASCII is escaped, as two units if it needs them. -/
def escape (ascii : Bool) (c : Char) : List Char :=
  if c == '"' then ['\\', '"']
  else if c == '\\' then ['\\', '\\']
  else if c == '\n' then ['\\', 'n']
  else if c == '\r' then ['\\', 'r']
  else if c == '\t' then ['\\', 't']
  else if c.toNat == 8 then ['\\', 'b']
  else if c.toNat == 12 then ['\\', 'f']
  else if c.toNat < 0x20 then escapeUnit c.toNat
  else if ascii && c.toNat > 0xffff then
    escapeUnit (0xd800 + (c.toNat - 0x10000) / 0x400) ++ escapeUnit (0xdc00 + (c.toNat - 0x10000) % 0x400)
  else if ascii && c.toNat > 0x7e then escapeUnit c.toNat
  else [c]

/-- A text in double quotes. -/
def quote (ascii : Bool) (s : String) : String :=
  String.ofList ('"' :: (s.toList.flatMap (escape ascii) ++ ['"']))

mutual

/-- A value without blanks. -/
def compact : Json → String
  | null => "null"
  | bool b => if b then "true" else "false"
  | int n => toString n
  | str s => quote false s
  | arr items => "[" ++ ",".intercalate (compacts items) ++ "]"
  | obj fields => "\x7b" ++ ",".intercalate (compactFields fields) ++ "\x7d"

def compacts : List Json → List String
  | [] => []
  | j :: js => j.compact :: compacts js

def compactFields : List (String × Json) → List String
  | [] => []
  | (key, j) :: rest => (quote false key ++ ":" ++ j.compact) :: compactFields rest

end

/-- Lines between brackets, each at its level; nothing but the brackets without lines. -/
def block (level : Nat) (opening closing : String) (lines : List String) : String :=
  if lines.isEmpty then opening ++ closing
  else
    let indent := "\n" ++ String.ofList (List.replicate (4 * level) ' ')
    opening ++ indent ++ "    " ++ ("," ++ indent ++ "    ").intercalate lines ++ indent ++ closing

mutual

/-- A value over several lines, starting at a level of indentation. -/
def prettyAt (level : Nat) : Json → String
  | null => "null"
  | bool b => if b then "true" else "false"
  | int n => toString n
  | str s => quote true s
  | arr items => block level "[" "]" (prettyItems (level + 1) items)
  | obj fields => block level "\x7b" "\x7d" (prettyFields (level + 1) fields)

def prettyItems (level : Nat) : List Json → List String
  | [] => []
  | j :: js => j.prettyAt level :: prettyItems level js

def prettyFields (level : Nat) : List (String × Json) → List String
  | [] => []
  | (key, j) :: rest => (quote true key ++ ": " ++ j.prettyAt level) :: prettyFields level rest

end

def pretty (j : Json) : String := j.prettyAt 0

/-! ## Reading -/

/-- What is left after blanks. -/
def skipBlanks (cs : List Char) : List Char :=
  cs.dropWhile (fun c => c == ' ' || c == '\n' || c == '\r' || c == '\t')

def hexValue? (c : Char) : Option Nat :=
  if c.isDigit then some (c.toNat - '0'.toNat)
  else if 'a' ≤ c && c ≤ 'f' then some (c.toNat - 'a'.toNat + 10)
  else if 'A' ≤ c && c ≤ 'F' then some (c.toNat - 'A'.toNat + 10)
  else none

/-- The value of four hexadecimal digits. -/
def unit? (a b c d : Char) : Option Nat := do
  return (((← hexValue? a) * 16 + (← hexValue? b)) * 16 + (← hexValue? c)) * 16 + (← hexValue? d)

/-- The rest of a string after its opening quote. The characters read so far are kept in reverse. -/
def readString : List Char → List Char → Option (String × List Char)
  | acc, '"' :: cs => some (String.ofList acc.reverse, cs)
  | acc, '\\' :: 'u' :: a :: b :: c :: d :: cs =>
    match unit? a b c d with
    | none => none
    | some high =>
      match cs with
      | '\\' :: 'u' :: a' :: b' :: c' :: d' :: more =>
        match unit? a' b' c' d' with
        | none => none
        | some low =>
          if 0xd800 ≤ high && high < 0xdc00 && 0xdc00 ≤ low && low < 0xe000 then
            readString (Char.ofNat (0x10000 + (high - 0xd800) * 0x400 + (low - 0xdc00)) :: acc) more
          else readString (Char.ofNat high :: acc) ('\\' :: 'u' :: a' :: b' :: c' :: d' :: more)
      | rest => readString (Char.ofNat high :: acc) rest
  | acc, '\\' :: c :: cs =>
    match c with
    | '"' | '\\' | '/' => readString (c :: acc) cs
    | 'n' => readString ('\n' :: acc) cs
    | 't' => readString ('\t' :: acc) cs
    | 'r' => readString ('\r' :: acc) cs
    | 'b' => readString (Char.ofNat 8 :: acc) cs
    | 'f' => readString (Char.ofNat 12 :: acc) cs
    | _ => none
  | acc, c :: cs => readString (c :: acc) cs
  | _, [] => none
termination_by _ cs => cs.length

/-- The number that digits stand for. -/
def ofDigits (digits : List Char) : Nat := digits.foldl (fun n c => n * 10 + (c.toNat - '0'.toNat)) 0

/-- An integer and what follows it. -/
def readInt (cs : List Char) : Option (Int × List Char) :=
  let (negative, rest) := match cs with
    | '-' :: more => (true, more)
    | _ => (false, cs)
  let digits := rest.takeWhile Char.isDigit
  if digits.isEmpty then none
  else
    let n : Int := ofDigits digits
    some (if negative then -n else n, rest.dropWhile Char.isDigit)

mutual

/-- A value and what follows it, with a bound on the nesting and length of what is read. -/
def readValue : Nat → List Char → Option (Json × List Char)
  | 0, _ => none
  | bound + 1, cs =>
    match skipBlanks cs with
    | '"' :: rest => (readString [] rest).map (fun r => (str r.1, r.2))
    | '[' :: rest =>
      match skipBlanks rest with
      | ']' :: more => some (arr [], more)
      | _ => (readItems bound rest).map (fun r => (arr r.1, r.2))
    | '\x7b' :: rest =>
      match skipBlanks rest with
      | '\x7d' :: more => some (obj [], more)
      | _ => (readFields bound rest).map (fun r => (obj r.1, r.2))
    | 't' :: 'r' :: 'u' :: 'e' :: rest => some (bool true, rest)
    | 'f' :: 'a' :: 'l' :: 's' :: 'e' :: rest => some (bool false, rest)
    | 'n' :: 'u' :: 'l' :: 'l' :: rest => some (null, rest)
    | rest => (readInt rest).map (fun r => (int r.1, r.2))

def readItems : Nat → List Char → Option (List Json × List Char)
  | 0, _ => none
  | bound + 1, cs =>
    match readValue bound cs with
    | none => none
    | some (j, rest) =>
      match skipBlanks rest with
      | ',' :: more => (readItems bound more).map (fun r => (j :: r.1, r.2))
      | ']' :: more => some ([j], more)
      | _ => none

def readFields : Nat → List Char → Option (List (String × Json) × List Char)
  | 0, _ => none
  | bound + 1, cs =>
    match skipBlanks cs with
    | '"' :: rest =>
      match readString [] rest with
      | none => none
      | some (key, rest) =>
        match skipBlanks rest with
        | ':' :: rest =>
          match readValue bound rest with
          | none => none
          | some (j, rest) =>
            match skipBlanks rest with
            | ',' :: more => (readFields bound more).map (fun r => ((key, j) :: r.1, r.2))
            | '\x7d' :: more => some ([(key, j)], more)
            | _ => none
        | _ => none
    | _ => none

end

/-- The value a text holds. Every step of the reader takes a character, so the length of the text bounds it. -/
def parse (s : String) : Option Json :=
  let cs := s.toList
  match readValue (cs.length + 1) cs with
  | some (j, rest) => if (skipBlanks rest).isEmpty then some j else none
  | none => none

end Json

end ScopeFlow
