import ScopeFlow.Text.Split

/-!
# Paths

Paths are texts with `/` between their parts. Everything here is about the text alone; no file is looked at.
-/

namespace ScopeFlow.Path

/-- What stands before the last separator, that one included, and what stands after it. -/
def splitLast (path : List Char) : List Char × List Char :=
  let reversed := path.reverse
  ((reversed.dropWhile (fun c => c != '/')).reverse, (reversed.takeWhile (fun c => c != '/')).reverse)

/-- The last part of a path; empty if it ends in a separator. -/
def lastPart (path : String) : String := String.ofList (splitLast path.toList).2

/-- A text without the separators at its end. -/
def trimSeparators (path : List Char) : List Char := (path.reverse.dropWhile (fun c => c == '/')).reverse

/-- The parts before the last one, without trailing separators unless there is nothing else. -/
def directory (path : String) : String :=
  let head := (splitLast path.toList).1
  let trimmed := trimSeparators head
  String.ofList (if trimmed.isEmpty then head else trimmed)

/-- A path without its extension, and the extension with its dot. Leading dots of the last part start no extension. -/
def splitExtension (path : String) : String × String :=
  let (head, tail) := splitLast path.toList
  let dots := tail.takeWhile (fun c => c == '.')
  let rest := tail.dropWhile (fun c => c == '.')
  let reversed := rest.reverse
  let extension := (reversed.takeWhile (fun c => c != '.')).reverse
  let stem := (reversed.dropWhile (fun c => c != '.')).reverse
  if stem.isEmpty then (path, "")
  else (String.ofList (head ++ dots ++ stem.dropLast), String.ofList ('.' :: extension))

/-- The last part of a path without its extension. -/
def stem (path : String) : String := (splitExtension (lastPart path)).1

/-- Two paths one after the other; an absolute second path replaces the first. -/
def join (first second : String) : String :=
  if second.startsWith "/" then second
  else if first.isEmpty || first.endsWith "/" then first ++ second
  else first ++ "/" ++ second

def child (directory name : String) : String := String.ofList (trimSeparators directory.toList) ++ "/" ++ name

/-- Takes parts one by one and leaves out what says nothing: empty parts, `.`, and a part with the `..` behind it. What
was kept is held in reverse. -/
def reduce (isAbsolute : Bool) : List String → List String → List String
  | kept, [] => kept.reverse
  | kept, part :: parts =>
    if part == "" || part == "." then reduce isAbsolute kept parts
    else if part == ".." then
      match kept with
      | [] => reduce isAbsolute (if isAbsolute then [] else [".."]) parts
      | last :: rest => reduce isAbsolute (if last == ".." then ".." :: kept else rest) parts
    else reduce isAbsolute (part :: kept) parts

/-- The parts of a path that say something. -/
def parts (path : String) : List String := reduce (path.startsWith "/") [] (splitAt '/' path)

/-- The shortest path that leads to the same place. -/
def normal (path : String) : String :=
  let reduced := "/".intercalate (parts path)
  if path.startsWith "/" then "/" ++ reduced
  else if reduced.isEmpty then "." else reduced

/-- The parts of one list behind those that it shares with the start of another, and what the other has behind them. -/
def dropShared : List String → List String → List String × List String
  | a :: as, b :: bs => if a == b then dropShared as bs else (a :: as, b :: bs)
  | as, bs => (as, bs)

/-- The way from a directory to a path; both are absolute. -/
def relativeTo (path directory : String) : String :=
  let (down, up) := dropShared (parts path) (parts directory)
  let way := up.map (fun _ => "..") ++ down
  if way.isEmpty then "." else "/".intercalate way

end ScopeFlow.Path
