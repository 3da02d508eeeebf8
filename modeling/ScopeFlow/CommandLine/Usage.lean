import ScopeFlow.CommandLine.Options

/-!
# The help text of the command line

Help is written for lines of 78 characters. What an option does stands in a column of its own, beside the option if that is
short enough and below it otherwise.
-/

namespace ScopeFlow.CommandLine

def lineWidth : Nat := 78

def helpColumn : Nat := 24

def blanks (n : Nat) : String := String.ofList (List.replicate n ' ')

/-- Puts parts on lines of a width, with a blank between two parts on a line. `line` is the line begun. -/
def fill (width : Nat) : String → List String → List String
  | line, [] => if line.isEmpty then [] else [line]
  | line, part :: parts =>
    if line.isEmpty then fill width part parts
    else if width < line.length + 1 + part.length then line :: fill width part parts
    else fill width (line ++ " " ++ part) parts

namespace Switch

/-- How the values of an option are shown. -/
def placeholder : Switch → String
  | version => "PYTHON_VERSION"
  | platform =>
    let names := ",".intercalate ([Platform.darwin, .windows, .linux].map Platform.name)
    "\x7b" ++ names ++ "\x7d"
  | modules => "MODULES [MODULES ...]"
  | output => "OUTPUT"
  | _ => ""

/-- A name of an option with its values. -/
def shown (s : Switch) (name : String) : String := if s.arity == .none then name else name ++ " " ++ s.placeholder

def explanation : Switch → String
  | help => "show this help message and exit"
  | version =>
    "Python version assumed by static conditions such as \"sys.version_info >= (3, 8)\". " ++
      "Defaults to the running interpreter."
  | platform => "Platform assumed by \"sys.platform\" checks. Defaults to the host platform."
  | stub => "Treat the given file as a stub file."
  | pyTyped => "Treat the bound modules as part of a py.typed package."
  | modules => "Module names under PATH to bind, instead of every file."
  | verbose => "Log module loading and binding."
  | output => "The file path where the JSON export is written. Without it, a summary is printed."

end Switch

/-- The usage: the options in brackets, and the path on a line of its own. -/
def usage (program : String) : List String :=
  let start := "usage: " ++ program
  let indent := blanks (start.length + 1)
  let parts := Switch.all.map fun s => "[" ++ s.shown (s.names.head?.getD "") ++ "]"
  match fill (lineWidth - indent.length) "" parts with
  | [] => [start]
  | first :: rest => (start ++ " " ++ first) :: (rest ++ ["path"]).map (indent ++ ·)

/-- An entry of the help: a heading, and what it means. -/
def helpEntry (heading explanation : String) : List String :=
  let lines := fill (lineWidth - helpColumn) "" (splitAt ' ' explanation)
  let head := "  " ++ heading
  if head.length + 2 ≤ helpColumn then
    match lines with
    | [] => [head]
    | first :: rest => (head ++ blanks (helpColumn - head.length) ++ first) :: rest.map (blanks helpColumn ++ ·)
  else head :: lines.map (blanks helpColumn ++ ·)

def helpText (program : String) : List String :=
  usage program ++
    ["", "Bind Python modules: scopes, symbols, declarations and code flow graphs.", "", "positional arguments:"] ++
    helpEntry "path" "A .py/.pyi file, or a directory whose .py files are all bound." ++ ["", "options:"] ++
    Switch.all.flatMap fun s => helpEntry (", ".intercalate (s.names.map s.shown)) s.explanation

end ScopeFlow.CommandLine
