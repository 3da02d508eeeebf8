import ScopeFlow.Environment
import ScopeFlow.Text.Numeral
import ScopeFlow.Text.Split

/-!
# The options of the command line

A command line has one path and any options, in any order. An option is given by one of its names, a long one also by any
start of it that no other long name has. Its value follows as the next word or behind an equals sign; behind a short name
it may follow at once, and short names that take no value can share one dash. Everything behind a word `--` is no option.

A command line that does not have this form is refused.
-/

namespace ScopeFlow.CommandLine

inductive Arity where
  | none | one | many
  deriving DecidableEq, Repr

inductive Switch where
  | help | version | platform | stub | pyTyped | modules | verbose | output
  deriving DecidableEq, Repr

namespace Switch

def all : List Switch := [help, version, platform, stub, pyTyped, modules, verbose, output]

def names : Switch → List String
  | help => ["-h", "--help"]
  | version => ["--python-version"]
  | platform => ["--platform"]
  | stub => ["--stub"]
  | pyTyped => ["--py-typed"]
  | modules => ["-m", "--modules"]
  | verbose => ["-v", "--verbose"]
  | output => ["-o", "--output"]

def arity : Switch → Arity
  | help | stub | pyTyped | verbose => .none
  | version | platform | output => .one
  | modules => .many

def ofName? (name : String) : Option Switch := all.find? (fun s => s.names.contains name)

end Switch

/-- What the command line asks for. -/
structure Settings where
  path : Option String := none
  version : List Int := []
  platform : Option Platform := none
  isStub : Bool := false
  isPyTyped : Bool := false
  modules : List String := []
  isVerbose : Bool := false
  output : Option String := none
  deriving DecidableEq, Repr

/-- Why a command line is not followed. -/
inductive Stop where
  /-- It asks for help. -/
  | help
  | refused
  deriving DecidableEq, Repr

/-- What a word of the command line is. -/
inductive Word where
  | argument (text : String)
  /-- The first `--`. -/
  | divider
  /-- An option by a name of it, perhaps with a value in the same word. -/
  | switch (switch : Switch) (name : String) (value : Option String)
  /-- It looks like an option and is none. -/
  | unknown
  deriving DecidableEq, Repr

/-- A text before and behind its first equals sign. -/
def splitValue (text : String) : String × Option String :=
  let cs := text.toList
  match cs.dropWhile (fun c => c != '=') with
  | [] => (text, none)
  | _ :: value => (String.ofList (cs.takeWhile (fun c => c != '=')), some (String.ofList value))

/-- Whether a name has a single dash. -/
def isShort (name : String) : Bool := !"--".toList.isPrefixOf name.toList

/-- The options that a word can stand for, if none has it as its name: those with a long name that starts like it, or the
short one at its start. -/
def candidates (text : String) : List Word :=
  if isShort text then
    (Switch.ofName? (String.ofList (text.toList.take 2))).toList.map fun s =>
      .switch s (String.ofList (text.toList.take 2)) (some (String.ofList (text.toList.drop 2)))
  else
    let (start, value) := splitValue text
    Switch.all.flatMap fun s =>
      (s.names.filter fun name => start.toList.isPrefixOf name.toList).map fun name => .switch s name value

/-- Whether a word is a negative number. -/
def isNegativeNumber (text : String) : Bool :=
  let areDigits (cs : List Char) : Bool := cs.all fun c => (digitValue? c).isSome
  match text.toList with
  | '-' :: cs =>
    match pieces '.' cs with
    | [whole] => !whole.isEmpty && areDigits whole
    | [whole, fraction] => areDigits whole && !fraction.isEmpty && areDigits fraction
    | _ => false
  | _ => false

/-- What a word is. A word that can stand for several options is refused. -/
def classify (text : String) : Except Stop Word :=
  if text.length < 2 || !"-".toList.isPrefixOf text.toList then .ok (.argument text)
  else
    match Switch.ofName? text, splitValue text with
    | some s, _ => .ok (.switch s text none)
    | none, (name, value) =>
      match value.bind (fun _ => Switch.ofName? name), candidates text with
      | some s, _ => .ok (.switch s name value)
      | none, [word] => .ok word
      | none, _ :: _ => .error .refused
      | none, [] =>
        if isNegativeNumber text || text.toList.contains ' ' then .ok (.argument text) else .ok .unknown

def classifyAll : List String → Except Stop (List Word)
  | [] => .ok []
  | text :: texts =>
    if text == "--" then .ok (.divider :: texts.map .argument)
    else do
      let word ← classify text
      return word :: (← classifyAll texts)

/-- The version that a text gives: two integers with a point between them. -/
def readVersion (text : String) : Option (List Int) :=
  match splitAt '.' text with
  | [major, minor] => do return [← readInteger major, ← readInteger minor]
  | _ => none

/-- What an option with its values makes of the settings. No value at all, where one is expected, unsets the option. -/
def Settings.apply (s : Settings) (switch : Switch) (values : List String) : Except Stop Settings :=
  match switch, values with
  | .help, _ => .error .help
  | .stub, _ => .ok { s with isStub := true }
  | .pyTyped, _ => .ok { s with isPyTyped := true }
  | .verbose, _ => .ok { s with isVerbose := true }
  | .modules, _ => .ok { s with modules := values }
  | .output, _ => .ok { s with output := values.head? }
  | .version, [] => .ok { s with version := [] }
  | .platform, [] => .ok { s with platform := none }
  | .version, text :: _ =>
    match readVersion text with
    | some version => .ok { s with version := version }
    | none => .error .refused
  | .platform, text :: _ =>
    match Platform.ofName text with
    | .ok platform => .ok { s with platform := some platform }
    | .error _ => .error .refused

/-- The options in a word that shares one dash, the last one with its value. -/
def cluster (switch : Switch) : List Char → Except Stop (List (Switch × Option String))
  | [] => .ok [(switch, none)]
  | c :: cs =>
    if switch.arity == .none then
      match Switch.ofName? (String.ofList ['-', c]) with
      | some next => do return (switch, none) :: (← cluster next cs)
      | none => .error .refused
    else .ok [(switch, some (String.ofList (c :: cs)))]

/-- The options that a word gives, the last one perhaps with its value. -/
def given (switch : Switch) (name : String) : Option String → Except Stop (List (Switch × Option String))
  | none => .ok [(switch, none)]
  | some value =>
    if switch.arity != .none then .ok [(switch, some value)]
    else if isShort name && !value.isEmpty then cluster switch value.toList
    else .error .refused

/-- The arguments at the start of words. -/
def leadingArguments : List Word → List String
  | .argument text :: words => text :: leadingArguments words
  | _ => []

/-- The values of an option: the one in its own word, where `--` stands for none, or those that follow. -/
def valuesOf (switch : Switch) (value : Option String) (words : List Word) : Except Stop (List String) :=
  let following := leadingArguments words
  match value, switch.arity with
  | some value, _ => .ok (if value == "--" then [] else [value])
  | none, .none => .ok []
  | none, .one => if following.isEmpty then .error .refused else .ok (following.take 1)
  | none, .many => if following.isEmpty then .error .refused else .ok following

/-- How many of the words that follow an option are its values. -/
def taken (switch : Switch) (value : Option String) (words : List Word) : Nat :=
  match value, switch.arity with
  | none, .one => 1
  | none, .many => (leadingArguments words).length
  | _, _ => 0

/-- Applies the options of one word; only the last one can have values in words that follow. -/
def Settings.applyAll (s : Settings) (words : List Word) : List (Switch × Option String) → Except Stop Settings
  | [] => .ok s
  | [(switch, value)] => do s.apply switch (← valuesOf switch value words)
  | (switch, value) :: rest => do
    let last := rest.getLast?.getD (switch, value)
    let _ ← valuesOf last.1 last.2 words
    (← s.apply switch []).applyAll words rest

/-- What is read of a command line: the settings, and whether a word was left over. -/
structure Reading where
  settings : Settings := {}
  hasExtra : Bool := false

/-- Reads words one by one; `skip` of them are values of an option already read. The first argument that is no value is the
path; a divider may stand before or behind it. -/
def readWords (r : Reading) : Nat → List Word → Except Stop Reading
  | _, [] => .ok r
  | skip + 1, _ :: words => readWords r skip words
  | 0, word :: words =>
    let isFirst := r.settings.path.isNone
    let isNextDivider := words.head? == some .divider
    match word with
    | .argument text =>
      if isFirst then
        readWords { r with settings := { r.settings with path := some text } } (if isNextDivider then 1 else 0) words
      else readWords { r with hasExtra := true } 0 words
    | .divider => readWords { r with hasExtra := r.hasExtra || !isFirst || words.isEmpty } 0 words
    | .unknown => readWords { r with hasExtra := true } 0 words
    | .switch s name value => do
      let switches ← given s name value
      let settings ← r.settings.applyAll words switches
      let (last, value) := switches.getLast?.getD (s, value)
      readWords { r with settings := settings } (taken last value words) words

/-- Reads a command line. A path has to be given, and no word may be left over. -/
def read (args : List String) : Except Stop Settings := do
  let r ← readWords {} 0 (← classifyAll args)
  if r.hasExtra || r.settings.path.isNone then .error .refused else .ok r.settings

end ScopeFlow.CommandLine
