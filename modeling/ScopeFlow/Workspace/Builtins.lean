import ScopeFlow.Text.Split
import ScopeFlow.Tree.Basic

/-!
# The builtins module

A stub for the names that the language provides everywhere, one definition a line in the order of the names: a class, a
function that takes anything, or a value.
-/

namespace ScopeFlow

/-- What a builtin name stands for. -/
inductive BuiltinKind where
  | cls | function | value
  deriving DecidableEq, Repr

/-- A name and what it stands for: a function if it is written with parentheses, a value if it is written with an equals sign,
or else a class. -/
def builtinOf (word : String) : BuiltinKind × String :=
  let name := word.toList.takeWhile fun c => c != '(' && c != '='
  (if word.endsWith "()" then .function else if word.endsWith "=" then .value else .cls, String.ofList name)

/-- The builtin names, in the order of their characters. -/
def builtinNames : List (BuiltinKind × String) := (splitAt ' ' <|
  "ArithmeticError AssertionError AttributeError BaseException BaseExceptionGroup BlockingIOError BrokenPipeError " ++
  "BufferError BytesWarning ChildProcessError ConnectionAbortedError ConnectionError ConnectionRefusedError " ++
  "ConnectionResetError DeprecationWarning EOFError Ellipsis= EncodingWarning EnvironmentError Exception ExceptionGroup " ++
  "FileExistsError FileNotFoundError FloatingPointError FutureWarning GeneratorExit IOError ImportError ImportWarning " ++
  "IndentationError IndexError InterruptedError IsADirectoryError KeyError KeyboardInterrupt LookupError MemoryError " ++
  "ModuleNotFoundError NameError NotADirectoryError NotImplemented= NotImplementedError OSError OverflowError " ++
  "PendingDeprecationWarning PermissionError ProcessLookupError RecursionError ReferenceError ResourceWarning RuntimeError " ++
  "RuntimeWarning StopAsyncIteration StopIteration SyntaxError SyntaxWarning SystemError SystemExit TabError TimeoutError " ++
  "TypeError UnboundLocalError UnicodeDecodeError UnicodeEncodeError UnicodeError UnicodeTranslateError UnicodeWarning " ++
  "UserWarning ValueError Warning ZeroDivisionError __build_class__() __doc__= __import__() __loader__ __name__= " ++
  "__package__= __spec__= abs() aiter() all() anext() any() ascii() bin() bool breakpoint() bytearray bytes callable() " ++
  "chr() classmethod compile() complex copyright() credits() delattr() dict dir() divmod() enumerate eval() exec() exit() " ++
  "filter float format() frozenset getattr() globals() hasattr() hash() help() hex() id() input() int isinstance() " ++
  "issubclass() iter() len() license() list locals() map max() memoryview min() next() object oct() open() ord() pow() " ++
  "print() property quit() range repr() reversed round() set setattr() slice sorted() staticmethod str sum() super tuple " ++
  "type vars() zip").map builtinOf

namespace Builtins

/-- The mark of a node on one line. -/
def markAt (line start stop : Int) : Mark := { span := some ⟨⟨line, start⟩, some ⟨line, stop⟩⟩ }

/-- An ellipsis at a column of a line. -/
def ellipsisAt (line column : Int) : Expr := .constant (markAt line column (column + 3)) .ellipsis none

/-- The body of a stub: an ellipsis. -/
def bodyAt (line column : Int) : List Stmt := [.expr (markAt line column (column + 3)) (ellipsisAt line column)]

/-- The parameters `*args, **kwargs`, the first name of which starts at a column. -/
def anyParameters (line column : Int) : Parameters :=
  .mk {} [] [] (some (.mk (markAt line column (column + 4)) "args" none)) [] []
    (some (.mk (markAt line (column + 8) (column + 14)) "kwargs" none)) []

/-- The definition of a builtin name on a line. -/
def definition (line : Int) (kind : BuiltinKind) (name : String) : Stmt :=
  let width : Int := name.length
  match kind with
  | .cls => .classDef (markAt line 0 (width + 11)) name [] [] (bodyAt line (width + 8)) []
  | .function =>
    .function (markAt line 0 (width + 26)) false name (anyParameters line (width + 6)) (bodyAt line (width + 23)) [] none
  | .value => .assign (markAt line 0 (width + 6)) [.name (markAt line 0 width) name] (ellipsisAt line (width + 3))

def definitions : Int → List (BuiltinKind × String) → List Stmt
  | _, [] => []
  | line, (kind, name) :: rest => definition line kind name :: definitions (line + 1) rest

def tree : Module := { body := definitions 1 builtinNames }

end Builtins

end ScopeFlow
