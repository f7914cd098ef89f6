/-!
The names a contract can use without binding them, and what each of them means. No other name is
visible to it.
-/
namespace Gatehouse

inductive Meaning where
  | constant (name : String)
  | function (name : String)
  | exception (name : String)
  deriving DecidableEq, Repr, Inhabited

structure SafeNames where
  entries : List (String × Meaning)
  deriving DecidableEq, Repr, Inhabited

namespace SafeNames

/-- The exceptions, in the order of their names; each is its own meaning. -/
def exceptions : List String :=
  ["ArithmeticError", "AssertionError", "AttributeError", "BaseException", "BufferError",
   "BytesWarning", "DeprecationWarning", "EOFError", "EnvironmentError", "Exception",
   "FloatingPointError", "FutureWarning", "GeneratorExit", "IOError", "ImportError",
   "ImportWarning", "IndentationError", "IndexError", "KeyError", "KeyboardInterrupt",
   "LookupError", "MemoryError", "NameError", "NotImplementedError", "OSError", "OverflowError",
   "PendingDeprecationWarning", "ReferenceError", "RuntimeError", "RuntimeWarning",
   "StopIteration", "SyntaxError", "SyntaxWarning", "SystemError", "SystemExit", "TabError",
   "TypeError", "UnboundLocalError", "UnicodeDecodeError", "UnicodeEncodeError", "UnicodeError",
   "UnicodeTranslateError", "UnicodeWarning", "UserWarning", "ValueError", "Warning",
   "ZeroDivisionError"]

def constants : List String := ["False", "None", "True"]

/-- The functions, in the order of their names, with what they are called as meanings. -/
def functions : List (String × String) :=
  [("__import__", "Import"), ("abs", "Abs"), ("bool", "Bool"), ("bytes", "Bytes"),
   ("callable", "Callable"), ("chr", "Chr"), ("complex", "Complex"), ("divmod", "Divmod"),
   ("hash", "Hash"), ("hex", "Hex"), ("id", "Id"), ("isinstance", "IsInstance"),
   ("issubclass", "IsSubclass"), ("len", "Len"), ("list", "List"), ("map", "Map"),
   ("oct", "Oct"), ("ord", "Ord"), ("pow", "Pow"), ("print", "Print"), ("range", "Range"),
   ("repr", "Repr"), ("round", "Round"), ("slice", "Slice"), ("str", "Str"), ("tuple", "Tuple"),
   ("zip", "Zip")]

def place (entry : String × Meaning) : List (String × Meaning) → List (String × Meaning)
  | [] => [entry]
  | e :: es => if e.1 < entry.1 then e :: place entry es else entry :: e :: es

def standard : SafeNames :=
  ⟨(constants.map (fun n => (n, .constant n))).foldl (fun es e => place e es)
    (exceptions.map (fun n => (n, .exception n)) ++
      functions.map (fun (n, m) => (n, .function m)))⟩

def get? (names : SafeNames) (name : String) : Option Meaning :=
  (names.entries.find? (fun e => e.1 == name)).map (·.2)

def contains (names : SafeNames) (name : String) : Bool := (names.get? name).isSome

def erase (names : SafeNames) (name : String) : SafeNames :=
  ⟨names.entries.filter (fun e => e.1 != name)⟩

def size (names : SafeNames) : Nat := names.entries.length

end SafeNames
end Gatehouse
