import Gatehouse.Text.Blank
import Gatehouse.Text.Identifier

/-!
Variables set by a file: lines of a key, an equals sign and a value. A value may be quoted, and then
goes on over line ends; a dollar sign puts a variable in its place. Variables that are already set
keep their values.
-/
namespace Gatehouse.Dotenv

/-- Variables and their values. The first of a name counts. -/
abbrev Variables := List (String × String)

def value? (vars : Variables) (name : String) : Option String :=
  (vars.find? (fun v => v.1 == name)).map (·.2)

def define (vars : Variables) (name value : String) : Variables :=
  match value? vars name with
  | some _ => vars
  | none => vars ++ [(name, value)]

inductive LoadError where
  | line (text : String) (index : Nat)
  | notText
  deriving DecidableEq, Repr

def LoadError.message : LoadError → String
  | .line text index =>
    "Error parsing line: '" ++ text ++ "', error at line index: " ++ toString index
  | .notText => "stream did not contain valid UTF-8"

/-- What is open where a physical line ends: nothing, a blank, an escape or a quotation. -/
inductive Pending where
  | nothing
  | blank
  | escape
  | strong
  | strongEscape
  | weak
  | weakEscape
  deriving DecidableEq, Repr

def Pending.opened (c : Char) : Pending :=
  if c == '\\' then .escape
  else if c == '"' then .weak
  else if c == '\'' then .strong
  else .nothing

/-- What is open after a character, or nothing at all where a remark begins. -/
def Pending.after (p : Pending) (c : Char) : Option Pending :=
  match p with
  | .nothing =>
    if Text.isBlank c && c != '\n' && c != '\r' then some .blank else some (opened c)
  | .blank => if c == '#' then none else some (opened c)
  | .escape => some .nothing
  | .strong => if c == '\\' then some .strongEscape else some (if c == '\'' then .nothing else .strong)
  | .strongEscape => some .strong
  | .weak => if c == '\\' then some .weakEscape else some (if c == '"' then .nothing else .weak)
  | .weakEscape => some .weak

/-- The part of a physical line before a remark, and what is open at its end; without it if there
is a remark. -/
def scanLine (p : Pending) : List Char → List Char × Option Pending
  | [] => ([], some p)
  | c :: cs =>
    match p.after c with
    | none => ([], none)
    | some p =>
      let (kept, last) := scanLine p cs
      (c :: kept, last)

/-- A logical line. One that is never finished, or is no text, is the last. -/
inductive Line where
  | text (cs : List Char)
  | unfinished (cs : List Char)
  | notText
  deriving Repr

def dropLineEnd (cs : List Char) : List Char :=
  match cs.reverse with
  | '\n' :: '\r' :: rest => rest.reverse
  | '\n' :: rest => rest.reverse
  | _ => cs

/-- Puts physical lines together. What is quoted goes on over line ends. -/
def assemble (p : Pending) (before : List Char) : List (Option (List Char)) → List Line
  | [] => if p = .nothing then [] else [.unfinished before]
  | none :: _ => [.notText]
  | some line :: rest =>
    let cs := before ++ line
    if (cs.dropWhile Text.isBlank).head? == some '#' then assemble .nothing [] rest
    else
      match scanLine p line with
      | (kept, none) => .text (before ++ kept) :: assemble .nothing [] rest
      | (_, some .nothing) => .text (dropLineEnd cs) :: assemble .nothing [] rest
      | (_, some p) => assemble p cs rest

/-- Where a substitution stands: nowhere, after the dollar sign, or in braces. -/
inductive Substitution where
  | none
  | plain
  | braced
  deriving DecidableEq, Repr

structure Reading where
  strong : Bool := false
  weak : Bool := false
  escaped : Bool := false
  ended : Bool := false
  substitution : Substitution := .none
  name : List Char := []
  output : List Char := []

/-- May the character stand in the name of a variable that a dollar sign begins? -/
def isSubstitutionChar (c : Char) : Bool := Text.isIdentifierPart c && c != '_'

def Reading.substitute (vars : Variables) (r : Reading) : Reading :=
  let value := (value? vars (String.ofList r.name)).getD ""
  { r with name := [], output := r.output ++ value.toList }

/-- Reads a character of a value; refuses it, or stops where a remark begins. -/
def Reading.step (vars : Variables) (r : Reading) (c : Char) : Option (Reading × Bool) :=
  let put (c : Char) : Option (Reading × Bool) := some ({ r with output := r.output ++ [c] }, true)
  if r.ended then
    if c == ' ' || c == '\t' then some (r, true)
    else if c == '#' then some (r, false)
    else none
  else if r.escaped then
    let r := { r with escaped := false }
    if c == '\\' || c == '\'' || c == '"' || c == '$' || c == ' ' then
      some ({ r with output := r.output ++ [c] }, true)
    else if c == 'n' then some ({ r with output := r.output ++ ['\n'] }, true)
    else none
  else if r.strong then
    if c == '\'' then some ({ r with strong := false }, true) else put c
  else if r.substitution != .none then
    if isSubstitutionChar c then some ({ r with name := r.name ++ [c] }, true)
    else if r.substitution == .plain then
      if c == '\x7b' && r.name.isEmpty then some ({ r with substitution := .braced }, true)
      else
        let r := r.substitute vars
        if c == '$' then some (r, true)
        else some ({ r with substitution := .none, output := r.output ++ [c] }, true)
    else if c == '\x7d' then some ({ r.substitute vars with substitution := .none }, true)
    else some ({ r with name := r.name ++ [c] }, true)
  else if c == '$' then some ({ r with substitution := .plain }, true)
  else if r.weak then
    if c == '"' then some ({ r with weak := false }, true)
    else if c == '\\' then some ({ r with escaped := true }, true)
    else put c
  else if c == '\'' then some ({ r with strong := true }, true)
  else if c == '"' then some ({ r with weak := true }, true)
  else if c == '\\' then some ({ r with escaped := true }, true)
  else if c == ' ' || c == '\t' then some ({ r with ended := true }, true)
  else put c

def byteLength (cs : List Char) : Nat := (String.ofList cs).utf8ByteSize

def readValue (vars : Variables) (whole : List Char) (index : Nat) (r : Reading) :
    List Char → Except LoadError String
  | [] =>
    if r.substitution == .braced || r.strong || r.weak then
      .error (.line (String.ofList whole) (byteLength whole - 1))
    else .ok (String.ofList (r.substitute vars).output)
  | c :: cs =>
    match r.step vars c with
    | none => .error (.line (String.ofList whole) index)
    | some (r, true) => readValue vars whole (index + 1) r cs
    | some (r, false) => readValue vars whole (index + 1) r []
termination_by cs => cs.length

def isKeyStart (c : Char) : Bool := c.isAlpha || c == '_'

def isKeyChar (c : Char) : Bool := c.isAlphanum || c == '_' || c == '.'

/-- What is left of a line after a part of it of some bytes. -/
structure Rest where
  index : Nat
  chars : List Char

def Rest.skipBlank (r : Rest) : Rest :=
  let blank := r.chars.takeWhile Text.isBlank
  ⟨r.index + byteLength blank, r.chars.drop blank.length⟩

def Rest.key (line : List Char) (r : Rest) : Except LoadError (List Char × Rest) :=
  if r.chars.head?.any isKeyStart then
    let key := r.chars.takeWhile isKeyChar
    .ok (key, ⟨r.index + key.length, r.chars.drop key.length⟩)
  else .error (.line (String.ofList line) r.index)

def Rest.equals (line : List Char) (r : Rest) : Except LoadError Rest :=
  match r.chars with
  | '=' :: cs => .ok ⟨r.index + 1, cs⟩
  | _ => .error (.line (String.ofList line) r.index)

/-- Reads a logical line; a blank one sets nothing. The word `export` may stand before a key. -/
def readLine (vars : Variables) (line : List Char) : Except LoadError (Option (String × String)) := do
  let r := (Rest.mk 0 (Text.dropBlankEnd line)).skipBlank
  if r.chars.isEmpty || r.chars.head? == some '#' then return none
  let (key, r) ← r.key line
  let r := r.skipBlank
  let (key, r) ←
    match r.chars with
    | '=' :: _ => pure (key, r)
    | _ =>
      if String.ofList key == "export" then do
        let (key, r) ← r.key line
        pure (key, r.skipBlank)
      else pure (key, r)
  let r ← r.equals line
  let r := r.skipBlank
  let name := String.ofList key
  if r.chars.isEmpty || r.chars.head? == some '#' then return some (name, "")
  return some (name, ← readValue vars r.chars 0 {} r.chars)

/-- Reads logical lines. What the lines before a fault set stays set. -/
def readLines (vars : Variables) : List Line → Variables × Option LoadError
  | [] => (vars, none)
  | .notText :: _ => (vars, some .notText)
  | .unfinished cs :: _ => (vars, some (.line (String.ofList cs) (byteLength cs)))
  | .text cs :: rest =>
    match readLine vars cs with
    | .error e => (vars, some e)
    | .ok none => readLines vars rest
    | .ok (some (name, value)) => readLines (define vars name value) rest

def splitLines (current : List UInt8) : List UInt8 → List (List UInt8)
  | [] => if current.isEmpty then [] else [current.reverse]
  | b :: bs =>
    if b == 10 then (b :: current).reverse :: splitLines [] bs else splitLines (b :: current) bs

def dropMark : List UInt8 → List UInt8
  | 0xEF :: 0xBB :: 0xBF :: bs => bs
  | bs => bs

def load (vars : Variables) (bytes : ByteArray) : Variables × Option LoadError :=
  let lines := (splitLines [] (dropMark bytes.data.toList)).map fun line =>
    (String.fromUTF8? ⟨line.toArray⟩).map String.toList
  readLines vars (assemble .nothing [] lines)

end Gatehouse.Dotenv
