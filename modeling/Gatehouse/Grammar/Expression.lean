import Gatehouse.Grammar.Literal
import Gatehouse.Grammar.Pattern

/-!
Expressions. Operations bind by power, the connectives of truth by tier; a conditional binds
loosest. Brackets, calls and subscripts follow the operand they belong to.
-/
namespace Gatehouse.Grammar

/-- Is a child a splat that was read as such and not as an operand? -/
def isSplat (c : Cst) : Bool := c.tag == .listSplat

def startsClause (x : Lexeme) : Bool := x.token == .word "for" || x.token == .word "async"

/-- Is it a splat that is no operand? An operand is one only before a name, an attribute or a
subscript. -/
def isLooseSplat (c : Cst) : Bool := isSplat c && !c.children.any isSplatTarget

/-- Parentheses around nothing but a splat, or around such parentheses, are no tuple where several
values may stand. -/
def looseParentheses : Cst → Cst
  | .node .tuple r sp [open_, c, close] =>
    if open_.isProper || close.isProper then .node .tuple r sp [open_, c, close]
    else if isLooseSplat c then .node .parenthesizedListSplat r sp [open_, c, close]
    else if c.tag == .parenthesizedListSplat then
      .node .parenthesizedListSplat r sp [open_, c.retag .parenthesizedExpression, close]
    else .node .tuple r sp [open_, c, close]
  | c => c

/-- An entry of a display: an expression, a yield or a splat. -/
def entry (nested : Nested) (here follow : Expect) : Reader Cst := do
  let x ← Reader.peek here
  if x.token == .word "yield" then yieldExpression nested here follow
  else if x.token == .sign "*" then
    let star ← Reader.accept x (.token "*")
    let value ← nested (.expression 0) operand follow
    return Cst.join .listSplat [star, value]
  else looseParentheses <$> nested (.expression 0) here follow

def moreEntries (nested : Nested) (close : String) (first : Cst) : Reader (List Cst) :=
  separated "," closing (not <$> atSign operandOrClose close)
    (entry nested operandOrClose closing) [first]

/-- Reads an entry again as an expression if a comprehension clause or a colon follows it. -/
def settle (nested : Nested) (c : Cursor) (first : Cst) (colon : Bool) : Reader Cst := do
  let x ← Reader.peek closing
  if isSplat first && (startsClause x || (colon && x.token == .sign ":")) then
    Reader.goTo c
    nested (.expression 0) operandOrClose closing
  else return first

/-- What a splat in a target or an operand stands before: a name, attribute or subscript, and as
much of what follows as is still one of these. -/
def splatTarget (atom : Expect → Expect → Reader Cst)
    (trailer : Cst → Lexeme → Reader (Option Cst)) (follow : Expect) : Reader Cst := do
  let first ← atom operand follow
  let c ← Reader.cursor
  let best := if isSplatTarget first then some (first, c) else none
  let found ← Reader.iterate (fun ((value, best) : Cst × Option (Cst × Cursor)) => do
    match ← trailer value (← Reader.peek follow) with
    | none => return .inr best
    | some next =>
      let c ← Reader.cursor
      return .inl (next, if isSplatTarget next then some (next, c) else best)) (first, best)
  match found with
  | none => Reader.refuseHere
  | some (value, c) =>
    Reader.goTo c
    return value

/-- The left side of a loop's or clause's `in`, given a reader of single operands. -/
def leftSide (target : Expect → Reader Cst) : Reader Cst := do
  let first ← target operand
  let items ← separated "," plain
    (return (← Reader.peek operand).token != .word "in") (target operand) [first]
  match items with
  | [c] => return c
  | cs => return Cst.join .patternList cs

/-- One parameter. Annotations are read only where `typed`. -/
def parameter (nested : Nested) (splat : Expect → Reader Cst) (tuple : Expect → Reader Cst)
    (typed : Bool) (here follow : Expect) : Reader Cst := do
  let x ← Reader.peek here
  let annotated (c : Cst) (tag : Tag) : Reader Cst := do
    if typed then
      match ← sign? follow ":" with
      | some colon =>
        let kind ← nested .typeHint operand follow
        return Cst.join tag [c, colon, kind.inRole .typeHint]
      | none => return c
    else return c
  let defaulted (c : Cst) (tag : Tag) (asName : Cst → List Cst) : Reader Cst := do
    match ← sign? follow "=" with
    | some equals =>
      let value ← nested (.expression 0) operand follow
      return Cst.join tag (asName c ++ [equals, value.inRole .value])
    | none => return c
  match x.token with
  | .sign "*" =>
    let star ← Reader.accept x (.token "*")
    let y ← Reader.peek (orQuote follow)
    if y.token == .sign "," || y.token == .sign ")" || y.token == .sign ":" then
      return Cst.join .keywordSeparator [star]
    else
      let value ← splat follow
      annotated (Cst.join .listSplatPattern [star, value]) .typedParameter
  | .sign "**" =>
    let stars ← Reader.accept x (.token "**")
    let value ← splat follow
    annotated (Cst.join .dictionarySplatPattern [stars, value]) .typedParameter
  | .sign "/" => return Cst.join .positionalSeparator [← Reader.accept x (.token "/")]
  | .sign "(" =>
    let c ← tuple here
    defaulted c .defaultParameter (fun c => [c.inRole .name])
  | _ =>
    let c ← name here
    let c ← annotated c .typedParameter
    match c with
    | .node .typedParameter _ _ cs =>
      defaulted c .typedDefaultParameter (fun _ =>
        match cs with
        | d :: rest => d.inRole .name :: rest
        | [] => [])
    | _ => defaulted c .defaultParameter (fun c => [c.inRole .name])

def startsParameter (x : Lexeme) : Bool :=
  match x.token with
  | .word w => isName w
  | .sign t => t == "*" || t == "**" || t == "/" || t == "("
  | _ => false

def parameterList (one : Expect → Expect → Reader Cst) (here follow : Expect) :
    Reader (List Cst) := do
  let first ← one here follow
  separated "," follow (startsParameter <$> Reader.peek follow) (one follow follow) [first]

def signPower? : String → Option (Nat × Bool)
  | "|" => some (14, false)
  | "&" => some (15, false)
  | "^" => some (16, false)
  | "<<" | ">>" => some (17, false)
  | "+" | "-" => some (18, false)
  | "*" | "@" | "/" | "%" | "//" => some (19, false)
  | "**" => some (21, true)
  | _ => none

def power? : Token → Option (Nat × Bool)
  | .sign t => signPower? t
  | _ => none

def comparisons : List String := ["<", "<=", "==", "!=", ">=", ">", "<>"]

/-- A comparison's operator, if one is next. Two words may make one operator. -/
def comparison? (follow : Expect) : Reader (Option Cst) := do
  let x ← Reader.peek follow
  match x.token with
  | .sign t =>
    if comparisons.contains t then some <$> Reader.accept x (.token t) else return none
  | .word "in" => some <$> Reader.accept x (.token "in")
  | .word "is" =>
    let is_ ← Reader.accept x (.token "is")
    match ← word? operand "not" with
    | some not_ => return some (Cst.join (.token "is not") [is_, not_])
    | none => return some is_
  | .word "not" =>
    let not_ ← Reader.accept x (.token "not")
    let in_ ← word plain "in"
    return some (Cst.join (.token "not in") [not_, in_])
  | _ => return none

section

variable (nested : Nested)

def clause (target : Expect → Reader Cst) (x : Lexeme) : Reader Cst := do
  if x.token == .word "if" then
    let head ← Reader.accept x (.token "if")
    let condition ← nested (.expression 1) operand closing
    return Cst.join .ifClause [head, condition]
  else
    let async_ ← word? closing "async"
    let head ← word (if async_.isSome then plain else closing) "for"
    let left ← leftSide target
    let in_ ← word plain "in"
    let first ← nested .iterable operand closing
    let sources ← Reader.iterate (fun (read : List Cst) => do
      match ← sign? closing "," with
      | none => return .inr read
      | some comma =>
        let y ← Reader.peek operandOrClose
        if startsExpression y then
          let next ← nested .iterable operandOrClose closing
          return .inl (read ++ [comma.inRole .right, next.inRole .right])
        else return .inr (read ++ [comma])) [first.inRole .right]
    return Cst.join .forInClause (async_.toList ++ [head, left.inRole .left, in_] ++ sources)

def clauses (target : Expect → Reader Cst) : Reader (List Cst) :=
  Reader.iterate (fun (read : List Cst) => do
    let x ← Reader.peek closing
    if startsClause x || (x.token == .word "if" && !read.isEmpty) then
      let c ← clause nested target x
      return .inl (read ++ [c])
    else return .inr read) []

/-- From an opening parenthesis to its closing one: a tuple, a generator, or an expression in
parentheses. -/
def parentheses (target : Expect → Reader Cst) (x : Lexeme) : Reader Cst := do
  let open_ ← Reader.accept x (.token "(")
  match ← sign? operandOrClose ")" with
  | some close => return Cst.join .tuple [open_, close]
  | none =>
    let c ← Reader.cursor
    let first ← entry nested operandOrClose closing
    let first ← settle nested c first false
    let y ← Reader.peek closing
    if startsClause y && first.tag != .yield then
      let rest ← clauses nested target
      let close ← sign closing ")"
      return Cst.join .generatorExpression ([open_, first.inRole .body] ++ rest ++ [close])
    else
      let items ← moreEntries nested ")" first
      let close ← sign closing ")"
      match items with
      | [_] =>
        let several := isLooseSplat first || first.tag == .parenthesizedListSplat
        return Cst.join (if several then .tuple else .parenthesizedExpression) [open_, first, close]
      | _ => return Cst.join .tuple ([open_] ++ items ++ [close])

/-- From an opening square bracket to its closing one: a list or a list comprehension. -/
def brackets (target : Expect → Reader Cst) (x : Lexeme) : Reader Cst := do
  let open_ ← Reader.accept x (.token "[")
  match ← sign? operandOrClose "]" with
  | some close => return Cst.join .listDisplay [open_, close]
  | none =>
    let c ← Reader.cursor
    let first ← entry nested operandOrClose closing
    let first ← settle nested c first false
    let y ← Reader.peek closing
    if startsClause y && first.tag != .yield then
      let rest ← clauses nested target
      let close ← sign closing "]"
      return Cst.join .listComprehension ([open_, first.inRole .body] ++ rest ++ [close])
    else
      let items ← moreEntries nested "]" first
      let close ← sign closing "]"
      return Cst.join .listDisplay ([open_] ++ items ++ [close])

def pairAfter (key : Cst) (follow : Expect) : Reader Cst := do
  let colon ← sign follow ":"
  let value ← nested (.expression 0) operand closing
  return Cst.join .pair [key.inRole .key, colon, value.inRole .value]

def dictionaryEntry (here : Expect) : Reader Cst := do
  match ← sign? here "**" with
  | some stars =>
    let value ← nested (.expression 0) operand closing
    return Cst.join .dictionarySplat [stars, value]
  | none =>
    let key ← nested (.expression 0) here plain
    pairAfter nested key plain

def dictionaryAfter (open_ first : Cst) : Reader Cst := do
  let items ← separated "," closing (not <$> atSign operandOrClose "\x7d")
    (dictionaryEntry nested operandOrClose) [first]
  let close ← sign closing "\x7d"
  return Cst.join .dictionary ([open_] ++ items ++ [close])

/-- From an opening brace to its closing one: a set, a dictionary, or a comprehension of one. -/
def braces (target : Expect → Reader Cst) (x : Lexeme) : Reader Cst := do
  let open_ ← Reader.accept x (.token "\x7b")
  let y ← Reader.peek operandOrClose
  match y.token with
  | .sign "\x7d" => return Cst.join .dictionary [open_, ← Reader.accept y (.token "\x7d")]
  | .sign "," =>
    let comma ← Reader.accept y (.token ",")
    let close ← sign closing "\x7d"
    return Cst.join .dictionary [open_, comma, close]
  | .sign "**" =>
    let first ← dictionaryEntry nested operandOrClose
    dictionaryAfter nested open_ first
  | _ =>
    let c ← Reader.cursor
    let first ← entry nested operandOrClose closing
    let first ← settle nested c first true
    let z ← Reader.peek closing
    if z.token == .sign ":" && first.tag != .yield then
      let pair ← pairAfter nested first closing
      if startsClause (← Reader.peek closing) then
        let rest ← clauses nested target
        let close ← sign closing "\x7d"
        return Cst.join .dictionaryComprehension ([open_, pair.inRole .body] ++ rest ++ [close])
      else dictionaryAfter nested open_ pair
    else if startsClause z && first.tag != .yield then
      let rest ← clauses nested target
      let close ← sign closing "\x7d"
      return Cst.join .setComprehension ([open_, first.inRole .body] ++ rest ++ [close])
    else
      let items ← moreEntries nested "\x7d" first
      let close ← sign closing "\x7d"
      return Cst.join .setDisplay ([open_] ++ items ++ [close])

def argument (here : Expect) : Reader Cst := do
  let x ← Reader.peek here
  let y ← Reader.peekPast closing x
  match x.token, y.token with
  | .sign "**", _ =>
    let stars ← Reader.accept x (.token "**")
    let value ← nested (.expression 0) operand closing
    return Cst.join .dictionarySplat [stars, value]
  | .word w, .sign "=" =>
    if isValueName w then
      let key ← Reader.accept x .identifier
      let equals ← sign closing "="
      let value ← nested (.expression 0) operand closing
      return Cst.join .keywordArgument [key.inRole .name, equals, value.inRole .value]
    else Reader.refuse x
  | .word "yield", _ => Reader.refuse x
  | _, _ =>
    let c ← entry nested here closing
    return if c.tag == .parenthesizedListSplat then c.retag .parenthesizedExpression else c

/-- From the opening parenthesis of a call to the closing one. A generator may stand alone in it
where `generator` allows. -/
def arguments (target : Expect → Reader Cst) (generator : Bool) (x : Lexeme) : Reader Cst := do
  let open_ ← Reader.accept x (.token "(")
  let y ← Reader.peek operandOrClose
  match y.token with
  | .sign ")" => return Cst.join .argumentList [open_, ← Reader.accept y (.token ")")]
  | .sign "," =>
    let comma ← Reader.accept y (.token ",")
    let close ← sign closing ")"
    return Cst.join .argumentList [open_, comma, close]
  | _ =>
    let c ← Reader.cursor
    let first ← argument nested operandOrClose
    let first ← settle nested c first false
    let single := first.tag != .keywordArgument && first.tag != .dictionarySplat
    if generator && single && startsClause (← Reader.peek closing) then
      let rest ← clauses nested target
      let close ← sign closing ")"
      return Cst.join .generatorExpression ([open_, first.inRole .body] ++ rest ++ [close])
    else
      let items ← separated "," closing (not <$> atSign operandOrClose ")")
        (argument nested operandOrClose) [first]
      let close ← sign closing ")"
      return Cst.join .argumentList ([open_] ++ items ++ [close])

def subscriptPart (here : Expect) : Reader Cst := do
  let x ← Reader.peek here
  let start ←
    if x.token == .sign ":" then pure []
    else pure [← nested (.expression 0) here closing]
  match ← sign? (if start.isEmpty then here else closing) ":", start with
  | none, [c] => return c
  | none, _ => Reader.refuse x
  | some colon, _ =>
    let y ← Reader.peek operandOrClose
    let stop ←
      if startsExpression y then pure [← nested (.expression 0) operandOrClose closing]
      else pure []
    match ← sign? (if stop.isEmpty then operandOrClose else closing) ":" with
    | none => return Cst.join .slice (start ++ [colon] ++ stop)
    | some second =>
      let z ← Reader.peek operandOrClose
      let step ←
        if startsExpression z then pure [← nested (.expression 0) operandOrClose closing]
        else pure []
      return Cst.join .slice (start ++ [colon] ++ stop ++ [second] ++ step)

/-- What may follow an operand: an attribute, a subscript or a call. -/
def trailer (target : Expect → Reader Cst) (value : Cst) (x : Lexeme) : Reader (Option Cst) := do
  match x.token with
  | .sign "." =>
    let dot ← Reader.accept x (.token ".")
    let last ← name plain
    return some (Cst.join .attributeAccess
      [value.inRole .object, dot, last.inRole .attributeName])
  | .sign "[" =>
    let open_ ← Reader.accept x (.token "[")
    let first ← subscriptPart nested operand
    let items ← separated "," closing (not <$> atSign operandOrClose "]")
      (Cst.inRole .subscript <$> subscriptPart nested operandOrClose) [first.inRole .subscript]
    let close ← sign closing "]"
    return some (Cst.join .subscript ([value.inRole .value, open_] ++ items ++ [close]))
  | .sign "(" =>
    let args ← arguments nested target true x
    return some (Cst.join .call [value.inRole .function, args.inRole .arguments])
  | _ => return none

def trailers (target : Expect → Reader Cst) (follow : Expect) (value : Cst) : Reader Cst :=
  Reader.iterate (fun (value : Cst) => do
    match ← trailer nested target value (← Reader.peek follow) with
    | some next => return .inl next
    | none => return .inr value) value

def atom (target : Expect → Reader Cst) (here follow : Expect) : Reader Cst := do
  let x ← Reader.peek here
  match x.token with
  | .word "True" => Reader.accept x .trueLiteral
  | .word "False" => Reader.accept x .falseLiteral
  | .word "None" => Reader.accept x .noneLiteral
  | .word w => if isValueName w then Reader.accept x .identifier else Reader.refuse x
  | .integer => Reader.accept x .integerLiteral
  | .float => Reader.accept x .floatLiteral
  | .quote => strings nested x follow
  | .sign "..." => Reader.accept x .ellipsis
  | .sign "(" => parentheses nested target x
  | .sign "[" => brackets nested target x
  | .sign "\x7b" => braces nested target x
  | _ => Reader.refuse x

/-- A single target of a loop or clause. Brackets in it hold expressions that denote targets, and
clauses in those are read with `depth` one less. -/
def loopTarget : Nat → Expect → Reader Cst
  | 0, _ => Reader.refuseHere
  | depth + 1, here => do
    let inner := loopTarget depth
    let x ← Reader.peek here
    if x.token == .sign "*" then
      let star ← Reader.accept x (.token "*")
      let value ← splatTarget (atom nested inner) (trailer nested inner) plain
      return Cst.join .listSplatPattern [star, value]
    else
      let first ← atom nested inner here plain
      let value ← trailers nested inner plain first
      match toPattern? value with
      | some p => return p
      | none => Reader.refuseHere

def target (here : Expect) : Reader Cst := fun s c => loopTarget nested (s.size + 1) here s c

def splatted (follow : Expect) : Reader Cst :=
  splatTarget (atom nested (target nested)) (trailer nested (target nested)) follow

/-- An operand with what follows it closely, or with a sign or word before it. -/
def unary (here follow : Expect) : Reader Cst := do
  let x ← Reader.peek here
  match x.token with
  | .sign "-" | .sign "+" | .sign "~" =>
    let op ← Reader.accept x (match x.token with | .sign t => .token t | _ => .error)
    let value ← nested (.primary 21) operand follow
    return Cst.join .unaryOperator [op.inRole .operator, value.inRole .argument]
  | .sign "*" =>
    let star ← Reader.accept x (.token "*")
    let value ← splatted nested follow
    trailers nested (target nested) follow (Cst.join .listSplat [star, value])
  | .word "await" =>
    let head ← Reader.accept x (.token "await")
    let y ← Reader.peek (orQuote follow)
    if startsOperand y then
      let value ← nested (.primary 21) (orQuote follow) follow
      return Cst.join .await [head, value]
    else trailers nested (target nested) follow (head.retag .identifier)
  | _ =>
    let first ← atom nested (target nested) here follow
    trailers nested (target nested) follow first

def primary (power : Nat) (here follow : Expect) : Reader Cst := do
  let first ← unary nested here follow
  Reader.iterate (fun (left : Cst) => do
    let x ← Reader.peek follow
    match x.token, power? x.token with
    | .sign t, some (p, toRight) =>
      if power ≤ p then
        let op ← Reader.accept x (.token t)
        let right ← nested (.primary (if toRight then p else p + 1)) operand follow
        return .inl (Cst.join .binaryOperator
          [left.inRole .left, op.inRole .operator, right.inRole .right])
      else return .inr left
    | _, _ => return .inr left) first

def comparison (here follow : Expect) : Reader Cst := do
  let first ← primary nested 0 here follow
  let parts ← Reader.iterate (fun (read : List Cst) => do
    match ← comparison? follow with
    | none => return .inr read
    | some op =>
      let right ← primary nested 0 operand follow
      return .inl (read ++ [op.inRole .operators, right])) [first]
  match parts with
  | [c] => return c
  | cs => return Cst.join .comparisonOperator cs

def lambda (body : Reader Cst) (x : Lexeme) : Reader Cst := do
  let head ← Reader.accept x (.token "lambda")
  let tuple (here : Expect) : Reader Cst := do
    match toPattern? (← parentheses nested (target nested) (← Reader.peek here)) with
    | some p => return p
    | none => Reader.refuseHere
  let parameters ←
    if startsParameter (← Reader.peek plain) then
      let cs ← parameterList (parameter nested (splatted nested) tuple false) plain plain
      pure [(Cst.join .lambdaParameters cs).inRole .parameters]
    else pure []
  let colon ← sign plain ":"
  let value ← body
  return Cst.join .lambda ([head] ++ parameters ++ [colon, value.inRole .body])

/-- An expression's operand: a negation, a function, a value with a name, or a comparison. -/
def truthOperand (here follow : Expect) : Reader Cst := do
  let x ← Reader.peek here
  match x.token with
  | .word "not" =>
    let head ← Reader.accept x (.token "not")
    let value ← nested (.expression 4) operand follow
    return Cst.join .notOperator [head, value.inRole .argument]
  | .word "lambda" => lambda nested (nested (.expression 0) operand follow) x
  | .word w =>
    let y ← Reader.peekPast follow x
    if isValueName w && y.token == .sign ":=" then
      let key ← Reader.accept x .identifier
      let becomes ← Reader.accept y (.token ":=")
      let value ← nested (.expression 1) operand follow
      return Cst.join .namedExpression [key.inRole .name, becomes, value.inRole .value]
    else comparison nested here follow
  | _ => comparison nested here follow

/-- An expression down to a tier: 0 takes conditionals, 1 values kept under a name, 2 `or`, 3
`and`, 4 operands alone. -/
def expression (tier : Nat) (here follow : Expect) : Reader Cst := do
  let first ← truthOperand nested here follow
  let joined (x : Lexeme) (left : Cst) (w : String) (right : Nat) : Reader Cst := do
    let op ← Reader.accept x (.token w)
    let value ← nested (.expression right) operand follow
    return Cst.join .booleanOperator
      [left.inRole .left, op.inRole .operator, value.inRole .right]
  Reader.iterate (fun (left : Cst) => do
    let x ← Reader.peek follow
    match x.token with
    | .word "and" => if tier ≤ 3 then .inl <$> joined x left "and" 4 else return .inr left
    | .word "or" => if tier ≤ 2 then .inl <$> joined x left "or" 3 else return .inr left
    | .word "as" =>
      if tier ≤ 1 then
        let as_ ← Reader.accept x (.token "as")
        let value ← nested (.expression 2) operand follow
        let alias_ := (Cst.join .asPatternTarget [value]).inRole .alias
        return .inl (Cst.join .asPattern [left, as_, alias_])
      else return .inr left
    | .word "if" =>
      if tier = 0 then
        let if_ ← Reader.accept x (.token "if")
        let condition ← nested (.expression 0) operand plain
        let else_ ← word plain "else"
        let other ← nested (.expression 0) operand follow
        return .inl (Cst.join .conditionalExpression [left, if_, condition, else_, other])
      else return .inr left
    | _ => return .inr left) first

/-- What a comprehension runs over. A condition after it belongs to the comprehension. -/
def iterable (here follow : Expect) : Reader Cst := do
  let x ← Reader.peek here
  if x.token == .word "lambda" then lambda nested (nested .iterable operand follow) x
  else expression nested 1 here follow

def isAnnotationKind (c : Cst) : Bool :=
  match c.tag with
  | .splatType | .genericType | .unionType | .constrainedType | .memberType => true
  | _ => false

def annotationBase (here follow : Expect) : Reader Cst := do
  let x ← Reader.peek here
  let y ← Reader.peekPast follow x
  match x.token, y.token with
  | .sign "**", _ =>
    let stars ← Reader.accept x (.token "**")
    let base ← name plain
    return Cst.join .splatType [stars, base]
  | .sign "*", .word w =>
    let z ← Reader.peekPast follow y
    if isName w && !isSoftWord w && z.token != .sign "[" then
      let star ← Reader.accept x (.token "*")
      let base ← name plain
      return Cst.join .splatType [star, base]
    else nested (.expression 0) here follow
  | .word w, .sign "[" =>
    if isName w && !isSoftWord w then
      let base ← Reader.accept x .identifier
      let open_ ← sign follow "["
      let first ← nested .typeHint operand closing
      let items ← separated "," closing (not <$> atSign operandOrClose "]")
        (nested .typeHint operandOrClose closing) [first]
      let close ← sign closing "]"
      return Cst.join .genericType [base, Cst.join .typeParameter ([open_] ++ items ++ [close])]
    else nested (.expression 0) here follow
  | _, _ => nested (.expression 0) here follow

/-- An annotation. With `constrained`, a colon and another annotation may follow it. -/
def annotationWith (constrained : Bool) (here follow : Expect) : Reader Cst := do
  let wrap (c : Cst) : Cst := Cst.join .typeExpression [c]
  let first ← annotationBase nested here follow
  Reader.iterate (fun (left : Cst) => do
    let x ← Reader.peek follow
    match x.token with
    | .sign "." =>
      if isAnnotationKind left then
        let dot ← Reader.accept x (.token ".")
        let last ← name plain
        return .inl (Cst.join .memberType [wrap left, dot, last])
      else return .inr (wrap left)
    | .sign "|" =>
      if isAnnotationKind left then
        let bar ← Reader.accept x (.token "|")
        let right ← annotationBase nested operand follow
        return .inl (Cst.join .unionType [wrap left, bar, wrap right])
      else return .inr (wrap left)
    | .sign ":" =>
      if constrained then
        let colon ← Reader.accept x (.token ":")
        let right ← nested .typeHint operand follow
        return .inl (Cst.join .constrainedType [wrap left, colon, right])
      else return .inr (wrap left)
    | _ => return .inr (wrap left)) first

end

def phrase : Nat → Nested
  | 0, _, _, _ => Reader.refuseHere
  | n + 1, p, here, follow =>
    match p with
    | .expression tier => expression (phrase n) tier here follow
    | .primary power => primary (phrase n) power here follow
    | .iterable => iterable (phrase n) here follow
    | .typeHint => annotationWith (phrase n) true here follow

/-- Reads a phrase. Each phrase in a phrase begins further on, so the text bounds the nesting. -/
def nested : Nested := fun p here follow s c => phrase (s.size + 2) p here follow s c

end Gatehouse.Grammar
