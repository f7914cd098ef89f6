/-!
The kinds of node a contract's tree is made of: a closed list, in a fixed order, each with the label
that reports and policies use.
-/
namespace Gatehouse

inductive Kind where
  | module | functionDef | asyncFunctionDef | classDef | returnValue | delete | assign
  | augAssign | annAssign | forEach | asyncForEach | whileLoop | ifElse | withBlock
  | asyncWithBlock | withItem | matchCases | raise | tryExcept | exceptHandler | assert
  | importModule | importFrom | alias | globalNames | nonlocalNames | expr | pass | breakLoop
  | continueLoop | typeAlias | boolOp | namedExpr | binOp | unaryOp | lambda | ifExp | dict
  | setDisplay | listComp | setComp | dictComp | generatorExp | comprehension | await | yield
  | yieldFrom | compare | call | keyword | joinedStr | formattedValue | num | str | bytes
  | nameConstant | ellipsis | attributeOf | subscript | index | slice | starred | name
  | listDisplay | tuple | arguments | arg | load | store | del | add | sub | mult | matMult | div
  | modulo | pow | lShift | rShift | bitOr | bitXor | bitAnd | floorDiv | andOf | orOf | invert
  | notOf | uAdd | uSub | eq | notEq | lt | ltE | gt | gtE | isSame | isNotSame | isIn | isNotIn
  deriving DecidableEq, Repr, Inhabited

namespace Kind

def all : List Kind :=
  [.module, .functionDef, .asyncFunctionDef, .classDef, .returnValue, .delete, .assign,
   .augAssign, .annAssign, .forEach, .asyncForEach, .whileLoop, .ifElse, .withBlock,
   .asyncWithBlock, .withItem, .matchCases, .raise, .tryExcept, .exceptHandler, .assert,
   .importModule, .importFrom, .alias, .globalNames, .nonlocalNames, .expr, .pass, .breakLoop,
   .continueLoop, .typeAlias, .boolOp, .namedExpr, .binOp, .unaryOp, .lambda, .ifExp, .dict,
   .setDisplay, .listComp, .setComp, .dictComp, .generatorExp, .comprehension, .await, .yield,
   .yieldFrom, .compare, .call, .keyword, .joinedStr, .formattedValue, .num, .str, .bytes,
   .nameConstant, .ellipsis, .attributeOf, .subscript, .index, .slice, .starred, .name,
   .listDisplay, .tuple, .arguments, .arg, .load, .store, .del, .add, .sub, .mult, .matMult,
   .div, .modulo, .pow, .lShift, .rShift, .bitOr, .bitXor, .bitAnd, .floorDiv, .andOf, .orOf,
   .invert, .notOf, .uAdd, .uSub, .eq, .notEq, .lt, .ltE, .gt, .gtE, .isSame, .isNotSame, .isIn,
   .isNotIn]

def label : Kind → String
  | .module => "Module"
  | .functionDef => "FunctionDef"
  | .asyncFunctionDef => "AsyncFunctionDef"
  | .classDef => "ClassDef"
  | .returnValue => "Return"
  | .delete => "Delete"
  | .assign => "Assign"
  | .augAssign => "AugAssign"
  | .annAssign => "AnnAssign"
  | .forEach => "For"
  | .asyncForEach => "AsyncFor"
  | .whileLoop => "While"
  | .ifElse => "If"
  | .withBlock => "With"
  | .asyncWithBlock => "AsyncWith"
  | .withItem => "withitem"
  | .matchCases => "Match"
  | .raise => "Raise"
  | .tryExcept => "Try"
  | .exceptHandler => "ExceptHandler"
  | .assert => "Assert"
  | .importModule => "Import"
  | .importFrom => "ImportFrom"
  | .alias => "alias"
  | .globalNames => "Global"
  | .nonlocalNames => "Nonlocal"
  | .expr => "Expr"
  | .pass => "Pass"
  | .breakLoop => "Break"
  | .continueLoop => "Continue"
  | .typeAlias => "TypeAlias"
  | .boolOp => "BoolOp"
  | .namedExpr => "NamedExpr"
  | .binOp => "BinOp"
  | .unaryOp => "UnaryOp"
  | .lambda => "Lambda"
  | .ifExp => "IfExp"
  | .dict => "Dict"
  | .setDisplay => "Set"
  | .listComp => "ListComp"
  | .setComp => "SetComp"
  | .dictComp => "DictComp"
  | .generatorExp => "GeneratorExp"
  | .comprehension => "comprehension"
  | .await => "Await"
  | .yield => "Yield"
  | .yieldFrom => "YieldFrom"
  | .compare => "Compare"
  | .call => "Call"
  | .keyword => "keyword"
  | .joinedStr => "JoinedStr"
  | .formattedValue => "FormattedValue"
  | .num => "Num"
  | .str => "Str"
  | .bytes => "Bytes"
  | .nameConstant => "NameConstant"
  | .ellipsis => "Ellipsis"
  | .attributeOf => "Attribute"
  | .subscript => "Subscript"
  | .index => "Index"
  | .slice => "Slice"
  | .starred => "Starred"
  | .name => "Name"
  | .listDisplay => "List"
  | .tuple => "Tuple"
  | .arguments => "arguments"
  | .arg => "arg"
  | .load => "Load"
  | .store => "Store"
  | .del => "Del"
  | .add => "Add"
  | .sub => "Sub"
  | .mult => "Mult"
  | .matMult => "MatMult"
  | .div => "Div"
  | .modulo => "Mod"
  | .pow => "Pow"
  | .lShift => "LShift"
  | .rShift => "RShift"
  | .bitOr => "BitOr"
  | .bitXor => "BitXor"
  | .bitAnd => "BitAnd"
  | .floorDiv => "FloorDiv"
  | .andOf => "And"
  | .orOf => "Or"
  | .invert => "Invert"
  | .notOf => "Not"
  | .uAdd => "UAdd"
  | .uSub => "USub"
  | .eq => "Eq"
  | .notEq => "NotEq"
  | .lt => "Lt"
  | .ltE => "LtE"
  | .gt => "Gt"
  | .gtE => "GtE"
  | .isSame => "Is"
  | .isNotSame => "IsNot"
  | .isIn => "In"
  | .isNotIn => "NotIn"

def ofLabel? (s : String) : Option Kind :=
  all.find? (fun k => k.label == s)

def position (k : Kind) : Nat := all.idxOf k

def isDefinition : Kind → Bool
  | .functionDef | .asyncFunctionDef | .classDef => true
  | _ => false

def isContext : Kind → Bool
  | .load | .store | .del => true
  | _ => false

end Kind
end Gatehouse
