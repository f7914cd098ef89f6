import Gatehouse.Contract

/-!
Short texts are read in a proof by evaluation. Statements are lowered level by level for that, each
level made from the one below it, and trees are compared.
-/
namespace Gatehouse

/-- Answers and refusals are compared if both can be. -/
instance decidableEqResult {α : Type} [DecidableEq α] : DecidableEq (Lowering.Result α)
  | .ok a, .ok b => decidable_of_iff (a = b) (by simp)
  | .error e, .error f => decidable_of_iff (e = f) (by simp)
  | .ok _, .error _ => isFalse nofun
  | .error _, .ok _ => isFalse nofun

namespace Tree

mutual
def decEq : (t u : Tree) → Decidable (t = u)
  | .node kind line ident ds cs, .node kind' line' ident' ds' cs' =>
    have : Decidable (ds = ds') := decEqAll ds ds'
    have : Decidable (cs = cs') := decEqAll cs cs'
    decidable_of_iff (kind = kind' ∧ line = line' ∧ ident = ident' ∧ ds = ds' ∧ cs = cs')
      (by simp)

def decEqAll : (ts us : List Tree) → Decidable (ts = us)
  | [], [] => isTrue rfl
  | [], _ :: _ => isFalse nofun
  | _ :: _, [] => isFalse nofun
  | t :: ts, u :: us =>
    have : Decidable (t = u) := decEq t u
    have : Decidable (ts = us) := decEqAll ts us
    decidable_of_iff (t = u ∧ ts = us) (by simp)
end

instance decidableEq : DecidableEq Tree := decEq

end Tree

namespace Lowering

/-- What lowers statements, and the branches of a choice, with some number of levels left. -/
structure Level where
  statement : Cst → Result Tree
  branches : List Cst → Result (List Tree)

/-- The level on which nothing may stand any more. Only an empty block has room there. -/
def Level.bottom : Level :=
  let statement (c : Cst) : Result Tree := .error (.syntaxError c.line (.tooDeep maxNesting))
  { statement
    branches := fun
      | [] => .ok []
      | c :: _ =>
        match c.tag with
        | .elseClause => body (fun b => b.proper.mapM statement) c .body
        | .elifClause => .error (.syntaxError c.line (.tooDeep maxNesting))
        | _ => unsupported c }

/-- The level over another one, with the expressions that may stand in its statements. -/
def Level.above (s : Source) (lower : Cst → Kind → Result Tree) (below : Level) : Level :=
  let block (b : Cst) : Result (List Tree) := b.proper.mapM below.statement
  let statement := statementNode s lower block below.branches
  { statement
    branches := fun
      | [] => .ok []
      | c :: rest =>
        match c.tag with
        | .elseClause => body (fun b => b.proper.mapM statement) c .body
        | .elifClause => do
          let condition ← lower (← required c .condition) .load
          let statements ← body block c .consequence
          let others ← below.branches rest
          return [.branch .ifElse c.line (condition :: statements ++ others)]
        | _ => unsupported c }

def level (s : Source) : Nat → Level
  | 0 => .bottom
  | levels + 1 => .above s (expression s levels) (level s levels)

theorem level_eq (s : Source) (levels : Nat) :
    level s levels = ⟨statement s levels, branches s levels⟩ := by
  induction levels with
  | zero =>
    have hstatement : statement s 0 = Level.bottom.statement := by
      funext c
      rw [statement]
      rfl
    have hbranches : branches s 0 = Level.bottom.branches := by
      funext cs
      cases cs with
      | nil => rw [branches]; rfl
      | cons c rest => rw [branches, hstatement]; rfl
    rw [level, hstatement, hbranches]
  | succ levels ih =>
    have hstatement : statement s (levels + 1)
        = (Level.above s (expression s levels) (level s levels)).statement := by
      funext c
      rw [statement, ih]
      rfl
    have hbranches : branches s (levels + 1)
        = (Level.above s (expression s levels) (level s levels)).branches := by
      funext cs
      cases cs with
      | nil => rw [branches]; rfl
      | cons c rest => rw [branches, hstatement, ih]; rfl
    rw [level, hstatement, hbranches]

theorem module_eq (s : Source) (c : Cst) :
    module s c = do return .branch .module 1 (← c.proper.mapM (level s maxNesting).statement) := by
  rw [module, level_eq]

end Lowering

theorem Contract.read_eq (bytes : ByteArray) :
    read bytes =
      let s := Source.ofBytes bytes
      let c := Grammar.tree s
      if c.hasFault then .error (.syntaxError (c.firstFault?.getD 1) .invalid)
      else do
        let statements ← c.proper.mapM (Lowering.level s Lowering.maxNesting).statement
        return .branch .module 1 statements := by
  rw [read]
  simp only [ofCst, Lowering.module_eq]

end Gatehouse
