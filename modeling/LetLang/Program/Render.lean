import LetLang.Program.Basic

/-!
# Canonical text of programs

Every operator is written with parentheses around it, so the text shows how the
tree is grouped, and statements are separated by single spaces.
-/

namespace LetLang

/-- Statement texts between braces; a pair of braces without anything between
them if there are none. -/
def Stmt.renderBraced (texts : List String) : String :=
  if texts.isEmpty then "\x7b\x7d" else "\x7b " ++ " ".intercalate texts ++ " \x7d"

mutual

/-- The canonical text of an expression. -/
def Expr.render : Expr → String
  | .name x => x
  | .int n => n.render
  | .bool b => if b then "true" else "false"
  | .unary op e => "(" ++ op.symbol ++ e.render ++ ")"
  | .binary op l r => "(" ++ l.render ++ " " ++ op.symbol ++ " " ++ r.render ++ ")"
  | .ifThen c t => "if (" ++ c.render ++ ") " ++ Stmt.renderBraced (Stmt.renderEach t)
  | .ifElse c t e =>
      "if (" ++ c.render ++ ") " ++ Stmt.renderBraced (Stmt.renderEach t) ++
        " else " ++ Stmt.renderBraced (Stmt.renderEach e)

/-- The canonical text of a statement. -/
def Stmt.render : Stmt → String
  | .bind x e => "let " ++ x ++ " = " ++ e.render ++ ";"
  | .ret e => "return " ++ e.render ++ ";"
  | .expr e => e.render
  | .block b => Stmt.renderBraced (Stmt.renderEach b)

/-- The canonical text of each statement of a sequence. -/
def Stmt.renderEach : List Stmt → List String
  | [] => []
  | s :: b => s.render :: Stmt.renderEach b

end

namespace Program

/-- The canonical text of a program: its statements in order. -/
def render (p : Program) : String :=
  " ".intercalate (Stmt.renderEach p.statements)

end Program

/-- The canonical text of a block. -/
def Block.render (b : Block) : String :=
  Stmt.renderBraced (Stmt.renderEach b)

theorem Stmt.renderEach_eq_map (b : List Stmt) :
    Stmt.renderEach b = b.map Stmt.render := by
  induction b with
  | nil => rfl
  | cons s b ih => simp [Stmt.renderEach, ih]

end LetLang
