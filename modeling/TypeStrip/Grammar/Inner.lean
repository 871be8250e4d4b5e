import TypeStrip.Grammar.Parser
import TypeStrip.Syntax.Extent

/-!
The places where the grammar is entered one level further in. Every other rule of the grammar is
written over a record of these, so that the bound on nesting is the only recursion between them.
-/
namespace TypeStrip.Grammar

/-- The grammar one level further in: an assignment expression; an operand of an operator; a
statement; a type; and the expression that the tokens of a template substitution stand for. -/
structure Inner where
  assign : Parser Expr
  unary : Parser Expr
  stmt : Parser Stmt
  type : Parser TypeExpr
  substitution : List Token → Except ParseError Expr

/-- The grammar below the last level, which is always too deep. -/
def Inner.bottom (substitution : List Token → Except ParseError Expr) : Inner where
  assign := complain .tooDeep
  unary := complain .tooDeep
  stmt := complain .tooDeep
  type := complain .tooDeep
  substitution := substitution

end TypeStrip.Grammar
