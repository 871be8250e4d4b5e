import TypeStrip.Syntax.Tree

/-! The stretch of source that a node was read from. -/
namespace TypeStrip

def TypeExpr.span : TypeExpr → Span
  | .keyword s _ | .reference s _ _ | .array s _ | .tuple s _ | .union s _
  | .intersection s _ | .function s _ | .object s _ | .literal s _ | .keyof s _ | .typeof s _
  | .indexed s _ _ | .paren s _ | .conditional s _ _ _ _ | .mapped s _ _ _ | .infer s _ => s

def Expr.span : Expr → Span
  | .literal s _ | .ident s _ | .this s | .super s | .binary s _ _ _ | .unary s _ _
  | .assign s _ _ _ | .call s _ _ _ | .optionalCall s _ _ _ | .new s _ _ _ | .member s _ _
  | .optionalMember s _ _ | .index s _ _ | .optionalIndex s _ _ | .array s _ | .object s _
  | .arrow s _ | .function s _ | .cls s _ | .conditional s _ _ _ | .template s _ _
  | .cast s _ _ | .satisfies s _ _ | .nonNull s _ | .await s _ | .yield s _ _ | .paren s _
  | .sequence s _ | .spread s _ => s
  | .omitted => default

def Pattern.span : Pattern → Span
  | .ident s _ | .array s _ _ | .object s _ _ | .withDefault s _ _ => s
  | .omitted => default

def Stmt.span : Stmt → Span
  | .expr s _ | .decl s _ | .return_ s _ | .ifThen s _ _ | .ifElse s _ _ _ | .for_ s _ _ _ _
  | .forIn s _ _ _ | .forOf s _ _ _ _ | .while_ s _ _ | .doWhile s _ _ | .block s _
  | .break_ s _ | .continue_ s _ | .throw s _ | .try_ s _ _ _ _ _ | .switch s _ _
  | .labeled s _ _ | .empty s | .debugger s | .import_ s _ => s

def Member.span : Member → Span
  | .constructor s _ | .method s _ _ _ _ | .field s _ _ _ _ | .index s _ _ _ _ | .call s _ => s

def Item.span : Item → Span
  | .import_ s _ | .exportNamed s _ _ _ | .exportDefault s _ | .exportDefaultDecl s _ _
  | .exportAll s _ _ _ | .exportDecl s _ _ | .stmt s _ => s

end TypeStrip
