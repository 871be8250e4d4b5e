import TypeStrip.Code.Tree

/-! Which modules code requires, by calls that imports and exports have become. -/
namespace TypeStrip.Code

mutual

def Key.requires : Key → List String
  | .word _ | .string _ | .number _ => []
  | .computed e => e.requires

def Expr.requires : Expr → List String
  | .literal _ | .ident _ | .this | .super | .omitted => []
  | .require source => [source]
  | .binary a _ b | .assign a _ b | .index a b | .optionalIndex a b => a.requires ++ b.requires
  | .unary _ a | .member a _ | .optionalMember a _ | .await a | .paren a | .spread a => a.requires
  | .call f args | .optionalCall f args | .new f args => f.requires ++ requiresExprs args
  | .array es | .template _ es | .sequence es => requiresExprs es
  | .object ps => requiresProperties ps
  | .arrow f | .function f => f.requires
  | .cls c => c.requires
  | .conditional a b c => a.requires ++ b.requires ++ c.requires
  | .yield a _ => requiresExpr? a

def requiresExprs : List Expr → List String
  | [] => []
  | e :: es => e.requires ++ requiresExprs es

def requiresExpr? : Option Expr → List String
  | some e => e.requires
  | none => []

def Property.requires : Property → List String
  | .shorthand k => k.requires
  | .withDefault k e | .pair k e => k.requires ++ e.requires
  | .method k _ f => k.requires ++ f.requires
  | .spread e => e.requires

def requiresProperties : List Property → List String
  | [] => []
  | p :: ps => p.requires ++ requiresProperties ps

def Pattern.requires : Pattern → List String
  | .ident _ | .omitted => []
  | .array ps rest => requiresPatterns ps ++ requiresPattern? rest
  | .object fs rest => requiresFields fs ++ requiresPattern? rest
  | .withDefault p e => p.requires ++ e.requires

def requiresPatterns : List Pattern → List String
  | [] => []
  | p :: ps => p.requires ++ requiresPatterns ps

def requiresPattern? : Option Pattern → List String
  | some p => p.requires
  | none => []

def PatternField.requires : PatternField → List String
  | .shorthand p => p.requires
  | .pair k p => k.requires ++ p.requires

def requiresFields : List PatternField → List String
  | [] => []
  | f :: fs => f.requires ++ requiresFields fs

def requiresParams : List Param → List String
  | [] => []
  | .mk p _ :: ps => p.requires ++ requiresParams ps

def Func.requires : Func → List String
  | .mk _ ps body _ _ => requiresParams ps ++ body.requires

def Body.requires : Body → List String
  | .block stmts => requiresStmts stmts
  | .value e => e.requires

def Class.requires : Class → List String
  | .mk _ base ms => requiresExpr? base ++ requiresMembers ms

def Member.requires : Member → List String
  | .constructor ps stmts => requiresParams ps ++ requiresStmts stmts
  | .method _ k _ f => k.requires ++ f.requires
  | .field _ k e => k.requires ++ e.requires

def requiresMembers : List Member → List String
  | [] => []
  | m :: ms => m.requires ++ requiresMembers ms

def requiresDeclarators : List Declarator → List String
  | [] => []
  | .mk p init :: ds => p.requires ++ requiresExpr? init ++ requiresDeclarators ds

/-- The modules that a statement requires. An import that is kept requires nothing. -/
def Stmt.requires : Stmt → List String
  | .expr e | .throw e | .exportValue e => e.requires
  | .vars _ ds => requiresDeclarators ds
  | .function f => f.requires
  | .cls c => c.requires
  | .return_ e => requiresExpr? e
  | .ifThen e s | .while_ e s | .doWhile s e => e.requires ++ requiresStmts s
  | .ifElse e s t => e.requires ++ requiresStmts s ++ requiresStmts t
  | .elseIf e s next => e.requires ++ requiresStmts s ++ next.requires
  | .for_ head test update s =>
    head.requires ++ requiresExpr? test ++ requiresExpr? update ++ requiresStmts s
  | .forIn head e s | .forOf head e s _ => head.requires ++ e.requires ++ requiresStmts s
  | .block stmts | .labeled _ stmts | .export_ stmts => requiresStmts stmts
  | .try_ stmts handler finalizer =>
    requiresStmts stmts ++ requiresHandler? handler ++ requiresStmts? finalizer
  | .switch e cases => e.requires ++ requiresCases cases
  | .scope _ stmts e => requiresStmts stmts ++ e.requires
  | .exportDefault d => d.requires
  | .break_ _ | .continue_ _ | .empty | .debugger | .copyExports .. | .import_ .. | .exportNames ..
  | .exportAll .. => []

def requiresStmts : List Stmt → List String
  | [] => []
  | s :: stmts => s.requires ++ requiresStmts stmts

def requiresStmts? : Option (List Stmt) → List String
  | some stmts => requiresStmts stmts
  | none => []

def ForHead.requires : ForHead → List String
  | .none => []
  | .vars _ ds => requiresDeclarators ds
  | .expr e => e.requires

def requiresHandler? : Option Handler → List String
  | some (.mk param stmts) => requiresPattern? param ++ requiresStmts stmts
  | none => []

def requiresCases : List Case → List String
  | [] => []
  | .mk test stmts :: cases => requiresExpr? test ++ requiresStmts stmts ++ requiresCases cases

end

end TypeStrip.Code
