import TypeStrip.Code.Layout

/-!
The text of code. Every function takes the depth of indentation of the line that the text starts
on; the lines after it are indented by themselves.
-/
namespace TypeStrip.Code

mutual

def Expr.text (depth : Nat) : Expr → String
  | .literal value => literalText value
  | .ident name => name
  | .this => "this"
  | .super => "super"
  | .require source => "require(" ++ Text.quoted source ++ ")"
  | .binary a op b =>
    a.guarded (leftPower op) (a.text depth) ++ " " ++ op.text ++ " " ++
      b.guarded (rightPower op) (b.text depth)
  | .unary op a =>
    unaryText op (a.guarded (if op.isPostfix then powerOfPostfix else powerOfUnary) (a.text depth))
  | .assign a op b =>
    a.guarded powerOfPostfix (a.text depth) ++ " " ++ op.text ++ " " ++
      b.guarded powerOfAssignment (b.text depth)
  | .call f args =>
    f.guarded powerOfMember (f.text depth) ++ "(" ++ listed (argTexts depth args) ++ ")"
  | .optionalCall f args =>
    f.guarded powerOfMember (f.text depth) ++ "?.(" ++ listed (argTexts depth args) ++ ")"
  | .new f args =>
    "new " ++ f.guarded powerOfMember (f.text depth) ++ "(" ++ listed (argTexts depth args) ++ ")"
  | .member a name => a.guarded powerOfMember (a.text depth) ++ "." ++ name
  | .optionalMember a name => a.guarded powerOfMember (a.text depth) ++ "?." ++ name
  | .index a i => a.guarded powerOfMember (a.text depth) ++ "[" ++ i.text depth ++ "]"
  | .optionalIndex a i => a.guarded powerOfMember (a.text depth) ++ "?.[" ++ i.text depth ++ "]"
  | .array es => elementsText (argTexts depth es) (endsInHole es)
  | .object ps => inlineBraced (propertyTexts depth ps)
  | .arrow (.mk _ ps body isAsync _) =>
    (if isAsync then "async (" else "(") ++ listed (paramTexts depth ps) ++ ") => " ++
      arrowBodyText depth body
  | .function f => f.text depth
  | .cls c => c.text depth
  | .conditional a b c =>
    a.guarded (powerOfConditional + 1) (a.text depth) ++ " ? " ++
      b.guarded powerOfAssignment (b.text depth) ++ " : " ++
      c.guarded powerOfAssignment (c.text depth)
  | .template texts es => "\x60" ++ templateParts depth texts es ++ "\x60"
  | .await a => "await " ++ a.guarded powerOfUnary (a.text depth)
  | .yield a delegate => (if delegate then "yield*" else "yield") ++ yieldedText depth a
  | .paren a => "(" ++ a.text depth ++ ")"
  | .sequence es => listed (argTexts depth es)
  | .spread a => "..." ++ a.guarded powerOfAssignment (a.text depth)
  | .omitted => ""

def argTexts (depth : Nat) : List Expr → List String
  | [] => []
  | e :: es => e.guarded powerOfAssignment (e.text depth) :: argTexts depth es

def yieldedText (depth : Nat) : Option Expr → String
  | some e => " " ++ e.guarded powerOfAssignment (e.text depth)
  | none => ""

def templateParts (depth : Nat) : List String → List Expr → String
  | t :: ts, e :: es =>
    Text.templateText t ++ "$\x7b" ++ e.text depth ++ "\x7d" ++ templateParts depth ts es
  | ts, _ => String.join (ts.map Text.templateText)

def Key.text (depth : Nat) : Key → String
  | .word name => name
  | .string s => Text.quoted s
  | .number x => numberText x
  | .computed e => "[" ++ e.guarded powerOfAssignment (e.text depth) ++ "]"

def Property.text (depth : Nat) : Property → String
  | .shorthand k => k.text depth
  | .withDefault k e => k.text depth ++ " = " ++ e.guarded powerOfAssignment (e.text depth)
  | .pair k e => k.text depth ++ ": " ++ e.guarded powerOfAssignment (e.text depth)
  | .method k kind f => methodText depth false (k.text depth) kind f
  | .spread e => "..." ++ e.guarded powerOfAssignment (e.text depth)

def propertyTexts (depth : Nat) : List Property → List String
  | [] => []
  | p :: ps => p.text depth :: propertyTexts depth ps

def methodText (depth : Nat) (isStatic : Bool) (key : String) (kind : MethodKind) : Func → String
  | .mk _ ps body isAsync isGenerator =>
    (if isStatic then "static " else "") ++ methodHead kind isAsync isGenerator ++
      key ++ "(" ++ listed (paramTexts depth ps) ++ ") " ++ body.text depth

def Pattern.text (depth : Nat) : Pattern → String
  | .ident name => name
  | .array ps rest =>
    elementsText (patternTexts depth ps ++ restTexts depth rest)
      (rest.isNone && patternEndsInHole ps)
  | .object fs rest => inlineBraced (fieldTexts depth fs ++ restTexts depth rest)
  | .withDefault p e =>
    p.text depth ++ " = " ++ e.guarded powerOfAssignment (e.text depth)
  | .omitted => ""

def patternTexts (depth : Nat) : List Pattern → List String
  | [] => []
  | p :: ps => p.text depth :: patternTexts depth ps

def restTexts (depth : Nat) : Option Pattern → List String
  | some p => ["..." ++ p.text depth]
  | none => []

def PatternField.text (depth : Nat) : PatternField → String
  | .shorthand p => p.text depth
  | .pair k p => k.text depth ++ ": " ++ p.text depth

def fieldTexts (depth : Nat) : List PatternField → List String
  | [] => []
  | f :: fs => f.text depth :: fieldTexts depth fs

def paramTexts (depth : Nat) : List Param → List String
  | [] => []
  | .mk p isRest :: ps => ((if isRest then "..." else "") ++ p.text depth) :: paramTexts depth ps

def Func.text (depth : Nat) : Func → String
  | .mk name ps body isAsync isGenerator =>
    functionHead name isAsync isGenerator ++ "(" ++ listed (paramTexts depth ps) ++ ") " ++
      body.text depth

/-- The body of a function in braces. The lines of a value that is returned are indented as
outside the braces. -/
def Body.text (depth : Nat) : Body → String
  | .block stmts => braced depth (stmtTexts (depth + 1) stmts)
  | .value e => braced depth ["return " ++ e.text depth ++ ";"]

def arrowBodyText (depth : Nat) : Body → String
  | .block stmts => braced depth (stmtTexts (depth + 1) stmts)
  | .value e => arrowValueText (e.guarded powerOfAssignment (e.text depth))

def Class.text (depth : Nat) : Class → String
  | .mk name base members =>
    "class" ++ (match name with | some name => " " ++ name | none => "") ++
      baseText depth base ++ " " ++ braced depth (memberTexts (depth + 1) members)

def baseText (depth : Nat) : Option Expr → String
  | some e => " extends " ++ e.guarded powerOfMember (e.text depth)
  | none => ""

def Member.text (depth : Nat) : Member → String
  | .constructor ps stmts =>
    "constructor(" ++ listed (paramTexts depth ps) ++ ") " ++
      braced depth (stmtTexts (depth + 1) stmts)
  | .method isStatic k kind f => methodText depth isStatic (k.text depth) kind f
  | .field isStatic k e =>
    (if isStatic then "static " else "") ++ k.text depth ++ " = " ++
      e.guarded powerOfAssignment (e.text depth) ++ ";"

def memberTexts (depth : Nat) : List Member → List String
  | [] => []
  | m :: ms => m.text depth :: memberTexts depth ms

def declaratorTexts (depth : Nat) : List Declarator → List String
  | [] => []
  | .mk p init :: ds => (p.text depth ++ initText depth init) :: declaratorTexts depth ds

def initText (depth : Nat) : Option Expr → String
  | some e => " = " ++ e.guarded powerOfAssignment (e.text depth)
  | none => ""

def Stmt.text (depth : Nat) : Stmt → String
  | .expr e => statementText (e.text depth)
  | .vars kind ds => kind.text ++ " " ++ listed (declaratorTexts depth ds) ++ ";"
  | .function f => f.text depth
  | .cls c => c.text depth
  | .return_ e => "return" ++ optionalText depth e ++ ";"
  | .ifThen e yes => "if (" ++ e.text depth ++ ") " ++ braced depth (stmtTexts (depth + 1) yes)
  | .ifElse e yes no =>
    "if (" ++ e.text depth ++ ") " ++ braced depth (stmtTexts (depth + 1) yes) ++
      " else " ++ braced depth (stmtTexts (depth + 1) no)
  | .elseIf e yes next =>
    "if (" ++ e.text depth ++ ") " ++ braced depth (stmtTexts (depth + 1) yes) ++
      " else " ++ next.text depth
  | .for_ head test update body =>
    "for (" ++ head.text depth powerOfSequence ++ ";" ++ optionalText depth test ++ ";" ++
      optionalText depth update ++ ") " ++ braced depth (stmtTexts (depth + 1) body)
  | .forIn head e body =>
    "for (" ++ head.text depth powerOfMember ++ " in " ++ e.text depth ++ ") " ++
      braced depth (stmtTexts (depth + 1) body)
  | .forOf head e body isAwait =>
    (if isAwait then "for await (" else "for (") ++ head.text depth powerOfMember ++ " of " ++
      e.guarded powerOfAssignment (e.text depth) ++ ") " ++
      braced depth (stmtTexts (depth + 1) body)
  | .while_ e body =>
    "while (" ++ e.text depth ++ ") " ++ braced depth (stmtTexts (depth + 1) body)
  | .doWhile body e =>
    "do " ++ braced depth (stmtTexts (depth + 1) body) ++ " while (" ++ e.text depth ++ ");"
  | .block stmts => braced depth (stmtTexts (depth + 1) stmts)
  | .break_ label => match label with
    | some label => "break " ++ label ++ ";"
    | none => "break;"
  | .continue_ label => match label with
    | some label => "continue " ++ label ++ ";"
    | none => "continue;"
  | .throw e => "throw " ++ e.text depth ++ ";"
  | .try_ stmts handler finalizer =>
    "try " ++ braced depth (stmtTexts (depth + 1) stmts) ++ handlerText depth handler ++
      finalizerText depth finalizer
  | .switch e cases =>
    "switch (" ++ e.text depth ++ ") \x7b\n" ++ caseTexts (depth + 1) cases ++
      indentation depth ++ "\x7d"
  | .labeled label body => label ++ ": " ++ stacked depth (stmtTexts depth body)
  | .empty => ";"
  | .debugger => "debugger;"
  | .scope param body argument =>
    "(function (" ++ param ++ ") \x7b\n" ++ lines (depth + 1) (stmtTexts (depth + 1) body) ++
      indentation depth ++ "\x7d)(" ++ argument.guarded powerOfAssignment (argument.text depth) ++
      ");"
  | .copyExports source target => copyExportsText source target
  | .import_ bindings source => importText bindings source
  | .exportNames names source => exportNamesText names source
  | .exportAll source name => match name with
    | some name => "export * as " ++ name ++ " from " ++ Text.quoted source ++ ";"
    | none => "export * from " ++ Text.quoted source ++ ";"
  | .exportValue e => "export default " ++ e.guarded powerOfAssignment (e.text depth) ++ ";"
  | .exportDefault s => "export default " ++ s.text depth
  | .export_ stmts => "export " ++ stacked depth (stmtTexts depth stmts)

def stmtTexts (depth : Nat) : List Stmt → List String
  | [] => []
  | s :: ss => s.text depth :: stmtTexts depth ss

def optionalText (depth : Nat) : Option Expr → String
  | some e => " " ++ e.text depth
  | none => ""

def ForHead.text (depth least : Nat) : ForHead → String
  | .none => ""
  | .vars kind ds => kind.text ++ " " ++ listed (declaratorTexts depth ds)
  | .expr e => e.guarded least (e.text depth)

def handlerText (depth : Nat) : Option Handler → String
  | some (.mk param stmts) =>
    " catch " ++ caughtText depth param ++ braced depth (stmtTexts (depth + 1) stmts)
  | none => ""

def caughtText (depth : Nat) : Option Pattern → String
  | some p => "(" ++ p.text depth ++ ") "
  | none => ""

def finalizerText (depth : Nat) : Option (List Stmt) → String
  | some stmts => " finally " ++ braced depth (stmtTexts (depth + 1) stmts)
  | none => ""

def caseTexts (depth : Nat) : List Case → String
  | [] => ""
  | .mk test stmts :: cases =>
    indentation depth ++ caseHead depth test ++ ":\n" ++
      lines (depth + 1) (stmtTexts (depth + 1) stmts) ++ caseTexts depth cases

def caseHead (depth : Nat) : Option Expr → String
  | some e => "case " ++ e.text depth
  | none => "default"

end

def text (stmts : List Stmt) : String := lines 0 (stmtTexts 0 stmts)

end TypeStrip.Code
