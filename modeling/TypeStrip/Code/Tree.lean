import TypeStrip.Syntax.Operator

/-!
Code without types, which is what a module is lowered to. It has no places in a source, and a
statement of the source may become any number of statements of code.
-/
namespace TypeStrip.Code

inductive Binding where
  | default (name : String)
  | whole (name : String)
  | named (imported name : String)
deriving DecidableEq, Repr

mutual

inductive Key where
  | word (name : String)
  | string (value : String)
  | number (value : Float)
  | computed (expr : Expr)

/-- Expressions. An omitted element occurs only in array literals, and `require` is the call that
an import or an export becomes. -/
inductive Expr where
  | literal (value : Literal)
  | ident (name : String)
  | this
  | super
  | require (source : String)
  | binary (left : Expr) (op : BinaryOp) (right : Expr)
  | unary (op : UnaryOp) (operand : Expr)
  | assign (target : Expr) (op : AssignOp) (value : Expr)
  | call (callee : Expr) (args : List Expr)
  | optionalCall (callee : Expr) (args : List Expr)
  | new (callee : Expr) (args : List Expr)
  | member (object : Expr) (name : String)
  | optionalMember (object : Expr) (name : String)
  | index (object index : Expr)
  | optionalIndex (object index : Expr)
  | array (elements : List Expr)
  | object (properties : List Property)
  | arrow (func : Func)
  | function (func : Func)
  | cls (cls : Class)
  | conditional (test yes no : Expr)
  | template (texts : List String) (exprs : List Expr)
  | await (operand : Expr)
  | yield (argument : Option Expr) (delegate : Bool)
  | paren (inner : Expr)
  | sequence (exprs : List Expr)
  | spread (operand : Expr)
  | omitted

/-- Properties of an object literal. One with a default occurs only where the literal is
assigned to. -/
inductive Property where
  | shorthand (name : Key)
  | withDefault (name : Key) (fallback : Expr)
  | pair (key : Key) (value : Expr)
  | method (key : Key) (kind : MethodKind) (func : Func)
  | spread (value : Expr)

/-- Binding patterns. An omitted element occurs only in array patterns. -/
inductive Pattern where
  | ident (name : String)
  | array (elements : List Pattern) (rest : Option Pattern)
  | object (fields : List PatternField) (rest : Option Pattern)
  | withDefault (pattern : Pattern) (fallback : Expr)
  | omitted

inductive PatternField where
  | shorthand (pattern : Pattern)
  | pair (key : Key) (pattern : Pattern)

inductive Param where
  | mk (pattern : Pattern) (isRest : Bool)

inductive Func where
  | mk (name : Option String) (params : List Param) (body : Body) (isAsync isGenerator : Bool)

inductive Body where
  | block (stmts : List Stmt)
  | value (expr : Expr)

inductive Class where
  | mk (name : Option String) (base : Option Expr) (members : List Member)

inductive Member where
  | constructor (params : List Param) (stmts : List Stmt)
  | method (isStatic : Bool) (key : Key) (kind : MethodKind) (func : Func)
  | field (isStatic : Bool) (key : Key) (value : Expr)

inductive Declarator where
  | mk (pattern : Pattern) (init : Option Expr)

/-- Statements, with the imports and exports that are kept as such. A scope is a function that is
called once, with the object that it fills as its parameter. -/
inductive Stmt where
  | expr (expr : Expr)
  | vars (kind : VarKind) (declarators : List Declarator)
  | function (func : Func)
  | cls (cls : Class)
  | return_ (value : Option Expr)
  | ifThen (test : Expr) (yes : List Stmt)
  | ifElse (test : Expr) (yes no : List Stmt)
  | elseIf (test : Expr) (yes : List Stmt) (next : Stmt)
  | for_ (head : ForHead) (test update : Option Expr) (body : List Stmt)
  | forIn (head : ForHead) (object : Expr) (body : List Stmt)
  | forOf (head : ForHead) (object : Expr) (body : List Stmt) (isAwait : Bool)
  | while_ (test : Expr) (body : List Stmt)
  | doWhile (body : List Stmt) (test : Expr)
  | block (stmts : List Stmt)
  | break_ (label : Option String)
  | continue_ (label : Option String)
  | throw (value : Expr)
  | try_ (block : List Stmt) (handler : Option Handler) (finalizer : Option (List Stmt))
  | switch (subject : Expr) (cases : List Case)
  | labeled (label : String) (body : List Stmt)
  | empty
  | debugger
  | scope (param : String) (body : List Stmt) (argument : Expr)
  | copyExports (source target : String)
  | import_ (bindings : List Binding) (source : String)
  | exportNames (names : List (String × String)) (source : Option String)
  | exportAll (source : String) (name : Option String)
  | exportValue (value : Expr)
  | exportDefault (decl : Stmt)
  | export_ (decl : List Stmt)

inductive ForHead where
  | none
  | vars (kind : VarKind) (declarators : List Declarator)
  | expr (expr : Expr)

inductive Handler where
  | mk (param : Option Pattern) (stmts : List Stmt)

/-- A clause of a `switch` statement; the default clause has no test. -/
inductive Case where
  | mk (test : Option Expr) (body : List Stmt)

end

end TypeStrip.Code
