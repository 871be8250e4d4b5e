import TypeStrip.Text.Span
import TypeStrip.Syntax.Operator

/-!
The syntax of a module. A node carries the stretch of source it was read from as its first
argument. Type parameters and type arguments that are not written are the empty list.
-/
namespace TypeStrip

inductive ImportSpecifier where
  | default (name : Name)
  | whole (name : Name)
  | named (imported : Name) (renamed : Option Name) (typeOnly : Bool)
deriving DecidableEq, Repr

/-- An import declaration. One without specifiers only runs the module. -/
structure Import where
  specifiers : List ImportSpecifier
  source : String
  typeOnly : Bool
deriving DecidableEq, Repr

structure ExportSpecifier where
  inner : Name
  renamed : Option Name
  typeOnly : Bool
deriving DecidableEq, Repr

inductive ModuleName where
  | ident (name : Name)
  | string (specifier : String)
deriving DecidableEq, Repr

mutual

/-- Types, which are read and then erased. -/
inductive TypeExpr where
  | keyword (span : Span) (keyword : KeywordType)
  | reference (span : Span) (name : List Name) (args : List TypeExpr)
  | array (span : Span) (element : TypeExpr)
  | tuple (span : Span) (elements : List TypeExpr)
  | union (span : Span) (members : List TypeExpr)
  | intersection (span : Span) (members : List TypeExpr)
  | function (span : Span) (signature : Func)
  | object (span : Span) (members : List Member)
  | literal (span : Span) (value : LiteralType)
  | keyof (span : Span) (operand : TypeExpr)
  | typeof (span : Span) (name : List Name)
  | indexed (span : Span) (object index : TypeExpr)
  | paren (span : Span) (inner : TypeExpr)
  | conditional (span : Span) (check bound yes no : TypeExpr)
  | mapped (span : Span) (param : Name) (keys : TypeExpr) (value : Option TypeExpr)
  | infer (span : Span) (name : Name)

inductive TypeParam where
  | mk (name : Name) (bound fallback : Option TypeExpr)

inductive Key where
  | ident (name : Name)
  | string (value : String)
  | number (value : Float)
  | computed (expr : Expr)

/-- Expressions. An omitted element occurs only in array literals. -/
inductive Expr where
  | literal (span : Span) (value : Literal)
  | ident (span : Span) (name : String)
  | this (span : Span)
  | super (span : Span)
  | binary (span : Span) (left : Expr) (op : BinaryOp) (right : Expr)
  | unary (span : Span) (op : UnaryOp) (operand : Expr)
  | assign (span : Span) (target : Expr) (op : AssignOp) (value : Expr)
  | call (span : Span) (callee : Expr) (typeArgs : List TypeExpr) (args : List Expr)
  | optionalCall (span : Span) (callee : Expr) (typeArgs : List TypeExpr) (args : List Expr)
  | new (span : Span) (callee : Expr) (typeArgs : List TypeExpr) (args : List Expr)
  | member (span : Span) (object : Expr) (property : Name)
  | optionalMember (span : Span) (object : Expr) (property : Name)
  | index (span : Span) (object index : Expr)
  | optionalIndex (span : Span) (object index : Expr)
  | array (span : Span) (elements : List Expr)
  | object (span : Span) (properties : List Property)
  | arrow (span : Span) (func : Func)
  | function (span : Span) (func : Func)
  | cls (span : Span) (cls : Class)
  | conditional (span : Span) (test yes no : Expr)
  | template (span : Span) (texts : List String) (exprs : List Expr)
  | cast (span : Span) (expr : Expr) (type : TypeExpr)
  | satisfies (span : Span) (expr : Expr) (type : TypeExpr)
  | nonNull (span : Span) (expr : Expr)
  | await (span : Span) (operand : Expr)
  | yield (span : Span) (argument : Option Expr) (delegate : Bool)
  | paren (span : Span) (inner : Expr)
  | sequence (span : Span) (exprs : List Expr)
  | spread (span : Span) (operand : Expr)
  | omitted

inductive Property where
  | pair (key : Key) (value : Expr) (shorthand : Bool)
  | method (key : Key) (kind : MethodKind) (func : Func)
  | spread (value : Expr)

/-- Binding patterns. An omitted element occurs only in array patterns, and in place of the
pattern of a parameter of a function type that has no name. -/
inductive Pattern where
  | ident (span : Span) (name : Name)
  | array (span : Span) (elements : List Pattern) (rest : Option Pattern)
  | object (span : Span) (fields : List PatternField) (rest : Option Pattern)
  | withDefault (span : Span) (pattern : Pattern) (fallback : Expr)
  | omitted

inductive PatternField where
  | mk (key : Key) (value : Pattern) (shorthand : Bool)

/-- A parameter. One with an access or `readonly` in a constructor is also a property. -/
inductive Param where
  | mk (pattern : Pattern) (type : Option TypeExpr) (isOptional isRest : Bool)
      (access : Option Access) (isReadonly : Bool)

/-- Functions, methods, arrows, and the signatures of types, which have no body. -/
inductive Func where
  | mk (name : Option Name) (typeParams : List TypeParam) (params : List Param)
      (returns : Option TypeExpr) (body : Body) (isAsync isGenerator isDeclare : Bool)

/-- What a function does: nothing, for an overload or an ambient function; a block; or, for an
arrow, give a value. Also the optional blocks of a `try` statement. -/
inductive Body where
  | absent
  | block (span : Span) (stmts : List Stmt)
  | value (expr : Expr)

inductive Class where
  | mk (name : Option Name) (typeParams : List TypeParam) (base : Option Expr)
      (baseArgs : List TypeExpr) (interfaces : List TypeExpr) (members : List Member)
      (isAbstract isDeclare : Bool)

inductive Member where
  | constructor (span : Span) (func : Func)
  | method (span : Span) (key : Key) (kind : MethodKind) (func : Func) (modifiers : Modifiers)
  | field (span : Span) (key : Key) (type : Option TypeExpr) (init : Option Expr)
      (modifiers : Modifiers)
  | index (span : Span) (name : Name) (keyType valueType : TypeExpr) (isReadonly : Bool)
  | call (span : Span) (func : Func)

inductive Decl where
  | function (func : Func)
  | cls (cls : Class)
  | interface (name : Name) (typeParams : List TypeParam) (bases : List TypeExpr)
      (members : List Member)
  | alias_ (name : Name) (typeParams : List TypeParam) (type : TypeExpr)
  | enumeration (name : Name) (members : List Member) (isConst isDeclare : Bool)
  | namespace_ (body : Namespace)
  | vars (kind : VarKind) (declarators : List Declarator) (isDeclare : Bool)

/-- Namespaces and ambient modules: with items, with a namespace inside for a dotted name, or
without a body. -/
inductive Namespace where
  | block (name : ModuleName) (items : List Item) (isDeclare : Bool)
  | dotted (name : ModuleName) (innerSpan : Span) (inner : Namespace) (isDeclare : Bool)
  | ambient (name : ModuleName) (isDeclare : Bool)

inductive Declarator where
  | mk (pattern : Pattern) (type : Option TypeExpr) (init : Option Expr)

inductive Stmt where
  | expr (span : Span) (expr : Expr)
  | decl (span : Span) (decl : Decl)
  | return_ (span : Span) (value : Option Expr)
  | ifThen (span : Span) (test : Expr) (yes : Stmt)
  | ifElse (span : Span) (test : Expr) (yes no : Stmt)
  | for_ (span : Span) (init : ForHead) (test update : Option Expr) (body : Stmt)
  | forIn (span : Span) (head : ForHead) (object : Expr) (body : Stmt)
  | forOf (span : Span) (head : ForHead) (object : Expr) (body : Stmt) (isAwait : Bool)
  | while_ (span : Span) (test : Expr) (body : Stmt)
  | doWhile (span : Span) (body : Stmt) (test : Expr)
  | block (span : Span) (stmts : List Stmt)
  | break_ (span : Span) (label : Option Name)
  | continue_ (span : Span) (label : Option Name)
  | throw (span : Span) (value : Expr)
  | try_ (span blockSpan : Span) (block : List Stmt) (param : Option Pattern)
      (handler finalizer : Body)
  | switch (span : Span) (subject : Expr) (cases : List Case)
  | labeled (span : Span) (label : Name) (body : Stmt)
  | empty (span : Span)
  | debugger (span : Span)
  | import_ (span : Span) (decl : Import)

inductive ForHead where
  | none
  | vars (kind : VarKind) (declarators : List Declarator)
  | expr (expr : Expr)

/-- A clause of a `switch` statement; the default clause has no test. -/
inductive Case where
  | mk (test : Option Expr) (body : List Stmt)

inductive Item where
  | import_ (span : Span) (decl : Import)
  | exportNamed (span : Span) (specifiers : List ExportSpecifier) (source : Option String)
      (typeOnly : Bool)
  | exportDefault (span : Span) (value : Expr)
  | exportDefaultDecl (span declSpan : Span) (decl : Decl)
  | exportAll (span : Span) (source : String) (name : Option Name) (typeOnly : Bool)
  | exportDecl (span declSpan : Span) (decl : Decl)
  | stmt (span : Span) (stmt : Stmt)

end

structure Program where
  items : List Item
  span : Span

end TypeStrip
