import TypeStrip.Syntax.Tree
import TypeStrip.Number.Decimal

/-! What can be read off a node without going far into it: names, and what survives erasure. -/
namespace TypeStrip

/-- The text of a number used as a key. An integer below `10^21` is kept within 64 bits. -/
def Number.keyText (x : Float) : String :=
  match truncate? (decode x) with
  | some i =>
    if isInteger (decode x) && i.natAbs < Nat.pow 10 21 then
      toString (max (-(Nat.pow 2 63 : Int)) (min ((Nat.pow 2 63 : Int) - 1) i))
    else text x
  | none => text x

def Key.staticName? : Key → Option String
  | .ident n => some n.text
  | .string s => some s
  | .number x => some (Number.keyText x)
  | .computed _ => none

def ImportSpecifier.localName : ImportSpecifier → Name
  | .default n | .whole n => n
  | .named imported renamed _ => renamed.getD imported

def ExportSpecifier.exportedName (s : ExportSpecifier) : Name := s.renamed.getD s.inner

def Expr.unwrapped : Expr → Expr
  | .paren _ e | .cast _ e _ | .satisfies _ e _ | .nonNull _ e => e.unwrapped
  | e => e

mutual

def Pattern.boundNames : Pattern → List String
  | .ident _ n => [n.text]
  | .array _ ps rest => namesOfPatterns ps ++ namesOfPattern? rest
  | .object _ fs rest => namesOfFields fs ++ namesOfPattern? rest
  | .withDefault _ p _ => p.boundNames
  | .omitted => []

def namesOfPatterns : List Pattern → List String
  | [] => []
  | p :: ps => p.boundNames ++ namesOfPatterns ps

def namesOfPattern? : Option Pattern → List String
  | some p => p.boundNames
  | none => []

def namesOfFields : List PatternField → List String
  | [] => []
  | .mk _ p _ :: fs => p.boundNames ++ namesOfFields fs

end

def Declarator.pattern : Declarator → Pattern
  | .mk p _ _ => p

def Declarator.type? : Declarator → Option TypeExpr
  | .mk _ t _ => t

def Param.pattern : Param → Pattern
  | .mk p .. => p

def Param.type? : Param → Option TypeExpr
  | .mk _ t .. => t

/-- From where the property that a parameter declares may be used. -/
def Param.access? : Param → Option Access
  | .mk _ _ _ _ access _ => access

def Param.isRest : Param → Bool
  | .mk _ _ _ isRest _ _ => isRest

def Param.isProperty : Param → Bool
  | .mk _ _ _ _ access isReadonly => access.isSome || isReadonly

def Param.isThis : Param → Bool
  | .mk (.ident _ n) .. => n.text == "this"
  | _ => false

def Func.name? : Func → Option Name
  | .mk name .. => name

def Func.params : Func → List Param
  | .mk _ _ params .. => params

def Func.body : Func → Body
  | .mk _ _ _ _ body .. => body

def Body.isPresent : Body → Bool
  | .absent => false
  | _ => true

def Class.name? : Class → Option Name
  | .mk name .. => name

def Class.members : Class → List Member
  | .mk _ _ _ _ _ members _ _ => members

/-- The constructor of a class. Its overloads have no body. -/
def Class.constructor? (c : Class) : Option Func :=
  c.members.findSome? fun
    | .constructor _ f => if f.body.isPresent then some f else none
    | _ => none

def Namespace.name : Namespace → ModuleName
  | .block name _ _ | .dotted name _ _ _ | .ambient name _ => name

/-- Whether the namespace only describes one that exists elsewhere. -/
def Namespace.isDeclare : Namespace → Bool
  | .block _ _ d | .dotted _ _ _ d | .ambient _ d => d

mutual

def Decl.isTypeOnly : Decl → Bool
  | .interface .. | .alias_ .. => true
  | .function (.mk _ _ _ _ body _ _ isDeclare) => isDeclare || !body.isPresent
  | .cls (.mk _ _ _ _ _ _ _ isDeclare) => isDeclare
  | .enumeration _ _ _ isDeclare => isDeclare
  | .namespace_ n => n.isDeclare || !n.hasRuntimeContent
  | .vars _ _ isDeclare => isDeclare

def Namespace.hasRuntimeContent : Namespace → Bool
  | .block _ items _ => anyRuntimeContent items
  | .dotted _ _ inner _ => inner.hasRuntimeContent
  | .ambient .. => false

def anyRuntimeContent : List Item → Bool
  | [] => false
  | i :: items => i.hasRuntimeContent || anyRuntimeContent items

/-- Whether the item of a namespace survives the erasure of types. Only declarations can be
exported from a namespace. -/
def Item.hasRuntimeContent : Item → Bool
  | .exportDecl _ _ d => !d.isTypeOnly
  | .stmt _ s => s.hasRuntimeContent
  | _ => false

def Stmt.hasRuntimeContent : Stmt → Bool
  | .decl _ d => !d.isTypeOnly
  | _ => true

end

def Decl.boundNames : Decl → List String
  | .function f => f.name?.toList.map Name.text
  | .cls c => c.name?.toList.map Name.text
  | .interface n .. | .alias_ n .. | .enumeration n .. => [n.text]
  | .namespace_ n => match n.name with
    | .ident name => [name.text]
    | .string _ => []
  | .vars _ ds _ => ds.flatMap fun d => d.pattern.boundNames

def Item.isModuleSyntax : Item → Bool
  | .stmt _ _ => false
  | _ => true

def Program.isModule (p : Program) : Bool := p.items.any Item.isModuleSyntax

end TypeStrip
