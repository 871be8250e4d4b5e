import TypeStrip.Proofs.Erasure.Lowering
import TypeStrip.Proofs.Temporaries.Numbering

/-!
The temporaries of a module. The lowering of every part does nothing to the record of temporaries
but make new ones, so all temporaries of a module are different.
-/
namespace TypeStrip.Lowering

variable {ctx : Context}

/-! ### Imports and exports -/

theorem isTraced_requiredBindings (source : String) (bindings : List Code.Binding) :
    (requiredBindings source bindings).IsTraced := by
  unfold requiredBindings
  split
  · exact .pure _
  · exact .pure _
  · exact .pure _
  · cases wholeName? bindings with
    | some name => exact (Lower.IsTraced.pure name).map
    | none => exact (isTraced_fresh _).map

theorem isTraced_lowerImport (ctx : Context) (dest : Destination) (d : Import) :
    (lowerImport ctx dest d).IsTraced := by
  unfold lowerImport
  dsimp only
  split
  · exact .pure _
  · split
    · exact .pure _
    · exact isTraced_requiredBindings _ _

theorem isTraced_lowerExportNames (ctx : Context) (dest : Destination)
    (specifiers : List ExportSpecifier) (source : Option String) :
    (lowerExportNames ctx dest specifiers source).IsTraced := by
  unfold lowerExportNames
  dsimp only
  split
  · exact .pure _
  · split
    · exact .pure _
    · exact .pure _
    · split
      · exact .pure _
      · exact (isTraced_fresh _).map

theorem isTraced_lowerExportAll (dest : Destination) (source : String) (name : Option String) :
    (lowerExportAll dest source name).IsTraced := by
  unfold lowerExportAll
  split
  · exact .pure _
  · exact .pure _
  · exact (isTraced_fresh _).map

/-! ### Parts of a module -/

-- By induction on the syntax, one theorem for each kind of part: new temporaries are made by
-- imports and exports, and all other parts only put together the runs of their own parts.
mutual

theorem isTraced_lowerExpr (e : Expr) : (lowerExpr ctx e).IsTraced := by
  cases e with
  | literal | ident | this | super | omitted => exact .pure _
  | binary s a op b | assign s a op b | index s a b | optionalIndex s a b =>
    rw [lowerExpr]
    exact (isTraced_lowerExpr a).bind fun _ => (isTraced_lowerExpr b).map
  | unary s op a | await s a | paren s a | spread s a | member s a n | optionalMember s a n =>
    rw [lowerExpr]
    exact (isTraced_lowerExpr a).map
  | cast s a t | satisfies s a t | nonNull s a =>
    rw [lowerExpr]
    exact isTraced_lowerExpr a
  | call s f ts args | optionalCall s f ts args | new s f ts args =>
    rw [lowerExpr]
    exact (isTraced_lowerExpr f).bind fun _ => (isTraced_lowerExprs args).map
  | array s es | sequence s es | template s texts es =>
    rw [lowerExpr]
    exact (isTraced_lowerExprs es).map
  | object s ps =>
    rw [lowerExpr]
    exact (isTraced_lowerProperties ps).map
  | arrow s f | function s f =>
    rw [lowerExpr]
    exact (isTraced_lowerFunc f).map
  | cls s c =>
    rw [lowerExpr]
    exact (isTraced_lowerClass c).map
  | conditional s a b c =>
    rw [lowerExpr]
    exact (isTraced_lowerExpr a).bind fun _ => (isTraced_lowerExpr b).bind fun _ =>
      (isTraced_lowerExpr c).map
  | yield s a delegate =>
    rw [lowerExpr]
    exact (isTraced_lowerExpr? a).map

theorem isTraced_lowerExprs (es : List Expr) : (lowerExprs ctx es).IsTraced := by
  cases es with
  | nil => exact .pure _
  | cons e es =>
    rw [lowerExprs]
    exact (isTraced_lowerExpr e).bind fun _ => (isTraced_lowerExprs es).map

theorem isTraced_lowerExpr? (e : Option Expr) : (lowerExpr? ctx e).IsTraced := by
  cases e with
  | none => exact .pure _
  | some e =>
    rw [lowerExpr?]
    exact (isTraced_lowerExpr e).map

theorem isTraced_lowerKey (k : Key) : (lowerKey ctx k).IsTraced := by
  cases k with
  | ident | string | number => exact .pure _
  | computed e =>
    rw [lowerKey]
    exact (isTraced_lowerExpr e).map

theorem isTraced_lowerProperty (p : Property) : (lowerProperty ctx p).IsTraced := by
  match p with
  | .pair k v true =>
    rw [lowerProperty_shorthand]
    refine (isTraced_lowerKey k).bind fun key => ?_
    cases hb : v.fallback? with
    | none =>
      dsimp only
      split
      · exact .pure _
      · exact (isTraced_lowerExpr v).map
    | some b =>
      cases v with
      | assign s a op b' =>
        obtain rfl : b' = b := Option.some.inj hb
        exact (isTraced_lowerExpr b').map
      | _ => cases hb
  | .pair k v false =>
    rw [lowerProperty_pair]
    exact (isTraced_lowerKey k).bind fun _ => (isTraced_lowerExpr v).map
  | .method k kind f =>
    rw [lowerProperty]
    exact (isTraced_lowerKey k).bind fun _ => (isTraced_lowerFunc f).map
  | .spread e =>
    rw [lowerProperty]
    exact (isTraced_lowerExpr e).map

theorem isTraced_lowerProperties (ps : List Property) : (lowerProperties ctx ps).IsTraced := by
  cases ps with
  | nil => exact .pure _
  | cons p ps =>
    rw [lowerProperties]
    exact (isTraced_lowerProperty p).bind fun _ => (isTraced_lowerProperties ps).map

theorem isTraced_lowerPattern (p : Pattern) : (lowerPattern ctx p).IsTraced := by
  cases p with
  | ident | omitted => exact .pure _
  | array s ps rest =>
    rw [lowerPattern]
    exact (isTraced_lowerPatterns ps).bind fun _ => (isTraced_lowerPattern? rest).map
  | object s fs rest =>
    rw [lowerPattern]
    exact (isTraced_lowerFields fs).bind fun _ => (isTraced_lowerPattern? rest).map
  | withDefault s p e =>
    rw [lowerPattern]
    exact (isTraced_lowerPattern p).bind fun _ => (isTraced_lowerExpr e).map

theorem isTraced_lowerPatterns (ps : List Pattern) : (lowerPatterns ctx ps).IsTraced := by
  cases ps with
  | nil => exact .pure _
  | cons p ps =>
    rw [lowerPatterns]
    exact (isTraced_lowerPattern p).bind fun _ => (isTraced_lowerPatterns ps).map

theorem isTraced_lowerPattern? (p : Option Pattern) : (lowerPattern? ctx p).IsTraced := by
  cases p with
  | none => exact .pure _
  | some p =>
    rw [lowerPattern?]
    exact (isTraced_lowerPattern p).map

theorem isTraced_lowerField (f : PatternField) : (lowerField ctx f).IsTraced := by
  obtain ⟨k, p, shorthand⟩ := f
  rw [lowerField]
  refine (isTraced_lowerPattern p).bind fun pattern => ?_
  split
  · exact .pure _
  · exact (isTraced_lowerKey k).map

theorem isTraced_lowerFields (fs : List PatternField) : (lowerFields ctx fs).IsTraced := by
  cases fs with
  | nil => exact .pure _
  | cons f fs =>
    rw [lowerFields]
    exact (isTraced_lowerField f).bind fun _ => (isTraced_lowerFields fs).map

theorem isTraced_lowerParams (ps : List Param) : (lowerParams ctx ps).IsTraced := by
  match ps with
  | [] => exact .pure _
  | .mk p type isOptional isRest access isReadonly :: ps =>
    rw [lowerParams]
    split
    · exact isTraced_lowerParams ps
    · exact (isTraced_lowerPattern p).bind fun _ => (isTraced_lowerParams ps).map

theorem isTraced_lowerFunc (f : Func) : (lowerFunc ctx f).IsTraced := by
  obtain ⟨name, tps, ps, ret, body, a, g, d⟩ := f
  rw [lowerFunc]
  exact (isTraced_lowerParams ps).bind fun _ => (isTraced_lowerBody body).map

theorem isTraced_lowerBody (b : Body) : (lowerBody ctx b).IsTraced := by
  cases b with
  | absent => exact .pure _
  | block s stmts =>
    rw [lowerBody]
    exact (isTraced_lowerStmts stmts).map
  | value e =>
    rw [lowerBody]
    exact (isTraced_lowerExpr e).map

theorem isTraced_lowerClass (c : Class) : (lowerClass ctx c).IsTraced := by
  obtain ⟨name, tps, base, baseArgs, interfaces, ms, a, d⟩ := c
  rw [lowerClass]
  exact (isTraced_lowerExpr? base).bind fun _ => (isTraced_lowerMembers base.isSome ms).map

theorem isTraced_lowerMember (derived : Bool) (m : Member) :
    (lowerMember ctx derived m).IsTraced := by
  match m with
  | .constructor s (.mk name tps ps ret (.block bs stmts) a g d) =>
    rw [lowerMember]
    exact (isTraced_lowerParams ps).bind fun _ => (isTraced_lowerStmts stmts).map
  | .constructor s (.mk name tps ps ret .absent a g d)
  | .constructor s (.mk name tps ps ret (.value e) a g d) => exact .pure _
  | .method s k kind f mods =>
    rw [lowerMember]
    split
    · exact (isTraced_lowerKey k).bind fun _ => (isTraced_lowerFunc f).map
    · exact .pure _
  | .field s k type (some e) mods =>
    rw [lowerMember]
    split
    · exact .pure _
    · exact (isTraced_lowerKey k).bind fun _ => (isTraced_lowerExpr e).map
  | .field s k type none mods => exact .pure _
  | .index .. | .call .. => exact .pure _

theorem isTraced_lowerMembers (derived : Bool) (ms : List Member) :
    (lowerMembers ctx derived ms).IsTraced := by
  cases ms with
  | nil => exact .pure _
  | cons m ms =>
    rw [lowerMembers]
    exact (isTraced_lowerMember derived m).bind fun _ => (isTraced_lowerMembers derived ms).map

theorem isTraced_lowerEnumMembers (enum : String) (scope : MemberScope) (ms : List Member) :
    (lowerEnumMembers ctx enum scope ms).IsTraced := by
  match ms with
  | [] => exact .pure _
  | .field s k type init mods :: ms =>
    have hnext (value : MemberValue) : Lower.IsTraced (do
        let key := k.staticName?.getD ""
        return (key, value) :: (← lowerEnumMembers ctx enum (scope.after key value) ms)) :=
      (isTraced_lowerEnumMembers enum _ ms).map
    rw [lowerEnumMembers]
    cases scope.constant? init with
    | some value => exact hnext (.known value)
    | none => exact (isTraced_lowerExpr? init).bind fun _ => hnext (.computed _)
  | .constructor .. :: _ | .method .. :: _ | .index .. :: _ | .call .. :: _ => exact .pure _

theorem isTraced_lowerDeclarators (ds : List Declarator) : (lowerDeclarators ctx ds).IsTraced := by
  match ds with
  | [] => exact .pure _
  | .mk p type init :: ds =>
    rw [lowerDeclarators]
    exact (isTraced_lowerPattern p).bind fun _ => (isTraced_lowerExpr? init).bind fun _ =>
      (isTraced_lowerDeclarators ds).map

theorem isTraced_lowerDecl (d : Decl) : (lowerDecl ctx d).IsTraced := by
  cases d with
  | function f =>
    rw [lowerDecl]
    split
    · exact .pure _
    · exact (isTraced_lowerFunc f).map
  | cls c =>
    rw [lowerDecl]
    split
    · exact .pure _
    · exact (isTraced_lowerClass c).map
  | vars kind ds isDeclare =>
    rw [lowerDecl]
    split
    · exact .pure _
    · exact (isTraced_lowerDeclarators ds).map
  | enumeration name ms isConst isDeclare =>
    rw [lowerDecl]
    split
    · exact .pure _
    · exact (isTraced_lowerEnumMembers name.text {} ms).map
  | namespace_ n =>
    rw [lowerDecl]
    exact isTraced_lowerNamespace none n
  | interface | alias_ => exact .pure _

theorem isTraced_lowerNamespace (parent : Option String) (n : Namespace) :
    (lowerNamespace ctx parent n).IsTraced := by
  match n with
  | .block (.ident name) items isDeclare =>
    rw [lowerNamespace]
    split
    · exact .pure _
    · exact (isTraced_lowerItems (.namespace_ name.text) items).map
  | .dotted (.ident name) s inner isDeclare =>
    rw [lowerNamespace]
    split
    · exact .pure _
    · exact (isTraced_lowerNamespace (some name.text) inner).map
  | .block (.string name) .. | .dotted (.string name) .. | .ambient .. => exact .pure _

theorem isTraced_lowerForHead (head : ForHead) : (lowerForHead ctx head).IsTraced := by
  cases head with
  | none => exact .pure _
  | vars kind ds =>
    rw [lowerForHead]
    exact (isTraced_lowerDeclarators ds).map
  | expr e =>
    rw [lowerForHead]
    exact (isTraced_lowerExpr e).map

theorem isTraced_lowerStmt (t : Stmt) : (lowerStmt ctx t).IsTraced := by
  cases t with
  | break_ | continue_ | empty | debugger => exact .pure _
  | import_ s d =>
    rw [lowerStmt]
    exact isTraced_lowerImport _ _ _
  | expr s e | throw s e =>
    rw [lowerStmt]
    exact (isTraced_lowerExpr e).map
  | decl s d =>
    rw [lowerStmt]
    exact isTraced_lowerDecl d
  | return_ s e =>
    rw [lowerStmt]
    exact (isTraced_lowerExpr? e).map
  | ifThen s e t | while_ s e t =>
    rw [lowerStmt]
    exact (isTraced_lowerExpr e).bind fun _ => (isTraced_lowerStmt t).map
  | doWhile s t e =>
    rw [lowerStmt]
    exact (isTraced_lowerStmt t).bind fun _ => (isTraced_lowerExpr e).map
  | ifElse s e t u =>
    rw [lowerStmt]
    exact (isTraced_lowerExpr e).bind fun _ => (isTraced_lowerStmt t).bind fun _ =>
      (isTraced_lowerStmt u).map
  | for_ s head test update t =>
    rw [lowerStmt]
    exact (isTraced_lowerForHead head).bind fun _ => (isTraced_lowerExpr? test).bind fun _ =>
      (isTraced_lowerExpr? update).bind fun _ => (isTraced_lowerStmt t).map
  | forIn s head e t | forOf s head e t isAwait =>
    rw [lowerStmt]
    exact (isTraced_lowerForHead head).bind fun _ => (isTraced_lowerExpr e).bind fun _ =>
      (isTraced_lowerStmt t).map
  | block s stmts =>
    rw [lowerStmt]
    exact (isTraced_lowerStmts stmts).map
  | try_ s blockSpan stmts param handler finalizer =>
    rw [lowerStmt]
    exact (isTraced_lowerStmts stmts).bind fun _ => (isTraced_lowerBlock? handler).bind fun _ =>
      (isTraced_lowerPattern? param).bind fun _ => (isTraced_lowerBlock? finalizer).map
  | switch s e cases =>
    rw [lowerStmt]
    exact (isTraced_lowerExpr e).bind fun _ => (isTraced_lowerCases cases).map
  | labeled s label t =>
    rw [lowerStmt]
    exact (isTraced_lowerStmt t).map

theorem isTraced_lowerBlock? (b : Body) : (lowerBlock? ctx b).IsTraced := by
  cases b with
  | absent | value => exact .pure _
  | block s stmts =>
    rw [lowerBlock?]
    exact (isTraced_lowerStmts stmts).map

theorem isTraced_lowerCases (cases : List Case) : (lowerCases ctx cases).IsTraced := by
  match cases with
  | [] => exact .pure _
  | .mk test body :: cases =>
    rw [lowerCases]
    exact (isTraced_lowerExpr? test).bind fun _ => (isTraced_lowerStmts body).bind fun _ =>
      (isTraced_lowerCases cases).map

theorem isTraced_lowerStmts (stmts : List Stmt) : (lowerStmts ctx stmts).IsTraced := by
  cases stmts with
  | nil => exact .pure _
  | cons t stmts =>
    rw [lowerStmts]
    exact (isTraced_lowerStmt t).bind fun _ => (isTraced_lowerStmts stmts).map

theorem isTraced_lowerItem (dest : Destination) (i : Item) : (lowerItem ctx dest i).IsTraced := by
  cases i with
  | stmt s t =>
    rw [lowerItem]
    exact isTraced_lowerStmt t
  | import_ s d =>
    rw [lowerItem]
    exact isTraced_lowerImport _ _ _
  | exportDecl s declSpan d | exportDefaultDecl s declSpan d =>
    rw [lowerItem]
    exact (isTraced_lowerDecl d).map
  | exportDefault s e =>
    rw [lowerItem]
    exact (isTraced_lowerExpr e).map
  | exportNamed s names source typeOnly =>
    rw [lowerItem]
    split
    · exact .pure _
    · exact isTraced_lowerExportNames _ _ _ _
  | exportAll s source name typeOnly =>
    rw [lowerItem]
    split
    · exact .pure _
    · exact isTraced_lowerExportAll _ _ _

theorem isTraced_lowerItems (dest : Destination) (items : List Item) :
    (lowerItems ctx dest items).IsTraced := by
  cases items with
  | nil => exact .pure _
  | cons i items =>
    rw [lowerItems]
    exact (isTraced_lowerItem dest i).bind fun _ => (isTraced_lowerItems dest items).map

end

/-! ### Modules -/

/-- The lowering of a module makes a list of temporaries, one after the other, and they are all
different. That they are is due to the numbers, which count the temporaries of one base, and to the
underscore before them, which keeps a base that ends in a number apart from the temporaries of a
shorter one. -/
theorem temporaries_distinct (options : CompilerOptions) (p : Program) :
    let lowering := lowerItems (contextOf options p) (contextOf options p).destination p.items
    (∃ names, lowering.Draws [] names ∧ names.Nodup ∧
      ∀ others, lowering.Draws [] others → others = names) ∧
    ∀ base base' number number', temporaryName base number = temporaryName base' number' ↔
      base = base' ∧ number = number' := by
  intro lowering
  refine ⟨?_, fun base base' number number' => temporaryName_inj⟩
  obtain ⟨names, hnames⟩ := isTraced_lowerItems (contextOf options p).destination p.items []
  exact ⟨names, hnames, hnames.nodup.1, fun others hothers => hothers.unique hnames⟩

end TypeStrip.Lowering
