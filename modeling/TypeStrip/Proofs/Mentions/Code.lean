import TypeStrip.Proofs.Requires.Code

/-! What code mentions: the modules that it requires, and the variables that it uses. -/
namespace TypeStrip.Code

/-- Something that code depends on: a module that is required, or a variable. -/
inductive Mention where
  | module (source : String)
  | name (name : String)
deriving DecidableEq, Repr

def Mention.module? : Mention → Option String
  | .module source => some source
  | .name _ => none

mutual

def Key.mentions : Key → List Mention
  | .word _ | .string _ | .number _ => []
  | .computed e => e.mentions

/-- What the key of a shorthand mentions, which is a variable. -/
def Key.shorthandMentions : Key → List Mention
  | .word name => [.name name]
  | .string _ | .number _ => []
  | .computed e => e.mentions

def Expr.mentions : Expr → List Mention
  | .literal _ | .this | .super | .omitted => []
  | .ident name => [.name name]
  | .require source => [.module source]
  | .binary a _ b | .assign a _ b | .index a b | .optionalIndex a b => a.mentions ++ b.mentions
  | .unary _ a | .member a _ | .optionalMember a _ | .await a | .paren a | .spread a => a.mentions
  | .call f args | .optionalCall f args | .new f args => f.mentions ++ mentionsOfExprs args
  | .array es | .template _ es | .sequence es => mentionsOfExprs es
  | .object ps => mentionsOfProperties ps
  | .arrow f | .function f => f.mentions
  | .cls c => c.mentions
  | .conditional a b c => a.mentions ++ b.mentions ++ c.mentions
  | .yield a _ => mentionsOfExpr? a

def mentionsOfExprs : List Expr → List Mention
  | [] => []
  | e :: es => e.mentions ++ mentionsOfExprs es

def mentionsOfExpr? : Option Expr → List Mention
  | some e => e.mentions
  | none => []

def Property.mentions : Property → List Mention
  | .shorthand k => k.shorthandMentions
  | .withDefault k e => k.shorthandMentions ++ e.mentions
  | .pair k e => k.mentions ++ e.mentions
  | .method k _ f => k.mentions ++ f.mentions
  | .spread e => e.mentions

def mentionsOfProperties : List Property → List Mention
  | [] => []
  | p :: ps => p.mentions ++ mentionsOfProperties ps

def Pattern.mentions : Pattern → List Mention
  | .ident _ | .omitted => []
  | .array ps rest => mentionsOfPatterns ps ++ mentionsOfPattern? rest
  | .object fs rest => mentionsOfFields fs ++ mentionsOfPattern? rest
  | .withDefault p e => p.mentions ++ e.mentions

def mentionsOfPatterns : List Pattern → List Mention
  | [] => []
  | p :: ps => p.mentions ++ mentionsOfPatterns ps

def mentionsOfPattern? : Option Pattern → List Mention
  | some p => p.mentions
  | none => []

def PatternField.mentions : PatternField → List Mention
  | .shorthand p => p.mentions
  | .pair k p => k.mentions ++ p.mentions

def mentionsOfFields : List PatternField → List Mention
  | [] => []
  | f :: fs => f.mentions ++ mentionsOfFields fs

def mentionsOfParams : List Param → List Mention
  | [] => []
  | .mk p _ :: ps => p.mentions ++ mentionsOfParams ps

def Func.mentions : Func → List Mention
  | .mk _ ps body _ _ => mentionsOfParams ps ++ body.mentions

def Body.mentions : Body → List Mention
  | .block stmts => mentionsOfStmts stmts
  | .value e => e.mentions

def Class.mentions : Class → List Mention
  | .mk _ base ms => mentionsOfExpr? base ++ mentionsOfMembers ms

def Member.mentions : Member → List Mention
  | .constructor ps stmts => mentionsOfParams ps ++ mentionsOfStmts stmts
  | .method _ k _ f => k.mentions ++ f.mentions
  | .field _ k e => k.mentions ++ e.mentions

def mentionsOfMembers : List Member → List Mention
  | [] => []
  | m :: ms => m.mentions ++ mentionsOfMembers ms

def mentionsOfDeclarators : List Declarator → List Mention
  | [] => []
  | .mk p init :: ds => p.mentions ++ mentionsOfExpr? init ++ mentionsOfDeclarators ds

/-- What a statement mentions. Imports that are kept mention nothing, and neither do exports from
other modules. -/
def Stmt.mentions : Stmt → List Mention
  | .expr e | .throw e | .exportValue e => e.mentions
  | .vars _ ds => mentionsOfDeclarators ds
  | .function f => f.mentions
  | .cls c => c.mentions
  | .return_ e => mentionsOfExpr? e
  | .ifThen e s | .while_ e s | .doWhile s e => e.mentions ++ mentionsOfStmts s
  | .ifElse e s t => e.mentions ++ mentionsOfStmts s ++ mentionsOfStmts t
  | .elseIf e s next => e.mentions ++ mentionsOfStmts s ++ next.mentions
  | .for_ head test update s =>
    head.mentions ++ mentionsOfExpr? test ++ mentionsOfExpr? update ++ mentionsOfStmts s
  | .forIn head e s | .forOf head e s _ => head.mentions ++ e.mentions ++ mentionsOfStmts s
  | .block stmts | .labeled _ stmts | .export_ stmts => mentionsOfStmts stmts
  | .try_ stmts handler finalizer =>
    mentionsOfStmts stmts ++ mentionsOfHandler? handler ++ mentionsOfStmts? finalizer
  | .switch e cases => e.mentions ++ mentionsOfCases cases
  | .scope _ stmts e => mentionsOfStmts stmts ++ e.mentions
  | .exportDefault d => d.mentions
  | .copyExports source target => [.name source, .name target, .name "Object"]
  | .exportNames names none => names.map fun n => .name n.1
  | .break_ _ | .continue_ _ | .empty | .debugger | .import_ .. | .exportNames .. | .exportAll .. =>
    []

def mentionsOfStmts : List Stmt → List Mention
  | [] => []
  | s :: stmts => s.mentions ++ mentionsOfStmts stmts

def mentionsOfStmts? : Option (List Stmt) → List Mention
  | some stmts => mentionsOfStmts stmts
  | none => []

def ForHead.mentions : ForHead → List Mention
  | .none => []
  | .vars _ ds => mentionsOfDeclarators ds
  | .expr e => e.mentions

def mentionsOfHandler? : Option Handler → List Mention
  | some (.mk param stmts) => mentionsOfPattern? param ++ mentionsOfStmts stmts
  | none => []

def mentionsOfCases : List Case → List Mention
  | [] => []
  | .mk test stmts :: cases =>
    mentionsOfExpr? test ++ mentionsOfStmts stmts ++ mentionsOfCases cases

end

/-! ### Several parts -/

theorem mentionsOfStmts_eq_flatMap (stmts : List Stmt) :
    mentionsOfStmts stmts = stmts.flatMap Stmt.mentions := by
  induction stmts with
  | nil => rfl
  | cons s stmts ih => rw [mentionsOfStmts, ih, List.flatMap_cons]

theorem mentionsOfMembers_eq_flatMap (ms : List Member) :
    mentionsOfMembers ms = ms.flatMap Member.mentions := by
  induction ms with
  | nil => rfl
  | cons m ms ih => rw [mentionsOfMembers, ih, List.flatMap_cons]

theorem mentionsOfStmts_append (a b : List Stmt) :
    mentionsOfStmts (a ++ b) = mentionsOfStmts a ++ mentionsOfStmts b := by
  simp only [mentionsOfStmts_eq_flatMap, List.flatMap_append]

theorem mentionsOfStmts_singleton (s : Stmt) : mentionsOfStmts [s] = s.mentions :=
  List.append_nil _

theorem mentionsOfMembers_append (a b : List Member) :
    mentionsOfMembers (a ++ b) = mentionsOfMembers a ++ mentionsOfMembers b := by
  simp only [mentionsOfMembers_eq_flatMap, List.flatMap_append]

theorem mentionsOfMembers_singleton (m : Member) : mentionsOfMembers [m] = m.mentions :=
  List.append_nil _

/-! ### Mentions that are allowed -/

/-- Only what is allowed is mentioned. -/
def Allowed (S : Mention → Prop) (ms : List Mention) : Prop := ∀ m ∈ ms, S m

section
variable {S : Mention → Prop} {a b : List Mention} {m : Mention}

theorem allowed_nil : Allowed S [] := List.forall_mem_nil _

theorem allowed_cons : Allowed S (m :: a) ↔ S m ∧ Allowed S a := List.forall_mem_cons

theorem allowed_singleton : Allowed S [m] ↔ S m := List.forall_mem_singleton

theorem allowed_append : Allowed S (a ++ b) ↔ Allowed S a ∧ Allowed S b := List.forall_mem_append

theorem allowed_flatMap {α : Type} {f : α → List Mention} {as : List α} :
    Allowed S (as.flatMap f) ↔ ∀ x ∈ as, Allowed S (f x) := by
  simp only [Allowed, List.mem_flatMap]
  exact ⟨fun h x hx m hm => h m ⟨x, hx, hm⟩, fun h m ⟨x, hx, hm⟩ => h x hx m hm⟩

theorem allowed_mentionsOfStmts {stmts : List Stmt} :
    Allowed S (mentionsOfStmts stmts) ↔ ∀ s ∈ stmts, Allowed S s.mentions := by
  rw [mentionsOfStmts_eq_flatMap, allowed_flatMap]

end

/-! ### Modules among what is mentioned -/

/-- The modules among mentions of two parts. -/
theorem modules_append {as bs : List String} {a b : List Mention}
    (ha : as = a.filterMap Mention.module?) (hb : bs = b.filterMap Mention.module?) :
    as ++ bs = (a ++ b).filterMap Mention.module? := by
  rw [ha, hb, List.filterMap_append]

-- By induction on the code, one theorem for each kind of part.
mutual

theorem Key.requires_eq (k : Key) : k.requires = k.mentions.filterMap Mention.module? := by
  cases k with
  | word | string | number => rfl
  | computed e => exact e.requires_eq

theorem Key.requires_eq_shorthand (k : Key) :
    k.requires = k.shorthandMentions.filterMap Mention.module? := by
  cases k with
  | word | string | number => rfl
  | computed e => exact e.requires_eq

theorem Expr.requires_eq (e : Expr) : e.requires = e.mentions.filterMap Mention.module? := by
  cases e with
  | literal | ident | this | super | omitted | require => rfl
  | binary a op b | assign a op b | index a b | optionalIndex a b =>
    exact modules_append a.requires_eq b.requires_eq
  | unary op a | member a n | optionalMember a n | await a | paren a | spread a =>
    exact a.requires_eq
  | call f args | optionalCall f args | new f args =>
    exact modules_append f.requires_eq (requiresExprs_eq args)
  | array es | template texts es | sequence es => exact requiresExprs_eq es
  | object ps => exact requiresProperties_eq ps
  | arrow f | function f => exact f.requires_eq
  | cls c => exact c.requires_eq
  | conditional a b c =>
    exact modules_append (modules_append a.requires_eq b.requires_eq) c.requires_eq
  | yield a delegate => exact requiresExpr?_eq a

theorem requiresExprs_eq (es : List Expr) :
    requiresExprs es = (mentionsOfExprs es).filterMap Mention.module? := by
  cases es with
  | nil => rfl
  | cons e es => exact modules_append e.requires_eq (requiresExprs_eq es)

theorem requiresExpr?_eq (e : Option Expr) :
    requiresExpr? e = (mentionsOfExpr? e).filterMap Mention.module? := by
  cases e with
  | none => rfl
  | some e => exact e.requires_eq

theorem Property.requires_eq (p : Property) :
    p.requires = p.mentions.filterMap Mention.module? := by
  cases p with
  | shorthand k => exact k.requires_eq_shorthand
  | withDefault k e => exact modules_append k.requires_eq_shorthand e.requires_eq
  | pair k e => exact modules_append k.requires_eq e.requires_eq
  | method k kind f => exact modules_append k.requires_eq f.requires_eq
  | spread e => exact e.requires_eq

theorem requiresProperties_eq (ps : List Property) :
    requiresProperties ps = (mentionsOfProperties ps).filterMap Mention.module? := by
  cases ps with
  | nil => rfl
  | cons p ps => exact modules_append p.requires_eq (requiresProperties_eq ps)

theorem Pattern.requires_eq (p : Pattern) :
    p.requires = p.mentions.filterMap Mention.module? := by
  cases p with
  | ident | omitted => rfl
  | array ps rest => exact modules_append (requiresPatterns_eq ps) (requiresPattern?_eq rest)
  | object fs rest => exact modules_append (requiresFields_eq fs) (requiresPattern?_eq rest)
  | withDefault p e => exact modules_append p.requires_eq e.requires_eq

theorem requiresPatterns_eq (ps : List Pattern) :
    requiresPatterns ps = (mentionsOfPatterns ps).filterMap Mention.module? := by
  cases ps with
  | nil => rfl
  | cons p ps => exact modules_append p.requires_eq (requiresPatterns_eq ps)

theorem requiresPattern?_eq (p : Option Pattern) :
    requiresPattern? p = (mentionsOfPattern? p).filterMap Mention.module? := by
  cases p with
  | none => rfl
  | some p => exact p.requires_eq

theorem PatternField.requires_eq (f : PatternField) :
    f.requires = f.mentions.filterMap Mention.module? := by
  cases f with
  | shorthand p => exact p.requires_eq
  | pair k p => exact modules_append k.requires_eq p.requires_eq

theorem requiresFields_eq (fs : List PatternField) :
    requiresFields fs = (mentionsOfFields fs).filterMap Mention.module? := by
  cases fs with
  | nil => rfl
  | cons f fs => exact modules_append f.requires_eq (requiresFields_eq fs)

theorem requiresParams_eq (ps : List Param) :
    requiresParams ps = (mentionsOfParams ps).filterMap Mention.module? := by
  match ps with
  | [] => rfl
  | .mk p isRest :: ps => exact modules_append p.requires_eq (requiresParams_eq ps)

theorem Func.requires_eq (f : Func) : f.requires = f.mentions.filterMap Mention.module? := by
  obtain ⟨name, ps, body, isAsync, isGenerator⟩ := f
  exact modules_append (requiresParams_eq ps) body.requires_eq

theorem Body.requires_eq (b : Body) : b.requires = b.mentions.filterMap Mention.module? := by
  cases b with
  | block stmts => exact requiresStmts_eq stmts
  | value e => exact e.requires_eq

theorem Class.requires_eq (c : Class) : c.requires = c.mentions.filterMap Mention.module? := by
  obtain ⟨name, base, ms⟩ := c
  exact modules_append (requiresExpr?_eq base) (requiresMembers_eq ms)

theorem Member.requires_eq (m : Member) : m.requires = m.mentions.filterMap Mention.module? := by
  cases m with
  | constructor ps stmts => exact modules_append (requiresParams_eq ps) (requiresStmts_eq stmts)
  | method isStatic k kind f => exact modules_append k.requires_eq f.requires_eq
  | field isStatic k e => exact modules_append k.requires_eq e.requires_eq

theorem requiresMembers_eq (ms : List Member) :
    requiresMembers ms = (mentionsOfMembers ms).filterMap Mention.module? := by
  cases ms with
  | nil => rfl
  | cons m ms => exact modules_append m.requires_eq (requiresMembers_eq ms)

theorem requiresDeclarators_eq (ds : List Declarator) :
    requiresDeclarators ds = (mentionsOfDeclarators ds).filterMap Mention.module? := by
  match ds with
  | [] => rfl
  | .mk p init :: ds =>
    exact modules_append (modules_append p.requires_eq (requiresExpr?_eq init))
      (requiresDeclarators_eq ds)

theorem Stmt.requires_eq (s : Stmt) : s.requires = s.mentions.filterMap Mention.module? := by
  cases s with
  | break_ | continue_ | empty | debugger | copyExports | import_ | exportAll => rfl
  | exportNames names source =>
    cases source with
    | some => rfl
    | none => exact (List.filterMap_eq_nil_iff.2 (List.forall_mem_map.2 fun _ _ => rfl)).symm
  | expr e | throw e | exportValue e => exact e.requires_eq
  | vars kind ds => exact requiresDeclarators_eq ds
  | function f => exact f.requires_eq
  | cls c => exact c.requires_eq
  | return_ e => exact requiresExpr?_eq e
  | ifThen e s | while_ e s | doWhile s e =>
    exact modules_append e.requires_eq (requiresStmts_eq s)
  | ifElse e s t =>
    exact modules_append (modules_append e.requires_eq (requiresStmts_eq s)) (requiresStmts_eq t)
  | elseIf e s next =>
    exact modules_append (modules_append e.requires_eq (requiresStmts_eq s)) next.requires_eq
  | for_ head test update s =>
    exact modules_append (modules_append (modules_append head.requires_eq (requiresExpr?_eq test))
      (requiresExpr?_eq update)) (requiresStmts_eq s)
  | forIn head e s | forOf head e s isAwait =>
    exact modules_append (modules_append head.requires_eq e.requires_eq) (requiresStmts_eq s)
  | block stmts | labeled label stmts | export_ stmts => exact requiresStmts_eq stmts
  | try_ stmts handler finalizer =>
    exact modules_append (modules_append (requiresStmts_eq stmts) (requiresHandler?_eq handler))
      (requiresStmts?_eq finalizer)
  | switch e cases => exact modules_append e.requires_eq (requiresCases_eq cases)
  | scope param stmts e => exact modules_append (requiresStmts_eq stmts) e.requires_eq
  | exportDefault d => exact d.requires_eq

theorem requiresStmts_eq (stmts : List Stmt) :
    requiresStmts stmts = (mentionsOfStmts stmts).filterMap Mention.module? := by
  cases stmts with
  | nil => rfl
  | cons s stmts => exact modules_append s.requires_eq (requiresStmts_eq stmts)

theorem requiresStmts?_eq (stmts : Option (List Stmt)) :
    requiresStmts? stmts = (mentionsOfStmts? stmts).filterMap Mention.module? := by
  cases stmts with
  | none => rfl
  | some stmts => exact requiresStmts_eq stmts

theorem ForHead.requires_eq (head : ForHead) :
    head.requires = head.mentions.filterMap Mention.module? := by
  cases head with
  | none => rfl
  | vars kind ds => exact requiresDeclarators_eq ds
  | expr e => exact e.requires_eq

theorem requiresHandler?_eq (handler : Option Handler) :
    requiresHandler? handler = (mentionsOfHandler? handler).filterMap Mention.module? := by
  match handler with
  | none => rfl
  | some (.mk param stmts) =>
    exact modules_append (requiresPattern?_eq param) (requiresStmts_eq stmts)

theorem requiresCases_eq (cases : List Case) :
    requiresCases cases = (mentionsOfCases cases).filterMap Mention.module? := by
  match cases with
  | [] => rfl
  | .mk test stmts :: cases =>
    exact modules_append (modules_append (requiresExpr?_eq test) (requiresStmts_eq stmts))
      (requiresCases_eq cases)

end

/-- A module that is required is mentioned. -/
theorem module_mem_mentionsOfStmts {stmts : List Stmt} {source : String}
    (h : source ∈ requiresStmts stmts) : .module source ∈ mentionsOfStmts stmts := by
  rw [requiresStmts_eq, List.mem_filterMap] at h
  obtain ⟨m, hm, hs⟩ := h
  cases m with
  | module source' => exact Option.some.inj hs ▸ hm
  | name => cases hs

end TypeStrip.Code
