import TypeStrip.Lowering.Transpile
import TypeStrip.Proofs.Erasure.Masking
import TypeStrip.Proofs.Erasure.Analysis

/-! The lowering of a module is the same when parts are left out and no form is hidden by them. -/
namespace TypeStrip
open Lowering

namespace Site
variable {r : Reduction}

def Kept (r : Reduction) (s : Site) : Prop := s.Unmasked r ∧ s.PlainShorthand r

def AllClear (r : Reduction) (ss : List Site) : Prop := ∀ s ∈ ss, Clear (Kept r) s

theorem Clear.here {P : Site → Prop} {s : Site} (h : Clear P s) : P s := by
  cases h with
  | mk here inside => exact here

theorem Clear.inside {P : Site → Prop} {s : Site} (h : Clear P s) : ∀ t ∈ s.live, Clear P t := by
  cases h with
  | mk here inside => exact inside

theorem allClear_nil : AllClear r [] := fun _ h => nomatch h

theorem allClear_cons {s : Site} {ss : List Site} :
    AllClear r (s :: ss) ↔ Clear (Kept r) s ∧ AllClear r ss :=
  List.forall_mem_cons

theorem allClear_append {ss ts : List Site} :
    AllClear r (ss ++ ts) ↔ AllClear r ss ∧ AllClear r ts :=
  List.forall_mem_append

theorem allClear_singleton {s : Site} : AllClear r [s] ↔ Clear (Kept r) s :=
  List.forall_mem_singleton

theorem allClear_flatMap_cons {α : Type} {f : α → List Site} {a : α} {as : List α} :
    AllClear r ((a :: as).flatMap f) ↔ AllClear r (f a) ∧ AllClear r (as.flatMap f) := by
  rw [List.flatMap_cons, allClear_append]

theorem allClear_map_cons {α : Type} {f : α → Site} {a : α} {as : List α} :
    AllClear r ((a :: as).map f) ↔ Clear (Kept r) (f a) ∧ AllClear r (as.map f) := by
  rw [List.map_cons, allClear_cons]

theorem allClear_ofExprs_cons {e : Expr} {es : List Expr} :
    AllClear r (ofExprs (e :: es)) ↔ AllClear r (ofExprs [e]) ∧ AllClear r (ofExprs es) := by
  rw [ofExprs_cons, allClear_append]

theorem allClear_ofPatterns_cons {p : Pattern} {ps : List Pattern} :
    AllClear r (ofPatterns (p :: ps)) ↔
      AllClear r (ofPatterns [p]) ∧ AllClear r (ofPatterns ps) := by
  rw [ofPatterns_cons, allClear_append]

theorem allClear_ofPatterns_append {ps qs : List Pattern} :
    AllClear r (ofPatterns (ps ++ qs)) ↔
      AllClear r (ofPatterns ps) ∧ AllClear r (ofPatterns qs) := by
  rw [ofPatterns_append, allClear_append]

/-- A written expression is clear, and so is all inside it. -/
theorem AllClear.expr {e : Expr} (h : AllClear r (ofExprs [e])) :
    Kept r (.expr e) ∧ AllClear r (live (.expr e)) := by
  cases e with
  | omitted => exact ⟨⟨trivial, trivial⟩, allClear_nil⟩
  | _ =>
    have h := h _ (List.mem_singleton_self _)
    exact ⟨h.here, h.inside⟩

theorem AllClear.pattern {p : Pattern} (h : AllClear r (ofPatterns [p])) :
    AllClear r (ofPatternParts p) := by
  cases p with
  | omitted => exact allClear_nil
  | _ => exact (h _ (List.mem_singleton_self _)).inside

end Site

open Site
variable {r : Reduction}

/-! ### Shapes -/

theorem accessed_eq_of_swallowsDot {a b : Expr} (h : swallowsDot a = swallowsDot b)
    (e : Code.Expr) : accessed a e = accessed b e := by
  rw [accessed, accessed, h]

theorem instantiated_eq (f : Expr) (e : Code.Expr) :
    instantiated f e = if f.isCall then .paren e else e := by
  cases f <;> rfl

theorem lowerProperty_shorthand (ctx : Context) (k : Key) (v : Expr) :
    lowerProperty ctx (.pair k v true) = (do
      let key ← lowerKey ctx k
      match v.fallback? with
      | some fallback => return .withDefault key (← lowerExpr ctx fallback)
      | none =>
        if isVariableOf k v then return .shorthand key
        else return .pair key (← lowerExpr ctx v)) := by
  cases v <;> simp only [lowerProperty, Expr.fallback?, Bool.true_and]

theorem lowerProperty_pair (ctx : Context) (k : Key) (v : Expr) :
    lowerProperty ctx (.pair k v false) = (do
      let key ← lowerKey ctx k
      return .pair key (← lowerExpr ctx v)) := by
  cases v <;> rfl

theorem propertyAssignments_reduce (ps : List Param) :
    propertyAssignments (ps.map (Param.reduce r)) = propertyAssignments ps := by
  simp [propertyAssignments, List.filter_map, Function.comp_def, List.flatMap_map]

theorem propertyAssignments_eq_nil {ps : List Param} (h : ps.any Param.isProperty = false) :
    propertyAssignments ps = [] := by
  rw [propertyAssignments, List.filter_eq_nil_iff.2 (by simpa using h), List.flatMap_nil]

/-- Without properties to assign, it makes no difference where they would be assigned. -/
theorem constructorBody_eq_flatten {ps : List Param} (h : ps.any Param.isProperty = false)
    (derived : Bool) (stmts : List Stmt) (lowered : List (List Code.Stmt)) :
    constructorBody derived ps stmts lowered = lowered.flatten := by
  rw [constructorBody, propertyAssignments_eq_nil h, List.append_nil, ← List.flatten_append,
    List.take_append_drop]

theorem constructorBody_reduce {derived : Bool} {ps : List Param} {stmts : List Stmt}
    (h : derived = true → ps.any Param.isProperty = true →
      (stmts.map (Stmt.reduce r)).findIdx? isSuperCall = stmts.findIdx? isSuperCall)
    (lowered : List (List Code.Stmt)) :
    constructorBody derived (ps.map (Param.reduce r)) (stmts.map (Stmt.reduce r)) lowered =
      constructorBody derived ps stmts lowered := by
  cases hp : ps.any Param.isProperty with
  | false =>
    have hr : (ps.map (Param.reduce r)).any Param.isProperty = false := by
      simpa [List.any_map, Function.comp_def] using hp
    rw [constructorBody_eq_flatten hp, constructorBody_eq_flatten hr]
  | true =>
    have hb : statementsBefore derived (stmts.map (Stmt.reduce r)) =
        statementsBefore derived stmts := by
      cases derived with
      | false => rfl
      | true => rw [statementsBefore, statementsBefore, h rfl hp]
    rw [constructorBody, constructorBody, hb, propertyAssignments_reduce]

theorem after_computed (scope : MemberScope) (key : String) (value : Code.Expr) :
    scope.after key (.computed value) = scope.afterConstant key none := rfl

theorem after_known (scope : MemberScope) (key : String) (value : Constant) :
    scope.after key (.known value) = scope.afterConstant key (some value) := rfl

theorem isFunction_reduce (d : Decl) : isFunction (d.reduce r) = isFunction d := by
  cases d <;> rfl

theorem exportedDeclaration_reduce (dest : Destination) (d : Decl) (stmts : List Code.Stmt) :
    exportedDeclaration dest (d.reduce r) stmts = exportedDeclaration dest d stmts := by
  rw [exportedDeclaration, exportedDeclaration, Decl.isTypeOnly_reduce, isFunction_reduce,
    Decl.boundNames_reduce]

theorem hoistedExports_reduce (i : Item) : hoistedExports (i.reduce r) = hoistedExports i := by
  have hf (f : Func) : (Decl.function (f.reduce r)).isTypeOnly = (Decl.function f).isTypeOnly :=
    Decl.isTypeOnly_reduce r (.function f)
  cases i with
  | exportDecl s declSpan d | exportDefaultDecl s declSpan d =>
    cases d with
    | function f => simp only [Item.reduce, Decl.reduce, hoistedExports, hf, Func.name?_reduce]
    | _ => rfl
  | _ => rfl

/-! ### Parts of a module -/

mutual

theorem lowerExpr_reduce (ctx : Context) (e : Expr) (h : AllClear r (ofExprs [e])) :
    lowerExpr ctx (e.reduce r) = lowerExpr ctx e := by
  obtain ⟨⟨hm, hs⟩, h⟩ := h.expr
  cases e with
  | literal | ident | this | super | omitted => rfl
  | binary s a op b | assign s a op b =>
    obtain ⟨ha, hb⟩ := allClear_ofExprs_cons.1 h
    simp only [Expr.reduce, lowerExpr, lowerExpr_reduce ctx a ha, lowerExpr_reduce ctx b hb]
  | unary s op a | await s a | paren s a | spread s a =>
    simp only [Expr.reduce, lowerExpr, lowerExpr_reduce ctx a h]
  | cast s a t | satisfies s a t | nonNull s a =>
    rw [Expr.reduce]
    split <;> simp only [lowerExpr, lowerExpr_reduce ctx a h]
  | call s f ts args | optionalCall s f ts args =>
    obtain ⟨hf, hargs⟩ := allClear_ofExprs_cons.1 h
    simp only [Expr.reduce, lowerExpr, lowerExpr_reduce ctx f hf, lowerExprs_reduce ctx args hargs]
  | new s f ts args =>
    obtain ⟨hf, hargs⟩ := allClear_ofExprs_cons.1 h
    have hc : (f.reduce r).isCall = f.isCall := hm
    simp only [Expr.reduce, lowerExpr, lowerExpr_reduce ctx f hf, lowerExprs_reduce ctx args hargs,
      instantiated_eq, hc]
  | member s a n | optionalMember s a n =>
    simp only [Expr.reduce, lowerExpr, lowerExpr_reduce ctx a h, accessed_eq_of_swallowsDot hm]
  | index s a i | optionalIndex s a i =>
    obtain ⟨ha, hi⟩ := allClear_ofExprs_cons.1 h
    simp only [Expr.reduce, lowerExpr, lowerExpr_reduce ctx a ha, lowerExpr_reduce ctx i hi,
      accessed_eq_of_swallowsDot hm]
  | array s es | template s texts es | sequence s es =>
    simp only [Expr.reduce, lowerExpr, lowerExprs_reduce ctx es h]
  | object s ps =>
    simp only [Expr.reduce, lowerExpr, lowerProperties_reduce ctx ps h hs]
  | arrow s f =>
    simp only [Expr.reduce, lowerExpr, lowerFunc_reduce ctx f (allClear_singleton.1 h).inside,
      Func.usesThis_reduce]
  | function s f =>
    simp only [Expr.reduce, lowerExpr, lowerFunc_reduce ctx f (allClear_singleton.1 h).inside]
  | cls s c =>
    simp only [Expr.reduce, lowerExpr, lowerClass_reduce ctx c (allClear_singleton.1 h)]
  | conditional s a b c =>
    obtain ⟨ha, h⟩ := allClear_ofExprs_cons.1 h
    obtain ⟨hb, hc⟩ := allClear_ofExprs_cons.1 h
    simp only [Expr.reduce, lowerExpr, lowerExpr_reduce ctx a ha, lowerExpr_reduce ctx b hb,
      lowerExpr_reduce ctx c hc]
  | yield s a delegate =>
    simp only [Expr.reduce, lowerExpr, lowerExpr?_reduce ctx a h]

theorem lowerExprs_reduce (ctx : Context) (es : List Expr) (h : AllClear r (ofExprs es)) :
    lowerExprs ctx (reduceExprs r es) = lowerExprs ctx es := by
  cases es with
  | nil => rfl
  | cons e es =>
    obtain ⟨he, hes⟩ := allClear_ofExprs_cons.1 h
    rw [reduceExprs, lowerExprs, lowerExprs, lowerExpr_reduce ctx e he,
      lowerExprs_reduce ctx es hes]

theorem lowerExpr?_reduce (ctx : Context) (e : Option Expr) (h : AllClear r (ofExpr? e)) :
    lowerExpr? ctx (reduceExpr? r e) = lowerExpr? ctx e := by
  cases e with
  | none => rfl
  | some e => rw [reduceExpr?, lowerExpr?, lowerExpr?, lowerExpr_reduce ctx e h]

theorem lowerKey_reduce (ctx : Context) (k : Key) (h : Clear (Kept r) (.key k)) :
    lowerKey ctx (k.reduce r) = lowerKey ctx k := by
  cases k with
  | ident | string | number => rfl
  | computed e => rw [Key.reduce, lowerKey, lowerKey, lowerExpr_reduce ctx e h.inside]

theorem lowerProperty_reduce (ctx : Context) (p : Property) (h : AllClear r (liveProperty p))
    (hs : ∀ k v, p = .pair k v true → (v.reduce r).fallback? = v.fallback?.map (Expr.reduce r) ∧
      isVariableOf (k.reduce r) (v.reduce r) = isVariableOf k v) :
    lowerProperty ctx (p.reduce r) = lowerProperty ctx p := by
  match p with
  | .pair k v true =>
    obtain ⟨hf, hi⟩ := hs k v rfl
    obtain ⟨hk, hv⟩ := allClear_cons.1 h
    rw [Property.reduce, lowerProperty_shorthand, lowerProperty_shorthand, hf, hi,
      lowerKey_reduce ctx k hk]
    cases hb : v.fallback? with
    | none =>
      rw [hb] at hv
      rw [lowerExpr_reduce ctx v hv]
      rfl
    | some b =>
      cases v with
      | assign s a op b' =>
        obtain rfl : b' = b := Option.some.inj hb
        simp only [Option.map_some, lowerExpr_reduce ctx b' hv]
      | _ => cases hb
  | .pair k v false =>
    obtain ⟨hk, hv⟩ := allClear_cons.1 h
    rw [Property.reduce, lowerProperty_pair, lowerProperty_pair, lowerKey_reduce ctx k hk,
      lowerExpr_reduce ctx v hv]
  | .method k kind f =>
    obtain ⟨hk, hf⟩ := allClear_cons.1 h
    simp only [Property.reduce, lowerProperty, lowerKey_reduce ctx k hk,
      lowerFunc_reduce ctx f (allClear_singleton.1 hf).inside]
  | .spread e => simp only [Property.reduce, lowerProperty, lowerExpr_reduce ctx e h]

theorem lowerProperties_reduce (ctx : Context) (ps : List Property)
    (h : AllClear r (ps.flatMap liveProperty))
    (hs : ∀ k v, .pair k v true ∈ ps → (v.reduce r).fallback? = v.fallback?.map (Expr.reduce r) ∧
      isVariableOf (k.reduce r) (v.reduce r) = isVariableOf k v) :
    lowerProperties ctx (reduceProperties r ps) = lowerProperties ctx ps := by
  cases ps with
  | nil => rfl
  | cons p ps =>
    obtain ⟨hp, hps⟩ := allClear_flatMap_cons.1 h
    rw [reduceProperties, lowerProperties, lowerProperties,
      lowerProperty_reduce ctx p hp fun k v he => hs k v (he ▸ List.mem_cons_self ..),
      lowerProperties_reduce ctx ps hps fun k v hm => hs k v (List.mem_cons_of_mem _ hm)]

theorem lowerPattern_reduce (ctx : Context) (p : Pattern) (h : AllClear r (ofPatterns [p])) :
    lowerPattern ctx (p.reduce r) = lowerPattern ctx p := by
  have h := h.pattern
  cases p with
  | ident | omitted => rfl
  | array s ps rest =>
    obtain ⟨hps, hrest⟩ := allClear_ofPatterns_append.1 h
    rw [Pattern.reduce, lowerPattern, lowerPattern, lowerPatterns_reduce ctx ps hps,
      lowerPattern?_reduce ctx rest hrest]
  | object s fs rest =>
    obtain ⟨hfs, hrest⟩ := allClear_append.1 h
    rw [Pattern.reduce, lowerPattern, lowerPattern, lowerFields_reduce ctx fs hfs,
      lowerPattern?_reduce ctx rest hrest]
  | withDefault s p e =>
    obtain ⟨hp, he⟩ := allClear_append.1 h
    rw [Pattern.reduce, lowerPattern, lowerPattern, lowerPattern_reduce ctx p hp,
      lowerExpr_reduce ctx e he]

theorem lowerPatterns_reduce (ctx : Context) (ps : List Pattern)
    (h : AllClear r (ofPatterns ps)) :
    lowerPatterns ctx (reducePatterns r ps) = lowerPatterns ctx ps := by
  cases ps with
  | nil => rfl
  | cons p ps =>
    obtain ⟨hp, hps⟩ := allClear_ofPatterns_cons.1 h
    rw [reducePatterns, lowerPatterns, lowerPatterns, lowerPattern_reduce ctx p hp,
      lowerPatterns_reduce ctx ps hps]

theorem lowerPattern?_reduce (ctx : Context) (p : Option Pattern)
    (h : AllClear r (ofPatterns p.toList)) :
    lowerPattern? ctx (reducePattern? r p) = lowerPattern? ctx p := by
  cases p with
  | none => rfl
  | some p => rw [reducePattern?, lowerPattern?, lowerPattern?, lowerPattern_reduce ctx p h]

theorem lowerFields_reduce (ctx : Context) (fs : List PatternField)
    (h : AllClear r (fs.flatMap fun | .mk k p _ => .key k :: ofPatterns [p])) :
    lowerFields ctx (reduceFields r fs) = lowerFields ctx fs := by
  match fs with
  | [] => rfl
  | .mk k p shorthand :: fs =>
    obtain ⟨hf, hfs⟩ := allClear_flatMap_cons.1 h
    obtain ⟨hk, hp⟩ := allClear_cons.1 hf
    rw [reduceFields, PatternField.reduce, lowerFields, lowerFields, lowerField, lowerField,
      lowerPattern_reduce ctx p hp, lowerKey_reduce ctx k hk, lowerFields_reduce ctx fs hfs]

theorem lowerParams_reduce (ctx : Context) (ps : List Param)
    (h : AllClear r (ps.flatMap fun | .mk p _ _ _ _ _ => ofPatterns [p])) :
    lowerParams ctx (reduceParams r ps) = lowerParams ctx ps := by
  match ps with
  | [] => rfl
  | .mk p type isOptional isRest access isReadonly :: ps =>
    obtain ⟨hp, hps⟩ := allClear_flatMap_cons.1 h
    have ht := Param.isThis_reduce r (.mk p type isOptional isRest access isReadonly)
    rw [Param.reduce] at ht
    rw [reduceParams, Param.reduce, lowerParams, lowerParams, ht, lowerPattern_reduce ctx p hp,
      lowerParams_reduce ctx ps hps]

theorem lowerFunc_reduce (ctx : Context) (f : Func) (h : AllClear r (ofFunc f)) :
    lowerFunc ctx (f.reduce r) = lowerFunc ctx f := by
  obtain ⟨name, tps, ps, ret, body, a, g, d⟩ := f
  obtain ⟨hps, hb⟩ := allClear_append.1 h
  rw [Func.reduce, lowerFunc, lowerFunc, lowerParams_reduce ctx ps hps,
    lowerBody_reduce ctx body hb]

theorem lowerBody_reduce (ctx : Context) (b : Body) (h : AllClear r (ofBody b)) :
    lowerBody ctx (b.reduce r) = lowerBody ctx b := by
  cases b with
  | absent => rfl
  | block s stmts => rw [Body.reduce, lowerBody, lowerBody, lowerStmts_reduce ctx stmts h]
  | value e => rw [Body.reduce, lowerBody, lowerBody, lowerExpr_reduce ctx e h]

theorem lowerClass_reduce (ctx : Context) (c : Class) (h : Clear (Kept r) (.cls c)) :
    lowerClass ctx (c.reduce r) = lowerClass ctx c := by
  obtain ⟨name, tps, base, baseArgs, interfaces, ms, a, d⟩ := c
  obtain ⟨hb, hms⟩ := allClear_append.1 h.inside
  have hc : base.isSome = true → ∀ m ∈ ms, SameSuperCall r m := by
    intro hb
    cases base with
    | none => cases hb
    | some base => exact h.here.1
  rw [Class.reduce, lowerClass, lowerClass, lowerExpr?_reduce ctx base hb, reduceExpr?_eq_map,
    Option.isSome_map, lowerMembers_reduce ctx base.isSome ms hms hc]

theorem lowerMember_reduce (ctx : Context) (derived : Bool) (m : Member)
    (h : AllClear r (liveMember m)) (hc : derived = true → SameSuperCall r m) :
    lowerMember ctx derived (m.reduce r) = lowerMember ctx derived m := by
  match m with
  | .constructor s (.mk name tps ps ret (.block bs stmts) a g d) =>
    obtain ⟨hps, hb⟩ := allClear_append.1 (allClear_singleton.1 h).inside
    rw [Member.reduce, Func.reduce, Body.reduce, lowerMember, lowerMember,
      lowerParams_reduce ctx ps hps, lowerStmts_reduce ctx stmts hb]
    simp only [reduceParams_eq_map, reduceStmts_eq_map, constructorBody_reduce hc]
  | .constructor s (.mk name tps ps ret .absent a g d)
  | .constructor s (.mk name tps ps ret (.value e) a g d) => rfl
  | .method s k kind f mods =>
    have hmods : (r.modifiers mods).isStatic = mods.isStatic := by
      rw [Reduction.modifiers]
      split <;> rfl
    rw [Member.reduce, lowerMember, lowerMember, Func.body_reduce, Body.isPresent_reduce, hmods]
    cases hp : f.body.isPresent with
    | false => rfl
    | true =>
      rw [liveMember, if_pos hp] at h
      obtain ⟨hk, hf⟩ := allClear_cons.1 h
      rw [lowerKey_reduce ctx k hk, lowerFunc_reduce ctx f (allClear_singleton.1 hf).inside]
  | .field s k type (some e) mods =>
    have hmods : (r.modifiers mods).isStatic = mods.isStatic ∧
        (r.modifiers mods).isAbstract = mods.isAbstract ∧
        (r.modifiers mods).isDeclare = mods.isDeclare := by
      rw [Reduction.modifiers]
      split <;> exact ⟨rfl, rfl, rfl⟩
    rw [Member.reduce, reduceExpr?, lowerMember, lowerMember, hmods.1, hmods.2.1, hmods.2.2]
    cases hp : (mods.isAbstract || mods.isDeclare) with
    | true => rfl
    | false =>
      rw [liveMember, hp] at h
      obtain ⟨hk, he⟩ := allClear_cons.1 h
      rw [lowerKey_reduce ctx k hk, lowerExpr_reduce ctx e he]
  | .field s k type none mods => rfl
  | .index .. | .call .. => rfl

theorem lowerMembers_reduce (ctx : Context) (derived : Bool) (ms : List Member)
    (h : AllClear r (ms.flatMap liveMember))
    (hc : derived = true → ∀ m ∈ ms, SameSuperCall r m) :
    lowerMembers ctx derived (reduceMembers r ms) = lowerMembers ctx derived ms := by
  cases ms with
  | nil => rfl
  | cons m ms =>
    obtain ⟨hm, hms⟩ := allClear_flatMap_cons.1 h
    rw [reduceMembers, lowerMembers, lowerMembers,
      lowerMember_reduce ctx derived m hm fun hd => hc hd m (List.mem_cons_self ..),
      lowerMembers_reduce ctx derived ms hms fun hd m hm => hc hd m (List.mem_cons_of_mem _ hm)]

theorem lowerEnumMembers_reduce (ctx : Context) (enum : String) (scope : MemberScope)
    (ms : List Member) (h : AllClear r (liveEnumMembers ms)) (hc : SameConstants r scope ms) :
    lowerEnumMembers ctx enum scope (reduceMembers r ms) = lowerEnumMembers ctx enum scope ms := by
  match ms with
  | [] => rfl
  | .field s k type init mods :: ms =>
    obtain ⟨hi, hms⟩ := allClear_append.1 h
    obtain ⟨hv, hc⟩ := hc
    have ih := lowerEnumMembers_reduce ctx enum _ ms hms hc
    rw [reduceMembers, Member.reduce, lowerEnumMembers, lowerEnumMembers, Key.staticName?_reduce,
      reduceExpr?_eq_map, hv]
    cases hs : scope.constant? init with
    | some value => simp only [hs] at ih; simp only [pure_bind, after_known, ih]
    | none =>
      simp only [hs] at ih
      simp only [← reduceExpr?_eq_map, lowerExpr?_reduce ctx init hi, pure_bind, after_computed, ih]
  | .constructor .. :: _ | .method .. :: _ | .index .. :: _ | .call .. :: _ => rfl

theorem lowerDeclarators_reduce (ctx : Context) (ds : List Declarator)
    (h : AllClear r (ofDeclarators ds)) :
    lowerDeclarators ctx (reduceDeclarators r ds) = lowerDeclarators ctx ds := by
  match ds with
  | [] => rfl
  | .mk p type init :: ds =>
    obtain ⟨hd, hds⟩ := allClear_flatMap_cons.1 h
    obtain ⟨hp, hi⟩ := allClear_append.1 hd
    rw [reduceDeclarators, Declarator.reduce, lowerDeclarators, lowerDeclarators,
      lowerPattern_reduce ctx p hp, lowerExpr?_reduce ctx init hi, lowerDeclarators_reduce ctx ds hds]

theorem lowerDecl_reduce (ctx : Context) (d : Decl) (h : Clear (Kept r) (.decl d)) :
    lowerDecl ctx (d.reduce r) = lowerDecl ctx d := by
  have ht := Decl.isTypeOnly_reduce r d
  cases d with
  | function f =>
    rw [Decl.reduce] at ht ⊢
    rw [lowerDecl, lowerDecl, ht]
    cases hd : (Decl.function f).isTypeOnly with
    | true => rfl
    | false =>
      have h : AllClear r (if (Decl.function f).isTypeOnly then [] else [.function f]) := h.inside
      rw [hd] at h
      rw [lowerFunc_reduce ctx f (allClear_singleton.1 h).inside]
  | cls c =>
    rw [Decl.reduce] at ht ⊢
    rw [lowerDecl, lowerDecl, ht]
    cases hd : (Decl.cls c).isTypeOnly with
    | true => rfl
    | false =>
      have h : AllClear r (if (Decl.cls c).isTypeOnly then [] else [.cls c]) := h.inside
      rw [hd] at h
      rw [lowerClass_reduce ctx c (allClear_singleton.1 h)]
  | vars kind ds isDeclare =>
    rw [Decl.reduce, lowerDecl, lowerDecl]
    cases isDeclare with
    | true => rfl
    | false => rw [lowerDeclarators_reduce ctx ds h.inside]
  | enumeration name ms isConst isDeclare =>
    rw [Decl.reduce, lowerDecl, lowerDecl]
    cases isDeclare with
    | true => rfl
    | false => rw [lowerEnumMembers_reduce ctx name.text {} ms h.inside h.here.1]
  | namespace_ n =>
    rw [Decl.reduce, lowerDecl, lowerDecl, lowerNamespace_reduce ctx none n h.inside]
  | interface | alias_ => rfl

theorem lowerNamespace_reduce (ctx : Context) (parent : Option String) (n : Namespace)
    (h : AllClear r (liveNamespace n)) :
    lowerNamespace ctx parent (n.reduce r) = lowerNamespace ctx parent n := by
  match n with
  | .block (.ident name) items isDeclare =>
    rw [Namespace.reduce, lowerNamespace, lowerNamespace, anyRuntimeContent_reduce]
    cases hd : (isDeclare || !anyRuntimeContent items) with
    | true => rfl
    | false =>
      rw [liveNamespace, hd] at h
      rw [lowerItems_reduce ctx _ items h]
  | .dotted (.ident name) s inner isDeclare =>
    rw [Namespace.reduce, lowerNamespace, lowerNamespace, Namespace.hasRuntimeContent_reduce]
    cases hd : (isDeclare || !inner.hasRuntimeContent) with
    | true => rfl
    | false =>
      rw [liveNamespace, hd] at h
      rw [lowerNamespace_reduce ctx (some name.text) inner h]
  | .block (.string name) .. | .dotted (.string name) .. | .ambient .. => rfl

theorem lowerForHead_reduce (ctx : Context) (head : ForHead)
    (h : AllClear r (ofForHead head)) :
    lowerForHead ctx (head.reduce r) = lowerForHead ctx head := by
  cases head with
  | none => rfl
  | vars kind ds =>
    rw [ForHead.reduce, lowerForHead, lowerForHead, lowerDeclarators_reduce ctx ds h]
  | expr e => rw [ForHead.reduce, lowerForHead, lowerForHead, lowerExpr_reduce ctx e h]

theorem lowerStmt_reduce (ctx : Context) (t : Stmt) (h : Clear (Kept r) (.stmt t)) :
    lowerStmt ctx (t.reduce r) = lowerStmt ctx t := by
  have h : AllClear r (live (.stmt t)) := h.inside
  cases t with
  | break_ | continue_ | empty | debugger | import_ => rfl
  | expr s e | throw s e => simp only [Stmt.reduce, lowerStmt, lowerExpr_reduce ctx e h]
  | decl s d => rw [Stmt.reduce, lowerStmt, lowerStmt, lowerDecl_reduce ctx d (allClear_singleton.1 h)]
  | return_ s e => rw [Stmt.reduce, lowerStmt, lowerStmt, lowerExpr?_reduce ctx e h]
  | ifThen s e t | while_ s e t | doWhile s t e =>
    obtain ⟨he, ht⟩ := allClear_append.1 h
    simp only [Stmt.reduce, lowerStmt, lowerExpr_reduce ctx e he,
      lowerStmt_reduce ctx t (allClear_singleton.1 ht)]
  | ifElse s e t u =>
    obtain ⟨he, htu⟩ := allClear_append.1 h
    obtain ⟨ht, hu⟩ := allClear_cons.1 htu
    simp only [Stmt.reduce, lowerStmt, lowerExpr_reduce ctx e he, lowerStmt_reduce ctx t ht,
      lowerStmt_reduce ctx u (allClear_singleton.1 hu)]
  | for_ s head test update t =>
    obtain ⟨h, ht⟩ := allClear_append.1 h
    obtain ⟨h, hu⟩ := allClear_append.1 h
    obtain ⟨hh, htest⟩ := allClear_append.1 h
    simp only [Stmt.reduce, lowerStmt, lowerForHead_reduce ctx head hh,
      lowerExpr?_reduce ctx test htest, lowerExpr?_reduce ctx update hu,
      lowerStmt_reduce ctx t (allClear_singleton.1 ht)]
  | forIn s head e t | forOf s head e t isAwait =>
    obtain ⟨h, ht⟩ := allClear_append.1 h
    obtain ⟨hh, he⟩ := allClear_append.1 h
    simp only [Stmt.reduce, lowerStmt, lowerForHead_reduce ctx head hh, lowerExpr_reduce ctx e he,
      lowerStmt_reduce ctx t (allClear_singleton.1 ht)]
  | block s stmts => rw [Stmt.reduce, lowerStmt, lowerStmt, lowerStmts_reduce ctx stmts h]
  | try_ s blockSpan stmts param handler finalizer =>
    obtain ⟨h, hf⟩ := allClear_append.1 h
    obtain ⟨h, hh⟩ := allClear_append.1 h
    obtain ⟨hs, hp⟩ := allClear_append.1 h
    simp only [Stmt.reduce, lowerStmt, lowerStmts_reduce ctx stmts hs,
      lowerPattern?_reduce ctx param hp, lowerBlock?_reduce ctx handler hh,
      lowerBlock?_reduce ctx finalizer hf]
  | switch s e cases =>
    obtain ⟨he, hc⟩ := allClear_append.1 h
    rw [Stmt.reduce, lowerStmt, lowerStmt, lowerExpr_reduce ctx e he, lowerCases_reduce ctx cases hc]
  | labeled s label t =>
    rw [Stmt.reduce, lowerStmt, lowerStmt, lowerStmt_reduce ctx t (allClear_singleton.1 h)]

theorem lowerBlock?_reduce (ctx : Context) (b : Body) (h : AllClear r (ofBody b)) :
    lowerBlock? ctx (b.reduce r) = lowerBlock? ctx b := by
  cases b with
  | absent | value => rfl
  | block s stmts => rw [Body.reduce, lowerBlock?, lowerBlock?, lowerStmts_reduce ctx stmts h]

theorem lowerCases_reduce (ctx : Context) (cases : List Case)
    (h : AllClear r (cases.flatMap fun | .mk test body => ofExpr? test ++ body.map .stmt)) :
    lowerCases ctx (reduceCases r cases) = lowerCases ctx cases := by
  match cases with
  | [] => rfl
  | .mk test body :: cases =>
    obtain ⟨hc, hcs⟩ := allClear_flatMap_cons.1 h
    obtain ⟨ht, hb⟩ := allClear_append.1 hc
    rw [reduceCases, Case.reduce, lowerCases, lowerCases, lowerExpr?_reduce ctx test ht,
      lowerStmts_reduce ctx body hb, lowerCases_reduce ctx cases hcs]

theorem lowerStmts_reduce (ctx : Context) (stmts : List Stmt)
    (h : AllClear r (stmts.map .stmt)) :
    lowerStmts ctx (reduceStmts r stmts) = lowerStmts ctx stmts := by
  cases stmts with
  | nil => rfl
  | cons t stmts =>
    obtain ⟨ht, hts⟩ := allClear_map_cons.1 h
    rw [reduceStmts, lowerStmts, lowerStmts, lowerStmt_reduce ctx t ht,
      lowerStmts_reduce ctx stmts hts]

theorem lowerItem_reduce (ctx : Context) (dest : Destination) (i : Item)
    (h : Clear (Kept r) (.item i)) : lowerItem ctx dest (i.reduce r) = lowerItem ctx dest i := by
  cases i with
  | import_ | exportNamed | exportAll => rfl
  | stmt s t =>
    rw [Item.reduce, lowerItem, lowerItem, lowerStmt_reduce ctx t (allClear_singleton.1 h.inside)]
  | exportDefault s e =>
    have h : AllClear r (ofExprs [e]) := (allClear_singleton.1 h.inside).inside
    rw [Item.reduce, lowerItem, lowerItem, lowerExpr_reduce ctx e h]
  | exportDefaultDecl s declSpan d =>
    have h : AllClear r [.decl d] := (allClear_singleton.1 h.inside).inside
    rw [Item.reduce, lowerItem, lowerItem, lowerDecl_reduce ctx d (allClear_singleton.1 h)]
  | exportDecl s declSpan d =>
    have h : AllClear r [.decl d] := (allClear_singleton.1 h.inside).inside
    rw [Item.reduce, lowerItem, lowerItem, lowerDecl_reduce ctx d (allClear_singleton.1 h)]
    simp only [exportedDeclaration_reduce]

theorem lowerItems_reduce (ctx : Context) (dest : Destination) (items : List Item)
    (h : AllClear r (items.map .item)) :
    lowerItems ctx dest (reduceItems r items) = lowerItems ctx dest items := by
  cases items with
  | nil => rfl
  | cons i items =>
    obtain ⟨hi, his⟩ := allClear_map_cons.1 h
    rw [reduceItems, lowerItems, lowerItems, lowerItem_reduce ctx dest i hi,
      lowerItems_reduce ctx dest items his]

end

/-! ### Modules -/

theorem contextOf_reduce (options : CompilerOptions) (p : Program) :
    contextOf options (p.reduce r) = contextOf options p := by
  rw [contextOf, contextOf, Program.valueNames_reduce, Program.typeOnlyNames_reduce]

theorem prologue_reduce (ctx : Context) (p : Program) :
    prologue ctx (p.reduce r) = prologue ctx p := by
  have hh : (p.reduce r).items.flatMap hoistedExports = p.items.flatMap hoistedExports := by
    rw [Program.reduce, reduceItems_eq_map, List.flatMap_map]
    exact List.flatMap_congr fun i _ => hoistedExports_reduce i
  rw [prologue, prologue, Program.isModule_reduce, hh]

theorem Program.emit_reduce (p : Program) (options : CompilerOptions)
    (h : AllClear r (p.items.map .item)) : (p.reduce r).emit options = p.emit options := by
  rw [Program.emit, Program.emit, lowerProgram, lowerProgram, contextOf_reduce, prologue_reduce,
    show (p.reduce r).items = reduceItems r p.items from rfl, lowerItems_reduce _ _ _ h]

end TypeStrip
