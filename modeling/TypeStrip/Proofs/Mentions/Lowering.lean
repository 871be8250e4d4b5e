import TypeStrip.Lowering.Transpile
import TypeStrip.Proofs.Mentions.Sites

/-! The code of a module mentions only what is allowed because of the parts of the module. -/
namespace TypeStrip
open Lowering Code Site

variable {S : Mention → Prop} {ctx : Context}

/-! ### Keys of shorthands and names of classes -/

/-- A key that is a word is that word. -/
theorem word_of_lowerKey (ctx : Context) (k : Key) :
    (lowerKey ctx k).Yields fun c =>
      ∀ name, c = .word name → ∃ n, k = .ident n ∧ n.text = name := by
  cases k with
  | ident n =>
    refine .pure fun name h => ⟨n, rfl, ?_⟩
    cases h
    rfl
  | string | number => exact .pure fun name h => nomatch h
  | computed e =>
    rw [lowerKey]
    exact (Lower.Yields.trivial _).map fun _ _ name h => nomatch h

theorem allowed_shorthandMentions {k : Code.Key} (h : Allowed S k.mentions)
    (hword : ∀ name, k = .word name → S (.name name)) : Allowed S k.shorthandMentions := by
  cases k with
  | word name => exact allowed_singleton.2 (hword name rfl)
  | string | number => exact allowed_nil
  | computed e => exact h

theorem exists_of_isVariableOf {n : Name} {e : Expr} (h : isVariableOf (.ident n) e = true) :
    ∃ s, e = .ident s n.text := by
  cases e with
  | ident s name => exact ⟨s, congrArg _ (beq_iff_eq.1 h).symm⟩
  | _ => cases h

theorem className_of_lowerClass (ctx : Context) (c : Class) : (lowerClass ctx c).Yields fun c' =>
    className c' = (c.name?.map Name.text).getD defaultName := by
  obtain ⟨name, tps, base, baseArgs, interfaces, ms, a, d⟩ := c
  rw [lowerClass]
  exact (Lower.Yields.trivial _).bind fun _ _ => (Lower.Yields.trivial _).map fun _ _ => rfl

/-- A namespace is never lowered to a class. -/
theorem ne_cls_of_lowerNamespace (ctx : Context) (parent : Option String) (n : Namespace) :
    (lowerNamespace ctx parent n).Yields fun stmts => ∀ c, stmts ≠ [.cls c] := by
  have hbody (name : String) (body : List Code.Stmt) (c : Code.Class) :
      lowerNamespaceBody parent name body ≠ [.cls c] := by
    intro h
    cases h
  match n with
  | .block (.ident name) items isDeclare =>
    rw [lowerNamespace]
    split
    · exact .pure fun c h => nomatch h
    · exact (Lower.Yields.trivial _).map fun _ _ => hbody _ _
  | .dotted (.ident name) s inner isDeclare =>
    rw [lowerNamespace]
    split
    · exact .pure fun c h => nomatch h
    · exact (Lower.Yields.trivial _).map fun _ _ => hbody _ _
  | .block (.string name) .. | .dotted (.string name) .. | .ambient .. =>
    exact .pure fun c h => nomatch h

/-- A declaration that is lowered to a class declares that class, or gives it no name. -/
theorem className_of_lowerDecl (ctx : Context) (d : Decl) : (lowerDecl ctx d).Yields fun stmts =>
    ∀ c, stmts = [.cls c] → className c = defaultName ∨ className c ∈ d.boundNames := by
  cases d with
  | function f =>
    rw [lowerDecl]
    split
    · exact .pure fun c h => nomatch h
    · exact (Lower.Yields.trivial _).map fun _ _ c h => nomatch h
  | cls c =>
    rw [lowerDecl]
    split
    · exact .pure fun c h => nomatch h
    · refine (className_of_lowerClass ctx c).map fun c' hname c'' heq => ?_
      cases heq
      rw [hname]
      cases hc : c.name? with
      | none => exact .inl rfl
      | some n =>
        refine .inr (List.mem_map.2 ⟨n, ?_, rfl⟩)
        rw [hc]
        exact List.mem_singleton_self n
  | vars kind ds isDeclare =>
    rw [lowerDecl]
    split
    · exact .pure fun c h => nomatch h
    · exact (Lower.Yields.trivial _).map fun _ _ c h => nomatch h
  | enumeration name ms isConst isDeclare =>
    rw [lowerDecl]
    split
    · exact .pure fun c h => nomatch h
    · exact (Lower.Yields.trivial _).map fun _ _ c h => nomatch h
  | namespace_ n =>
    rw [lowerDecl]
    exact (ne_cls_of_lowerNamespace ctx none n).imp fun stmts h c heq => absurd heq (h c)
  | interface | alias_ => exact .pure fun c h => nomatch h

/-! ### Parts of a module -/

-- By induction on the syntax, one theorem for each kind of part: what it is lowered to mentions
-- only what is allowed because of its sites, whatever temporaries were made before.
mutual

theorem allowed_lowerExpr (hS : Admits S ctx) (e : Expr) (h : Within S (ofExprs [e])) :
    (lowerExpr ctx e).Yields fun c => Allowed S c.mentions := by
  have hown := h
  replace h := h.expr
  cases e with
  | literal | this | super | omitted => exact .pure allowed_nil
  | ident s name => exact .pure (allowed_ident (hown.value (List.mem_singleton_self name)))
  | binary s a op b | assign s a op b =>
    obtain ⟨ha, hb⟩ := within_ofExprs_cons.1 h
    rw [lowerExpr]
    exact (allowed_lowerExpr hS a ha).bind fun a' ha' =>
      (allowed_lowerExpr hS b hb).map fun b' hb' => allowed_append.2 ⟨ha', hb'⟩
  | unary s op a | await s a | paren s a | spread s a =>
    rw [lowerExpr]
    exact (allowed_lowerExpr hS a h).map fun _ ha' => ha'
  | cast s a t | satisfies s a t | nonNull s a =>
    rw [lowerExpr]
    exact allowed_lowerExpr hS a h
  | call s f ts args | optionalCall s f ts args =>
    obtain ⟨hf, hargs⟩ := within_ofExprs_cons.1 h
    rw [lowerExpr]
    exact (allowed_lowerExpr hS f hf).bind fun f' hf' =>
      (allowed_lowerExprs hS args hargs).map fun _ hargs' => allowed_append.2 ⟨hf', hargs'⟩
  | new s f ts args =>
    obtain ⟨hf, hargs⟩ := within_ofExprs_cons.1 h
    rw [lowerExpr]
    refine (allowed_lowerExpr hS f hf).bind fun f' hf' =>
      (allowed_lowerExprs hS args hargs).map fun _ hargs' => allowed_append.2 ⟨?_, hargs'⟩
    rwa [mentions_instantiated]
  | member s a n | optionalMember s a n =>
    rw [lowerExpr]
    refine (allowed_lowerExpr hS a h).map fun a' ha' => ?_
    rwa [Code.Expr.mentions, mentions_accessed]
  | index s a i | optionalIndex s a i =>
    obtain ⟨ha, hi⟩ := within_ofExprs_cons.1 h
    rw [lowerExpr]
    refine (allowed_lowerExpr hS a ha).bind fun a' ha' =>
      (allowed_lowerExpr hS i hi).map fun _ hi' => allowed_append.2 ⟨?_, hi'⟩
    rwa [mentions_accessed]
  | array s es | sequence s es =>
    rw [lowerExpr]
    exact (allowed_lowerExprs hS es h).map fun _ hes' => hes'
  | template s texts es =>
    rw [lowerExpr]
    exact (allowed_lowerExprs hS es h).map fun _ hes' => allowed_lowerTemplate ctx texts hes'
  | object s ps =>
    rw [lowerExpr]
    exact (allowed_lowerProperties hS ps h hown.assigned).map fun _ hps' => hps'
  | arrow s f =>
    rw [lowerExpr]
    refine (allowed_lowerFunc hS f h.inside).map fun f' hf' => ?_
    rwa [mentions_lowerArrow]
  | function s f =>
    rw [lowerExpr]
    exact (allowed_lowerFunc hS f h.inside).map fun _ hf' => hf'
  | cls s c =>
    rw [lowerExpr]
    exact (allowed_lowerClass hS c h).map fun _ hc' => hc'
  | conditional s a b c =>
    obtain ⟨ha, h⟩ := within_ofExprs_cons.1 h
    obtain ⟨hb, hc⟩ := within_ofExprs_cons.1 h
    rw [lowerExpr]
    exact (allowed_lowerExpr hS a ha).bind fun a' ha' =>
      (allowed_lowerExpr hS b hb).bind fun b' hb' =>
        (allowed_lowerExpr hS c hc).map fun c' hc' =>
          allowed_append.2 ⟨allowed_append.2 ⟨ha', hb'⟩, hc'⟩
  | yield s a delegate =>
    rw [lowerExpr]
    exact (allowed_lowerExpr? hS a h).map fun _ ha' => ha'

theorem allowed_lowerExprs (hS : Admits S ctx) (es : List Expr) (h : Within S (ofExprs es)) :
    (lowerExprs ctx es).Yields fun cs => Allowed S (mentionsOfExprs cs) := by
  cases es with
  | nil => exact .pure allowed_nil
  | cons e es =>
    obtain ⟨he, hes⟩ := within_ofExprs_cons.1 h
    rw [lowerExprs]
    exact (allowed_lowerExpr hS e he).bind fun e' he' =>
      (allowed_lowerExprs hS es hes).map fun _ hes' => allowed_append.2 ⟨he', hes'⟩

theorem allowed_lowerExpr? (hS : Admits S ctx) (e : Option Expr) (h : Within S (ofExpr? e)) :
    (lowerExpr? ctx e).Yields fun c => Allowed S (mentionsOfExpr? c) := by
  cases e with
  | none => exact .pure allowed_nil
  | some e =>
    rw [lowerExpr?]
    exact (allowed_lowerExpr hS e h).map fun _ he' => he'

theorem allowed_lowerKey (hS : Admits S ctx) (k : Key) (h : Within S [.key k]) :
    (lowerKey ctx k).Yields fun c => Allowed S c.mentions := by
  cases k with
  | ident | string | number => exact .pure allowed_nil
  | computed e =>
    rw [lowerKey]
    exact (allowed_lowerExpr hS e h.inside).map fun _ he' => he'

theorem allowed_lowerProperty (hS : Admits S ctx) (p : Property) (h : Within S (ofProperty p))
    (ha : ∀ name ∈ p.assignedName?, S (.name name)) :
    (lowerProperty ctx p).Yields fun c => Allowed S c.mentions := by
  match p with
  | .pair k v true =>
    obtain ⟨hk, hv⟩ := within_cons.1 h
    rw [lowerProperty_shorthand]
    refine ((allowed_lowerKey hS k hk).and (word_of_lowerKey ctx k)).bind fun k' ⟨hk', hword⟩ => ?_
    cases hb : v.fallback? with
    | none =>
      dsimp only
      split
      · next hvariable =>
        refine .pure (allowed_shorthandMentions hk' fun name hname => ?_)
        obtain ⟨n, rfl, rfl⟩ := hword name hname
        obtain ⟨s, rfl⟩ := exists_of_isVariableOf hvariable
        have hv : Within S [.expr (.ident s n.text)] := hv
        exact hv.value (List.mem_singleton_self _)
      · exact (allowed_lowerExpr hS v hv).map fun _ hv' => allowed_append.2 ⟨hk', hv'⟩
    | some b =>
      cases v with
      | assign s a op b' =>
        obtain rfl : b' = b := Option.some.inj hb
        obtain ⟨-, hb'⟩ := within_ofExprs_cons.1 hv.expr
        refine (allowed_lowerExpr hS b' hb').map fun _ hb' => allowed_append.2 ⟨?_, hb'⟩
        refine allowed_shorthandMentions hk' fun name hname => ?_
        obtain ⟨n, rfl, rfl⟩ := hword name hname
        exact ha _ rfl
      | _ => cases hb
  | .pair k v false =>
    obtain ⟨hk, hv⟩ := within_cons.1 h
    rw [lowerProperty_pair]
    exact (allowed_lowerKey hS k hk).bind fun k' hk' =>
      (allowed_lowerExpr hS v hv).map fun _ hv' => allowed_append.2 ⟨hk', hv'⟩
  | .method k kind f =>
    obtain ⟨hk, hf⟩ := within_cons.1 h
    rw [lowerProperty]
    exact (allowed_lowerKey hS k hk).bind fun k' hk' =>
      (allowed_lowerFunc hS f hf.inside).map fun _ hf' => allowed_append.2 ⟨hk', hf'⟩
  | .spread e =>
    rw [lowerProperty]
    exact (allowed_lowerExpr hS e h).map fun _ he' => he'

theorem allowed_lowerProperties (hS : Admits S ctx) (ps : List Property)
    (h : Within S (ps.flatMap ofProperty))
    (ha : ∀ p ∈ ps, ∀ name ∈ p.assignedName?, S (.name name)) :
    (lowerProperties ctx ps).Yields fun cs => Allowed S (mentionsOfProperties cs) := by
  cases ps with
  | nil => exact .pure allowed_nil
  | cons p ps =>
    obtain ⟨hp, hps⟩ := within_flatMap_cons.1 h
    obtain ⟨hap, haps⟩ := List.forall_mem_cons.1 ha
    rw [lowerProperties]
    exact (allowed_lowerProperty hS p hp hap).bind fun p' hp' =>
      (allowed_lowerProperties hS ps hps haps).map fun _ hps' => allowed_append.2 ⟨hp', hps'⟩

theorem allowed_lowerPattern (hS : Admits S ctx) (p : Pattern) (h : Within S (ofPatterns [p])) :
    (lowerPattern ctx p).Yields fun c => Allowed S c.mentions := by
  replace h := h.pattern
  cases p with
  | ident | omitted => exact .pure allowed_nil
  | array s ps rest =>
    obtain ⟨hps, hrest⟩ := within_ofPatterns_append.1 h
    rw [lowerPattern]
    exact (allowed_lowerPatterns hS ps hps).bind fun ps' hps' =>
      (allowed_lowerPattern? hS rest hrest).map fun _ hrest' =>
        allowed_append.2 ⟨hps', hrest'⟩
  | object s fs rest =>
    obtain ⟨hfs, hrest⟩ := within_append.1 h
    rw [lowerPattern]
    exact (allowed_lowerFields hS fs hfs).bind fun fs' hfs' =>
      (allowed_lowerPattern? hS rest hrest).map fun _ hrest' =>
        allowed_append.2 ⟨hfs', hrest'⟩
  | withDefault s p e =>
    obtain ⟨hp, he⟩ := within_append.1 h
    rw [lowerPattern]
    exact (allowed_lowerPattern hS p hp).bind fun p' hp' =>
      (allowed_lowerExpr hS e he).map fun _ he' => allowed_append.2 ⟨hp', he'⟩

theorem allowed_lowerPatterns (hS : Admits S ctx) (ps : List Pattern)
    (h : Within S (ofPatterns ps)) :
    (lowerPatterns ctx ps).Yields fun cs => Allowed S (mentionsOfPatterns cs) := by
  cases ps with
  | nil => exact .pure allowed_nil
  | cons p ps =>
    obtain ⟨hp, hps⟩ := within_ofPatterns_cons.1 h
    rw [lowerPatterns]
    exact (allowed_lowerPattern hS p hp).bind fun p' hp' =>
      (allowed_lowerPatterns hS ps hps).map fun _ hps' => allowed_append.2 ⟨hp', hps'⟩

theorem allowed_lowerPattern? (hS : Admits S ctx) (p : Option Pattern)
    (h : Within S (ofPatterns p.toList)) :
    (lowerPattern? ctx p).Yields fun c => Allowed S (mentionsOfPattern? c) := by
  cases p with
  | none => exact .pure allowed_nil
  | some p =>
    rw [lowerPattern?]
    exact (allowed_lowerPattern hS p h).map fun _ hp' => hp'

theorem allowed_lowerFields (hS : Admits S ctx) (fs : List PatternField)
    (h : Within S (fs.flatMap fun | .mk k p _ => .key k :: ofPatterns [p])) :
    (lowerFields ctx fs).Yields fun cs => Allowed S (mentionsOfFields cs) := by
  match fs with
  | [] => exact .pure allowed_nil
  | .mk k p shorthand :: fs =>
    obtain ⟨hf, hfs⟩ := within_flatMap_cons.1 h
    obtain ⟨hk, hp⟩ := within_cons.1 hf
    have hfield : (lowerField ctx (.mk k p shorthand)).Yields fun c => Allowed S c.mentions := by
      rw [lowerField]
      refine (allowed_lowerPattern hS p hp).bind fun p' hp' => ?_
      split
      · exact .pure hp'
      · exact (allowed_lowerKey hS k hk).map fun _ hk' => allowed_append.2 ⟨hk', hp'⟩
    rw [lowerFields]
    exact hfield.bind fun f' hf' =>
      (allowed_lowerFields hS fs hfs).map fun _ hfs' => allowed_append.2 ⟨hf', hfs'⟩

theorem allowed_lowerParams (hS : Admits S ctx) (ps : List Param)
    (h : Within S (ps.flatMap fun | .mk p _ _ _ _ _ => ofPatterns [p])) :
    (lowerParams ctx ps).Yields fun cs => Allowed S (mentionsOfParams cs) := by
  match ps with
  | [] => exact .pure allowed_nil
  | .mk p type isOptional isRest access isReadonly :: ps =>
    obtain ⟨hp, hps⟩ := within_flatMap_cons.1 h
    rw [lowerParams]
    split
    · exact allowed_lowerParams hS ps hps
    · exact (allowed_lowerPattern hS p hp).bind fun p' hp' =>
        (allowed_lowerParams hS ps hps).map fun _ hps' => allowed_append.2 ⟨hp', hps'⟩

theorem allowed_lowerFunc (hS : Admits S ctx) (f : Func) (h : Within S (ofFunc f)) :
    (lowerFunc ctx f).Yields fun c => Allowed S c.mentions := by
  obtain ⟨name, tps, ps, ret, body, a, g, d⟩ := f
  obtain ⟨hps, hb⟩ := within_append.1 h
  rw [lowerFunc]
  exact (allowed_lowerParams hS ps hps).bind fun ps' hps' =>
    (allowed_lowerBody hS body hb).map fun _ hb' => allowed_append.2 ⟨hps', hb'⟩

theorem allowed_lowerBody (hS : Admits S ctx) (b : Body) (h : Within S (ofBody b)) :
    (lowerBody ctx b).Yields fun c => Allowed S c.mentions := by
  cases b with
  | absent => exact .pure allowed_nil
  | block s stmts =>
    rw [lowerBody]
    exact (allowed_lowerStmts hS stmts h).map fun _ hs' => hs'
  | value e =>
    rw [lowerBody]
    exact (allowed_lowerExpr hS e h).map fun _ he' => he'

theorem allowed_lowerClass (hS : Admits S ctx) (c : Class) (h : Within S [.cls c]) :
    (lowerClass ctx c).Yields fun c => Allowed S c.mentions := by
  obtain ⟨name, tps, base, baseArgs, interfaces, ms, a, d⟩ := c
  obtain ⟨hb, hms⟩ := within_append.1 h.inside
  rw [lowerClass]
  exact (allowed_lowerExpr? hS base hb).bind fun base' hb' =>
    (allowed_lowerMembers hS base.isSome ms hms).map fun _ hms' =>
      allowed_append.2 ⟨hb', hms'⟩

theorem allowed_lowerMember (hS : Admits S ctx) (derived : Bool) (m : Member)
    (h : Within S (ofMember m)) :
    (lowerMember ctx derived m).Yields fun cs => Allowed S (mentionsOfMembers cs) := by
  match m with
  | .constructor s (.mk name tps ps ret (.block bs stmts) a g d) =>
    obtain ⟨hps, hb⟩ := within_append.1 h.inside
    rw [lowerMember]
    refine (allowed_lowerParams hS ps hps).bind fun ps' hps' =>
      (allowed_lowerStmts hS stmts hb).map fun stmts' hstmts' => ?_
    rw [mentionsOfMembers_singleton]
    refine allowed_append.2 ⟨hps', allowed_constructorBody derived stmts ?_ hstmts'⟩
    exact fun name hname => h.declared hname
  | .constructor s (.mk name tps ps ret .absent a g d)
  | .constructor s (.mk name tps ps ret (.value e) a g d) => exact .pure allowed_nil
  | .method s k kind f mods =>
    obtain ⟨hk, hf⟩ := within_cons.1 h
    rw [lowerMember]
    split
    · refine (allowed_lowerKey hS k hk).bind fun k' hk' =>
        (allowed_lowerFunc hS f hf.inside).map fun f' hf' => ?_
      rw [mentionsOfMembers_singleton]
      exact allowed_append.2 ⟨hk', hf'⟩
    · exact .pure allowed_nil
  | .field s k type (some e) mods =>
    obtain ⟨hk, he⟩ := within_cons.1 h
    rw [lowerMember]
    split
    · exact .pure allowed_nil
    · refine (allowed_lowerKey hS k hk).bind fun k' hk' =>
        (allowed_lowerExpr hS e he).map fun e' he' => ?_
      rw [mentionsOfMembers_singleton]
      exact allowed_append.2 ⟨hk', he'⟩
  | .field s k type none mods => exact .pure allowed_nil
  | .index .. | .call .. => exact .pure allowed_nil

theorem allowed_lowerMembers (hS : Admits S ctx) (derived : Bool) (ms : List Member)
    (h : Within S (ms.flatMap ofMember)) :
    (lowerMembers ctx derived ms).Yields fun cs => Allowed S (mentionsOfMembers cs.flatten) := by
  cases ms with
  | nil => exact .pure allowed_nil
  | cons m ms =>
    obtain ⟨hm, hms⟩ := within_flatMap_cons.1 h
    rw [lowerMembers]
    refine (allowed_lowerMember hS derived m hm).bind fun m' hm' =>
      (allowed_lowerMembers hS derived ms hms).map fun ms' hms' => ?_
    rw [List.flatten_cons, mentionsOfMembers_append]
    exact allowed_append.2 ⟨hm', hms'⟩

theorem allowed_lowerEnumMembers (hS : Admits S ctx) {enum : String} (henum : S (.name enum))
    (scope : MemberScope) (ms : List Member) (h : Within S (ms.flatMap ofEnumMember)) :
    (lowerEnumMembers ctx enum scope ms).Yields fun vs => ∀ m ∈ vs, Allowed S m.2.mentions := by
  match ms with
  | [] => exact .pure (List.forall_mem_nil _)
  | .field s k type init mods :: ms =>
    obtain ⟨hi, hms⟩ := within_flatMap_cons.1 h
    have hnext (value : MemberValue) (hvalue : Allowed S value.mentions) :
        Lower.Yields (do
          let key := k.staticName?.getD ""
          return (key, value) :: (← lowerEnumMembers ctx enum (scope.after key value) ms))
          fun vs => ∀ m ∈ vs, Allowed S m.2.mentions :=
      (allowed_lowerEnumMembers hS henum _ ms hms).map fun _ hms' =>
        List.forall_mem_cons.2 ⟨hvalue, hms'⟩
    rw [lowerEnumMembers]
    cases scope.constant? init with
    | some value => exact hnext (.known value) allowed_nil
    | none =>
      refine (allowed_lowerExpr? hS init hi).bind fun value hvalue => hnext (.computed _) ?_
      cases value with
      | none => exact allowed_successor henum scope.previous
      | some value => exact hvalue
  | .constructor .. :: _ | .method .. :: _ | .index .. :: _ | .call .. :: _ =>
    exact .pure (List.forall_mem_nil _)

theorem allowed_lowerDeclarators (hS : Admits S ctx) (ds : List Declarator)
    (h : Within S (ofDeclarators ds)) :
    (lowerDeclarators ctx ds).Yields fun cs => Allowed S (mentionsOfDeclarators cs) := by
  match ds with
  | [] => exact .pure allowed_nil
  | .mk p type init :: ds =>
    obtain ⟨hd, hds⟩ := within_flatMap_cons.1 h
    obtain ⟨hp, hi⟩ := within_append.1 hd
    rw [lowerDeclarators]
    exact (allowed_lowerPattern hS p hp).bind fun p' hp' =>
      (allowed_lowerExpr? hS init hi).bind fun init' hi' =>
        (allowed_lowerDeclarators hS ds hds).map fun _ hds' =>
          allowed_append.2 ⟨allowed_append.2 ⟨hp', hi'⟩, hds'⟩

theorem allowed_lowerDecl (hS : Admits S ctx) (d : Decl) (h : Within S [.decl d]) :
    (lowerDecl ctx d).Yields fun cs => Allowed S (mentionsOfStmts cs) := by
  have hown := h
  replace h : Within S (ofDeclParts d) := h.inside
  cases d with
  | function f =>
    rw [lowerDecl]
    split
    · exact .pure allowed_nil
    · refine (allowed_lowerFunc hS f h.inside).map fun f' hf' => ?_
      rwa [mentionsOfStmts_singleton]
  | cls c =>
    rw [lowerDecl]
    split
    · exact .pure allowed_nil
    · refine (allowed_lowerClass hS c h).map fun c' hc' => ?_
      rwa [mentionsOfStmts_singleton]
  | vars kind ds isDeclare =>
    rw [lowerDecl]
    split
    · exact .pure allowed_nil
    · refine (allowed_lowerDeclarators hS ds h).map fun ds' hds' => ?_
      rwa [mentionsOfStmts_singleton]
  | enumeration name ms isConst isDeclare =>
    rw [lowerDecl]
    split
    · exact .pure allowed_nil
    · have hname : S (.name name.text) := hown.declared (List.mem_singleton_self _)
      exact (allowed_lowerEnumMembers hS hname {} ms h).map fun _ hvs => allowed_lowerEnum hname hvs
  | namespace_ n =>
    rw [lowerDecl]
    exact allowed_lowerNamespace hS (fun _ hparent => by cases hparent) n
      (fun _ hname => hown.declared hname) h
  | interface | alias_ => exact .pure allowed_nil

theorem allowed_lowerNamespace (hS : Admits S ctx) {parent : Option String}
    (hparent : ∀ object, parent = some object → S (.name object)) (n : Namespace)
    (hnames : ∀ name ∈ n.names, S (.name name)) (h : Within S (ofNamespace n)) :
    (lowerNamespace ctx parent n).Yields fun cs => Allowed S (mentionsOfStmts cs) := by
  match n with
  | .block (.ident name) items isDeclare =>
    have hname : S (.name name.text) := hnames _ List.mem_cons_self
    rw [lowerNamespace]
    split
    · exact .pure allowed_nil
    · exact (allowed_lowerItems hS (isAllowed_namespace hname) items h).map fun _ hitems' =>
        allowed_lowerNamespaceBody hparent hname hitems'
  | .dotted (.ident name) s inner isDeclare =>
    obtain ⟨hname, hinner⟩ := List.forall_mem_cons.1 hnames
    rw [lowerNamespace]
    split
    · exact .pure allowed_nil
    · refine (allowed_lowerNamespace hS (fun object ho => ?_) inner hinner h).map fun _ hinner' =>
        allowed_lowerNamespaceBody hparent hname hinner'
      exact Option.some.inj ho ▸ hname
  | .block (.string name) .. | .dotted (.string name) .. | .ambient .. => exact .pure allowed_nil

theorem allowed_lowerForHead (hS : Admits S ctx) (head : ForHead) (h : Within S (ofForHead head)) :
    (lowerForHead ctx head).Yields fun c => Allowed S c.mentions := by
  cases head with
  | none => exact .pure allowed_nil
  | vars kind ds =>
    rw [lowerForHead]
    exact (allowed_lowerDeclarators hS ds h).map fun _ hds' => hds'
  | expr e =>
    rw [lowerForHead]
    exact (allowed_lowerExpr hS e h).map fun _ he' => he'

theorem allowed_lowerStmt (hS : Admits S ctx) (t : Stmt) (h : Within S [.stmt t]) :
    (lowerStmt ctx t).Yields fun cs => Allowed S (mentionsOfStmts cs) := by
  have h : Within S (ofStmtParts t) := h.inside
  cases t with
  | break_ | continue_ | empty | debugger => exact .pure allowed_nil
  | import_ s d =>
    rw [lowerStmt]
    exact allowed_lowerImport hS _ (h.module (List.mem_singleton_self _))
  | expr s e | throw s e =>
    rw [lowerStmt]
    refine (allowed_lowerExpr hS e h).map fun e' he' => ?_
    rwa [mentionsOfStmts_singleton]
  | decl s d =>
    rw [lowerStmt]
    exact allowed_lowerDecl hS d h
  | return_ s e =>
    rw [lowerStmt]
    refine (allowed_lowerExpr? hS e h).map fun e' he' => ?_
    rwa [mentionsOfStmts_singleton]
  | ifThen s e t | while_ s e t =>
    obtain ⟨he, ht⟩ := within_append.1 h
    rw [lowerStmt]
    refine (allowed_lowerExpr hS e he).bind fun e' he' =>
      (allowed_lowerStmt hS t ht).map fun t' ht' => ?_
    rw [mentionsOfStmts_singleton, Code.Stmt.mentions, mentionsOfStmts_branch]
    exact allowed_append.2 ⟨he', ht'⟩
  | doWhile s t e =>
    obtain ⟨he, ht⟩ := within_append.1 h
    rw [lowerStmt]
    refine (allowed_lowerStmt hS t ht).bind fun t' ht' =>
      (allowed_lowerExpr hS e he).map fun e' he' => ?_
    rw [mentionsOfStmts_singleton, Code.Stmt.mentions, mentionsOfStmts_branch]
    exact allowed_append.2 ⟨he', ht'⟩
  | ifElse s e t u =>
    obtain ⟨he, htu⟩ := within_append.1 h
    obtain ⟨ht, hu⟩ := within_cons.1 htu
    rw [lowerStmt]
    refine (allowed_lowerExpr hS e he).bind fun e' he' =>
      (allowed_lowerStmt hS t ht).bind fun t' ht' =>
        (allowed_lowerStmt hS u hu).map fun u' hu' => ?_
    rw [mentionsOfStmts_singleton, mentions_alternative, mentionsOfStmts_branch]
    exact allowed_append.2 ⟨allowed_append.2 ⟨he', ht'⟩, hu'⟩
  | for_ s head test update t =>
    obtain ⟨h, ht⟩ := within_append.1 h
    obtain ⟨h, hu⟩ := within_append.1 h
    obtain ⟨hh, htest⟩ := within_append.1 h
    rw [lowerStmt]
    refine (allowed_lowerForHead hS head hh).bind fun head' hh' =>
      (allowed_lowerExpr? hS test htest).bind fun test' htest' =>
        (allowed_lowerExpr? hS update hu).bind fun update' hu' =>
          (allowed_lowerStmt hS t ht).map fun t' ht' => ?_
    rw [mentionsOfStmts_singleton, Code.Stmt.mentions, mentionsOfStmts_branch]
    exact allowed_append.2
      ⟨allowed_append.2 ⟨allowed_append.2 ⟨hh', htest'⟩, hu'⟩, ht'⟩
  | forIn s head e t | forOf s head e t isAwait =>
    obtain ⟨h, ht⟩ := within_append.1 h
    obtain ⟨hh, he⟩ := within_append.1 h
    rw [lowerStmt]
    refine (allowed_lowerForHead hS head hh).bind fun head' hh' =>
      (allowed_lowerExpr hS e he).bind fun e' he' =>
        (allowed_lowerStmt hS t ht).map fun t' ht' => ?_
    rw [mentionsOfStmts_singleton, Code.Stmt.mentions, mentionsOfStmts_branch]
    exact allowed_append.2 ⟨allowed_append.2 ⟨hh', he'⟩, ht'⟩
  | block s stmts =>
    rw [lowerStmt]
    refine (allowed_lowerStmts hS stmts h).map fun stmts' hstmts' => ?_
    rwa [mentionsOfStmts_singleton]
  | try_ s blockSpan stmts param handler finalizer =>
    obtain ⟨h, hf⟩ := within_append.1 h
    obtain ⟨h, hh⟩ := within_append.1 h
    obtain ⟨hs, hp⟩ := within_append.1 h
    rw [lowerStmt]
    refine (allowed_lowerStmts hS stmts hs).bind fun stmts' hs' =>
      (allowed_lowerBlock? hS handler hh).bind fun handler' hh' =>
        (allowed_lowerPattern? hS param hp).bind fun param' hp' =>
          (allowed_lowerBlock? hS finalizer hf).map fun finalizer' hf' => ?_
    rw [mentionsOfStmts_singleton]
    refine allowed_append.2 ⟨allowed_append.2 ⟨hs', ?_⟩, hf'⟩
    cases handler' with
    | none => exact allowed_nil
    | some caught => exact allowed_append.2 ⟨hp', hh'⟩
  | switch s e cases =>
    obtain ⟨he, hc⟩ := within_append.1 h
    rw [lowerStmt]
    refine (allowed_lowerExpr hS e he).bind fun e' he' =>
      (allowed_lowerCases hS cases hc).map fun cases' hc' => ?_
    rw [mentionsOfStmts_singleton]
    exact allowed_append.2 ⟨he', hc'⟩
  | labeled s label t =>
    rw [lowerStmt]
    refine (allowed_lowerStmt hS t h).map fun t' ht' => ?_
    rwa [mentionsOfStmts_singleton]

theorem allowed_lowerBlock? (hS : Admits S ctx) (b : Body) (h : Within S (ofBody b)) :
    (lowerBlock? ctx b).Yields fun cs => Allowed S (mentionsOfStmts? cs) := by
  cases b with
  | absent | value => exact .pure allowed_nil
  | block s stmts =>
    rw [lowerBlock?]
    exact (allowed_lowerStmts hS stmts h).map fun _ hs' => hs'

theorem allowed_lowerCases (hS : Admits S ctx) (cases : List Case)
    (h : Within S (cases.flatMap fun | .mk test body => ofExpr? test ++ body.map .stmt)) :
    (lowerCases ctx cases).Yields fun cs => Allowed S (mentionsOfCases cs) := by
  match cases with
  | [] => exact .pure allowed_nil
  | .mk test body :: cases =>
    obtain ⟨hc, hcs⟩ := within_flatMap_cons.1 h
    obtain ⟨ht, hb⟩ := within_append.1 hc
    rw [lowerCases]
    exact (allowed_lowerExpr? hS test ht).bind fun test' ht' =>
      (allowed_lowerStmts hS body hb).bind fun body' hb' =>
        (allowed_lowerCases hS cases hcs).map fun _ hcs' =>
          allowed_append.2 ⟨allowed_append.2 ⟨ht', hb'⟩, hcs'⟩

theorem allowed_lowerStmts (hS : Admits S ctx) (stmts : List Stmt)
    (h : Within S (stmts.map .stmt)) :
    (lowerStmts ctx stmts).Yields fun cs => Allowed S (mentionsOfStmts cs.flatten) := by
  cases stmts with
  | nil => exact .pure allowed_nil
  | cons t stmts =>
    obtain ⟨ht, hts⟩ := within_map_cons.1 h
    rw [lowerStmts]
    refine (allowed_lowerStmt hS t ht).bind fun t' ht' =>
      (allowed_lowerStmts hS stmts hts).map fun stmts' hts' => ?_
    rw [List.flatten_cons, mentionsOfStmts_append]
    exact allowed_append.2 ⟨ht', hts'⟩

theorem allowed_lowerItem (hS : Admits S ctx) {dest : Destination} (hdest : dest.IsAllowed S)
    (i : Item) (h : Within S [.item i]) :
    (lowerItem ctx dest i).Yields fun cs => Allowed S (mentionsOfStmts cs) := by
  have hi := h.inside
  cases i with
  | stmt s t =>
    rw [lowerItem]
    exact allowed_lowerStmt hS t hi
  | import_ s d =>
    rw [lowerItem]
    exact allowed_lowerImport hS dest (hi.module (List.mem_singleton_self _))
  | exportDecl s declSpan d =>
    rw [lowerItem]
    exact (allowed_lowerDecl hS d hi.inside).map fun _ hd' =>
      allowed_exportedDeclaration hdest (fun _ hname => hi.declared hname) hd'
  | exportDefault s e =>
    have he : Within S (ofExprs [e]) := hi.inside
    rw [lowerItem]
    refine (allowed_lowerExpr hS e he).map fun e' he' => ?_
    rw [mentionsOfStmts_singleton]
    exact allowed_defaultValue hdest he'
  | exportDefaultDecl s declSpan d =>
    rw [lowerItem]
    refine ((allowed_lowerDecl hS d hi.inside).and (className_of_lowerDecl ctx d)).map
      fun stmts ⟨hstmts, hclass⟩ => allowed_defaultDeclaration hdest (fun c hc => ?_) hstmts
    rcases hclass c hc with hname | hname
    · exact hname ▸ hS.default
    · exact hi.declared hname
  | exportNamed s names source typeOnly =>
    rw [lowerItem]
    cases typeOnly with
    | true => exact .pure allowed_nil
    | false =>
      refine allowed_lowerExportNames hS hdest names source (fun source' hsource hany => ?_) ?_
      · subst hsource
        exact hi.module (Option.mem_toList.2 (if_pos hany))
      · rintro rfl name hname
        exact hi.value hname
  | exportAll s source name typeOnly =>
    rw [lowerItem]
    cases typeOnly with
    | true => exact .pure allowed_nil
    | false =>
      exact allowed_lowerExportAll hS hdest _ (hi.module (List.mem_singleton_self source))

theorem allowed_lowerItems (hS : Admits S ctx) {dest : Destination} (hdest : dest.IsAllowed S)
    (items : List Item) (h : Within S (items.map .item)) :
    (lowerItems ctx dest items).Yields fun cs => Allowed S (mentionsOfStmts cs.flatten) := by
  cases items with
  | nil => exact .pure allowed_nil
  | cons i items =>
    obtain ⟨hi, his⟩ := within_map_cons.1 h
    rw [lowerItems]
    refine (allowed_lowerItem hS hdest i hi).bind fun i' hi' =>
      (allowed_lowerItems hS hdest items his).map fun items' his' => ?_
    rw [List.flatten_cons, mentionsOfStmts_append]
    exact allowed_append.2 ⟨hi', his'⟩

end

/-! ### Modules -/

theorem allowed_hoistedExports {i : Item} (hS : Admits S ctx) (h : Within S [.item i]) :
    ∀ s ∈ hoistedExports i, Allowed S s.mentions := by
  intro s hs
  unfold hoistedExports at hs
  split at hs
  · split at hs
    · cases hs
    · obtain ⟨n, hn, rfl⟩ := List.mem_map.1 hs
      have hname : S (.name n.text) := h.inside.declared (List.mem_map_of_mem hn)
      exact allowed_exported _ hS.exports (allowed_ident hname)
  · next f =>
    split at hs
    · cases hs
    · obtain rfl := List.mem_singleton.1 hs
      refine allowed_exported _ hS.exports (allowed_ident ?_)
      cases hf : f.name? with
      | none => exact hS.default
      | some n =>
        refine h.inside.declared (List.mem_map.2 ⟨n, ?_, rfl⟩)
        rw [hf]
        exact List.mem_singleton_self n
  · cases hs

theorem allowed_prologue {p : Program} (hS : Admits S ctx) (h : Within S (p.items.map .item)) :
    Allowed S (mentionsOfStmts (prologue ctx p)) := by
  have hitem (i : Item) (hi : i ∈ p.items) : Within S [.item i] := by
    intro m hm
    obtain ⟨s, hs, hm⟩ := List.mem_flatMap.1 hm
    exact h m (List.mem_flatMap.2 ⟨s, List.mem_singleton.1 hs ▸ List.mem_map_of_mem hi, hm⟩)
  refine allowed_mentionsOfStmts.2 fun s hs => ?_
  unfold prologue at hs
  split at hs
  · rcases List.mem_cons.1 hs with rfl | hs
    · exact allowed_nil
    · split at hs
      · rcases List.mem_cons.1 hs with rfl | hs
        · exact allowed_cons.2 ⟨hS.object, allowed_singleton.2 hS.exports⟩
        · obtain ⟨i, hi, hs⟩ := List.mem_flatMap.1 hs
          exact allowed_hoistedExports hS (hitem i hi) s hs
      · cases hs
  · cases hs

/-- The code of a module mentions only what is allowed because of its sites. -/
theorem allowed_lowerProgram {p : Program} {options : CompilerOptions}
    (hS : Admits S (contextOf options p)) (h : Within S (p.items.map .item)) :
    Allowed S (mentionsOfStmts (lowerProgram options p)) := by
  unfold lowerProgram
  rw [mentionsOfStmts_append]
  exact allowed_append.2 ⟨allowed_prologue hS h, allowed_lowerItems hS hS.destination p.items h []⟩

end TypeStrip
