import Mathlib.Logic.Function.Basic
import TypeStrip.Lowering.Module
import TypeStrip.Proofs.Mentions.Shapes

/-!
The members of enums. An initializer is folded, or evaluated where it stands by code that does not
know the other members; so the object of an enum gets the values of all members if no initializer
that is not folded mentions a member.
-/
namespace TypeStrip.Enums
open Lowering

/-- What operators give, and the functions around an enum, which may change what is around it. The
operators give what is folded, where something is. -/
structure Meaning (W : Type) where
  unary : UnaryOp → Constant → Option Constant
  binary : BinaryOp → Constant → Constant → Option Constant
  call : String → List Constant → W → Option (Constant × W)
  unary_of_fold : ∀ {op x y}, foldUnary? op x = some y → unary op (.number x) = some (.number y)
  binary_of_fold : ∀ {op a b c}, foldBinary? op a b = some c → binary op a b = some c

variable {W : Type}

/-- Operators may give no more than what is folded. -/
instance : Inhabited (Meaning W) where
  default :=
    { unary op
        | .number x => (foldUnary? op x).map .number
        | .string _ => none
      binary := foldBinary?
      call _ _ _ := none
      unary_of_fold h := congrArg (Option.map Constant.number) h
      binary_of_fold := id }

variable (μ : Meaning W)

/-! ### What members stand for -/

abbrev Values := List (String × Constant)

mutual

/-- The value of an initializer, in which the name of an earlier member stands for its value. -/
def value (values : Values) : Expr → W → Option (Constant × W)
  | .literal _ (.number x), w => some (.number x, w)
  | .literal _ (.string s), w => some (.string s, w)
  | .ident _ name, w => (values.lookup name).map (·, w)
  | .paren _ e, w => value values e w
  | .unary _ op e, w => (value values e w).bind fun r => (μ.unary op r.1).map (·, r.2)
  | .binary _ a op b, w => (value values a w).bind fun r => (value values b r.2).bind fun r' =>
    (μ.binary op r.1 r'.1).map (·, r'.2)
  | .call _ (.ident _ function) _ args, w => (valuesOf values args w).bind fun r =>
    μ.call function r.1 r.2
  | _, _ => none

def valuesOf (values : Values) : List Expr → W → Option (List Constant × W)
  | [], w => some ([], w)
  | e :: es, w => (value values e w).bind fun r => (valuesOf values es r.2).map fun r' =>
    (r.1 :: r'.1, r'.2)

end

def keyOf : Member → String
  | .field _ k _ _ _ => k.staticName?.getD ""
  | _ => ""

/-- The value of a member without an initializer: one more than the number before it. -/
def following : Values → Option Constant
  | [] => some (.number 0)
  | (_, .number x) :: _ => some (.number (x + 1))
  | (_, .string _) :: _ => none

def memberValue (values : Values) (init : Option Expr) (w : W) : Option (Constant × W) :=
  match init with
  | some e => value μ values e w
  | none => (following values).map (·, w)

def assigned (values : Values) : List Member → W → Option (Values × W)
  | [], w => some (values, w)
  | .field s k t init mods :: ms, w => (memberValue μ values init w).bind fun r =>
    assigned ((keyOf (.field s k t init mods), r.1) :: values) ms r.2
  | _ :: _, _ => none

abbrev Properties := String → Option Constant

/-- A member is defined: under its key there is its value, and its key is under a number. -/
def withMember (properties : Properties) : String × Constant → Properties
  | (key, .string s) => Function.update properties key (some (.string s))
  | (key, .number x) => Function.update (Function.update properties key (some (.number x)))
    (Code.numberText x) (some (.string key))

def withMembers (properties : Properties) (values : Values) : Properties :=
  values.foldr (fun member properties => withMember properties member) properties

/-! ### Code -/

structure State (W : Type) where
  properties : Properties
  around : W

def State.write (m : State W) (key : String) (c : Constant) : State W :=
  { m with properties := Function.update m.properties key (some c) }

variable (enum : String)

mutual

/-- An expression is evaluated. Of the names inside the code of an enum, only that of the enum itself
is known, which stands for the object. -/
def evaluate : Code.Expr → State W → Option (Constant × State W)
  | .literal (.number x), m => some (.number x, m)
  | .literal (.string s), m => some (.string s, m)
  | .paren e, m => evaluate e m
  | .unary op e, m => (evaluate e m).bind fun r => (μ.unary op r.1).map (·, r.2)
  | .binary a op b, m => (evaluate a m).bind fun r => (evaluate b r.2).bind fun r' =>
    (μ.binary op r.1 r'.1).map (·, r'.2)
  | .call (.ident function) args, m =>
    if function = enum then none
    else (evaluateAll args m).bind fun r => (μ.call function r.1 r.2.around).map fun r' =>
      (r'.1, { r.2 with around := r'.2 })
  | .index (.ident object) (.literal (.string key)), m =>
    if object = enum then (m.properties key).map (·, m) else none
  | .assign (.index (.ident object) key) .assign e, m =>
    if object = enum then
      (evaluate key m).bind fun k => (evaluate e k.2).bind fun v =>
        some (v.1, v.2.write k.1.text v.1)
    else none
  | _, _ => none

def evaluateAll : List Code.Expr → State W → Option (List Constant × State W)
  | [], m => some ([], m)
  | e :: es, m => (evaluate e m).bind fun r => (evaluateAll es r.2).map fun r' =>
    (r.1 :: r'.1, r'.2)

end

def run : List Code.Stmt → State W → Option (State W)
  | [], m => some m
  | .expr e :: stmts, m => (evaluate μ enum e m).bind fun r => run stmts r.2
  | _ :: _, _ => none

/-! ### Initializers -/

/-- Initializers that mention no member: literals, calls of functions around the enum, and the
operators that are folded. -/
inductive IsOuter : Expr → Prop
  | number (s : Span) (x : Float) : IsOuter (.literal s (.number x))
  | string (s : Span) (text : String) : IsOuter (.literal s (.string text))
  | paren {s : Span} {e : Expr} (h : IsOuter e) : IsOuter (.paren s e)
  | unary {s : Span} {op : UnaryOp} {e : Expr} (hop : (foldUnary? op 0).isSome) (h : IsOuter e) :
    IsOuter (.unary s op e)
  | binary {s : Span} {a b : Expr} {op : BinaryOp} (hop : (foldNumeric? op 0 0).isSome)
    (ha : IsOuter a) (hb : IsOuter b) : IsOuter (.binary s a op b)
  | call {s s' : Span} {function : String} {types : List TypeExpr} {args : List Expr}
    (hne : function ≠ enum) (h : ∀ e ∈ args, IsOuter e) :
    IsOuter (.call s (.ident s' function) types args)

/-- An initializer that code computes: it mentions no member, and what it gives is a number. -/
structure IsComputed (e : Expr) : Prop where
  outer : IsOuter enum e
  number : ∀ {values : Values} {w : W} {r : Constant × W}, value μ values e w = some r →
    ∃ x, r.1 = .number x

def passed (scope : MemberScope) (key : String) (init : Option Expr) : MemberScope :=
  match scope.constant? init with
  | some c => scope.after key (.known c)
  | none => ⟨scope.known, none, some key⟩

def AllPlain (scope : MemberScope) : List Member → Prop
  | .field s k t init mods :: ms =>
    (∀ e, init = some e → fold? scope.known e = none → IsComputed μ enum e) ∧
      AllPlain (passed scope (keyOf (.field s k t init mods)) init) ms
  | _ => True

section
variable {μ} {enum} {e : Expr} {c : Constant} {values : Values} {known : Values} {w w' : W}
  {r : Constant × W}

/-- An initializer that is folded has the value that it is folded to, and changes nothing. -/
theorem value_of_fold (hknown : ∀ name c, known.lookup name = some c → values.lookup name = some c)
    (hv : value μ values e w = some r) (h : fold? known e = some c) : r = (c, w) := by
  induction e using fold?.induct known generalizing w r c with
  | case1 | case2 =>
    cases hv
    cases h
    rfl
  | case3 => cases hv
  | case4 s name =>
    rw [value, hknown name c h] at hv
    cases hv
    rfl
  | case5 s e ih => exact ih hv h
  | case6 s op e x hx ih =>
    obtain ⟨r', hr', hv⟩ := Option.bind_eq_some_iff.1 hv
    cases ih hr' hx
    rw [fold?, hx] at h
    obtain ⟨y, hy, rfl⟩ := Option.map_eq_some_iff.1 h
    rw [μ.unary_of_fold hy] at hv
    cases hv
    rfl
  | case7 s op e hx ih =>
    rw [fold?] at h
    split at h
    · rename_i x he
      exact absurd he (hx x)
    · cases h
  | case8 s a op b x y hy hx iha ihb =>
    obtain ⟨r', hr', hv⟩ := Option.bind_eq_some_iff.1 hv
    obtain ⟨r'', hr'', hv⟩ := Option.bind_eq_some_iff.1 hv
    cases iha hr' hx
    cases ihb hr'' hy
    rw [fold?, hx, hy] at h
    rw [μ.binary_of_fold h] at hv
    cases hv
    rfl
  | case9 s a op b hxy iha ihb =>
    rw [fold?] at h
    split at h
    · rename_i x y ha hb
      exact absurd hb (hxy x y ha)
    · cases h
  | case10 e h1 h2 h3 h4 h5 h6 h7 =>
    rw [fold?] at h
    · cases h
    all_goals assumption

theorem evaluateAll_lowerExprs {ctx : Context} {properties : Properties} {es : List Expr}
    {cs : List Constant} (hes : ∀ e ∈ es, ∀ {c w w'}, value μ values e w = some (c, w') →
      (lowerExpr ctx e).Yields fun code =>
        evaluate μ enum code ⟨properties, w⟩ = some (c, ⟨properties, w'⟩))
    (hv : valuesOf μ values es w = some (cs, w')) : (lowerExprs ctx es).Yields fun codes =>
      evaluateAll μ enum codes ⟨properties, w⟩ = some (cs, ⟨properties, w'⟩) := by
  induction es generalizing w cs with
  | nil =>
    cases hv
    exact .pure rfl
  | cons e es ih =>
    obtain ⟨he, hes⟩ := List.forall_mem_cons.1 hes
    obtain ⟨⟨c, w₁⟩, hc, hv⟩ := Option.bind_eq_some_iff.1 hv
    obtain ⟨⟨cs, w₂⟩, hcs, hv⟩ := Option.map_eq_some_iff.1 hv
    cases hv
    rw [lowerExprs]
    refine (he hc).bind fun code hcode => (ih hes hcs).map fun codes hcodes => ?_
    rw [evaluateAll, hcode, Option.bind_some, hcodes]
    rfl

/-- The code of an initializer that mentions no member gives the value of the initializer. -/
theorem evaluate_lowerExpr (ctx : Context) (properties : Properties) (h : IsOuter enum e)
    (hv : value μ values e w = some (c, w')) : (lowerExpr ctx e).Yields fun code =>
      evaluate μ enum code ⟨properties, w⟩ = some (c, ⟨properties, w'⟩) := by
  induction h generalizing w c w' with
  | number | string =>
    cases hv
    rw [lowerExpr]
    exact .pure rfl
  | paren _ ih =>
    rw [lowerExpr]
    exact (ih hv).map fun _ h => h
  | unary _ _ ih =>
    obtain ⟨⟨c, w₁⟩, hc, hv⟩ := Option.bind_eq_some_iff.1 hv
    obtain ⟨y, hy, hv⟩ := Option.map_eq_some_iff.1 hv
    cases hv
    rw [lowerExpr]
    refine (ih hc).map fun code hcode => ?_
    rw [evaluate, hcode, Option.bind_some, hy]
    rfl
  | binary _ _ _ iha ihb =>
    obtain ⟨⟨x, w₁⟩, hx, hv⟩ := Option.bind_eq_some_iff.1 hv
    obtain ⟨⟨y, w₂⟩, hy, hv⟩ := Option.bind_eq_some_iff.1 hv
    obtain ⟨z, hz, hv⟩ := Option.map_eq_some_iff.1 hv
    cases hv
    rw [lowerExpr]
    refine (iha hx).bind fun left hleft => (ihb hy).map fun right hright => ?_
    rw [evaluate, hleft, Option.bind_some, hright, Option.bind_some, hz]
    rfl
  | call hne _ ih =>
    obtain ⟨⟨cs, w₁⟩, hcs, hv⟩ := Option.bind_eq_some_iff.1 hv
    rw [lowerExpr, lowerExpr]
    refine Lower.Yields.bind (.pure rfl) fun callee hcallee => ?_
    subst hcallee
    refine (evaluateAll_lowerExprs ih hcs).map fun codes hcodes => ?_
    rw [evaluate, if_neg hne, hcodes, Option.bind_some, hv]
    rfl

end

/-! ### Statements -/

section
variable {μ} {enum} {key : String} {c : Constant} {code : Code.Expr} {stmts : List Code.Stmt}
  {m m' : State W} {values : Values} {scope : MemberScope}

theorem run_string (key s : String) : run μ enum
      (memberStatement enum (key, .known (.string s)) :: stmts) m =
    run μ enum stmts ⟨withMember m.properties (key, .string s), m.around⟩ := by
  rw [memberStatement, assignment, memberSlot, run, evaluate, if_pos rfl]
  rfl

theorem run_bothWays {x : Float} (h : evaluate μ enum code m = some (.number x, m')) :
    run μ enum (bothWays enum key code :: stmts) m =
      run μ enum stmts ⟨withMember m'.properties (key, .number x), m'.around⟩ := by
  rw [bothWays, assignment, memberSlot, run, evaluate, if_pos rfl, evaluate, if_pos rfl, evaluate,
    Option.bind_some, h]
  rfl

structure Describes (scope : MemberScope) (values : Values) : Prop where
  known : ∀ name c, scope.known.lookup name = some c → values.lookup name = some c
  next : ∀ x, scope.next = some x → following values = some (.number x)
  previous : scope.previous = values.head?.map Prod.fst

theorem describes_nil : Describes {} [] where
  known _ _ h := nomatch h
  next x h := by
    cases h
    rfl
  previous := rfl

def HoldsLast (properties : Properties) (values : Values) : Prop :=
  ∀ member ∈ values.head?, properties member.1 = some member.2

/-- One more than the number of the last member. -/
theorem evaluate_successor {x : Float} (hprevious : scope.previous = values.head?.map Prod.fst)
    (hlast : HoldsLast m.properties values) (h : following values = some (.number x)) :
    evaluate μ enum (successor enum scope.previous) m = some (.number x, m) := by
  cases values with
  | nil =>
    cases h
    rw [hprevious]
    rfl
  | cons member values =>
    obtain ⟨key, c⟩ := member
    cases c with
    | string s => cases h
    | number y =>
      cases h
      rw [hprevious]
      show evaluate μ enum (.binary (memberSlot enum key) .add (.literal (.number 1))) m = _
      rw [evaluate, memberSlot, evaluate, if_pos rfl, hlast (key, .number y) rfl, Option.map_some,
        Option.bind_some, evaluate, Option.bind_some, μ.binary_of_fold (c := .number (y + 1)) rfl]
      rfl

theorem following_number (h : following values = some c) : ∃ x, c = .number x := by
  cases values with
  | nil => exact ⟨0, (Option.some.inj h).symm⟩
  | cons member _ =>
    obtain ⟨_, x | s⟩ := member
    · exact ⟨x + 1, (Option.some.inj h).symm⟩
    · cases h

theorem withMember_key {properties : Properties} (hkey : ∀ x, Code.numberText x ≠ key) :
    withMember properties (key, c) key = some c := by
  cases c with
  | string s => exact Function.update_self ..
  | number x =>
    rw [withMember, Function.update_of_ne (hkey x).symm]
    exact Function.update_self ..

/-- After a member it is known what it stands for, if it is folded. -/
theorem Describes.passed {init : Option Expr} (h : Describes scope values)
    (hnew : values.lookup key = none) (hc : ∀ c', scope.constant? init = some c' → c' = c) :
    Describes (passed scope key init) ((key, c) :: values) := by
  unfold Enums.passed
  cases hinit : scope.constant? init with
  | none =>
    refine ⟨fun name c' hname => ?_, nofun, rfl⟩
    have hvalue := h.known name c' hname
    have hne : (name == key) = false := by
      refine beq_eq_false_iff_ne.2 fun heq => ?_
      rw [heq, hnew] at hvalue
      cases hvalue
    rw [List.lookup_cons, hne]
    exact hvalue
  | some c' =>
    obtain rfl := hc c' hinit
    have hknown (name : String) (c : Constant)
        (hname : ((key, c') :: scope.known).lookup name = some c) :
        ((key, c') :: values).lookup name = some c := by
      rw [List.lookup_cons] at hname ⊢
      split at hname
      · exact hname
      · exact h.known name c hname
    cases c' with
    | string s => exact ⟨hknown, nofun, rfl⟩
    | number x =>
      refine ⟨hknown, fun y hy => ?_, rfl⟩
      cases hy
      rfl

/-- A member of which the value is known has that value, and changes nothing around. -/
theorem constant_eq {init : Option Expr} {c' : Constant} {w w' : W} (hd : Describes scope values)
    (hv : memberValue μ values init w = some (c, w')) (h : scope.constant? init = some c') :
    c' = c ∧ w' = w := by
  cases init with
  | some e =>
    cases value_of_fold hd.known hv h
    exact ⟨rfl, rfl⟩
  | none =>
    obtain ⟨x, hx, rfl⟩ := Option.map_eq_some_iff.1 h
    rw [memberValue, hd.next x hx] at hv
    cases hv
    exact ⟨rfl, rfl⟩

def lowerValue (ctx : Context) (enum : String) (scope : MemberScope) (init : Option Expr) :
    Lower MemberValue :=
  match scope.constant? init with
  | some value => pure (.known value)
  | none => do
    let value ← lowerExpr? ctx init
    pure (.computed (value.getD (successor enum scope.previous)))

theorem lowerEnumMembers_cons (ctx : Context) (enum : String) (scope : MemberScope) (s : Span)
    (k : Key) (t : Option TypeExpr) (init : Option Expr) (mods : Modifiers) (ms : List Member) :
    lowerEnumMembers ctx enum scope (.field s k t init mods :: ms) = (do
      let key := keyOf (.field s k t init mods)
      let value ← lowerValue ctx enum scope init
      return (key, value) :: (← lowerEnumMembers ctx enum (scope.after key value) ms)) := by
  rw [lowerEnumMembers, lowerValue]
  cases scope.constant? init <;> rfl

/-- The code of one member defines it. -/
theorem run_member (ctx : Context) {properties : Properties} {w w' : W} {init : Option Expr}
    (hd : Describes scope values) (hlast : HoldsLast properties values)
    (hplain : ∀ e, init = some e → fold? scope.known e = none → IsComputed μ enum e)
    (hv : memberValue μ values init w = some (c, w')) (key : String) :
    (lowerValue ctx enum scope init).Yields fun v => scope.after key v = passed scope key init ∧
      ∀ stmts, run μ enum (memberStatement enum (key, v) :: stmts) ⟨properties, w⟩ =
        run μ enum stmts ⟨withMember properties (key, c), w'⟩ := by
  unfold passed lowerValue
  cases hinit : scope.constant? init with
  | some c' =>
    obtain ⟨rfl, rfl⟩ := constant_eq hd hv hinit
    refine .pure ⟨rfl, fun stmts => ?_⟩
    cases c' with
    | string s => exact run_string key s
    | number x =>
      have hcode : evaluate μ enum (.literal (.number x)) ⟨properties, w'⟩ =
          some (.number x, ⟨properties, w'⟩) := by rw [evaluate]
      exact run_bothWays hcode
  | none =>
    cases init with
    | some e =>
      obtain ⟨houter, hnumber⟩ := hplain e rfl hinit
      obtain ⟨x, rfl⟩ := hnumber hv
      have hcode : (lowerExpr? ctx (some e)).Yields fun code? => ∃ code, code? = some code ∧
          evaluate μ enum code ⟨properties, w⟩ = some (.number x, ⟨properties, w'⟩) :=
        (evaluate_lowerExpr ctx properties houter hv).map fun code h => ⟨code, rfl, h⟩
      refine hcode.map ?_
      rintro _ ⟨code, rfl, h⟩
      exact ⟨rfl, fun stmts => run_bothWays h⟩
    | none =>
      obtain ⟨c, hc, hv⟩ := Option.map_eq_some_iff.1 hv
      cases hv
      obtain ⟨x, rfl⟩ := following_number hc
      have hcode : evaluate μ enum (successor enum scope.previous) ⟨properties, w⟩ =
          some (.number x, ⟨properties, w⟩) := evaluate_successor hd.previous hlast hc
      exact .pure ⟨rfl, fun stmts => run_bothWays hcode⟩

/-- All members are defined one after the other, by induction on them. -/
theorem run_lowerEnumMembers (ctx : Context) (properties : Properties) {w w' : W}
    {ms : List Member} {values' : Values} (hd : Describes scope values)
    (hlast : HoldsLast (withMembers properties values) values)
    (hplain : AllPlain μ enum scope ms) (hnew : ∀ m ∈ ms, values.lookup (keyOf m) = none)
    (hnodup : (ms.map keyOf).Nodup) (hwords : ∀ m ∈ ms, ∀ x, Code.numberText x ≠ keyOf m)
    (hv : assigned μ values ms w = some (values', w')) :
    (lowerEnumMembers ctx enum scope ms).Yields fun members =>
      run μ enum (members.map (memberStatement enum)) ⟨withMembers properties values, w⟩ =
        some ⟨withMembers properties values', w'⟩ := by
  induction ms generalizing scope values w with
  | nil =>
    cases hv
    exact .pure rfl
  | cons m ms ih =>
    cases m with
    | field s k t init mods =>
      obtain ⟨⟨c, w₁⟩, hc, hv⟩ := Option.bind_eq_some_iff.1 hv
      obtain ⟨hnew, hrest⟩ := List.forall_mem_cons.1 hnew
      obtain ⟨hwords, hwords'⟩ := List.forall_mem_cons.1 hwords
      obtain ⟨hkey, hnodup⟩ := List.nodup_cons.1 hnodup
      have hafter := hd.passed hnew fun c' hinit => (constant_eq hd hc hinit).1
      rw [lowerEnumMembers_cons]
      have hfirst := run_member ctx hd hlast hplain.1 hc (keyOf (.field s k t init mods))
      refine hfirst.bind fun v hvalue => ?_
      rw [← hvalue.1] at hafter
      refine (ih hafter ?_ (hvalue.1 ▸ hplain.2) ?_ hnodup hwords' hv).map fun members hrun => ?_
      · intro member hmember
        cases hmember
        exact withMember_key hwords
      · intro m hm
        have hne : keyOf m ≠ keyOf (.field s k t init mods) := fun heq =>
          hkey (heq ▸ List.mem_map_of_mem hm)
        rw [List.lookup_cons, beq_eq_false_iff_ne.2 hne]
        exact hrest m hm
      · rw [List.map_cons, hvalue.2]
        exact hrun
    | _ => cases hv

end

/-! ### The object of an enum -/

section
variable {properties : Properties} {values : Values} {key : String} {c : Constant}

theorem withMember_of_ne {name : String} (hkey : key ≠ name)
    (hnumber : ∀ x, c = .number x → Code.numberText x ≠ name) :
    withMember properties (key, c) name = properties name := by
  cases c with
  | string s => exact Function.update_of_ne hkey.symm ..
  | number x =>
    exact (Function.update_of_ne (hnumber x rfl).symm ..).trans (Function.update_of_ne hkey.symm ..)

/-- A key keeps its value while members with other keys are defined. -/
theorem withMembers_key (hnodup : (values.map Prod.fst).Nodup)
    (hwords : ∀ member ∈ values, ∀ x, Code.numberText x ≠ member.1) (h : (key, c) ∈ values) :
    withMembers properties values key = some c := by
  induction values with
  | nil => cases h
  | cons member values ih =>
    obtain ⟨key', c'⟩ := member
    obtain ⟨hword, hwords⟩ := List.forall_mem_cons.1 hwords
    obtain ⟨hnew, hnodup⟩ := List.nodup_cons.1 hnodup
    rcases List.mem_cons.1 h with heq | h
    · cases heq
      exact withMember_key hword
    · have hmem : key ∈ values.map Prod.fst := List.mem_map_of_mem h
      have hne : key' ≠ key := fun heq => hnew (heq.symm ▸ hmem)
      exact (withMember_of_ne hne fun x _ => hwords _ h x).trans (ih hnodup hwords h)

/-- Under the text of a number there is the last key of which the value has that text. -/
theorem withMembers_number {x : Float}
    (hwords : ∀ member ∈ values, ∀ x, Code.numberText x ≠ member.1)
    (h : (key, .number x) ∈ values) :
    ∃ key' y, (key', .number y) ∈ values ∧ Code.numberText y = Code.numberText x ∧
      withMembers properties values (Code.numberText x) = some (.string key') := by
  induction values with
  | nil => cases h
  | cons member values ih =>
    obtain ⟨key', c⟩ := member
    obtain ⟨hword, hwords⟩ := List.forall_mem_cons.1 hwords
    by_cases hlast : ∃ y, c = .number y ∧ Code.numberText y = Code.numberText x
    · obtain ⟨y, rfl, htext⟩ := hlast
      refine ⟨key', y, List.mem_cons_self, htext, ?_⟩
      rw [← htext]
      exact Function.update_self ..
    · have hmem : (key, .number x) ∈ values := by
        rcases List.mem_cons.1 h with heq | h
        · cases heq
          exact absurd ⟨x, rfl, rfl⟩ hlast
        · exact h
      obtain ⟨key'', y, hy, htext, hvalue⟩ := ih hwords hmem
      refine ⟨key'', y, List.mem_cons_of_mem _ hy, htext, ?_⟩
      rw [← hvalue]
      exact withMember_of_ne (hword x).symm fun y hy htext => hlast ⟨y, hy, htext⟩

/-- Nothing else is defined. -/
theorem withMembers_other {name : String} (hkeys : ∀ member ∈ values, member.1 ≠ name)
    (hnumbers : ∀ key x, (key, .number x) ∈ values → Code.numberText x ≠ name) :
    withMembers properties values name = properties name := by
  induction values with
  | nil => rfl
  | cons member values ih =>
    obtain ⟨key, c⟩ := member
    obtain ⟨hkey, hkeys⟩ := List.forall_mem_cons.1 hkeys
    have hrest := ih hkeys fun key x h => hnumbers key x (List.mem_cons_of_mem _ h)
    refine (withMember_of_ne hkey fun x hx => ?_).trans hrest
    exact hnumbers key x (hx ▸ List.mem_cons_self)

/-- Members are all that the object of an enum has now and had not before: under the key of a member
there is its value, and under the text of a number the key of a member with that value. -/
structure HasMembers (before after : Properties) (values : Values) : Prop where
  key : ∀ {key c}, (key, c) ∈ values → after key = some c
  number : ∀ {key x}, (key, .number x) ∈ values → ∃ key' y, (key', .number y) ∈ values ∧
    Code.numberText y = Code.numberText x ∧ after (Code.numberText x) = some (.string key')
  other : ∀ {name}, (∀ member ∈ values, member.1 ≠ name) →
    (∀ key x, (key, .number x) ∈ values → Code.numberText x ≠ name) → after name = before name

variable {μ} {w w' : W} {ms : List Member} {values' : Values}

theorem keys_of_assigned (h : assigned μ values ms w = some (values', w')) :
    values'.map Prod.fst = (ms.map keyOf).reverse ++ values.map Prod.fst := by
  induction ms generalizing values w with
  | nil =>
    cases h
    rfl
  | cons m ms ih =>
    cases m with
    | field s k t init mods =>
      obtain ⟨⟨c, w₁⟩, -, h⟩ := Option.bind_eq_some_iff.1 h
      rw [ih h, List.map_cons, List.map_cons, List.reverse_cons, List.append_assoc]
      rfl
    | _ => cases h

/-- An enum whose initializers are folded or mention no member. Its code defines the members in the
object of the enum, each with the value that it stands for, if their keys are different and none
reads like a number. -/
theorem lowerDecl_enumeration (ctx : Context) (properties : Properties) {name : Name}
    {isConst : Bool} (hplain : AllPlain μ name.text {} ms) (hnodup : (ms.map keyOf).Nodup)
    (hwords : ∀ m ∈ ms, ∀ x, Code.numberText x ≠ keyOf m)
    (h : assigned μ [] ms w = some (values, w')) :
    (lowerDecl ctx (.enumeration name ms isConst false)).Yields fun stmts => ∃ body after,
      stmts = [emptyVariable name.text,
        .scope name.text body (orEmptyObject (.ident name.text))] ∧
      run μ name.text body ⟨properties, w⟩ = some ⟨after, w'⟩ ∧
      HasMembers properties after values := by
  have hkeys := keys_of_assigned h
  rw [List.map_nil, List.append_nil] at hkeys
  have hnodup' : (values.map Prod.fst).Nodup := hkeys ▸ (List.reverse_perm _).nodup_iff.2 hnodup
  have hwords' (member) (hm : member ∈ values) (x : Float) : Code.numberText x ≠ member.1 := by
    have hkey : member.1 ∈ (ms.map keyOf).reverse := hkeys ▸ List.mem_map_of_mem hm
    obtain ⟨m, hm, heq⟩ := List.mem_map.1 (List.mem_reverse.1 hkey)
    exact heq ▸ hwords m hm x
  have hrun := run_lowerEnumMembers ctx properties describes_nil nofun hplain (fun _ _ => rfl)
    hnodup hwords h
  rw [lowerDecl, if_neg Bool.false_ne_true]
  refine hrun.map fun members hmembers => ?_
  refine ⟨members.map (memberStatement name.text), withMembers properties values, rfl, hmembers, ?_⟩
  exact ⟨withMembers_key hnodup' hwords', withMembers_number hwords', withMembers_other⟩

end

end TypeStrip.Enums
