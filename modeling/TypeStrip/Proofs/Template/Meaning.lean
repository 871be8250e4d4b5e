import TypeStrip.Proofs.Template.Concatenation

/-!
The values of expressions: a template literal has the same value as the sum that it is written as,
whatever values, effects and variables there are, if adding something to a string appends its
string value.
-/
namespace TypeStrip

/-- What an expression stands for before its value is asked for: a variable or a property, which
could also be assigned to, or only a value. -/
inductive Reference (R : Type) where
  | variable (name : String)
  | property (object : R) (name : String)
  | element (object index : R)
  | value (value : R)

/-- An interpretation of expressions: values, computations of them, and what the constructs of the
language do with computations, in which order and whether at all. Additions compute both sides from
left to right, and something that is added to a string is appended to it as a string. -/
structure Interpretation (M : Type → Type) [Monad M] (V : Type) where
  literal : Literal → V
  asString : V → M String
  read : Reference (M V) → M V
  add : V → V → M V
  binary : BinaryOp → M V → M V → M V
  unary : UnaryOp → Reference (M V) → M V
  assign : Reference (M V) → AssignOp → M V → M V
  call : Reference (M V) → List (M V) → M V
  conditional : M V → M V → M V → M V
  sequence : List (M V) → M V
  other : Expr → M V
  asString_string (s : String) : asString (literal (.string s)) = pure s
  add_string (s : String) (v : V) :
    add (literal (.string s)) v = (fun t => literal (.string (s ++ t))) <$> asString v

/-! ### Variables that hold literals -/

abbrev Variables := String → Literal

def Literal.stringValue : Literal → String
  | .string s => s
  | value => Code.literalText value

def Literal.isTrue : Literal → Bool
  | .number x => x < 0 || 0 < x
  | .string s => !s.isEmpty
  | .boolean value => value
  | .null => false

def Literal.combine : BinaryOp → Literal → Literal → Literal
  | .add, .string s, b => .string (s ++ b.stringValue)
  | .add, a, .string t => .string (a.stringValue ++ t)
  | op, .number x, .number y => ((Lowering.foldNumeric? op x y).map number).getD null
  | _, _, _ => .null

def Variables.read : Reference (StateM Variables Literal) → StateM Variables Literal
  | .variable name => return (← get) name
  | .value m => m
  | .property .. | .element .. => return .null

/-- Expressions read and assign variables that hold literals, and call the given functions by name.
Operators compute what is folded. All else is `null`. -/
def Interpretation.ofVariables (functions : String → List Literal → Literal) :
    Interpretation (StateM Variables) Literal where
  literal := id
  asString value := return value.stringValue
  read := Variables.read
  add a b := return Literal.combine .add a b
  binary op m n := do
    let a ← m
    match op with
    | .and => if a.isTrue then n else return a
    | .or => if a.isTrue then return a else n
    | .nullish => if a = .null then n else return a
    | op => return Literal.combine op a (← n)
  unary op r := do
    match op, ← Variables.read r with
    | .not, a => return .boolean !a.isTrue
    | op, .number x => return ((Lowering.foldUnary? op x).map .number).getD .null
    | _, _ => return .null
  assign
    | .variable name, .assign, m => do
      let value ← m
      modify (Function.update · name value)
      return value
    | _, _, _ => return .null
  call
    | .variable name, ms => return functions name (← ms.mapM id)
    | _, _ => return .null
  conditional c m n := do if (← c).isTrue then m else n
  sequence ms := ms.foldlM (fun _ m => m) .null
  other _ := return .null
  asString_string _ := rfl
  add_string _ _ := rfl

namespace Interpretation

variable {M : Type → Type} [Monad M] {V : Type} (I : Interpretation M V)

def string (s : String) : V := I.literal (.string s)

def get : Reference (M V) → M V
  | .value m => m
  | r => I.read r

/-- The string values of substitutions, each with the text that follows it, in their order. -/
def substituted : List String → List (M V) → M String
  | _, [] => pure ""
  | ts, m :: ms => do
    let value ← m
    let t ← I.asString value
    let rest ← substituted ts.tail ms
    return t ++ ts.headD "" ++ rest

def templateText (texts : List String) (ms : List (M V)) : M String :=
  (texts.headD "" ++ ·) <$> I.substituted texts.tail ms

mutual

/-- What an expression stands for. Parentheses, type arguments and places in the source make no
difference. -/
def refer : Expr → Reference (M V)
  | .literal _ value => .value (pure (I.literal value))
  | .ident _ name => .variable name
  | .member _ a name => .property (I.get (refer a)) name.text
  | .index _ a i => .element (I.get (refer a)) (I.get (refer i))
  | .binary _ a .add b => .value do I.add (← I.get (refer a)) (← I.get (refer b))
  | .binary _ a op b => .value (I.binary op (I.get (refer a)) (I.get (refer b)))
  | .unary _ op a => .value (I.unary op (refer a))
  | .assign _ a op b => .value (I.assign (refer a) op (I.get (refer b)))
  | .call _ f _ args => .value (I.call (refer f) (evals args))
  | .conditional _ a b c =>
    .value (I.conditional (I.get (refer a)) (I.get (refer b)) (I.get (refer c)))
  | .sequence _ es => .value (I.sequence (evals es))
  | .template _ texts es => .value (I.string <$> I.templateText texts (evals es))
  | .paren _ a => refer a
  | e => .value (I.other e.bare)

def evals : List Expr → List (M V)
  | [] => []
  | e :: es => I.get (refer e) :: evals es

end

def eval (e : Expr) : M V := I.get (I.refer e)

end Interpretation

theorem Expr.bare_bare_and :
    (∀ e : Expr, e.bare.bare = e.bare) ∧ ∀ es, Expr.bareAll (Expr.bareAll es) = Expr.bareAll es := by
  apply Expr.bare.mutual_induct
  all_goals intros; simp only [Expr.bare, Expr.bareAll, *]

/-- Parentheses and places are left out only once. -/
theorem Expr.bare_bare (e : Expr) : e.bare.bare = e.bare := Expr.bare_bare_and.1 e

theorem Expr.bareAll_bareAll (es : List Expr) : Expr.bareAll (Expr.bareAll es) = Expr.bareAll es :=
  Expr.bare_bare_and.2 es

namespace Interpretation

variable {M : Type → Type} [Monad M] {V : Type} (I : Interpretation M V)

theorem refer_bare_and :
    (∀ e : Expr, I.refer e.bare = I.refer e) ∧ ∀ es, I.evals (Expr.bareAll es) = I.evals es := by
  apply Expr.bare.mutual_induct
  -- Of the binary operators, addition is interpreted on its own.
  case case5 =>
    intro _ a op b iha ihb
    cases op <;> simp only [Expr.bare, refer, iha, ihb]
  all_goals
    intros
    simp only [Expr.bare, Expr.bareAll, refer, evals, Expr.bare_bare, Expr.bareAll_bareAll, *]

/-- Parentheses and places make no difference to the value. -/
theorem eval_bare (e : Expr) : I.eval e.bare = I.eval e := congrArg I.get (I.refer_bare_and.1 e)

theorem evals_cons (e : Expr) (es : List Expr) : I.evals (e :: es) = I.eval e :: I.evals es := by
  rw [evals, eval]

theorem evals_eq_map (es : List Expr) : I.evals es = es.map I.eval := by
  induction es with
  | nil => rw [evals, List.map_nil]
  | cons e es ih => rw [evals_cons, ih, List.map_cons]

/-- The value of a template literal. -/
theorem eval_template (s : Span) (texts : List String) (es : List Expr) :
    I.eval (.template s texts es) = I.string <$> I.templateText texts (es.map I.eval) := by
  rw [eval, refer, get, evals_eq_map]

/-! ### Sums -/

variable [LawfulMonad M] {first e : Expr} {es : List Expr} {p : M String}

/-- Something that is added to a string is appended to it. -/
theorem refer_add (h : I.refer first = .value (I.string <$> p)) (s : Span) :
    I.refer (.binary s first .add e) =
      .value (I.string <$> do
        let text ← p
        let value ← I.eval e
        return text ++ (← I.asString value)) := by
  rw [refer, h]
  congr 1
  simp only [get, string, eval, map_eq_pure_bind, bind_assoc, pure_bind, I.add_string]

/-- A sum that starts with a string appends the string values of all that is added, in order. -/
theorem refer_sum (h : I.refer first = .value (I.string <$> p)) (ts : List String) :
    I.refer (.sum first (templateOperands ts es)) =
      .value (I.string <$> do
        let text ← p
        return text ++ (← I.substituted ts (I.evals es))) := by
  fun_induction templateOperands ts es generalizing first p with
  | case1 => simpa [Expr.sum, evals, substituted] using h
  | case2 e es ih =>
    rw [Expr.sum, List.foldl_cons, ← Expr.sum, ih (I.refer_add h _), evals_cons, substituted]
    simp [String.append_assoc]
  | case3 t ts e es ht ih =>
    rw [Expr.sum, List.foldl_cons, ← Expr.sum, ih (I.refer_add h _), evals_cons, substituted]
    simp [String.append_assoc, String.isEmpty_iff.1 ht]
  | case4 t ts e es ht ih =>
    have hstring : I.eval (.ofString t) = pure (I.string t) := by
      rw [eval, Expr.ofString, refer]
      rfl
    rw [Expr.sum, List.foldl_cons, List.foldl_cons, ← Expr.sum, ih (I.refer_add (I.refer_add h _) _),
      evals_cons, substituted, hstring]
    simp [String.append_assoc, string, I.asString_string]

/-- A template literal stands for the same as the sum that it is written as. -/
theorem refer_concatenated_and :
    (∀ e : Expr, I.refer e.concatenated = I.refer e) ∧
      ∀ es, I.evals (Expr.concatenatedAll es) = I.evals es := by
  apply Expr.concatenated.mutual_induct
  -- Of the binary operators, addition is interpreted on its own.
  case case1 =>
    intro _ a op b iha ihb
    cases op <;> simp only [Expr.concatenated, refer, iha, ihb]
  -- The first text of a template literal is the string that its sum starts with.
  case case9 =>
    intro _ texts es ihes
    have hfirst : I.refer (.ofString (texts.headD "")) = .value (I.string <$> pure (texts.headD "")) := by
      rw [Expr.ofString, refer, map_pure]
      rfl
    rw [Expr.concatenated, I.refer_sum hfirst, refer, ihes, templateText, map_eq_pure_bind _ (I.substituted _ _),
      pure_bind]
  all_goals intros; simp only [Expr.concatenated, Expr.concatenatedAll, refer, evals, *]

theorem eval_concatenated (e : Expr) : I.eval e.concatenated = I.eval e :=
  congrArg I.get (I.refer_concatenated_and.1 e)

end Interpretation

end TypeStrip
