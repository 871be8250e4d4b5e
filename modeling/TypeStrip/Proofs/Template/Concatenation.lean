import TypeStrip.Proofs.Numbers.Reading
import TypeStrip.Proofs.Printing.Operators

/-!
Template literals as additions: on a target without template literals, an expression is lowered as
if every template literal in it were written as a chain of additions that starts with a string.
-/
namespace TypeStrip

/-- Expressions of at most the given height that are made of names, literals, operators, accesses,
calls and template literals. As among operator expressions the comparison `<` is left out, and an
update applies to a place. A number is finite and not negative. -/
inductive Expr.TemplateForm : Nat → Expr → Prop where
  | number {n : Nat} {s : Span} {x : Float} {m : Nat} {q : Int}
    (h : Number.decode x = .finite false m q) : TemplateForm n (.literal s (.number x))
  | string {n : Nat} {s : Span} (value : String) : TemplateForm n (.literal s (.string value))
  | boolean {n : Nat} {s : Span} (value : Bool) : TemplateForm n (.literal s (.boolean value))
  | null {n : Nat} {s : Span} : TemplateForm n (.literal s .null)
  | ident {n : Nat} {s : Span} {name : String} (h : Token.IsIdentifier name) :
    TemplateForm n (.ident s name)
  | member {n : Nat} {s : Span} {a : Expr} {name : Name} (hname : Text.isWord name.text = true)
    (ha : TemplateForm n a) : TemplateForm (n + 1) (.member s a name)
  | index {n : Nat} {s : Span} {a i : Expr} (ha : TemplateForm n a) (hi : TemplateForm n i) :
    TemplateForm (n + 1) (.index s a i)
  | call {n : Nat} {s : Span} {f : Expr} {typeArgs : List TypeExpr} {args : List Expr}
    (hf : TemplateForm n f) (hargs : ∀ e ∈ args, TemplateForm n e) :
    TemplateForm (n + 1) (.call s f typeArgs args)
  | conditional {n : Nat} {s : Span} {a b c : Expr} (ha : TemplateForm n a) (hb : TemplateForm n b)
    (hc : TemplateForm n c) : TemplateForm (n + 1) (.conditional s a b c)
  | assign {n : Nat} {s t : Span} {name : String} {op : AssignOp} {b : Expr}
    (hname : Token.IsIdentifier name) (hb : TemplateForm n b) :
    TemplateForm (n + 1) (.assign s (.ident t name) op b)
  | sequence {n : Nat} {s : Span} {es : List Expr} (htwo : 2 ≤ es.length)
    (hes : ∀ e ∈ es, TemplateForm n e) : TemplateForm (n + 1) (.sequence s es)
  | unary {n : Nat} {s : Span} {op : UnaryOp} {a : Expr}
    (hop : op.isUpdate = true → a.isPlace = true) (ha : TemplateForm n a) :
    TemplateForm (n + 1) (.unary s op a)
  | binary {n : Nat} {s : Span} {a b : Expr} {op : BinaryOp} (hop : op ≠ .lt)
    (ha : TemplateForm n a) (hb : TemplateForm n b) : TemplateForm (n + 1) (.binary s a op b)
  | template {n : Nat} {s : Span} {texts : List String} {es : List Expr}
    (hes : ∀ e ∈ es, TemplateForm n e) : TemplateForm (n + 1) (.template s texts es)

/-! ### Chains of additions -/

def Expr.ofString (s : String) : Expr := .literal default (.string s)

def Expr.sum (first : Expr) (rest : List Expr) : Expr :=
  rest.foldl (fun acc e => .binary default acc .add e) first

/-- What is added to the first text of a template literal: every substitution, with the text that
follows it where that is not empty. -/
def templateOperands : List String → List Expr → List Expr
  | _, [] => []
  | [], e :: es => e :: templateOperands [] es
  | t :: ts, e :: es =>
    if t.isEmpty then e :: templateOperands ts es else e :: .ofString t :: templateOperands ts es

mutual

/-- An expression with every template literal written as a sum. Type arguments, which have no
meaning when the code runs, are left out. -/
def Expr.concatenated : Expr → Expr
  | .binary s a op b => .binary s a.concatenated op b.concatenated
  | .unary s op a => .unary s op a.concatenated
  | .assign s a op b => .assign s a.concatenated op b.concatenated
  | .call s f _ args => .call s f.concatenated [] (Expr.concatenatedAll args)
  | .member s a name => .member s a.concatenated name
  | .index s a i => .index s a.concatenated i.concatenated
  | .conditional s a b c => .conditional s a.concatenated b.concatenated c.concatenated
  | .sequence s es => .sequence s (Expr.concatenatedAll es)
  | .template _ texts es =>
    .sum (.ofString (texts.headD "")) (templateOperands texts.tail (Expr.concatenatedAll es))
  | e => e

def Expr.concatenatedAll : List Expr → List Expr
  | [] => []
  | e :: es => e.concatenated :: Expr.concatenatedAll es

end

theorem Expr.concatenatedAll_eq_map (es : List Expr) :
    Expr.concatenatedAll es = es.map Expr.concatenated := by
  induction es with
  | nil => rfl
  | cons e es ih => rw [Expr.concatenatedAll, ih, List.map_cons]

variable {e first : Expr} {es rest : List Expr} {n m : Nat} {ts : List String}

/-- What holds of strings and of all substitutions holds of all that is added. -/
theorem forall_templateOperands {P : Expr → Prop} (hs : ∀ t, P (.ofString t)) (h : ∀ e ∈ es, P e) :
    ∀ e ∈ templateOperands ts es, P e := by
  fun_induction templateOperands ts es with
  | case1 => exact List.forall_mem_nil _
  | case2 e es ih =>
    obtain ⟨he, hes⟩ := List.forall_mem_cons.1 h
    exact List.forall_mem_cons.2 ⟨he, ih hes⟩
  | case3 t ts e es _ ih =>
    obtain ⟨he, hes⟩ := List.forall_mem_cons.1 h
    exact List.forall_mem_cons.2 ⟨he, ih hes⟩
  | case4 t ts e es _ ih =>
    obtain ⟨he, hes⟩ := List.forall_mem_cons.1 h
    exact List.forall_mem_cons.2 ⟨he, List.forall_mem_cons.2 ⟨hs t, ih hes⟩⟩

/-- What holds of the first expression, and of a sum with one more expression when it holds of the
sum, holds of all sums. -/
theorem Expr.sum_induction {P Q : Expr → Prop}
    (hadd : ∀ a b, P a → Q b → P (.binary default a .add b)) (hfirst : P first)
    (hrest : ∀ e ∈ rest, Q e) : P (.sum first rest) := by
  induction rest generalizing first with
  | nil => exact hfirst
  | cons e rest ih =>
    obtain ⟨he, hrest⟩ := List.forall_mem_cons.1 hrest
    exact ih (hadd first e hfirst he) hrest

/-! ### Sums are operator expressions -/

/-- There is room for one more level. -/
theorem Expr.OperatorForm.succ (h : e.OperatorForm n) : e.OperatorForm (n + 1) := by
  induction h with
  | number h => exact .number h
  | string value => exact .string value
  | boolean value => exact .boolean value
  | null => exact .null
  | ident h => exact .ident h
  | this => exact .this
  | binary hop _ _ iha ihb => exact .binary hop iha ihb
  | unary hop _ iha => exact .unary hop iha
  | await _ iha => exact .await iha
  | assign hplace _ _ iha ihb => exact .assign hplace iha ihb
  | conditional _ _ _ iha ihb ihc => exact .conditional iha ihb ihc
  | member hname _ iha => exact .member hname iha
  | optionalMember hname _ iha => exact .optionalMember hname iha
  | index _ _ iha ihi => exact .index iha ihi
  | optionalIndex _ _ iha ihi => exact .optionalIndex iha ihi
  | call _ _ ihf ihargs => exact .call ihf ihargs
  | optionalCall _ _ ihf ihargs => exact .optionalCall ihf ihargs
  | array _ ihes => exact .array ihes
  | sequence htwo _ ihes => exact .sequence htwo ihes

theorem Expr.OperatorForm.mono (h : e.OperatorForm n) (hnm : n ≤ m) : e.OperatorForm m := by
  induction hnm with
  | refl => exact h
  | step _ ih => exact ih.succ

def Expr.IsOperator (e : Expr) : Prop := ∃ n, e.OperatorForm n

/-- Expressions of a list have a height in common. -/
theorem exists_common_height (h : ∀ e ∈ es, e.IsOperator) : ∃ n, ∀ e ∈ es, e.OperatorForm n := by
  induction es with
  | nil => exact ⟨0, List.forall_mem_nil _⟩
  | cons e es ih =>
    obtain ⟨⟨n, he⟩, hes⟩ := List.forall_mem_cons.1 h
    obtain ⟨m, hm⟩ := ih hes
    refine ⟨max n m, List.forall_mem_cons.2 ⟨he.mono (Nat.le_max_left n m), fun e' he' => ?_⟩⟩
    exact (hm e' he').mono (Nat.le_max_right n m)

theorem Expr.isPlace_concatenated (h : e.isPlace = true) : e.concatenated.isPlace = true := by
  cases e with
  | ident => exact h
  | member => rw [Expr.concatenated]; rfl
  | index => rw [Expr.concatenated]; rfl
  | _ => exact absurd h (by simp [Expr.isPlace])

/-- Two expressions have a height in common. -/
theorem Expr.IsOperator.pair {a b : Expr} (ha : a.IsOperator) (hb : b.IsOperator) :
    ∃ n, a.OperatorForm n ∧ b.OperatorForm n := by
  obtain ⟨n, ha⟩ := ha
  obtain ⟨m, hb⟩ := hb
  exact ⟨max n m, ha.mono (Nat.le_max_left n m), hb.mono (Nat.le_max_right n m)⟩

theorem isOperator_sum (hfirst : first.IsOperator) (hrest : ∀ e ∈ rest, e.IsOperator) :
    (Expr.sum first rest).IsOperator := by
  refine Expr.sum_induction (fun a b ha hb => ?_) hfirst hrest
  obtain ⟨n, ha, hb⟩ := Expr.IsOperator.pair ha hb
  exact ⟨n + 1, .binary nofun ha hb⟩

/-- With its template literals written as sums, an expression is an operator expression. -/
theorem isOperator_concatenated (h : e.TemplateForm n) : e.concatenated.IsOperator := by
  have hall {es : List Expr} (h : ∀ e ∈ es, e.concatenated.IsOperator) :
      ∀ e ∈ Expr.concatenatedAll es, e.IsOperator := by
    rw [Expr.concatenatedAll_eq_map]
    exact List.forall_mem_map.2 h
  induction h with
  | number h => exact ⟨0, .number (Number.readsBack_of_decode h)⟩
  | string value => exact ⟨0, .string value⟩
  | boolean value => exact ⟨0, .boolean value⟩
  | null => exact ⟨0, .null⟩
  | ident h => exact ⟨0, .ident h⟩
  | member hname _ iha =>
    obtain ⟨m, ha⟩ := iha
    exact ⟨m + 1, .member hname ha⟩
  | index _ _ iha ihi =>
    obtain ⟨m, ha, hi⟩ := iha.pair ihi
    exact ⟨m + 1, .index ha hi⟩
  | call _ _ ihf ihargs =>
    obtain ⟨m, hm⟩ := exists_common_height (List.forall_mem_cons.2 ⟨ihf, hall ihargs⟩)
    obtain ⟨hf, hargs⟩ := List.forall_mem_cons.1 hm
    exact ⟨m + 1, .call hf hargs⟩
  | conditional _ _ _ iha ihb ihc =>
    obtain ⟨m, hm⟩ := exists_common_height
      (List.forall_mem_cons.2 ⟨iha, List.forall_mem_cons.2 ⟨ihb, List.forall_mem_singleton.2 ihc⟩⟩)
    exact ⟨m + 1, .conditional (hm _ (by simp)) (hm _ (by simp)) (hm _ (by simp))⟩
  | assign hname _ ihb =>
    obtain ⟨m, hb⟩ := ihb
    exact ⟨m + 1, .assign rfl (.ident hname) hb⟩
  | sequence htwo _ ihes =>
    obtain ⟨m, hm⟩ := exists_common_height (hall ihes)
    exact ⟨m + 1, .sequence (by rwa [Expr.concatenatedAll_eq_map, List.length_map]) hm⟩
  | unary hop _ iha =>
    obtain ⟨m, ha⟩ := iha
    exact ⟨m + 1, .unary (fun h => Expr.isPlace_concatenated (hop h)) ha⟩
  | binary hop _ _ iha ihb =>
    obtain ⟨m, ha, hb⟩ := iha.pair ihb
    exact ⟨m + 1, .binary hop ha hb⟩
  | template _ ihes =>
    exact isOperator_sum ⟨0, .string _⟩ (forall_templateOperands (fun t => ⟨0, .string t⟩) (hall ihes))

/-! ### Lowering -/

namespace Lowering

variable {ctx : Context}

/-- The chain of additions that a template literal is lowered to is the code of a sum. -/
theorem concatenation_eq_code :
    concatenation first.code ts (Expr.codes es) = (Expr.sum first (templateOperands ts es)).code := by
  have hadd (a b : Expr) : (Expr.binary default a .add b).code = .binary a.code .add b.code := by
    rw [Expr.code]
  fun_induction templateOperands ts es generalizing first with
  | case1 => simp only [Expr.codes, concatenation, Expr.sum, List.foldl_nil]
  | case2 e es ih =>
    rw [Expr.codes, concatenation, ← hadd, ih]
    rfl
  | case3 t ts e es ht ih =>
    simp only [Expr.codes, concatenation, ht, if_true, ← hadd, ih]
    rfl
  | case4 t ts e es ht ih =>
    have hstring : (Expr.ofString t).code = .literal (.string t) := by rw [Expr.ofString, Expr.code]
    simp only [Expr.codes, concatenation, if_neg ht, ← hadd, ← hstring, ih]
    rfl

/-- A sum of strings and expressions has no digits that could swallow a dot. -/
theorem swallowsDot_sum (h : swallowsDot first = false) : swallowsDot (.sum first rest) = false := by
  cases rest using List.reverseRecOn with
  | nil => exact h
  | append_singleton rest e =>
    rw [Expr.sum, List.foldl_append]
    rfl

theorem swallowsDot_concatenated (e : Expr) : swallowsDot e.concatenated = swallowsDot e := by
  cases e with
  | template =>
    rw [Expr.concatenated]
    exact swallowsDot_sum rfl
  | _ => simp only [Expr.concatenated, swallowsDot]

/-- On a target without template literals, an expression is lowered to the code of its sums. -/
theorem lowerExpr_eq_concatenated (htarget : ctx.options.target.lacksArrows = true)
    (h : e.TemplateForm n) : lowerExpr ctx e = pure e.concatenated.code := by
  have hall {es : List Expr} (h : ∀ e ∈ es, lowerExpr ctx e = pure e.concatenated.code) :
      lowerExprs ctx es = pure (Expr.codes (Expr.concatenatedAll es)) := by
    induction es with
    | nil => rfl
    | cons e es ih =>
      obtain ⟨he, hes⟩ := List.forall_mem_cons.1 h
      rw [lowerExprs, he, ih hes, Expr.concatenatedAll, Expr.codes]
      rfl
  have haccessed (a : Expr) (lowered : Code.Expr) :
      accessed a.concatenated lowered = accessed a lowered := by
    rw [accessed, accessed, swallowsDot_concatenated]
  induction h with
  | number | string | boolean | null | ident =>
    simp only [lowerExpr, Expr.concatenated, Expr.code]
  | member _ _ iha =>
    simp only [lowerExpr, Expr.concatenated, Expr.code, iha, haccessed, pure_bind]
  | index _ _ iha ihi =>
    simp only [lowerExpr, Expr.concatenated, Expr.code, iha, ihi, haccessed, pure_bind]
  | call _ _ ihf ihargs =>
    simp only [lowerExpr, Expr.concatenated, Expr.code, ihf, hall ihargs, pure_bind]
  | conditional _ _ _ iha ihb ihc =>
    simp only [lowerExpr, Expr.concatenated, Expr.code, iha, ihb, ihc, pure_bind]
  | assign _ _ ihb => simp only [lowerExpr, Expr.concatenated, Expr.code, ihb, pure_bind]
  | sequence _ _ ihes =>
    simp only [lowerExpr, Expr.concatenated, Expr.code, hall ihes, pure_bind]
  | unary _ _ iha => simp only [lowerExpr, Expr.concatenated, Expr.code, iha, pure_bind]
  | binary _ _ _ iha ihb =>
    simp only [lowerExpr, Expr.concatenated, Expr.code, iha, ihb, pure_bind]
  | @template _ _ texts es _ ihes =>
    rw [lowerExpr, hall ihes, pure_bind, lowerTemplate, if_pos htarget, Expr.concatenated,
      ← concatenation_eq_code, Expr.ofString, Expr.code]

end Lowering

end TypeStrip
