import Mathlib.Data.List.Forall2
import TypeStrip.Code.Text
import TypeStrip.Proofs.Lexing.Forms
import TypeStrip.Proofs.Printing.Operators

/-! The tokens that an operator expression is written with, and that its text is read as them. -/
namespace TypeStrip
open Token Code Lowering

/-! ### Tokens of expressions -/

def enclosed (needed : Bool) (fs : List Form) : List Form :=
  if needed then .of "(" :: (fs ++ [.of ")"]) else fs

def separated (fss : List (List Form)) : List Form := List.intercalate [.of ","] fss

def Literal.form : Literal → Form
  | .number x => ⟨.number, Number.text x, false⟩
  | .string s => ⟨.string, s, false⟩
  | .boolean b => .of (if b then "true" else "false")
  | .null => .of "null"

def Expr.isLooser (e : Expr) (least : Nat) : Bool := decide (e.code.power < least)

def Expr.isLooseObject (e : Expr) : Bool := swallowsDot e || e.isLooser powerOfMember

mutual

def Expr.forms : Expr → List Form
  | .literal _ value => [value.form]
  | .ident _ name => [.of name]
  | .this _ => [.of "this"]
  | .binary _ a op b =>
    enclosed (a.isLooser (leftPower op)) a.forms ++
      .of op.text :: enclosed (b.isLooser (rightPower op)) b.forms
  | .unary _ op a =>
    if op.isPostfix then enclosed (a.isLooser powerOfPostfix) a.forms ++ [.of op.text]
    else .of op.text :: enclosed (a.isLooser powerOfUnary) a.forms
  | .await _ a => .of "await" :: enclosed (a.isLooser powerOfUnary) a.forms
  | .assign _ a op b =>
    enclosed (a.isLooser powerOfPostfix) a.forms ++
      .of op.text :: enclosed (b.isLooser powerOfAssignment) b.forms
  | .conditional _ a b c =>
    enclosed (a.isLooser (powerOfConditional + 1)) a.forms ++
      .of "?" :: (enclosed (b.isLooser powerOfAssignment) b.forms ++
        .of ":" :: enclosed (c.isLooser powerOfAssignment) c.forms)
  | .member _ a name => enclosed a.isLooseObject a.forms ++ [.of ".", .of name.text]
  | .optionalMember _ a name => enclosed a.isLooseObject a.forms ++ [.of "?.", .of name.text]
  | .index _ a i => enclosed a.isLooseObject a.forms ++ .of "[" :: (i.forms ++ [.of "]"])
  | .optionalIndex _ a i =>
    enclosed a.isLooseObject a.forms ++ .of "?." :: .of "[" :: (i.forms ++ [.of "]"])
  | .call _ f _ args =>
    enclosed (f.isLooser powerOfMember) f.forms ++
      .of "(" :: (separated (Expr.argForms args) ++ [.of ")"])
  | .optionalCall _ f _ args =>
    enclosed (f.isLooser powerOfMember) f.forms ++
      .of "?." :: .of "(" :: (separated (Expr.argForms args) ++ [.of ")"])
  | .array _ es =>
    let fss := Expr.argForms es
    .of "[" :: (separated (if endsInHole (Expr.codes es) then fss ++ [[]] else fss) ++ [.of "]"])
  | .sequence _ es => separated (Expr.argForms es)
  | _ => []

def Expr.argForms : List Expr → List (List Form)
  | [] => []
  | e :: es => enclosed (e.isLooser powerOfAssignment) e.forms :: Expr.argForms es

end

def Expr.argForm (e : Expr) : List Form := enclosed (e.isLooser powerOfAssignment) e.forms

theorem Expr.argForms_eq_map (es : List Expr) : Expr.argForms es = es.map Expr.argForm := by
  induction es with
  | nil => rfl
  | cons e es ih => rw [Expr.argForms, ih, List.map_cons, Expr.argForm]

/-! ### Texts that are read as tokens -/

/-- A text is read as the given tokens in front of what may follow it. -/
def Spells (E : List Char → Prop) (t : String) (fs : List Form) : Prop :=
  ∀ rest gs, E rest → Lexes rest gs → Lexes (t.toList ++ rest) (fs ++ gs)

namespace Spells

variable {E E₁ E₂ : List Char → Prop} {t u : String} {fs gs : List Form}

theorem mono (h : Spells E₁ t fs) (hE : ∀ rest, E₂ rest → E₁ rest) : Spells E₂ t fs :=
  fun rest gs hrest => h rest gs (hE rest hrest)

theorem append (ht : Spells E₁ t fs) (hu : Spells E₂ u gs)
    (hE : ∀ rest, E₂ rest → E₁ (u.toList ++ rest)) : Spells E₂ (t ++ u) (fs ++ gs) := by
  intro rest hs hrest hl
  rw [String.toList_append, List.append_assoc, List.append_assoc]
  exact ht _ _ (hE rest hrest) (hu rest hs hrest hl)

theorem word (hw : Text.isWord t = true) : Spells EndsWord t [.of t] :=
  fun _ _ hrest h => h.word hw hrest

theorem operator {kind : Kind} (hmem : (t, kind) ∈ operators) :
    Spells (EndsOperator t) t [.of t] :=
  fun _ _ hrest h => h.operator hmem hrest

/-- An operator that begins no longer one, in front of anything. -/
theorem delimiter (kind : Kind) (hmem : (t, kind) ∈ operators) (ht : t ∉ [".", "?.", "/"])
    (hs : successors t.toList = []) : Spells (fun _ => True) t [.of t] :=
  (operator hmem).mono fun _ _ _ _ _ =>
    leavesAlone_of (fun e => ht (by simp [e])) (.inr fun e => ht (by simp_all)) (by simp [hs])

/-- A text between an opening and a closing one. -/
theorem around {o c : String} {os cs : List Form} (ho : Spells (fun _ => True) o os)
    (h : Spells E t fs) (hc : Spells (fun _ => True) c cs) (hE : ∀ rest, E (c.toList ++ rest)) :
    Spells (fun _ => True) (o ++ t ++ c) (os ++ fs ++ cs) :=
  (ho.append h fun _ _ => trivial).append hc fun rest _ => hE rest

theorem lParen : Spells (fun _ => True) "(" [.of "("] :=
  delimiter .lParen (by decide) (by decide) (by decide)

theorem rParen : Spells (fun _ => True) ")" [.of ")"] :=
  delimiter .rParen (by decide) (by decide) (by decide)

theorem lBracket : Spells (fun _ => True) "[" [.of "["] :=
  delimiter .lBracket (by decide) (by decide) (by decide)

theorem rBracket : Spells (fun _ => True) "]" [.of "]"] :=
  delimiter .rBracket (by decide) (by decide) (by decide)

/-- The mark of an optional access in front of what is no name. -/
theorem optional {o : String} {os : List Form} (ho : Spells (fun _ => True) o os)
    (hc : o.toList.head?.any (leavesAlone "?.") = true) :
    Spells (fun _ => True) ("?." ++ o) (.of "?." :: os) := by
  have hmark : Spells (EndsOperator "?.") "?." [.of "?."] :=
    operator (show ("?.", Kind.questionDot) ∈ operators by decide)
  refine hmark.append ho fun rest _ => ?_
  obtain ⟨c, hmem, hl⟩ := (Option.any_eq_true _ _).1 hc
  obtain ⟨cs, hs⟩ := List.head?_eq_some_iff.1 hmem
  rw [hs]
  exact endsOperator_cons hl

/-- The name of a member after an operator that ends in a point. -/
theorem named {name : String} (hmem : t ∈ [".", "?."]) (hname : Text.isWord name = true) :
    Spells EndsWord (t ++ name) [.of t, .of name] := by
  have hops : ∀ t ∈ [".", "?."], t ∈ operators.map Prod.fst ∧ t ≠ "/" ∧
      (successors t.toList).all (fun c => !Text.isWordStart c) = true := by decide +kernel
  obtain ⟨hop, hne, hs⟩ := hops t hmem
  have hs : ∀ c ∈ successors t.toList, Text.isWordStart c = false := by simpa using hs
  obtain ⟨o, ho, rfl⟩ := List.mem_map.1 hop
  refine (operator ho).append (word hname) fun rest _ => ?_
  unfold Text.isWord at hname
  split at hname
  · exact absurd hname (by decide)
  · rename_i c cs hc
    have hstart : Text.isWordStart c = true := (Bool.and_eq_true_iff.1 hname).1
    rw [hc]
    refine endsOperator_cons (leavesAlone_of hne (.inl (Text.isDigit_of_isWordStart hstart)) ?_)
    exact fun hm => by simp [hs c hm] at hstart

/-- An operator or a word between blanks. -/
theorem spaced (ht : t ∈ operators.map Prod.fst ∨ Text.isWord t = true) :
    Spells (fun _ => True) (" " ++ t ++ " ") [.of t] := by
  intro rest gs _ h
  have hl := (h.spaced ht).blank
  simpa using hl

/-- An operator or a word in front of a blank and a text. -/
theorem after {op : String} (h : Spells E t fs)
    (hop : op ∈ operators.map Prod.fst ∨ Text.isWord op = true) :
    Spells E (op ++ " " ++ t) (.of op :: fs) := by
  intro rest gs hrest hl
  have hspaced := (h rest gs hrest hl).spaced hop
  simpa using hspaced

theorem comma : Spells (fun _ => True) ", " [.of ","] := by
  intro rest gs _ h
  have hcomma : Spells (fun _ => True) "," [.of ","] :=
    delimiter .comma (by decide) (by decide) (by decide)
  exact hcomma _ _ trivial h.blank

/-- A text in parentheses, where they are needed. -/
theorem enclosed {needed : Bool} (h : Spells E t fs) (hE : ∀ rest, E (')' :: rest)) :
    Spells (fun rest => needed = false → E rest) (if needed then "(" ++ t ++ ")" else t)
      (enclosed needed fs) := by
  cases needed with
  | false => exact h.mono fun _ hrest => hrest rfl
  | true =>
    exact (lParen.around h rParen hE).mono fun _ _ => trivial

/-- Two operands with an operator between them. -/
theorem infixed {op : String} (ht : Spells EndsNumber t fs)
    (hop : op ∈ operators.map Prod.fst ∨ Text.isWord op = true) (hu : Spells E u gs) :
    Spells E (t ++ " " ++ op ++ " " ++ u) (fs ++ .of op :: gs) := by
  have hblank (rest : List Char) : EndsNumber ((" " ++ op ++ " ").toList ++ rest) := by
    simpa using endsNumber_blank (op.toList ++ ' ' :: rest)
  have h := (ht.append (spaced hop) fun rest _ => hblank rest).append hu fun _ _ => trivial
  simpa only [String.append_assoc, List.append_assoc, List.singleton_append] using h

/-- Texts with commas between them. -/
theorem listed {ts : List String} {fss : List (List Form)}
    (h : List.Forall₂ (Spells EndsNumber) ts fss) :
    Spells EndsNumber (Code.listed ts) (separated fss) := by
  induction h with
  | nil => exact fun _ _ _ h => h
  | cons ht hts ih =>
    cases hts with
    | nil => simpa only [Code.listed, separated, String.intercalate_singleton,
        List.intercalate_singleton] using ht
    | cons hu hus =>
      have hlist := (ht.append comma fun _ _ => endsNumber_cons (by decide) (by decide) _).append ih
        fun _ _ => trivial
      simpa only [Code.listed, separated, String.intercalate_cons_cons,
        List.intercalate_cons_cons] using hlist

end Spells

/-! ### Operator expressions -/

/-- What may follow an expression: nothing that goes on with a word, and a point only where the
expression can be the object of a member access as it stands. -/
def Expr.Ends (e : Expr) (rest : List Char) : Prop :=
  EndsWord rest ∧ ∀ cs, rest = '.' :: cs → e.isLooseObject = false

def Expr.Spelled (depth : Nat) (e : Expr) : Prop := Spells e.Ends (e.code.text depth) e.forms

variable {depth : Nat} {e : Expr}

theorem Expr.ends_of_endsNumber {rest : List Char} (h : EndsNumber rest) : e.Ends rest :=
  ⟨h.1, fun cs e => absurd e (h.2 cs)⟩

theorem Expr.endsNumber_of_ends {rest : List Char} (h : e.Ends rest) (hl : e.isLooseObject = true) :
    EndsNumber rest :=
  ⟨h.1, fun cs e => by simp [h.2 cs e] at hl⟩

theorem Expr.ends_closed (e : Expr) (cs : List Char) : e.Ends (')' :: cs) :=
  ends_of_endsNumber (endsNumber_cons (by decide) (by decide) cs)

/-- An operand is read as its tokens. -/
theorem Expr.Spelled.guarded (h : e.Spelled depth) (least : Nat) :
    Spells EndsNumber (e.code.guarded least (e.code.text depth))
      (enclosed (e.isLooser least) e.forms) := by
  have heq : e.code.guarded least (e.code.text depth) =
      if e.isLooser least then "(" ++ e.code.text depth ++ ")" else e.code.text depth := by
    simp only [Code.Expr.guarded, Expr.isLooser, decide_eq_true_eq]
  rw [heq]
  exact (Spells.enclosed h e.ends_closed).mono fun _ hrest _ => Expr.ends_of_endsNumber hrest

/-- The text of the object of a member access. -/
theorem guarded_accessed :
    (accessed e e.code).guarded powerOfMember ((accessed e e.code).text depth) =
      if e.isLooseObject then "(" ++ e.code.text depth ++ ")" else e.code.text depth := by
  unfold accessed Expr.isLooseObject
  cases swallowsDot e with
  | false => simp [Code.Expr.guarded, Expr.isLooser]
  | true => rfl

/-- The object of a member access is read as its tokens. -/
theorem Expr.Spelled.object (h : e.Spelled depth) :
    Spells EndsWord ((accessed e e.code).guarded powerOfMember ((accessed e e.code).text depth))
      (enclosed e.isLooseObject e.forms) := by
  rw [guarded_accessed]
  exact (Spells.enclosed h e.ends_closed).mono fun _ hrest hl => ⟨hrest, fun _ _ => hl⟩

def Starts (t : String) : Prop := ∃ c cs, t.toList = c :: cs ∧ c ≠ '='

theorem Starts.of_head {t : String} (h : t.toList.head?.any (· != '=') = true) : Starts t := by
  obtain ⟨c, hc, hne⟩ := (Option.any_eq_true _ _).1 h
  obtain ⟨cs, hs⟩ := List.head?_eq_some_iff.1 hc
  exact ⟨c, cs, hs, bne_iff_ne.1 hne⟩

theorem Starts.append {t : String} (h : Starts t) (u : String) : Starts (t ++ u) := by
  obtain ⟨c, cs, hs, hc⟩ := h
  exact ⟨c, cs ++ u.toList, by simp [hs], hc⟩

theorem Starts.guarded {t : String} (h : Starts t) (a : Code.Expr) (least : Nat) :
    Starts (a.guarded least t) := by
  unfold Code.Expr.guarded
  split
  · exact ((show Starts "(" from .of_head (by decide)).append t).append ")"
  · exact h

theorem Starts.accessed (h : Starts (e.code.text depth)) :
    Starts ((accessed e e.code).guarded powerOfMember ((accessed e e.code).text depth)) := by
  rw [guarded_accessed]
  split
  · exact ((show Starts "(" from .of_head (by decide)).append _).append ")"
  · exact h

theorem Starts.word {t : String} (h : Text.isWord t = true) : Starts t := by
  unfold Text.isWord at h
  split at h
  · exact absurd h (by decide)
  · rename_i c cs hs
    refine ⟨c, cs, hs, ?_⟩
    rintro rfl
    exact absurd (Bool.and_eq_true_iff.1 h).1 (by decide)

theorem Starts.unaryText {t : String} (h : Starts t) (op : UnaryOp) : Starts (unaryText op t) := by
  have hop : Starts op.text := by cases op <;> exact .of_head (by decide)
  cases op with
  | postIncrement | postDecrement => exact h.append _
  | typeof | void | delete => exact (hop.append _).append _
  | not | bitNot => exact hop.append _
  | minus | preDecrement =>
    show Starts (if beginsWith t "-" then _ ++ " " ++ t else _ ++ t)
    split
    · exact (hop.append _).append _
    · exact hop.append _
  | plus | preIncrement =>
    show Starts (if beginsWith t "+" then _ ++ " " ++ t else _ ++ t)
    split
    · exact (hop.append _).append _
    · exact hop.append _

theorem literalText_number {x : Float} (h : Number.ReadsBack x) :
    literalText (.number x) = Number.text x := by
  obtain ⟨m, q, hx⟩ := h.finite
  rw [literalText, numberText, hx]

/-- The text of an operator expression starts with no equality sign. -/
theorem starts_code {n : Nat} (h : e.OperatorForm n) : Starts (e.code.text depth) := by
  induction h with
  | number h =>
    rw [Expr.code, Code.Expr.text, literalText_number h]
    obtain ⟨m, q, hx⟩ := h.finite
    have hplain := Number.isPlain_text hx
    obtain ⟨c, cs, hs⟩ := List.exists_cons_of_ne_nil hplain.ne_nil
    rw [hs] at hplain
    refine ⟨c, cs, hs, ?_⟩
    rintro rfl
    exact absurd hplain.isDigit_head (by decide)
  | string value => exact ⟨'"', _, String.toList_ofList, by decide⟩
  | boolean value =>
    cases value with
    | false => exact show Starts "false" from .of_head (by decide)
    | true => exact show Starts "true" from .of_head (by decide)
  | null => exact show Starts "null" from .of_head (by decide)
  | ident h => exact .word h.word
  | this => exact show Starts "this" from .of_head (by decide)
  | binary _ _ _ iha => exact ((((iha.guarded _ _).append _).append _).append _).append _
  | unary _ _ iha => exact (iha.guarded _ _).unaryText _
  | await _ iha => exact (show Starts "await " from .of_head (by decide)).append _
  | assign _ _ _ iha => exact ((((iha.guarded _ _).append _).append _).append _).append _
  | conditional _ _ _ iha => exact ((((iha.guarded _ _).append _).append _).append _).append _
  | member _ _ iha => exact (iha.accessed.append _).append _
  | optionalMember _ _ iha => exact (iha.accessed.append _).append _
  | index _ _ iha => exact ((iha.accessed.append _).append _).append _
  | optionalIndex _ _ iha => exact ((iha.accessed.append _).append _).append _
  | call _ _ ihf => exact (((ihf.guarded _ _).append _).append _).append _
  | optionalCall _ _ ihf => exact (((ihf.guarded _ _).append _).append _).append _
  | array => exact ((show Starts "[" from .of_head (by decide)).append _).append _
  | @sequence _ _ es htwo _ ihes =>
    obtain ⟨a, es, rfl⟩ := List.exists_cons_of_length_pos (Nat.lt_of_lt_of_le Nat.zero_lt_two htwo)
    obtain ⟨b, es, rfl⟩ := List.exists_cons_of_length_pos (Nat.le_of_succ_le_succ htwo)
    rw [Expr.code, Code.Expr.text, Expr.codes, Expr.codes, argTexts, argTexts, Code.listed,
      String.intercalate_cons_cons]
    exact (((ihes a List.mem_cons_self).guarded _ _).append _).append _

theorem Expr.Spelled.args {es : List Expr} (h : ∀ e ∈ es, e.Spelled depth) :
    List.Forall₂ (Spells EndsNumber) (argTexts depth (Expr.codes es)) (Expr.argForms es) := by
  induction es with
  | nil => exact .nil
  | cons e es ih =>
    obtain ⟨he, hes⟩ := List.forall_mem_cons.1 h
    exact .cons (he.guarded powerOfAssignment) (ih hes)

/-! ### Operators and their operands -/

theorem isSpelling_binaryOp (op : BinaryOp) :
    op.text ∈ operators.map Prod.fst ∨ Text.isWord op.text = true := by
  cases op <;> decide +kernel

theorem isSpelling_assignOp (op : AssignOp) : op.text ∈ operators.map Prod.fst := by
  cases op <;> decide +kernel

theorem isSpelling_unaryOp (op : UnaryOp) :
    op.text ∈ operators.map Prod.fst ∨ Text.isWord op.text = true := by
  cases op <;> decide +kernel

theorem Expr.isLooseObject_of_lt (h : e.code.power < powerOfMember) : e.isLooseObject = true := by
  rw [Expr.isLooseObject, Expr.isLooser, decide_eq_true h, Bool.or_true]

/-- In front of what an expression that is no object as it stands ends with. -/
theorem Expr.Spelled.of_lt (h : Spells EndsNumber (e.code.text depth) e.forms)
    (hp : e.code.power < powerOfMember) : e.Spelled depth :=
  h.mono fun _ hrest => Expr.endsNumber_of_ends hrest (Expr.isLooseObject_of_lt hp)

/-- In front of what an object ends with. -/
theorem Expr.Spelled.of_endsWord (h : Spells EndsWord (e.code.text depth) e.forms) :
    e.Spelled depth :=
  h.mono fun _ hrest => hrest.1

/-- In front of anything. -/
theorem Expr.Spelled.of_true (h : Spells (fun _ => True) (e.code.text depth) e.forms) :
    e.Spelled depth :=
  h.mono fun _ _ => trivial

/-- The arguments of a call between their parentheses. -/
theorem Expr.Spelled.arguments {es : List Expr} (h : ∀ e ∈ es, e.Spelled depth) :
    Spells (fun _ => True) ("(" ++ Code.listed (argTexts depth (Expr.codes es)) ++ ")")
      (.of "(" :: (separated (Expr.argForms es) ++ [.of ")"])) :=
  Spells.lParen.around (.listed (args h)) .rParen fun rest =>
    endsNumber_append (c := ')') (by decide) (by decide) (by decide) rest

/-- An index between its brackets. -/
theorem Expr.Spelled.bracketed (h : e.Spelled depth) :
    Spells (fun _ => True) ("[" ++ e.code.text depth ++ "]") (.of "[" :: (e.forms ++ [.of "]"])) :=
  Spells.lBracket.around h .rBracket fun rest =>
    Expr.ends_of_endsNumber (endsNumber_append (c := ']') (by decide) (by decide) (by decide) rest)

/-- An operator directly in front of a text. -/
theorem Spells.direct {E : List Char → Prop} {op t : String} {fs : List Form}
    (hop : op ∈ operators.map Prod.fst) (hne : op ∉ [".", "?.", "/"]) (h : Spells E t fs)
    (ht : ∃ c cs, t.toList = c :: cs ∧ c ∉ successors op.toList) :
    Spells E (op ++ t) (.of op :: fs) := by
  obtain ⟨o, ho, rfl⟩ := List.mem_map.1 hop
  obtain ⟨c, cs, hs, hc⟩ := ht
  refine (Spells.operator ho).append h fun rest _ => ?_
  rw [hs]
  exact endsOperator_cons (leavesAlone_of (fun e => hne (by simp [e])) (.inr fun e => hne (by simp_all)) hc)

/-- What makes a unary operator longer is an equality sign, or the same sign again. -/
theorem mem_successors_unaryOp (op : UnaryOp) :
    ∀ c ∈ successors op.text.toList,
      c = '=' ∨ c = '-' ∧ op = .minus ∨ c = '+' ∧ op = .plus := by
  have hall : ((successors op.text.toList).all fun c =>
      c == '=' || c == '-' && op == .minus || c == '+' && op == .plus) = true := by
    cases op <;> decide +kernel
  simpa [or_assoc] using hall

/-- A prefix operator with its operand. A blank is written where the two would make another
operator. -/
theorem Spells.prefixed {E : List Char → Prop} {op : UnaryOp} {t : String} {fs : List Form}
    (hop : op.isPostfix = false) (h : Spells E t fs) (hs : Starts t) :
    Spells E (unaryText op t) (.of op.text :: fs) := by
  have hspaced : Spells E (op.text ++ " " ++ t) (.of op.text :: fs) := h.after (isSpelling_unaryOp op)
  obtain ⟨c, cs, hc, hne⟩ := hs
  have hdirect (hmem : op.text ∈ operators.map Prod.fst) (hopen : op.text ∉ [".", "?.", "/"])
      (hminus : op = .minus → c ≠ '-') (hplus : op = .plus → c ≠ '+') :
      Spells E (op.text ++ t) (.of op.text :: fs) := by
    refine h.direct hmem hopen ⟨c, cs, hc, fun hm => ?_⟩
    rcases mem_successors_unaryOp op c hm with he | ⟨he, ho⟩ | ⟨he, ho⟩
    · exact hne he
    · exact hminus ho he
    · exact hplus ho he
  have hsign (sign : Char) (hb : ¬beginsWith t (String.singleton sign) = true) : c ≠ sign := by
    rintro rfl
    simp [beginsWith, hc] at hb
  cases op with
  | postIncrement | postDecrement => exact absurd hop (by decide)
  | typeof | void | delete => exact hspaced
  | not | bitNot => exact hdirect (by decide) (by decide) nofun nofun
  | minus | preDecrement =>
    show Spells E (if beginsWith t "-" then _ else _) _
    split
    · exact hspaced
    · rename_i hb
      exact hdirect (by decide) (by decide) (fun _ => hsign '-' hb) nofun
  | plus | preIncrement =>
    show Spells E (if beginsWith t "+" then _ else _) _
    split
    · exact hspaced
    · rename_i hb
      exact hdirect (by decide) (by decide) nofun (fun _ => hsign '+' hb)

/-- A postfix operator with its operand. -/
theorem Spells.postfixed {op : UnaryOp} {t : String} {fs : List Form} (hop : op.isPostfix = true)
    (h : Spells EndsNumber t fs) : Spells EndsNumber (unaryText op t) (fs ++ [.of op.text]) := by
  cases op with
  | postIncrement =>
    have hsign : Spells (fun _ => True) "++" [.of "++"] :=
      .delimiter .plusPlus (by decide) (by decide) (by decide)
    exact (h.append hsign fun rest _ =>
      endsNumber_append (c := '+') (by decide) (by decide) (by decide) rest).mono fun _ _ => trivial
  | postDecrement =>
    have hsign : Spells (fun _ => True) "--" [.of "--"] :=
      .delimiter .minusMinus (by decide) (by decide) (by decide)
    exact (h.append hsign fun rest _ =>
      endsNumber_append (c := '-') (by decide) (by decide) (by decide) rest).mono fun _ _ => trivial
  | _ => exact absurd hop (by decide)

theorem forall₂_concat {α β : Type} {R : α → β → Prop} {as : List α} {bs : List β} {a : α} {b : β}
    (h : List.Forall₂ R as bs) (hab : R a b) : List.Forall₂ R (as ++ [a]) (bs ++ [b]) := by
  induction h with
  | nil => exact .cons hab .nil
  | cons hr _ ih => exact .cons hr ih

/-- The text of an operator expression is read as its tokens. -/
theorem spelled_code {n : Nat} (h : e.OperatorForm n) : e.Spelled depth := by
  have hword {e : Expr} (word : String) (h : Text.isWord word = true) :
      Spells e.Ends word [.of word] := (Spells.word h).mono fun _ hrest => hrest.1
  induction h with
  | @number _ _ x h =>
    intro rest gs hrest hl
    obtain ⟨m, q, hx⟩ := h.finite
    rw [Expr.code, Code.Expr.text, literalText_number h]
    refine hl.number (Number.isPlain_text hx) hrest.1 fun hdigits => ?_
    have hloose : (Expr.literal default (.number x)).isLooseObject = true := by
      rw [Expr.isLooseObject, swallowsDot, ← literalText, literalText_number h,
        List.all_eq_true.2 hdigits, Bool.true_or]
    exact Expr.endsNumber_of_ends hrest hloose
  | string value => exact fun _ _ _ hl => hl.string value
  | boolean value =>
    cases value with
    | false => exact hword "false" (by decide +kernel)
    | true => exact hword "true" (by decide +kernel)
  | null => exact hword "null" (by decide +kernel)
  | ident h => exact hword _ h.word
  | this => exact hword "this" (by decide +kernel)
  | @binary _ _ a b op _ _ _ iha ihb =>
    have hp : binaryPower op < powerOfMember := by cases op <;> decide
    exact .of_lt ((iha.guarded _).infixed (isSpelling_binaryOp op) (ihb.guarded _)) hp
  | @unary _ _ op a _ ha iha =>
    have hp : (Expr.unary default op a).code.power < powerOfMember := by
      show (if op.isPostfix then powerOfPostfix else powerOfUnary) < powerOfMember
      split <;> decide
    refine .of_lt ?_ hp
    by_cases hop : op.isPostfix = true
    · have h := (iha.guarded powerOfPostfix).postfixed hop
      simpa only [Expr.code, Expr.forms, Code.Expr.text, hop, if_true] using h
    · have h := (iha.guarded powerOfUnary).prefixed (by simpa using hop)
        ((starts_code ha).guarded _ _)
      simpa only [Expr.code, Expr.forms, Code.Expr.text, hop, Bool.false_eq_true, if_false] using h
  | @await _ _ a _ iha =>
    have hop : Text.isWord "await" = true := by decide +kernel
    have h : Spells EndsNumber ("await" ++ " " ++ a.code.guarded powerOfUnary (a.code.text depth))
        (.of "await" :: enclosed (a.isLooser powerOfUnary) a.forms) :=
      (iha.guarded powerOfUnary).after (.inr hop)
    refine .of_lt ?_ (show powerOfUnary < powerOfMember by decide)
    simpa only [Expr.code, Expr.forms, Code.Expr.text, show "await " = "await" ++ " " by decide]
      using h
  | assign _ _ _ iha ihb =>
    exact .of_lt ((iha.guarded _).infixed (.inl (isSpelling_assignOp _)) (ihb.guarded _))
      (show powerOfAssignment < powerOfMember by decide)
  | conditional _ _ _ iha ihb ihc =>
    have hopen : "?" ∈ operators.map Prod.fst := by decide
    have hmid : ":" ∈ operators.map Prod.fst := by decide
    have h := ((iha.guarded (powerOfConditional + 1)).infixed (.inl hopen)
      ((ihb.guarded powerOfAssignment).infixed (.inl hmid) (ihc.guarded powerOfAssignment)))
    refine .of_lt ?_ (show powerOfConditional < powerOfMember by decide)
    simpa only [Expr.code, Expr.forms, Code.Expr.text, String.append_assoc,
      show " ? " = " " ++ ("?" ++ " ") by decide, show " : " = " " ++ (":" ++ " ") by decide] using h
  | @member _ _ a name hname _ iha =>
    have hpoint : Spells EndsWord ("." ++ name.text) [.of ".", .of name.text] :=
      .named (by decide) hname
    have h := iha.object.append hpoint fun rest _ =>
      endsWord_append (c := '.') (by simp) (by decide) rest
    refine .of_endsWord ?_
    simpa only [Expr.code, Expr.forms, Code.Expr.text, String.append_assoc] using h
  | @optionalMember _ _ a name hname _ iha =>
    have hmark : Spells EndsWord ("?." ++ name.text) [.of "?.", .of name.text] :=
      .named (by decide) hname
    have h := iha.object.append hmark fun rest _ =>
      endsWord_append (c := '?') (by simp) (by decide) rest
    refine .of_endsWord ?_
    simpa only [Expr.code, Expr.forms, Code.Expr.text, String.append_assoc] using h
  | index _ _ iha ihi =>
    have h := iha.object.append ihi.bracketed fun rest _ =>
      endsWord_append (c := '[') (by simp) (by decide) rest
    refine .of_true ?_
    simpa only [Expr.code, Expr.forms, Code.Expr.text, String.append_assoc] using h
  | optionalIndex _ _ iha ihi =>
    have h := iha.object.append (ihi.bracketed.optional (by simp; decide)) fun rest _ =>
      endsWord_append (c := '?') (by simp) (by decide) rest
    refine .of_true ?_
    simpa only [Expr.code, Expr.forms, Code.Expr.text, String.append_assoc,
      show "?.[" = "?." ++ "[" by decide] using h
  | call _ _ ihf ihargs =>
    have h := (ihf.guarded powerOfMember).append (Expr.Spelled.arguments ihargs) fun rest _ =>
      endsNumber_append (c := '(') (by simp) (by decide) (by decide) rest
    refine .of_true ?_
    simpa only [Expr.code, Expr.forms, Code.Expr.text, String.append_assoc] using h
  | optionalCall _ _ ihf ihargs =>
    have h := (ihf.guarded powerOfMember).append
      ((Expr.Spelled.arguments ihargs).optional (by simp; decide)) fun rest _ =>
        endsNumber_append (c := '?') (by simp) (by decide) (by decide) rest
    refine .of_true ?_
    simpa only [Expr.code, Expr.forms, Code.Expr.text, String.append_assoc,
      show "?.(" = "?." ++ "(" by decide] using h
  | @array n s es _ ihes =>
    have helements : ∀ e ∈ es, e.Spelled depth := fun e he => by
      by_cases ho : e = .omitted
      · subst ho
        exact fun _ _ _ hl => hl
      · exact ihes e he ho
    have hlist := Expr.Spelled.args helements
    have hall : List.Forall₂ (Spells EndsNumber)
        (if endsInHole (Expr.codes es) then argTexts depth (Expr.codes es) ++ [""]
          else argTexts depth (Expr.codes es))
        (if endsInHole (Expr.codes es) then Expr.argForms es ++ [[]] else Expr.argForms es) := by
      split
      · exact forall₂_concat hlist fun _ _ _ hl => hl
      · exact hlist
    refine .of_true ?_
    exact Spells.lBracket.around (.listed hall) .rBracket fun rest =>
      endsNumber_append (c := ']') (by decide) (by decide) (by decide) rest
  | sequence htwo _ ihes =>
    exact .of_lt (.listed (Expr.Spelled.args ihes)) (show powerOfSequence < powerOfMember by decide)

end TypeStrip
