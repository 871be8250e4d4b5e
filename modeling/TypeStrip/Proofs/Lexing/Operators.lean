import TypeStrip.Text.Blank
import TypeStrip.Proofs.Lexing.Words

/-! Operators: each is read as itself, unless what follows it makes a longer one. -/
namespace TypeStrip.Token
open TypeStrip.Text

def Lexeme.parts (l : Lexeme) : Kind × String × List Char := (l.kind, l.value, l.source)

theorem Lexeme.parts_inj {l m : Lexeme} (h : l.parts = m.parts) : l = m := by
  cases l
  cases m
  simp only [parts, Prod.mk.injEq] at h
  simp [h]

/-- The characters that go on after the given text in some operator. -/
def successors (source : List Char) : List Char :=
  operators.filterMap fun o =>
    if source.isPrefixOf o.1.toList then o.1.toList[source.length]? else none

theorem mem_successors {source : List Char} {c : Char} {o : String × Kind} (ho : o ∈ operators)
    (h : source ++ [c] <+: o.1.toList) : c ∈ successors source := by
  obtain ⟨more, hmore⟩ := h
  refine List.mem_filterMap.2 ⟨o, ho, ?_⟩
  have hfront : source.isPrefixOf o.1.toList = true :=
    List.isPrefixOf_iff_prefix.2 ⟨c :: more, by rw [← hmore]; simp⟩
  rw [if_pos hfront, ← hmore]
  simp

/-- Every operator alone is read as itself, because longer ones are tried first. -/
theorem operator?_self {spelling : String} {kind : Kind} (h : (spelling, kind) ∈ operators) :
    operator? spelling.toList = some ⟨kind, spelling, spelling.toList⟩ := by
  have hall : ∀ o ∈ operators,
      (operator? o.1.toList).map Lexeme.parts = some (o.2, o.1, o.1.toList) := by decide +kernel
  have ho := hall _ h
  obtain ⟨l, hl, hp⟩ := Option.map_eq_some_iff.1 ho
  rw [hl, Lexeme.parts_inj (m := ⟨kind, spelling, spelling.toList⟩) hp]

theorem admits_append {kind : Kind} {c : Char} (hc : kind = .questionDot → c.isDigit = false)
    (front rest : List Char) : admits kind (front ++ c :: rest) = admits kind front := by
  cases front with
  | nil =>
    cases kind with
    | questionDot => simp [admits, hc]
    | _ => rfl
  | cons d front => cases kind <;> rfl

/-- Only one operator minds a digit after it, and it begins no other. -/
theorem operator_questionDot : ∀ o ∈ operators,
    (o.2 = .questionDot → o.1 = "?.") ∧ ("?.".toList.isPrefixOf o.1.toList = true → o.1 = "?.") := by
  decide +kernel

theorem findSome?_congr {α β : Type} {f g : α → Option β} {as : List α}
    (h : ∀ a ∈ as, f a = g a) : as.findSome? f = as.findSome? g := by
  induction as with
  | nil => rfl
  | cons a as ih =>
    obtain ⟨ha, has⟩ := List.forall_mem_cons.1 h
    rw [List.findSome?_cons, List.findSome?_cons, ha, ih has]

/-- A prefix of a longer text is one of its beginning, unless it reaches over that. -/
theorem prefix_append_cons {source rest spelling : List Char} {c : Char}
    (h : ¬source ++ [c] <+: spelling) : spelling <+: source ++ c :: rest ↔ spelling <+: source := by
  refine ⟨fun hs => ?_, fun hs => hs.trans (List.prefix_append _ _)⟩
  have hc : source ++ [c] <+: source ++ c :: rest := ⟨rest, by simp⟩
  rcases List.prefix_or_prefix_of_prefix hs hc with hs | hs
  · rcases List.prefix_concat_iff.1 hs with rfl | hs
    · exact absurd (List.prefix_refl _) h
    · exact hs
  · exact absurd hs h

/-- What follows an operator does not matter if it makes no longer operator. -/
theorem operator?_append {source : List Char} {c : Char}
    (hc : "?.".toList.isPrefixOf source = true → c.isDigit = false)
    (h : c ∉ successors source) (rest : List Char) :
    operator? (source ++ c :: rest) = operator? source := by
  refine findSome?_congr fun o ho => ?_
  have hlong : ¬source ++ [c] <+: o.1.toList := fun hp => h (mem_successors ho hp)
  have hfront : o.1.toList.isPrefixOf (source ++ c :: rest) = o.1.toList.isPrefixOf source := by
    rw [Bool.eq_iff_iff, List.isPrefixOf_iff_prefix, List.isPrefixOf_iff_prefix,
      prefix_append_cons hlong]
  by_cases hs : o.1.toList.isPrefixOf source = true
  · obtain ⟨more, hmore⟩ := List.isPrefixOf_iff_prefix.1 hs
    have hdigit : o.2 = .questionDot → c.isDigit = false := fun hk =>
      hc ((operator_questionDot o ho).1 hk ▸ hs)
    simp only [hfront, hs, Bool.true_and]
    rw [← hmore, List.append_assoc, List.drop_left, List.drop_left, admits_append hdigit]
  · simp only [hfront, hs, Bool.false_and]

/-- Whether a character leaves an operator in front of it alone. A digit could belong to a number
that starts with the point of the operator, and a slash or a star could open a comment. -/
def leavesAlone (spelling : String) (c : Char) : Bool :=
  !(successors spelling.toList).contains c && !(c.isDigit && (spelling == "." || spelling == "?."))
    && !(spelling == "/" && (c == '/' || c == '*'))

def EndsOperator (spelling : String) (rest : List Char) : Prop :=
  ∀ c cs, rest = c :: cs → leavesAlone spelling c = true

theorem leavesAlone_of {spelling : String} {c : Char} (hs : spelling ≠ "/")
    (hd : c.isDigit = false ∨ spelling ∉ [".", "?."]) (h : c ∉ successors spelling.toList) :
    leavesAlone spelling c = true := by
  simp only [List.mem_cons, List.not_mem_nil, or_false, not_or] at hd
  rcases hd with hd | hd <;> simp [leavesAlone, h, hs, hd]

theorem endsOperator_cons {spelling : String} {c : Char} {cs : List Char}
    (h : leavesAlone spelling c = true) : EndsOperator spelling (c :: cs) :=
  fun _ _ e => (List.cons.inj e).1 ▸ h

theorem EndsOperator.longer {spelling : String} {rest : List Char} (h : EndsOperator spelling rest)
    {c : Char} {cs : List Char} (e : rest = c :: cs) : c ∉ successors spelling.toList := by
  have hc := h c cs e
  simp only [leavesAlone, Bool.and_eq_true, Bool.not_eq_true'] at hc
  exact fun hmem => by simp [hmem] at hc

theorem EndsOperator.digit {spelling : String} {rest : List Char} (h : EndsOperator spelling rest)
    (hs : spelling = "." ∨ spelling = "?.") {c : Char} {cs : List Char} (e : rest = c :: cs) :
    c.isDigit = false := by
  have hc := h c cs e
  simp only [leavesAlone, Bool.and_eq_true, Bool.not_eq_true', Bool.and_eq_false_iff] at hc
  refine hc.1.2.resolve_right fun hn => ?_
  rcases hs with rfl | rfl <;> exact absurd hn (by decide)

/-- No operator starts like another lexeme or like a gap, or has a digit in it. -/
theorem operator_chars : ∀ o ∈ operators,
    (∀ c ∈ o.1.toList.head?, ¬(c = '"' ∨ c = '\'') ∧ c ≠ '`' ∧ isWordStart c = false) ∧
      ∀ c ∈ o.1.toList, c.isDigit = false ∧ isBlank c = false := by
  have hall : (operators.all fun o =>
      (o.1.toList.head?.all fun c => !(c == '"' || c == '\'') && c != '`' && !isWordStart c) &&
        o.1.toList.all fun c => !c.isDigit && !isBlank c) = true := by
    decide +kernel
  simpa [and_assoc, Option.all_eq_true] using hall

theorem operator_ne_nil : ∀ o ∈ operators, o.1.toList ≠ [] := by decide +kernel

/-- A blank leaves every operator alone. -/
theorem leavesAlone_blank : ∀ o ∈ operators, leavesAlone o.1 ' ' = true := by decide +kernel

/-- No operator opens a comment. -/
theorem operator_slash : ∀ o ∈ operators,
    o.1.toList.head? = some '/' → o.1 = "/" ∨ o.1.toList = ['/', '='] := by
  decide +kernel

/-- An operator opens no comment in front of what leaves it alone. -/
theorem EndsOperator.slash {spelling : String} {kind : Kind} (hmem : (spelling, kind) ∈ operators)
    {cs rest : List Char} (hs : spelling.toList = '/' :: cs) (h : EndsOperator spelling rest) :
    ∀ c ds, cs ++ rest = c :: ds → c ≠ '/' ∧ c ≠ '*' := by
  intro c ds e
  rcases operator_slash _ hmem (by simp [hs]) with rfl | hs'
  · have hnil : cs = [] := (List.cons.inj (hs.symm.trans (by decide : "/".toList = ['/']))).2
    subst hnil
    have hc := h c ds e
    constructor <;> rintro rfl <;> exact absurd hc (by decide)
  · have hcs : cs = ['='] := (List.cons.inj (hs.symm.trans hs')).2
    subst hcs
    rw [← (List.cons.inj e).1]
    decide

/-- An operator in front of what does not make it longer is read as itself. -/
theorem lexeme_operator {spelling : String} {kind : Kind} (hmem : (spelling, kind) ∈ operators)
    {c : Char} {cs rest : List Char} (hs : spelling.toList = c :: cs)
    (hrest : EndsOperator spelling rest) :
    lexeme c (cs ++ rest) = ⟨kind, spelling, spelling.toList⟩ := by
  obtain ⟨hhead, hdigits⟩ := operator_chars _ hmem
  obtain ⟨hquote, htemplate, hword⟩ := hhead c (by simp [hs])
  have hdigit : c.isDigit = false := (hdigits c (by simp [hs])).1
  have hpoint : ¬(c = '.' ∧ (cs ++ rest).head?.any Char.isDigit = true) := by
    rintro ⟨rfl, hp⟩
    obtain ⟨d, hd, hp⟩ := (Option.any_eq_true _ _).1 hp
    have hd' : d.isDigit = false := by
      cases cs with
      | nil =>
        obtain ⟨ds, rfl⟩ := List.head?_eq_some_iff.1 hd
        have hspelling : spelling = "." := String.toList_inj.1 hs
        exact hrest.digit (.inl hspelling) rfl
      | cons e cs => exact (hdigits d (by simp_all)).1
    rw [hd'] at hp
    exact absurd hp (by decide)
  have hop : operator? (c :: (cs ++ rest)) = some ⟨kind, spelling, spelling.toList⟩ := by
    rw [← List.cons_append, ← hs]
    cases rest with
    | nil => rw [List.append_nil, operator?_self hmem]
    | cons d ds =>
      have hquestion : "?.".toList.isPrefixOf spelling.toList = true → d.isDigit = false := fun hp =>
        hrest.digit (.inr ((operator_questionDot _ hmem).2 hp)) rfl
      rw [operator?_append hquestion (hrest.longer rfl), operator?_self hmem]
  rw [lexeme, if_neg hquote, if_neg htemplate, hdigit, if_neg (by decide), hword,
    if_neg (by decide), if_neg hpoint, hop, Option.getD_some]

end TypeStrip.Token
