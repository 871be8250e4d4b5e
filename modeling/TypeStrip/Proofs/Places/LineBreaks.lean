import TypeStrip.Proofs.Places.Tiling

/-!
Which line breaks between two tokens are recorded: every line feed, and the separators of lines
and of paragraphs outside comments.
-/
namespace TypeStrip.Token
open TypeStrip.Text

def IsSeparator (c : Char) : Prop := c = '\u2028' ∨ c = '\u2029'

/-- A separator outside comments: there are only blanks and complete comments before it. -/
def GapMode.Separates (mode : GapMode) (text : List Char) : Prop :=
  ∃ before c after, text = before ++ c :: after ∧ mode.Fills false before ∧ IsSeparator c

/-- A line break that is recorded: a line feed, or a separator outside comments. -/
def GapMode.Breaks (mode : GapMode) (text : List Char) : Prop :=
  '\n' ∈ text ∨ mode.Separates text

/-- Blanks and comments between two tokens that put the second one on a new line. -/
def BreaksLine (text : List Char) : Prop :=
  '\n' ∈ text ∨ ∃ before c after, text = before ++ c :: after ∧ IsFiller false before ∧
    IsSeparator c

/-! ### One step -/

variable {c : Char} {cs front text : List Char} {mode mode' : GapMode} {first : Nat}

theorem IsSeparator.isBlank (h : IsSeparator c) : isBlank c = true := by
  rcases h with rfl | rfl <;> decide

theorem isLineBreak_iff : isLineBreak c = true ↔ c = '\n' ∨ IsSeparator c := by
  simp [isLineBreak, IsSeparator, or_assoc]

/-- Line breaks in characters that are read in one mode and in what follows them, where another mode
goes on. -/
theorem GapMode.breaks_append (hfills : ∀ before, before <+: text →
      (mode.Fills false (front ++ before) ↔ mode'.Fills false before)) :
    mode.Breaks (front ++ text) ↔ mode.Breaks front ∨ mode'.Breaks text := by
  have hseparates :
      mode.Separates (front ++ text) ↔ mode.Separates front ∨ mode'.Separates text := by
    constructor
    · rintro ⟨before, c, after, htext, hbefore, hc⟩
      rcases List.append_eq_append_iff.1 htext with ⟨more, rfl, hmore⟩ | ⟨more, hmore, hafter⟩
      · exact .inr ⟨more, c, after, hmore, (hfills more ⟨c :: after, hmore.symm⟩).1 hbefore, hc⟩
      · cases more with
        | nil =>
          rw [List.append_nil] at hmore
          subst hmore
          refine .inr ⟨[], c, after, hafter.symm, (hfills [] List.nil_prefix).1 ?_, hc⟩
          rwa [List.append_nil]
        | cons d more =>
          obtain ⟨rfl, -⟩ := List.cons.inj hafter
          exact .inl ⟨before, c, more, hmore, hbefore, hc⟩
    · rintro (⟨before, c, after, rfl, hbefore, hc⟩ | ⟨before, c, after, rfl, hbefore, hc⟩)
      · exact ⟨before, c, after ++ text, by simp, hbefore, hc⟩
      · exact ⟨front ++ before, c, after, by rw [List.append_assoc],
          (hfills before (List.prefix_append _ _)).2 hbefore, hc⟩
  rw [Breaks, Breaks, Breaks, hseparates, List.mem_append, or_or_or_comm]

theorem GapMode.breaks_singleton :
    mode.Breaks [c] ↔ c = '\n' ∨ mode.Fills false [] ∧ IsSeparator c := by
  have hseparates : mode.Separates [c] ↔ mode.Fills false [] ∧ IsSeparator c := by
    constructor
    · rintro ⟨before, d, after, htext, hbefore, hd⟩
      obtain ⟨rfl, hc, -⟩ : before = [] ∧ d = c ∧ after = [] := by
        simpa [and_assoc] using List.append_eq_cons_iff.1 htext.symm
      exact ⟨hbefore, hc ▸ hd⟩
    · exact fun ⟨hnil, hc⟩ => ⟨[], c, [], rfl, hnil, hc⟩
  rw [Breaks, hseparates, List.mem_singleton, eq_comm]

theorem GapMode.not_breaks_of_forall (h : ∀ c ∈ text, c ≠ '\n' ∧ ¬IsSeparator c) :
    ¬mode.Breaks text := by
  rintro (hmem | ⟨before, c, after, rfl, -, hc⟩)
  · exact (h _ hmem).1 rfl
  · exact (h c (List.mem_append_right _ List.mem_cons_self)).2 hc

theorem not_fills_line_nil : ¬GapMode.line.Fills false [] := by
  rintro (⟨text, rest, h, -⟩ | ⟨h, -⟩)
  · simp at h
  · cases h

theorem not_fills_block_nil : ¬(GapMode.block first).Fills false [] := by
  rintro ⟨text, rest, h, -⟩
  simp at h

theorem fills_line_cons (hc : c ≠ '\n') :
    GapMode.line.Fills false (c :: text) ↔ GapMode.line.Fills false text := by
  refine ⟨fun h => ?_, GapMode.fills_line_cons hc⟩
  rcases h with ⟨inside, rest, h, hinside, hrest⟩ | ⟨h, -⟩
  · cases inside with
    | nil => exact absurd (List.cons.inj h).1 hc
    | cons d inside =>
      exact .inl ⟨inside, rest, (List.cons.inj h).2,
        fun hmem => hinside (List.mem_cons_of_mem _ hmem), hrest⟩
  · cases h

theorem fills_block_close :
    (GapMode.block first).Fills false ('*' :: '/' :: text) ↔ GapMode.blank.Fills false text := by
  refine ⟨fun h => ?_, fun h => ⟨[], text, rfl, by simp, h⟩⟩
  obtain ⟨inside, rest, h, hinside, hrest⟩ := h
  match inside with
  | [] =>
    obtain ⟨-, htext⟩ := List.cons.inj (List.cons.inj h).2
    exact htext ▸ hrest
  | [d] => simp at h
  | d :: e :: inside =>
    obtain ⟨hd, htail⟩ := List.cons.inj h
    obtain ⟨he, -⟩ := List.cons.inj htail
    exact absurd ⟨[], inside, by rw [← hd, ← he]; rfl⟩ hinside

theorem fills_block_cons (hc : c = '*' → ∀ ds, cs ≠ '/' :: ds) (hp : text <+: cs) :
    (GapMode.block first).Fills false (c :: text) ↔ (GapMode.block first).Fills false text := by
  refine ⟨fun h => ?_, GapMode.fills_block_cons hc hp⟩
  obtain ⟨inside, rest, h, hinside, hrest⟩ := h
  cases inside with
  | nil =>
    obtain ⟨rfl, rfl⟩ := List.cons.inj h
    obtain ⟨after, rfl⟩ := hp
    exact absurd rfl (hc rfl _)
  | cons d inside =>
    obtain ⟨rfl, rfl⟩ := List.cons.inj h
    exact ⟨inside, rest, rfl, fun hclose => hinside (hclose.trans (List.suffix_cons _ _).isInfix),
      hrest⟩

/-- The ways blanks and complete comments can start. -/
theorem IsFiller.cons_cases (h : IsFiller false (c :: text)) :
    (isBlank c = true ∧ IsFiller false text) ∨
      (∃ rest, c = '/' ∧ text = '/' :: rest ∧ GapMode.line.Fills false rest) ∨
      ∃ rest, c = '/' ∧ text = '*' :: rest ∧ (GapMode.block 0).Fills false rest := by
  generalize ht : c :: text = t at h
  cases h with
  | nil => cases ht
  | blank hc h =>
    obtain ⟨rfl, rfl⟩ := List.cons.inj ht
    exact .inl ⟨hc, h⟩
  | line hi h =>
    obtain ⟨rfl, rfl⟩ := List.cons.inj ht
    exact .inr (.inl ⟨_, rfl, rfl, .inl ⟨_, _, rfl, hi, h⟩⟩)
  | lastLine _ h => cases h
  | block hi h =>
    obtain ⟨rfl, rfl⟩ := List.cons.inj ht
    exact .inr (.inr ⟨_, rfl, rfl, _, _, rfl, hi, h⟩)

theorem fills_blank_cons (hc : isBlank c = true) :
    GapMode.blank.Fills false (c :: text) ↔ GapMode.blank.Fills false text := by
  refine ⟨fun h => ?_, .blank hc⟩
  rcases IsFiller.cons_cases h with ⟨-, h⟩ | ⟨rest, rfl, -⟩ | ⟨rest, rfl, -⟩
  · exact h
  · exact absurd hc (by decide)
  · exact absurd hc (by decide)

theorem fills_blank_line :
    GapMode.blank.Fills false ('/' :: '/' :: text) ↔ GapMode.line.Fills false text := by
  refine ⟨fun h => ?_, GapMode.fills_blank_line⟩
  rcases IsFiller.cons_cases h with ⟨hc, -⟩ | ⟨rest, -, h, hrest⟩ | ⟨rest, -, h, -⟩
  · exact absurd hc (by decide)
  · exact (List.cons.inj h).2 ▸ hrest
  · simp at h

theorem fills_blank_block :
    GapMode.blank.Fills false ('/' :: '*' :: text) ↔ (GapMode.block first).Fills false text := by
  refine ⟨fun h => ?_, GapMode.fills_blank_block⟩
  rcases IsFiller.cons_cases h with ⟨hc, -⟩ | ⟨rest, -, h, -⟩ | ⟨rest, -, h, hrest⟩
  · exact absurd hc (by decide)
  · simp at h
  · exact (List.cons.inj h).2 ▸ hrest

/-! ### A gap -/

/-- What is recorded at the end of a gap: what was recorded at its start, or a line break in it. -/
theorem newline_iff_of_gap {start stop : Nat} {before after : Bool} {rest : List Char}
    (h : gap mode start before cs = .reached stop after rest) :
    ∃ passed, cs = passed ++ rest ∧ (after = true ↔ before = true ∨ mode.Breaks passed) := by
  have hslashes {mode : GapMode} {d : Char} (hd : d = '/' ∨ d = '*') : ¬mode.Breaks ['/', d] :=
    GapMode.not_breaks_of_forall (by rcases hd with rfl | rfl <;> simp [IsSeparator])
  fun_induction gap mode start before cs with
  | case1 => cases h
  | case2 mode start before =>
    cases h
    exact ⟨[], rfl, (or_iff_left (GapMode.not_breaks_of_forall (List.forall_mem_nil _))).symm⟩
  | case3 start before cs ih =>
    obtain ⟨passed, rfl, hiff⟩ := ih h
    exact ⟨'\n' :: passed, rfl, by simp [hiff, GapMode.Breaks]⟩
  | case4 start before c cs hc ih =>
    obtain ⟨passed, rfl, hiff⟩ := ih h
    have hstep : GapMode.line.Breaks ([c] ++ passed) ↔ GapMode.line.Breaks passed := by
      rw [GapMode.breaks_append fun _ _ => fills_line_cons hc, GapMode.breaks_singleton]
      simp [hc, not_fills_line_nil]
    exact ⟨[c] ++ passed, rfl, by rw [hstep, hiff]⟩
  | case5 first start before cs ih =>
    obtain ⟨passed, rfl, hiff⟩ := ih h
    have hstep : (GapMode.block first).Breaks (['*', '/'] ++ passed) ↔
        GapMode.blank.Breaks passed := by
      rw [GapMode.breaks_append fun _ _ => fills_block_close, or_iff_right]
      exact GapMode.not_breaks_of_forall (by simp [IsSeparator])
    exact ⟨['*', '/'] ++ passed, rfl, by rw [hstep, hiff]⟩
  | case6 first start before c cs hc ih =>
    obtain ⟨passed, hcs, hiff⟩ := ih h
    have hstep : (GapMode.block first).Breaks ([c] ++ passed) ↔
        c = '\n' ∨ (GapMode.block first).Breaks passed := by
      rw [GapMode.breaks_append fun _ hp => fills_block_cons
        (fun hstar ds hds => hc ds hstar hds) (hp.trans ⟨rest, hcs.symm⟩), GapMode.breaks_singleton]
      simp [not_fills_block_nil]
    exact ⟨[c] ++ passed, by rw [hcs]; rfl, by rw [hstep, hiff]; simp [or_assoc]⟩
  | case7 start before cs ih =>
    obtain ⟨passed, rfl, hiff⟩ := ih h
    have hstep : GapMode.blank.Breaks (['/', '/'] ++ passed) ↔ GapMode.line.Breaks passed := by
      rw [GapMode.breaks_append fun _ _ => fills_blank_line, or_iff_right (hslashes (.inl rfl))]
    exact ⟨['/', '/'] ++ passed, rfl, by rw [hstep, hiff]⟩
  | case8 start before cs ih =>
    obtain ⟨passed, rfl, hiff⟩ := ih h
    have hstep : GapMode.blank.Breaks (['/', '*'] ++ passed) ↔
        (GapMode.block start).Breaks passed := by
      rw [GapMode.breaks_append fun _ _ => fills_blank_block, or_iff_right (hslashes (.inr rfl))]
    exact ⟨['/', '*'] ++ passed, rfl, by rw [hstep, hiff]⟩
  | case9 start before c cs _ _ hc ih =>
    obtain ⟨passed, rfl, hiff⟩ := ih h
    have hnil : GapMode.blank.Fills false [] := .nil
    have hstep : GapMode.blank.Breaks ([c] ++ passed) ↔
        isLineBreak c = true ∨ GapMode.blank.Breaks passed := by
      rw [GapMode.breaks_append fun _ _ => fills_blank_cons hc, GapMode.breaks_singleton,
        and_iff_right hnil, isLineBreak_iff]
    exact ⟨[c] ++ passed, rfl, by rw [hstep, hiff, Bool.or_eq_true, or_assoc]⟩
  | case10 start before c cs _ _ hc =>
    cases h
    exact ⟨[], rfl, (or_iff_left (GapMode.not_breaks_of_forall (List.forall_mem_nil _))).symm⟩

/-- What is recorded in front of a token after blanks and complete comments. -/
theorem newline_iff_of_gap_blank {start stop : Nat} {newline : Bool} {passed rest : List Char}
    (h : gap .blank start false (passed ++ rest) = .reached stop newline rest) :
    newline = true ↔ BreaksLine passed := by
  obtain ⟨passed', hpassed, hiff⟩ := newline_iff_of_gap h
  rw [hiff, List.append_cancel_right hpassed]
  exact or_iff_right Bool.false_ne_true

/-! ### Tokens -/

def endOfTokens : Nat → List Token → Nat
  | start, [] => start
  | _, t :: ts => endOfTokens t.span.stop ts

def IsOpenComment (t : Token) : Prop :=
  t.kind = .error ∧ t.value = "Unterminated multi-line comment"

theorem eq_of_singleton_eq {front back : List Token} {a t : Token} (h : [a] = front ++ t :: back) :
    front = [] ∧ t = a ∧ back = [] := by
  cases front with
  | nil =>
    obtain ⟨rfl, rfl⟩ := List.cons.inj h
    exact ⟨rfl, rfl, rfl⟩
  | cons e front => simp at h

theorem IsFiller.weaken (h : IsFiller false text) (last : Bool) : IsFiller last text := by
  induction h with
  | nil => exact .nil
  | blank hc _ ih => exact .blank hc ih
  | line ht _ ih => exact .line ht ih
  | lastLine _ hl => cases hl
  | block ht _ ih => exact .block ht ih

theorem not_breaksLine_nil : ¬BreaksLine [] :=
  show ¬GapMode.blank.Breaks [] from GapMode.not_breaks_of_forall (List.forall_mem_nil _)

/-- What holds of the tokens of a text that starts at the given byte of a file. -/
theorem newlineBefore_tokensFrom (file start : Nat) (cs : List Char) :
    ∀ front t back, tokensFrom file start cs = front ++ t :: back →
      ∃ text, Stretch start cs (endOfTokens start front) t.span.start text ∧
        IsFiller back.isEmpty text ∧
        (¬IsOpenComment t → (t.newlineBefore = true ↔ BreaksLine text)) := by
  induction start, cs using tokensFrom_induction_gap file with
  | comment start passed text stop hfill hstop =>
    intro front t back h
    match front with
    | [] =>
      obtain ⟨rfl, rfl⟩ := List.cons.inj h
      exact ⟨passed, stretch_front start passed _, hfill, fun hopen => absurd ⟨rfl, rfl⟩ hopen⟩
    | e :: front =>
      obtain ⟨rfl, htail⟩ := List.cons.inj h
      obtain ⟨rfl, rfl, rfl⟩ := eq_of_singleton_eq htail
      refine ⟨[], ⟨passed ++ '/' :: '*' :: text, [], by simp, hstop, rfl⟩, .nil, fun _ => ?_⟩
      exact iff_of_false Bool.false_ne_true not_breaksLine_nil
  | last start gap newline hfill hgap =>
    intro front t back h
    obtain ⟨rfl, rfl, rfl⟩ := eq_of_singleton_eq h
    rw [← List.append_nil gap] at hgap
    exact ⟨gap, ⟨[], [], by simp, rfl, rfl⟩, hfill, fun _ => newline_iff_of_gap_blank hgap⟩
  | lexeme start gap newline c rest after tokens hfill hgap hafter ih =>
    intro front t back h
    cases front with
    | nil =>
      obtain ⟨rfl, rfl⟩ := List.cons.inj h
      exact ⟨gap, stretch_front start gap _, hfill.weaken _, fun _ => newline_iff_of_gap_blank hgap⟩
    | cons e front =>
      obtain ⟨rfl, htail⟩ := List.cons.inj h
      obtain ⟨text, hstretch, hfiller, hiff⟩ := ih front t back htail
      refine ⟨text, ?_, hfiller, hiff⟩
      rw [← hafter]
      exact .append gap (.append _ hstretch)

/-- Between a token and the one before it there are only blanks and complete comments. The token is
recorded to be on a new line exactly if there is a line feed among them, or a separator outside the
comments. Only for a comment that is not closed nothing is recorded. -/
theorem newlineBefore_iff {source : String} {file base : Nat} {front back : List Token} {t : Token}
    (h : tokenize source file base = front ++ t :: back) :
    ∃ text, Stretch base source.toList (endOfTokens base front) t.span.start text ∧
      IsFiller back.isEmpty text ∧
      (¬IsOpenComment t → (t.newlineBefore = true ↔ BreaksLine text)) :=
  newlineBefore_tokensFrom file base source.toList front t back h

example : (tokenize "a/*\u2028*/b\u2028c\rd/*\n*/e//\u2029" 0 0).map Token.newlineBefore =
    [false, false, true, false, true, false] := by
  decide +kernel

end TypeStrip.Token
