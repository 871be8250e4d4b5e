import TypeStrip.Proofs.Places.Lexemes

/-!
Tokens tile a text: it is made up of them, in order, and of the blanks and comments between them.
-/
namespace TypeStrip.Token
open TypeStrip.Text

/-! ### Values that are spellings -/

/-- The value of a lexeme is its spelling, if its kind is one of those for which it has to be. -/
def Lexeme.IsSpelled (l : Lexeme) : Prop := l.kind.isVerbatim = true → l.value.toList = l.source

variable {l : Lexeme} {c : Char} {cs : List Char}

theorem Lexeme.IsSpelled.of_kind (h : l.kind.isVerbatim = false) : l.IsSpelled := by
  intro hk
  rw [h] at hk
  cases hk

theorem isSpelled_operator? (h : operator? cs = some l) : l.IsSpelled := by
  obtain ⟨o, -, hl⟩ := List.exists_of_findSome?_eq_some h
  dsimp only at hl
  split at hl
  · cases hl
    exact fun _ => rfl
  · cases hl

theorem isSpelled_lexeme (c : Char) (cs : List Char) : (lexeme c cs).IsSpelled := by
  rcases lexeme_cases c cs with hother | ⟨-, hword⟩ | hoperator
  · exact .of_kind hother
  · rw [hword]
    exact fun _ => String.toList_ofList
  · exact isSpelled_operator? hoperator

/-! ### Between tokens -/

/-- Blanks and complete comments. A comment to the end of the line is complete with the line feed
that ends it, or without one if it is the last of the text. -/
inductive IsFiller (last : Bool) : List Char → Prop where
  | nil : IsFiller last []
  | blank {c : Char} {cs : List Char} (hc : isBlank c = true) (h : IsFiller last cs) :
    IsFiller last (c :: cs)
  | line {text cs : List Char} (ht : '\n' ∉ text) (h : IsFiller last cs) :
    IsFiller last ('/' :: '/' :: (text ++ '\n' :: cs))
  | lastLine {text : List Char} (ht : '\n' ∉ text) (hl : last = true) :
    IsFiller last ('/' :: '/' :: text)
  | block {text cs : List Char} (ht : ¬['*', '/'] <:+: text) (h : IsFiller last cs) :
    IsFiller last ('/' :: '*' :: (text ++ '*' :: '/' :: cs))

/-- What goes on after what has been read in a mode, up to a place between tokens. -/
def GapMode.Fills (last : Bool) : GapMode → List Char → Prop
  | .blank, cs => IsFiller last cs
  | .line, cs =>
    (∃ text rest, cs = text ++ '\n' :: rest ∧ '\n' ∉ text ∧ IsFiller last rest) ∨
      (last = true ∧ '\n' ∉ cs)
  | .block _, cs =>
    ∃ text rest, cs = text ++ '*' :: '/' :: rest ∧ ¬['*', '/'] <:+: text ∧ IsFiller last rest

variable {last : Bool} {text : List Char}

theorem GapMode.fills_line_cons (hc : c ≠ '\n') (h : GapMode.line.Fills last text) :
    GapMode.line.Fills last (c :: text) := by
  rcases h with ⟨text, rest, rfl, ht, hrest⟩ | ⟨hl, ht⟩
  · exact .inl ⟨c :: text, rest, rfl, by simp [ht, hc.symm], hrest⟩
  · exact .inr ⟨hl, by simp [ht, hc.symm]⟩

/-- A character goes on with a comment if it does not close it together with the one after it. -/
theorem GapMode.fills_block_cons {first : Nat} (hc : c = '*' → ∀ ds, cs ≠ '/' :: ds)
    (hp : text <+: cs) (h : (GapMode.block first).Fills last text) :
    (GapMode.block first).Fills last (c :: text) := by
  obtain ⟨text, rest, rfl, ht, hrest⟩ := h
  refine ⟨c :: text, rest, rfl, fun hinfix => ?_, hrest⟩
  rcases List.infix_cons_iff.1 hinfix with hprefix | hinfix
  · obtain ⟨hstar, hprefix⟩ := List.cons_prefix_cons.1 hprefix
    obtain ⟨tail, rfl⟩ := hprefix
    obtain ⟨after, rfl⟩ := hp
    exact hc hstar.symm _ rfl
  · exact ht hinfix

theorem GapMode.fills_blank_line (h : GapMode.line.Fills last text) :
    GapMode.blank.Fills last ('/' :: '/' :: text) := by
  rcases h with ⟨text, rest, rfl, ht, hrest⟩ | ⟨hl, ht⟩
  · exact .line ht hrest
  · exact .lastLine ht hl

theorem GapMode.fills_blank_block {first : Nat} (h : (GapMode.block first).Fills last text) :
    GapMode.blank.Fills last ('/' :: '*' :: text) := by
  obtain ⟨text, rest, rfl, ht, hrest⟩ := h
  exact .block ht hrest

/-- A comment that starts at the given byte is not closed: it is the one that is being read, or it
starts after blanks and complete comments. -/
def GapMode.Opens (mode : GapMode) (start : Nat) (cs : List Char) (first : Nat) : Prop :=
  mode = .block first ∨ ∃ passed text, cs = passed ++ '/' :: '*' :: text ∧
    first = start + byteCount passed ∧ mode.Fills false passed

/-- What a gap reaches comes after blanks and complete comments, and so does a comment that is not
closed. -/
def Gap.Follows (g : Gap) (mode : GapMode) (start : Nat) (cs : List Char) : Prop :=
  match g with
  | .reached stop _ rest =>
    ∃ passed, cs = passed ++ rest ∧ stop = start + byteCount passed ∧
      mode.Fills rest.isEmpty passed
  | .openComment first stop => stop = start + byteCount cs ∧ mode.Opens start cs first

theorem GapMode.opens_of_blank {mode : GapMode} {start : Nat} {cs : List Char} (first : Nat)
    (h : GapMode.blank = .block first) : mode.Opens start cs first := by
  cases h

theorem GapMode.opens_of_line {mode : GapMode} {start : Nat} {cs : List Char} (first : Nat)
    (h : GapMode.line = .block first) : mode.Opens start cs first := by
  cases h

/-- A gap that goes on in another mode after some characters. -/
theorem Gap.Follows.after {g : Gap} {mode mode' : GapMode} {start : Nat} (front : List Char)
    {cs : List Char} (h : g.Follows mode' (start + byteCount front) cs)
    (hfills : ∀ last passed, passed <+: cs → mode'.Fills last passed →
      mode.Fills last (front ++ passed))
    (hopens : ∀ first, mode' = .block first → mode.Opens start (front ++ cs) first) :
    g.Follows mode start (front ++ cs) := by
  cases g with
  | reached stop newline rest =>
    obtain ⟨passed, hcs, hs, hp⟩ := h
    refine ⟨front ++ passed, by rw [hcs, List.append_assoc], ?_, ?_⟩
    · rw [hs, byteCount_append, Nat.add_assoc]
    · exact hfills _ _ ⟨rest, hcs.symm⟩ hp
  | openComment first stop =>
    obtain ⟨hs, h⟩ := h
    refine ⟨by rw [hs, byteCount_append, Nat.add_assoc], ?_⟩
    rcases h with h | ⟨passed, text, hcs, hf, hp⟩
    · exact hopens first h
    · refine .inr ⟨front ++ passed, text, by rw [hcs, List.append_assoc], ?_, ?_⟩
      · rw [hf, byteCount_append, Nat.add_assoc]
      · exact hfills _ _ ⟨_, hcs.symm⟩ hp

theorem follows_gap (mode : GapMode) (start : Nat) (newline : Bool) (cs : List Char) :
    (gap mode start newline cs).Follows mode start cs := by
  fun_induction gap mode start newline cs with
  | case1 first start newline => exact ⟨rfl, .inl rfl⟩
  | case2 mode start newline hmode =>
    refine ⟨[], rfl, rfl, ?_⟩
    cases mode with
    | blank => exact .nil
    | line => exact .inr ⟨rfl, List.not_mem_nil⟩
    | block first => exact absurd rfl (hmode first)
  | case3 start newline cs ih =>
    exact .after ['\n'] ih (fun _ passed _ h => .inl ⟨[], passed, rfl, List.not_mem_nil, h⟩)
      GapMode.opens_of_blank
  | case4 start newline c cs hc ih =>
    exact .after [c] ih (fun _ _ _ h => GapMode.fills_line_cons hc h) GapMode.opens_of_line
  | case5 first start newline cs ih =>
    exact .after ['*', '/'] ih (fun _ passed _ h => ⟨[], passed, rfl, by simp, h⟩)
      GapMode.opens_of_blank
  | case6 first start newline c cs hc ih =>
    refine .after [c] ih (fun _ _ hp h => GapMode.fills_block_cons ?_ hp h) fun _ h => .inl h
    rintro hstar ds rfl
    exact hc ds hstar rfl
  | case7 start newline cs ih =>
    exact .after ['/', '/'] ih (fun _ _ _ h => GapMode.fills_blank_line h) GapMode.opens_of_line
  | case8 start newline cs ih =>
    refine .after ['/', '*'] ih (fun _ _ _ h => GapMode.fills_blank_block h) fun first h => ?_
    cases h
    exact .inr ⟨[], cs, rfl, rfl, .nil⟩
  | case9 start newline c cs _ _ hc ih =>
    exact .after [c] ih (fun _ _ _ h => .blank hc h) GapMode.opens_of_blank
  | case10 start newline c cs _ _ hc => exact ⟨[], rfl, rfl, .nil⟩

/-! ### Tiles -/

/-- What holds of the tokens of every text: of those of a text that ends in a comment that is not
closed, of the mark of the end, and of the token of a lexeme before other tokens. The last two come
after a gap that has been passed over. -/
theorem tokensFrom_induction_gap (file : Nat) {motive : Nat → List Char → List Token → Prop}
    (comment : ∀ start passed text stop, IsFiller false passed →
      stop = start + byteCount (passed ++ '/' :: '*' :: text) →
      motive start (passed ++ '/' :: '*' :: text)
        [⟨.error, ⟨start + byteCount passed, stop, file⟩, "Unterminated multi-line comment", false⟩,
          ⟨.eof, ⟨stop, stop, file⟩, "", false⟩])
    (last : ∀ start gap newline, IsFiller true gap →
      Token.gap .blank start false gap = .reached (start + byteCount gap) newline [] →
      motive start gap [⟨.eof, ⟨start + byteCount gap, start + byteCount gap, file⟩, "", newline⟩])
    (lexeme : ∀ start gap newline c rest after tokens, IsFiller false gap →
      Token.gap .blank start false (gap ++ c :: rest) =
        .reached (start + byteCount gap) newline (c :: rest) →
      (lexeme c rest).source ++ after = c :: rest →
      motive (start + byteCount gap + byteCount (lexeme c rest).source) after tokens →
      motive start (gap ++ c :: rest) (⟨(lexeme c rest).kind, ⟨start + byteCount gap,
        start + byteCount gap + byteCount (lexeme c rest).source, file⟩, (lexeme c rest).value,
        newline⟩ :: tokens))
    (start : Nat) (cs : List Char) : motive start cs (tokensFrom file start cs) := by
  induction hn : cs.length using Nat.strongRecOn generalizing cs start with
  | ind n ih =>
    have hgap := follows_gap .blank start false cs
    rw [tokensFrom_eq]
    split
    · rename_i first stop hg
      rw [hg] at hgap
      obtain ⟨hstop, h | ⟨passed, text, rfl, rfl, hfill⟩⟩ := hgap
      · cases h
      · exact comment start passed text stop hfill hstop
    · rename_i position newline hg
      rw [hg] at hgap
      obtain ⟨passed, hcs, rfl, hfill⟩ := hgap
      rw [List.append_nil] at hcs
      subst hcs
      exact last start cs newline hfill hg
    · rename_i position newline c rest hg
      rw [hg] at hgap
      obtain ⟨passed, rfl, rfl, hfill⟩ := hgap
      have hl := starts_lexeme c rest
      obtain ⟨after, hafter⟩ := hl.source
      have hdrop : rest.drop ((Token.lexeme c rest).source.length - 1) = after := by
        obtain ⟨d, ds, hds⟩ := List.exists_cons_of_ne_nil hl.nonempty
        rw [hds, List.cons_append] at hafter
        rw [hds, ← (List.cons.inj hafter).2, List.length_cons, Nat.add_sub_cancel, List.drop_left]
      have hlength : after.length < n := by
        have hpos := List.length_pos_iff.2 hl.nonempty
        rw [← hn, List.length_append, ← hafter, List.length_append]
        omega
      dsimp only
      rw [hdrop]
      exact lexeme start passed newline c rest after _ hfill hg hafter (ih _ hlength _ _ rfl)

/-- What holds of the tokens of every text, wherever there are line breaks. -/
theorem tokensFrom_induction (file : Nat) {motive : Nat → List Char → List Token → Prop}
    (comment : ∀ start passed text stop, IsFiller false passed →
      stop = start + byteCount (passed ++ '/' :: '*' :: text) →
      motive start (passed ++ '/' :: '*' :: text)
        [⟨.error, ⟨start + byteCount passed, stop, file⟩, "Unterminated multi-line comment", false⟩,
          ⟨.eof, ⟨stop, stop, file⟩, "", false⟩])
    (last : ∀ start gap newline, IsFiller true gap → motive start gap
      [⟨.eof, ⟨start + byteCount gap, start + byteCount gap, file⟩, "", newline⟩])
    (lexeme : ∀ start gap newline c rest after tokens, IsFiller false gap →
      (lexeme c rest).source ++ after = c :: rest →
      motive (start + byteCount gap + byteCount (lexeme c rest).source) after tokens →
      motive start (gap ++ c :: rest) (⟨(lexeme c rest).kind, ⟨start + byteCount gap,
        start + byteCount gap + byteCount (lexeme c rest).source, file⟩, (lexeme c rest).value,
        newline⟩ :: tokens))
    (start : Nat) (cs : List Char) : motive start cs (tokensFrom file start cs) :=
  tokensFrom_induction_gap file comment
    (fun start gap newline hfill _ => last start gap newline hfill)
    (fun start gap newline c rest after tokens hfill _ =>
      lexeme start gap newline c rest after tokens hfill) start cs

/-- Tokens tile a text that starts at the given byte of a file: blanks and comments, the text of
the first token, and so on up to the mark of the end. -/
inductive Tiles (file : Nat) : Nat → List Char → List Token → Prop where
  | last {start : Nat} {gap : List Char} {t : Token} (hg : IsFiller true gap) (hk : t.kind = .eof)
    (hs : t.span = ⟨start + byteCount gap, start + byteCount gap, file⟩) : Tiles file start gap [t]
  | cons {start : Nat} {gap text rest : List Char} {t : Token} {ts : List Token}
    (hg : IsFiller false gap) (hn : text ≠ []) (hk : t.kind ≠ .eof)
    (hs : t.span =
      ⟨start + byteCount gap, start + byteCount gap + byteCount text, file⟩)
    (hv : t.kind.isVerbatim = true → t.value.toList = text)
    (h : Tiles file (start + byteCount gap + byteCount text) rest ts) :
    Tiles file start (gap ++ (text ++ rest)) (t :: ts)

theorem tiles_tokensFrom (file start : Nat) (cs : List Char) :
    Tiles file start cs (tokensFrom file start cs) := by
  induction start, cs using tokensFrom_induction file with
  | comment start passed text stop hfill hstop =>
    rw [byteCount_append, ← Nat.add_assoc] at hstop
    have htiles : Tiles file start (passed ++ ('/' :: '*' :: text ++ []))
        [⟨.error, ⟨start + byteCount passed, stop, file⟩, "Unterminated multi-line comment",
          false⟩, ⟨.eof, ⟨stop, stop, file⟩, "", false⟩] := by
      refine .cons hfill (List.cons_ne_nil _ _) (show Kind.error ≠ .eof by decide) (by rw [hstop])
        (fun h => absurd h (show ¬Kind.error.isVerbatim = true by decide)) (.last .nil rfl ?_)
      rw [hstop]
      rfl
    rwa [List.append_nil] at htiles
  | last start gap newline hfill => exact .last hfill rfl rfl
  | lexeme start gap newline c rest after tokens hfill hafter ih =>
    have hl := starts_lexeme c rest
    rw [← hafter]
    exact .cons hfill hl.nonempty hl.kind rfl (isSpelled_lexeme c rest) ih

/-! ### Where tokens lie -/

/-- The text between two bytes of a file, in a text that starts at the given byte of it. Both bytes
are those between two characters, or at an end of the text. -/
def Stretch (base : Nat) (cs : List Char) (start stop : Nat) (text : List Char) : Prop :=
  ∃ before after, cs = before ++ (text ++ after) ∧ start = base + byteCount before ∧
    stop = start + byteCount text

theorem stretch_front (base : Nat) (text after : List Char) :
    Stretch base (text ++ after) base (base + byteCount text) text :=
  ⟨[], after, rfl, rfl, rfl⟩

theorem Stretch.append {base start stop : Nat} {cs text : List Char} (before : List Char)
    (h : Stretch (base + byteCount before) cs start stop text) :
    Stretch base (before ++ cs) start stop text := by
  obtain ⟨front, after, rfl, hs, ht⟩ := h
  refine ⟨before ++ front, after, by rw [List.append_assoc], ?_, ht⟩
  rw [hs, byteCount_append, Nat.add_assoc]

/-- The tokens of a text that starts at the given byte of a file: one at the end marks the end, all
others take up a part of the text, one after the other, and there are only blanks and complete
comments before, between and after them. -/
structure Tiling (file base : Nat) (cs : List Char) (tokens : List Token) : Prop where
  ends : ∃ front last, tokens = front ++ [last] ∧ (∀ t ∈ front, t.kind ≠ .eof) ∧
    last.kind = .eof ∧ last.span = ⟨base + byteCount cs, base + byteCount cs, file⟩
  wide : ∀ t ∈ tokens, t.kind ≠ .eof → t.span.start < t.span.stop
  ordered : tokens.Pairwise fun a b => a.span.stop ≤ b.span.start
  written : ∀ t ∈ tokens, t.span.file = file ∧ ∃ text,
    Stretch base cs t.span.start t.span.stop text ∧
      (t.kind.isVerbatim = true → t.value.toList = text)
  filled : ∀ a b, [a, b] <:+: ⟨base, base, file⟩ :: tokens.map Token.span → ∃ text,
    Stretch base cs a.stop b.start text ∧ IsFiller (b.start == base + byteCount cs) text

namespace Tiles
variable {file start : Nat} {tokens : List Token}

theorem ends (h : Tiles file start cs tokens) : ∃ front last, tokens = front ++ [last] ∧
    (∀ t ∈ front, t.kind ≠ .eof) ∧ last.kind = .eof ∧
      last.span = ⟨start + byteCount cs, start + byteCount cs, file⟩ := by
  induction h with
  | @last _ _ t hg hk hs => exact ⟨[], t, rfl, List.forall_mem_nil _, hk, hs⟩
  | @cons start gap text rest t ts hg hn hk hs hv _ ih =>
    obtain ⟨front, last, rfl, hfront, hkind, hspan⟩ := ih
    refine ⟨t :: front, last, rfl, List.forall_mem_cons.2 ⟨hk, hfront⟩, hkind, ?_⟩
    rw [hspan, byteCount_append, byteCount_append, Nat.add_assoc, Nat.add_assoc]

theorem wide (h : Tiles file start cs tokens) :
    ∀ t ∈ tokens, t.kind ≠ .eof → t.span.start < t.span.stop := by
  induction h with
  | last hg hk hs => exact List.forall_mem_singleton.2 fun h => absurd hk h
  | cons hg hn hk hs hv _ ih =>
    refine List.forall_mem_cons.2 ⟨fun _ => ?_, ih⟩
    rw [hs]
    exact Nat.lt_add_of_pos_right (byteCount_pos hn)

theorem le_start (h : Tiles file start cs tokens) : ∀ t ∈ tokens, start ≤ t.span.start := by
  induction h with
  | last hg hk hs =>
    rw [List.forall_mem_singleton, hs]
    exact Nat.le_add_right _ _
  | cons hg hn hk hs hv _ ih =>
    refine List.forall_mem_cons.2 ⟨?_, fun t ht => ?_⟩
    · rw [hs]
      exact Nat.le_add_right _ _
    · have := ih t ht
      omega

theorem ordered (h : Tiles file start cs tokens) :
    tokens.Pairwise fun a b => a.span.stop ≤ b.span.start := by
  induction h with
  | last => exact List.pairwise_singleton _ _
  | cons hg hn hk hs hv h ih =>
    refine List.pairwise_cons.2 ⟨fun t ht => ?_, ih⟩
    rw [hs]
    exact h.le_start t ht

theorem written (h : Tiles file start cs tokens) : ∀ t ∈ tokens, t.span.file = file ∧ ∃ text,
    Stretch start cs t.span.start t.span.stop text ∧
      (t.kind.isVerbatim = true → t.value.toList = text) := by
  induction h with
  | @last start gap t hg hk hs =>
    rw [List.forall_mem_singleton, hs]
    refine ⟨rfl, [], ?_, fun h => ?_⟩
    · exact ⟨gap, [], by rw [List.append_nil, List.append_nil], rfl, rfl⟩
    · rw [hk] at h
      exact absurd h (by decide)
  | @cons start gap text rest t ts hg hn hk hs hv _ ih =>
    refine List.forall_mem_cons.2 ⟨?_, fun t ht => ?_⟩
    · rw [hs]
      exact ⟨rfl, text, .append gap (stretch_front _ text rest), hv⟩
    · obtain ⟨hfile, text', hstretch, hvalue⟩ := ih t ht
      exact ⟨hfile, text', .append gap (.append text hstretch), hvalue⟩

/-- What lies between a place and the first token after it, and between two tokens after it. -/
theorem filled (h : Tiles file start cs tokens) {front : Span} (hfront : front.stop = start) :
    ∀ a b, [a, b] <:+: front :: tokens.map Token.span → ∃ text,
      Stretch start cs a.stop b.start text ∧ IsFiller (b.start == start + byteCount cs) text := by
  induction h generalizing front with
  | @last start gap t hg hk hs =>
    intro a b hab
    have heq : [a, b] = [front, t.span] := hab.eq_of_length rfl
    obtain ⟨rfl, rfl⟩ : a = front ∧ b = t.span := by simpa using heq
    refine ⟨gap, ?_, ?_⟩
    · rw [hfront, hs]
      have := stretch_front start gap []
      rwa [List.append_nil] at this
    · rw [hs, beq_self_eq_true]
      exact hg
  | @cons start gap text rest t ts hg hn hk hs hv _ ih =>
    have hend : start + byteCount (gap ++ (text ++ rest)) =
        start + byteCount gap + byteCount text + byteCount rest := by
      rw [byteCount_append, byteCount_append]
      omega
    intro a b hab
    rcases List.infix_cons_iff.1 hab with hprefix | hinfix
    · obtain ⟨rfl, hnext⟩ := List.cons_prefix_cons.1 hprefix
      obtain ⟨rfl, -⟩ := List.cons_prefix_cons.1 hnext
      refine ⟨gap, ?_, ?_⟩
      · rw [hfront, hs]
        exact stretch_front start gap (text ++ rest)
      · have hlt := byteCount_pos hn
        have hne : (t.span.start == start + byteCount (gap ++ (text ++ rest))) = false := by
          rw [hend, hs, beq_eq_false_iff_ne]
          dsimp only
          omega
        rw [hne]
        exact hg
    · have hstop : t.span.stop = start + byteCount gap + byteCount text := by rw [hs]
      obtain ⟨text', hstretch, hfill⟩ := ih hstop a b hinfix
      rw [hend]
      exact ⟨text', .append gap (.append text hstretch), hfill⟩

end Tiles

/-- The tokens of a text that starts anywhere in a file tile it. -/
theorem tokenize_tiling (source : String) (file base : Nat) :
    Tiling file base source.toList (tokenize source file base) := by
  have h := tiles_tokensFrom file base source.toList
  exact ⟨h.ends, h.wide, h.ordered, h.written, h.filled rfl⟩

end TypeStrip.Token
