import TypeStrip.Proofs.Places.Tiling
import TypeStrip.Proofs.Template.Closing

/-!
Where a substitution ends, by its tokens. The search for the closing brace passes over strings and
templates like the tokens do, but it knows no comments, and it goes on behind a line in which a string
is not closed. Where there is neither, it finds the first right brace among the tokens that no left
brace opens.
-/
namespace TypeStrip.Token
open TypeStrip.Text TypeStrip.Number

/-! ### Braces among tokens -/

/-- How many braces are open after a token, if so many are open before it; nothing if it closes one
that is not open. -/
def depthAfter (depth : Nat) : Kind → Option Nat
  | .lBrace => some (depth + 1)
  | .rBrace => if depth = 0 then none else some (depth - 1)
  | _ => some depth

/-- The first right brace that closes none of the left braces before it, if so many are open. -/
def closingBrace? (depth : Nat) : List Token → Option Token
  | [] => none
  | t :: ts => match depthAfter depth t.kind with
    | none => some t
    | some depth => closingBrace? depth ts

/-- The tokens up to that brace, which is the last of them, or all tokens if there is none. -/
def upToClosing (depth : Nat) : List Token → List Token
  | [] => []
  | t :: ts => t :: match depthAfter depth t.kind with
    | none => []
    | some depth => upToClosing depth ts

/-- Before each of the tokens there are only blanks, from the end of the token before it, or from the
given byte. -/
def OnlyBlanks (base : Nat) (cs : List Char) : Nat → List Token → Prop
  | _, [] => True
  | stop, t :: ts =>
    (∀ text, Stretch base cs stop t.span.start text → ∀ c ∈ text, isBlank c = true) ∧
      OnlyBlanks base cs t.span.stop ts

theorem OnlyBlanks.of_append {base stop : Nat} {before cs : List Char} {ts : List Token}
    (h : OnlyBlanks base (before ++ cs) stop ts) :
    OnlyBlanks (base + byteCount before) cs stop ts := by
  induction ts generalizing stop with
  | nil => trivial
  | cons t ts ih => exact ⟨fun text htext => h.1 text (htext.append before), ih h.2⟩

/-! ### Lexemes between braces -/

def openBraces : Option Nat → List Enclosure
  | none => []
  | some depth => List.replicate (depth + 1) .braces

/-- The search for the closing brace passes over a lexeme, and counts it if it is a brace. -/
def Lexeme.IsPassed (l : Lexeme) : Prop := ∀ depth after,
  Text.enclosed (openBraces (some depth)) (l.source ++ after) =
    (Text.enclosed (openBraces (depthAfter depth l.kind)) after).map (prepend l.source)

variable {l : Lexeme} {c : Char} {cs : List Char}

theorem depthAfter_of_ne {k : Kind} (hl : k ≠ .lBrace) (hr : k ≠ .rBrace) (depth : Nat) :
    depthAfter depth k = some depth := by
  unfold depthAfter
  split
  · exact absurd rfl hl
  · exact absurd rfl hr
  · rfl

theorem Lexeme.IsPassed.of_plain (hl : l.kind ≠ .lBrace) (hr : l.kind ≠ .rBrace)
    (h : ∀ c ∈ l.source, isPlain c = true) : l.IsPassed := by
  intro depth after
  rw [depthAfter_of_ne hl hr]
  exact enclosed_plain h after

/-- A lexeme that is one enclosure. -/
theorem Lexeme.IsPassed.of_enclosed {e : Enclosure} {body rest : List Char} (hl : l.kind ≠ .lBrace)
    (hr : l.kind ≠ .rBrace) (hsource : l.source = c :: body)
    (hopen : ∀ outer, Enclosure.after .braces outer c = e :: .braces :: outer)
    (he : e ≠ .quoted '\\') (h : Text.enclosed [e] cs = some (body, rest)) : l.IsPassed := by
  intro depth after
  have hs : IsSingle .braces c (body ++ after) := ⟨fun _ => .inl rfl, fun _ h => by cases h⟩
  have hbody := enclosed_front h (List.forall_mem_singleton.2 he) after
  rw [depthAfter_of_ne hl hr, hsource, List.cons_append, openBraces, List.replicate_succ,
    enclosed_single hs, hopen]
  show (Text.enclosed ([e] ++ _) (body ++ after)).map _ = _
  rw [enclosed_append, hbody, Option.bind_some, map_prepend_prepend]
  rfl

/-! ### Words and numbers -/

theorem isPlain_of_isWordPart (h : isWordPart c = true) : isPlain c = true :=
  isPlain_of_all (p := isWordPart) (by decide +kernel) h

theorem isPlain_of_isBlank (h : isBlank c = true) : isPlain c = true :=
  isPlain_of_all (p := isBlank) (by decide +kernel) h

theorem isPassed_wordLexeme (cs : List Char) : (wordLexeme cs).IsPassed := by
  have hword := isWord_wordLexeme cs
  refine .of_plain ?_ ?_ fun c hc => isPlain_of_isWordPart (List.mem_takeWhile_imp hc)
  · exact fun h => absurd (h ▸ hword) (by decide)
  · exact fun h => absurd (h ▸ hword) (by decide)

theorem isPlain_digitRun (base : Nat) (cs : List Char) :
    ∀ c ∈ digitRun base cs, isPlain c = true := by
  intro c hc
  have hdigit := List.mem_takeWhile_imp hc
  refine isPlain_of_all (p := fun c => (digitValue? c).isSome || c == '_') (by decide +kernel) ?_
  rw [digitIn?] at hdigit
  cases hvalue : digitValue? c with
  | none => rwa [hvalue] at hdigit
  | some value => rfl

theorem isPlain_fractionRun (cs : List Char) : ∀ c ∈ fractionRun cs, isPlain c = true := by
  unfold fractionRun
  split
  · split
    · exact List.forall_mem_cons.2 ⟨by decide, isPlain_digitRun _ _⟩
    · exact List.forall_mem_nil _
  · exact List.forall_mem_nil _

theorem isPlain_exponentRun (cs : List Char) : ∀ c ∈ exponentRun cs, isPlain c = true := by
  unfold exponentRun
  split
  · next mark cs =>
    split
    · next hmark =>
      have hplain : isPlain mark = true := by
        rcases hmark with rfl | rfl <;> decide
      split
      · exact List.forall_mem_cons.2 ⟨hplain,
          List.forall_mem_cons.2 ⟨by decide, isPlain_digitRun _ _⟩⟩
      · exact List.forall_mem_cons.2 ⟨hplain,
          List.forall_mem_cons.2 ⟨by decide, isPlain_digitRun _ _⟩⟩
      · exact List.forall_mem_cons.2 ⟨hplain, isPlain_digitRun _ _⟩
    · exact List.forall_mem_nil _
  · exact List.forall_mem_nil _

theorem isPassed_decimalLexeme (cs : List Char) : (decimalLexeme cs).IsPassed := by
  have hsource (rest rest' : List Char) : ∀ c ∈ digitRun 10 cs ++ fractionRun rest ++
      exponentRun rest', isPlain c = true :=
    List.forall_mem_append.2 ⟨List.forall_mem_append.2 ⟨isPlain_digitRun _ _, isPlain_fractionRun _⟩,
      isPlain_exponentRun _⟩
  unfold decimalLexeme
  dsimp only
  split
  · exact .of_plain (by simp) (by simp)
      (List.forall_mem_append.2 ⟨hsource _ _, List.forall_mem_singleton.2 (by decide)⟩)
  · exact .of_plain (by simp) (by simp) (hsource _ _)

theorem isPassed_numberLexeme (cs : List Char) : (numberLexeme cs).IsPassed := by
  unfold numberLexeme
  split
  · next mark cs =>
    split
    · next base hbase =>
      have hmark : isPlain mark = true := by
        unfold baseOfMark? at hbase
        split at hbase
        all_goals first | decide | cases hbase
      exact .of_plain (by simp) (by simp) (List.forall_mem_cons.2 ⟨by decide,
        List.forall_mem_cons.2 ⟨hmark, isPlain_digitRun _ _⟩⟩)
    · exact isPassed_decimalLexeme _
  · exact isPassed_decimalLexeme _

theorem isPassed_pointLexeme (cs : List Char) : (pointLexeme cs).IsPassed :=
  .of_plain (show Kind.number ≠ .lBrace by decide) (show Kind.number ≠ .rBrace by decide)
    (List.forall_mem_append.2 ⟨List.forall_mem_cons.2 ⟨by decide, isPlain_digitRun _ _⟩,
      isPlain_exponentRun _⟩)

/-! ### Strings and templates -/

/-- What closes a string closes it for the search. -/
theorem enclosed_stringBody {quote : Char} {body : List Char} (hquote : quote = '"' ∨ quote = '\'')
    (h : stringBody quote cs = (body, true)) :
    ∃ rest, Text.enclosed [.quoted quote] cs = some (body ++ [quote], rest) := by
  have hback : Enclosure.quoted quote ≠ .quoted '\\' := by rcases hquote with rfl | rfl <;> decide
  have hline : '\n' ≠ quote := by rcases hquote with rfl | rfl <;> decide
  fun_induction stringBody quote cs generalizing body with
  | case1 | case2 | case6 => cases h
  | case3 cs body' closed hrec ih =>
    cases h
    obtain ⟨rest, hrest⟩ := ih hrec
    have hs : IsSingle (.quoted quote) '\n' cs := ⟨by simp, by simp⟩
    refine ⟨rest, ?_⟩
    rw [enclosed_escape (by simp), enclosed_single hs, Enclosure.after, if_neg hline, hrest]
    rfl
  | case4 c cs _ body' closed hrec ih =>
    cases h
    obtain ⟨rest, hrest⟩ := ih hrec
    refine ⟨rest, ?_⟩
    rw [enclosed_escape (by simp), hrest]
    rfl
  | case5 cs _ _ =>
    cases h
    exact ⟨cs, Template.enclosed_close hback (by simp [Enclosure.after]) cs⟩
  | case7 c cs _ _ hescape hc _ body' closed hrec ih =>
    cases h
    obtain ⟨rest, hrest⟩ := ih hrec
    have hs : IsSingle (.quoted quote) c cs := by
      refine ⟨fun heq => .inr ?_, by simp⟩
      cases cs with
      | nil => rfl
      | cons d cs => exact absurd rfl (hescape d cs heq)
    refine ⟨rest, ?_⟩
    rw [enclosed_single hs, Enclosure.after, if_neg hc, hrest]
    rfl

theorem isPassed_stringLexeme {quote : Char} (hquote : quote = '"' ∨ quote = '\'')
    (h : (stringLexeme quote cs).kind ≠ .error) : (stringLexeme quote cs).IsPassed := by
  have hback : Enclosure.quoted quote ≠ .quoted '\\' := by rcases hquote with rfl | rfl <;> decide
  unfold stringLexeme at h ⊢
  split at h
  · next body hbody =>
    obtain ⟨rest, hrest⟩ := enclosed_stringBody hquote hbody
    refine .of_enclosed (by simp) (by simp) rfl (fun outer => ?_) hback hrest
    rcases hquote with rfl | rfl <;> rfl
  · exact absurd rfl h

theorem isPassed_templateLexeme (h : (templateLexeme cs).kind ≠ .error) :
    (templateLexeme cs).IsPassed := by
  unfold templateLexeme at h ⊢
  split at h
  · next body rest hbody =>
    exact .of_enclosed (by simp) (by simp) rfl (fun outer => rfl) (by simp) hbody
  · exact absurd rfl h

/-! ### Operators -/

theorem isPassed_lBrace {value : String} : (Lexeme.mk .lBrace value ['\x7b']).IsPassed := by
  intro depth after
  have hs : IsSingle .braces '\x7b' after := ⟨fun _ => .inl rfl, by simp⟩
  exact enclosed_single hs

theorem isPassed_rBrace {value : String} : (Lexeme.mk .rBrace value ['\x7d']).IsPassed := by
  intro depth after
  have hs : IsSingle .braces '\x7d' after := ⟨fun _ => .inl rfl, by simp⟩
  cases depth with
  | zero => exact enclosed_single hs
  | succ depth => exact enclosed_single hs

theorem isPlain_or_isBrace : ∀ o ∈ operators, o = ("\x7b", .lBrace) ∨ o = ("\x7d", .rBrace) ∨
    o.2 ≠ .lBrace ∧ o.2 ≠ .rBrace ∧ o.1.toList.all isPlain = true := by
  decide +kernel

theorem isPassed_operator? (h : operator? cs = some l) : l.IsPassed := by
  obtain ⟨o, ho, hl⟩ := List.exists_of_findSome?_eq_some h
  dsimp only at hl
  split at hl
  · cases hl
    rcases isPlain_or_isBrace o ho with rfl | rfl | ⟨hleft, hright, hplain⟩
    · exact isPassed_lBrace
    · exact isPassed_rBrace
    · exact .of_plain hleft hright (List.all_eq_true.1 hplain)
  · cases hl

theorem isPassed_lexeme (c : Char) (cs : List Char) :
    (lexeme c cs).kind ≠ .error → (lexeme c cs).IsPassed := by
  unfold lexeme
  split
  · next hc => exact isPassed_stringLexeme hc
  · split
    · exact isPassed_templateLexeme
    · split
      · exact fun _ => isPassed_numberLexeme _
      · split
        · exact fun _ => isPassed_wordLexeme _
        · split
          · exact fun _ => isPassed_pointLexeme _
          · cases ho : operator? (c :: cs) with
            | none => exact fun h => absurd rfl h
            | some l => exact fun _ => isPassed_operator? ho

/-! ### The closing brace -/

def endOf (start : Nat) (p : List Char × List Char) : Nat := start + byteCount p.1

theorem map_endOf_prepend (start : Nat) (front : List Char) (p : Option (List Char × List Char)) :
    (p.map (prepend front)).map (endOf start) = p.map (endOf (start + byteCount front)) := by
  rw [Option.map_map]
  refine congrArg (Option.map · p) (funext fun q => ?_)
  rw [Function.comp_apply, endOf, endOf, prepend, byteCount_append, Nat.add_assoc]

theorem enclosed_blanks {gap : List Char} (h : ∀ c ∈ gap, isBlank c = true) (depth : Nat)
    (cs : List Char) : Text.enclosed (openBraces (some depth)) (gap ++ cs) =
      (Text.enclosed (openBraces (some depth)) cs).map (prepend gap) :=
  enclosed_plain (fun c hc => isPlain_of_isBlank (h c hc)) cs

/-- The search for the closing brace ends with the first right brace among the tokens that no left
brace opens, if up to there no token is an error and nothing but blanks stands between tokens. This is
by induction on the tokens, for any number of open braces. -/
theorem enclosed_eq_closingBrace? (file start : Nat) (cs : List Char) :
    ∀ depth, (∀ t ∈ upToClosing depth (tokensFrom file start cs), t.kind ≠ .error) →
      OnlyBlanks start cs start (upToClosing depth (tokensFrom file start cs)) →
        (Text.enclosed (openBraces (some depth)) cs).map (endOf start) =
          (closingBrace? depth (tokensFrom file start cs)).map fun t => t.span.stop := by
  induction start, cs using tokensFrom_induction file with
  | comment start passed text stop =>
    intro depth herror
    exact absurd rfl (herror _ List.mem_cons_self)
  | last start gap newline =>
    intro depth _ hblank
    have hgap := hblank.1 gap ⟨[], [], (List.append_nil _).symm, rfl, rfl⟩
    have hnone : Text.enclosed (openBraces (some depth)) gap = none := by
      rw [← List.append_nil gap, enclosed_blanks hgap, openBraces, List.replicate_succ,
        Text.enclosed]
      rfl
    rw [hnone]
    rfl
  | lexeme start gap newline c rest after tokens _ hafter ih =>
    intro depth herror hblank
    have hkind := herror _ List.mem_cons_self
    have hgap := hblank.1 gap (stretch_front ..)
    have hpassed := isPassed_lexeme c rest hkind
    rw [← hafter, enclosed_blanks hgap, hpassed, map_prepend_prepend, map_endOf_prepend,
      byteCount_append, ← Nat.add_assoc, closingBrace?]
    dsimp only
    cases hdepth : depthAfter depth (lexeme c rest).kind with
    | none =>
      rw [openBraces, Text.enclosed]
      rfl
    | some depth' =>
      rw [upToClosing] at herror hblank
      dsimp only at herror hblank
      rw [hdepth] at herror hblank
      have hrest := hblank.2
      rw [← hafter, ← List.append_assoc] at hrest
      have hshifted := hrest.of_append
      rw [byteCount_append, ← Nat.add_assoc] at hshifted
      exact ih depth' (fun t ht => herror t (List.mem_cons_of_mem _ ht)) hshifted

/-- Both ways to search for the brace that closes a substitution find the one that closes it by its
tokens, if up to there no token is an error and nothing but blanks stands between tokens. -/
theorem substitution_closed_by_tokens (file start : Nat) (cs : List Char)
    (herror : ∀ t ∈ upToClosing 0 (tokensFrom file start cs), t.kind ≠ .error)
    (hblank : OnlyBlanks start cs start (upToClosing 0 (tokensFrom file start cs))) :
    (Text.enclosed [.braces] cs).map (endOf start) =
        (closingBrace? 0 (tokensFrom file start cs)).map (fun t => t.span.stop) ∧
      (Template.cutBraces 0 cs).map (fun cut => start + byteCount cut.front) =
        (closingBrace? 0 (tokensFrom file start cs)).map fun t => t.span.stop := by
  have h := enclosed_eq_closingBrace? file start cs 0 herror hblank
  have hcut : (Template.cutBraces 0 cs).map (fun cut => start + byteCount cut.front) =
      (Text.enclosed [.braces] cs).map (endOf start) := by
    rw [← Template.cutBraces_parts, Option.map_map]
    rfl
  exact ⟨h, hcut.trans h⟩

example : let text := "a /* \x7d */ \x7d"
    (Text.enclosed [.braces] text.toList).map (endOf 0) = some 6 ∧
      (closingBrace? 0 (tokenize text 0 0)).map (fun t => t.span.stop) = some 11 := by
  decide +kernel

end TypeStrip.Token
