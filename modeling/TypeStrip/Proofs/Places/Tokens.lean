import TypeStrip.Grammar.Expression
import TypeStrip.Proofs.Places.Tiling
import TypeStrip.Proofs.Template.Closing

/-! The tokens of a text lie one after the other in it. -/
namespace TypeStrip.Token
open TypeStrip.Text TypeStrip.Grammar

/-- A token lies where its span says. A word is written there, and the body of a template between
backquotes; and an operator that starts with `>` is longer than what may be left of it. -/
structure Lies (S : Source) (t : Token) : Prop where
  holds : S.Holds t.span
  wide : t.kind ≠ .eof → t.span.start < t.span.stop
  word : t.kind.isWord = true → S.Spells t.span t.value
  template : t.kind = .template → S.Spells t.span ("`" ++ t.value ++ "`")
  angle : ∀ kind value, afterAngle? t.kind = some (kind, value) →
    t.span.start + 1 + byteCount value.toList ≤ t.span.stop

/-- Tokens that lie one after the other, from one byte of the source to another. The last one, and
only that, marks the end. -/
inductive Follow (S : Source) (stop : Nat) : Nat → List Token → Prop where
  | last {start : Nat} {t : Token} (ht : t.Lies S) (hk : t.kind = .eof) (hs : start ≤ t.span.start)
    (he : t.span.stop ≤ stop) : Follow S stop start [t]
  | cons {start : Nat} {t : Token} {ts : List Token} (ht : t.Lies S) (hk : t.kind ≠ .eof)
    (hs : start ≤ t.span.start) (h : Follow S stop t.span.stop ts) : Follow S stop start (t :: ts)

variable {S : Source}

theorem lies_eof {t : Token} (hk : t.kind = .eof) (hs : S.Holds t.span) : t.Lies S where
  holds := hs
  wide h := absurd hk h
  word h := absurd hk (isWord_cases h).1
  template h := by
    rw [hk] at h
    cases h
  angle _ _ h := by
    rw [hk] at h
    cases h

theorem lies_error {t : Token} (hk : t.kind = .error) (hs : S.Holds t.span)
    (hw : t.span.start < t.span.stop) : t.Lies S where
  holds := hs
  wide _ := hw
  word h := absurd hk (isWord_cases h).2.2.1
  template h := by
    rw [hk] at h
    cases h
  angle _ _ h := by
    rw [hk] at h
    cases h

/-- A lexeme makes a token where it is read. -/
theorem Lexeme.Starts.lies {l : Lexeme} {cs : List Char} (h : l.Starts cs) {start : Nat}
    (hat : S.HasAt start cs) (newline : Bool) :
    Lies S ⟨l.kind, ⟨start, start + byteCount l.source, S.file⟩, l.value, newline⟩ := by
  have hsource : S.HasAt start l.source := by
    obtain ⟨rest, hrest⟩ := h.source
    rw [← hrest] at hat
    exact hat.left
  refine ⟨hsource.holds, fun _ => ?_, fun hk => ?_, fun hk => ?_, fun kind value hk => ?_⟩
  · exact Nat.lt_add_of_pos_right (byteCount_pos h.nonempty)
  · exact ⟨h.word hk ▸ hsource, by rw [← h.word hk]⟩
  · have htext : ("`" ++ l.value ++ "`").toList = l.source := by
      rw [h.template hk, String.toList_append, String.toList_append]
      rfl
    exact ⟨htext.symm ▸ hsource, by rw [htext]⟩
  · rw [h.angle kind value hk]
    dsimp only
    omega

/-- The tokens of a part of the source lie in that part. -/
theorem follow_tokensFrom {cs : List Char} {start : Nat} (h : S.HasAt start cs) :
    Follow S (start + byteCount cs) start (tokensFrom S.file start cs) := by
  induction start, cs using tokensFrom_induction S.file with
  | comment start passed text stop hfill hstop =>
    have hend := h.le
    have hbytes : byteCount (passed ++ '/' :: '*' :: text) =
        byteCount passed + (2 + byteCount text) := by
      rw [byteCount_append, byteCount_cons, byteCount_cons, ← Nat.add_assoc (Char.utf8Size _)]
      rfl
    refine .cons (lies_error rfl ⟨rfl, ?_, ?_⟩ ?_) (show Kind.error ≠ .eof by decide)
      (Nat.le_add_right _ _) (.last (lies_eof rfl ⟨rfl, Nat.le_refl _, ?_⟩) rfl (Nat.le_refl _) ?_)
    all_goals
      dsimp only
      omega
  | last start gap newline hfill =>
    exact .last (lies_eof rfl ⟨rfl, Nat.le_refl _, h.le⟩) rfl (Nat.le_add_right _ _) (Nat.le_refl _)
  | lexeme start gap newline c rest after tokens hfill hafter ih =>
    have hl := starts_lexeme c rest
    have hat : S.HasAt (start + byteCount gap) (c :: rest) := h.right
    have hnext : S.HasAt (start + byteCount gap + byteCount (lexeme c rest).source) after := by
      rw [← hafter] at hat
      exact hat.right
    have hstop : start + byteCount (gap ++ c :: rest) =
        start + byteCount gap + byteCount (lexeme c rest).source + byteCount after := by
      rw [byteCount_append, ← hafter, byteCount_append]
      omega
    rw [hstop]
    exact .cons (hl.lies hat newline) hl.kind (Nat.le_add_right _ _) (ih hnext)

end TypeStrip.Token

namespace TypeStrip.Template
open TypeStrip.Text TypeStrip.Token

def Substitution.In (s : Substitution) (offset : Nat) (cs : List Char) : Prop :=
  ∃ before after, cs = before ++ s.source.toList ++ after ∧ s.offset = offset + byteCount before

/-- The source of a substitution stands in the text at its offset, between `$` with an opening brace
and a closing brace. -/
def Substitution.IsDelimited (s : Substitution) (offset : Nat) (cs : List Char) : Prop :=
  ∃ before after, cs = before ++ '$' :: '{' :: (s.source.toList ++ '}' :: after) ∧
    s.offset = offset + byteCount before + 2

theorem Substitution.IsDelimited.append {s : Substitution} {offset : Nat} (before : List Char)
    {cs : List Char} (h : s.IsDelimited (offset + byteCount before) cs) :
    s.IsDelimited offset (before ++ cs) := by
  obtain ⟨front, after, rfl, ho⟩ := h
  exact ⟨before ++ front, after, (List.append_assoc ..).symm,
    by rw [ho, byteCount_append, Nat.add_assoc offset]⟩

theorem Substitution.IsDelimited.in {s : Substitution} {offset : Nat} {cs : List Char}
    (h : s.IsDelimited offset cs) : s.In offset cs := by
  obtain ⟨before, after, rfl, ho⟩ := h
  refine ⟨before ++ ['$', '\x7b'], '\x7d' :: after, by simp, ?_⟩
  rw [ho, byteCount_append, Nat.add_assoc]
  rfl

/-- What is cut off ends with the brace that closes the substitution. -/
theorem front_of_cutBraces {cs : List Char} {cut : Cut cs} (h : cutBraces 0 cs = some cut) :
    cut.front = cut.front.dropLast ++ ['\x7d'] := by
  have hparts := cutBraces_parts cs
  rw [h] at hparts
  exact enclosed_eq hparts.symm

theorem delimited_of_segments {offset : Nat} {cs head : List Char}
    {tail : List (Substitution × List Char)} (h : segments offset cs = .ok (head, tail)) :
    ∀ part ∈ tail, part.1.IsDelimited offset cs := by
  fun_induction segments offset cs generalizing head tail with
  | case1 =>
    cases h
    simp
  | case2 => cases h
  | case3 offset c cs ih =>
    cases hs : segments (offset + 1 + c.utf8Size) cs with
    | error e =>
      rw [hs] at h
      cases h
    | ok parts =>
      rw [hs] at h
      cases h
      have hbytes : offset + byteCount ['\\', c] = offset + 1 + c.utf8Size :=
        (Nat.add_assoc offset 1 c.utf8Size).symm
      exact fun part hp => .append ['\\', c] (hbytes ▸ ih hs part hp)
  | case4 offset cs h' => cases h
  | case5 offset cs cut h' ih =>
    cases hs : segments (offset + 2 + byteCount cut.front) cut.rest with
    | error e =>
      rw [hs] at h
      cases h
    | ok parts =>
      rw [hs] at h
      cases h
      refine List.forall_mem_cons.2 ⟨⟨[], cut.rest, ?_, rfl⟩, fun part hp => ?_⟩
      · have htext : cut.front.dropLast ++ '\x7d' :: cut.rest = cs := by
          rw [List.append_cons, ← front_of_cutBraces h', cut.append_eq]
        rw [String.toList_ofList, htext]
        rfl
      · rw [← cut.append_eq]
        exact .append ['$', '\x7b'] (.append _ (ih hs part hp))
  | case6 offset c cs _ _ _ ih =>
    cases hs : segments (offset + c.utf8Size) cs with
    | error e =>
      rw [hs] at h
      cases h
    | ok parts =>
      rw [hs] at h
      cases h
      exact fun part hp => .append [c] (ih hs part hp)

/-- The substitutions of a body stand in it, each between its braces. -/
theorem delimited_of_split {raw : String} {parts : Parts} (h : split raw = .ok parts) :
    ∀ s ∈ parts.substitutions, s.IsDelimited 0 raw.toList := by
  cases hs : segments 0 raw.toList with
  | error e =>
    rw [split, hs] at h
    cases h
  | ok found =>
    rw [split, hs] at h
    cases h
    intro s hmem
    obtain ⟨part, hp, rfl⟩ := List.mem_map.1 hmem
    obtain ⟨segment, hsegment, rfl⟩ := List.mem_map.1 hp
    exact delimited_of_segments hs segment hsegment

/-- The substitutions of a body stand in it. -/
theorem in_of_split {raw : String} {parts : Parts} (h : split raw = .ok parts) :
    ∀ s ∈ parts.substitutions, s.In 0 raw.toList :=
  fun s hs => (delimited_of_split h s hs).in

end TypeStrip.Template

namespace TypeStrip.Token
open TypeStrip.Text TypeStrip.Grammar

/-- The tokens of a substitution lie inside the template. -/
theorem Lies.follow_substitution {S : Source} {t : Token} (ht : t.Lies S) (hk : t.kind = .template)
    {parts : Template.Parts} (hp : Template.split t.value = .ok parts) {s : Template.Substitution}
    (hs : s ∈ parts.substitutions) : ∃ start stop, t.span.start ≤ start ∧ stop ≤ t.span.stop ∧
      Follow S stop start (substitutionTokens t.span.file (t.span.start + 1) s) := by
  obtain ⟨before, after, hraw, ho⟩ := Template.in_of_split hp s hs
  rw [Nat.zero_add] at ho
  obtain ⟨hat, hstop⟩ := ht.template hk
  have htext : ("`" ++ t.value ++ "`").toList =
      '`' :: before ++ (s.source.toList ++ (after ++ ['`'])) := by
    rw [String.toList_append, String.toList_append, hraw]
    simp
  have hstart : byteCount ('`' :: before) = 1 + s.offset := by
    rw [ho, byteCount_cons]
    rfl
  rw [htext] at hat hstop
  have hsource := follow_tokensFrom hat.right.left
  rw [byteCount_append, byteCount_append] at hstop
  rw [hstart, ← Nat.add_assoc] at hsource
  refine ⟨t.span.start + 1 + s.offset, _, ?_, ?_, ht.holds.file ▸ hsource⟩
  all_goals omega

end TypeStrip.Token
