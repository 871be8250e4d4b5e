import TypeStrip.Proofs.Places.Tokens

/-!
Every template that is read as a token can be split: what closes the template for one scanner leaves
no substitution open for the other.
-/
namespace TypeStrip.Template
open TypeStrip.Text

/-- What stands between the backquotes of a template: the next backquote closes it. -/
def IsBody (text : List Char) : Prop :=
  Text.enclosed [.template] (text ++ ['`']) = some (text ++ ['`'], [])

variable {c d : Char} {cs front rest : List Char}

theorem isBody_of_enclosed (h : Text.enclosed [.template] cs = some (front, rest)) :
    IsBody front.dropLast := by
  have hfront := enclosed_front h (List.forall_mem_singleton.2 (by simp)) []
  rw [List.append_nil] at hfront
  have hclosing : front = front.dropLast ++ ['`'] := Token.enclosed_eq h
  rw [IsBody, ← hclosing, hfront]

/-- The text behind something inside a body is a body. -/
theorem IsBody.of_prepend (inside : List Char) (h : IsBody (inside ++ cs))
    (hinside : Text.enclosed [.template] (inside ++ cs ++ ['`']) =
      (Text.enclosed [.template] (cs ++ ['`'])).map (prepend inside)) : IsBody cs := by
  obtain ⟨⟨front, rest⟩, he, hp⟩ := Option.map_eq_some_iff.1 (hinside.symm.trans h)
  obtain ⟨hfront, rfl⟩ := Prod.mk.inj hp
  rw [List.append_assoc] at hfront
  have hrest : front = cs ++ ['`'] := List.append_cancel_left hfront
  rwa [hrest] at he

theorem IsBody.of_escape (h : IsBody ('\\' :: d :: cs)) : IsBody cs :=
  IsBody.of_prepend ['\\', d] h (enclosed_escape (by simp))

theorem not_isBody_backslash : ¬IsBody ['\\'] := by
  intro h
  simp [IsBody, Text.enclosed] at h

theorem IsBody.ne_backquote (h : IsBody (c :: cs)) : c ≠ '`' := by
  rintro rfl
  have hclose : Text.enclosed [.template] ('`' :: (cs ++ ['`'])) = some (['`'], cs ++ ['`']) :=
    enclosed_close (by simp) rfl _
  simpa using hclose.symm.trans h

theorem IsBody.of_single (h : IsBody (c :: cs)) (hs : IsSingle .template c (cs ++ ['`'])) :
    IsBody cs := by
  refine IsBody.of_prepend [c] h ?_
  show Text.enclosed [.template] (c :: (cs ++ ['`'])) = _
  rw [enclosed_single hs, Enclosure.after, if_neg h.ne_backquote]

/-- A substitution in a body is closed in the body, and a body follows it. -/
theorem IsBody.exists_cut (h : IsBody ('$' :: '\x7b' :: cs)) :
    ∃ cut, cutBraces 0 cs = some cut ∧ IsBody cut.rest := by
  have hbraces : NoBackslash [.braces] := List.forall_mem_singleton.2 (by simp)
  have hopen : Text.enclosed [.template] ('$' :: '\x7b' :: (cs ++ ['`'])) =
      (Text.enclosed ([.braces] ++ [.template]) (cs ++ ['`'])).map (prepend ['$', '\x7b']) :=
    enclosed_substitution
  obtain ⟨p, hp, -⟩ := Option.map_eq_some_iff.1 (hopen.symm.trans h)
  rw [enclosed_append] at hp
  obtain ⟨⟨inside, after⟩, hinside, hafter⟩ := Option.bind_eq_some_iff.1 hp
  obtain ⟨⟨front, rest⟩, hrest, -⟩ := Option.map_eq_some_iff.1 hafter
  dsimp only at hrest
  -- what follows the substitution still holds the last backquote
  have hne : after ≠ [] := by
    rintro rfl
    cases hrest
  have htext := append_of_enclosed hinside
  rw [← List.dropLast_append_getLast hne, ← List.append_assoc] at htext
  have hcs := List.append_inj_left' htext rfl
  have hcut := cutBraces_parts cs
  rw [← hcs, enclosed_front hinside hbraces, hcs] at hcut
  obtain ⟨cut, hcut, -⟩ := Option.map_eq_some_iff.1 hcut
  refine ⟨cut, hcut, IsBody.of_prepend ('$' :: '\x7b' :: cut.front) ?_ ?_⟩
  · rw [List.cons_append, List.cons_append, cut.append_eq]
    exact h
  · have hparts := cutBraces_parts cs
    rw [hcut] at hparts
    have hfront := enclosed_front hparts.symm hbraces (cut.rest ++ ['`'])
    show Text.enclosed [.template] ('$' :: '\x7b' :: (cut.front ++ cut.rest ++ ['`'])) = _
    rw [enclosed_substitution, List.append_assoc]
    show (Text.enclosed ([.braces] ++ [.template]) _).map _ = _
    rw [enclosed_append, hfront]
    exact map_prepend_prepend _ _ _

/-- A body can be taken apart. -/
theorem IsBody.exists_segments {text : List Char} (h : IsBody text) (offset : Nat) :
    ∃ found, segments offset text = .ok found := by
  fun_induction segments offset text with
  | case1 => exact ⟨_, rfl⟩
  | case2 => exact absurd h not_isBody_backslash
  | case3 offset c cs ih =>
    obtain ⟨found, hf⟩ := ih h.of_escape
    exact ⟨_, by rw [hf]; rfl⟩
  | case4 offset cs hcut =>
    obtain ⟨cut, hcut', -⟩ := h.exists_cut
    rw [hcut] at hcut'
    cases hcut'
  | case5 offset cs cut hcut ih =>
    obtain ⟨cut', hcut', hrest⟩ := h.exists_cut
    cases hcut.symm.trans hcut'
    obtain ⟨found, hf⟩ := ih hrest
    exact ⟨_, by rw [hf]; rfl⟩
  | case6 offset c cs hlast hescape hopen ih =>
    have hs : IsSingle .template c (cs ++ ['`']) := by
      refine ⟨fun hc => ?_, fun hc _ hhead => ?_⟩
      · cases cs with
        | nil => exact absurd rfl (hlast hc)
        | cons d cs => exact absurd rfl (hescape d cs hc)
      · cases cs with
        | nil => simp at hhead
        | cons d cs =>
          cases hhead
          exact hopen cs hc rfl
    obtain ⟨found, hf⟩ := ih (h.of_single hs)
    exact ⟨_, by rw [hf]; rfl⟩

theorem IsBody.exists_split {raw : String} (h : IsBody raw.toList) :
    ∃ parts, split raw = .ok parts := by
  obtain ⟨found, hf⟩ := h.exists_segments 0
  exact ⟨_, by rw [split, hf]; rfl⟩

theorem Parts.length_texts (p : Parts) : p.texts.length = p.substitutions.length + 1 := by
  rw [Parts.texts, Parts.substitutions, List.length_cons, List.length_map, List.length_map]

end TypeStrip.Template

namespace TypeStrip.Token
open TypeStrip.Text TypeStrip.Template

theorem isBody_templateLexeme {cs : List Char} (h : (templateLexeme cs).kind = .template) :
    IsBody (templateLexeme cs).value.toList := by
  unfold templateLexeme at h ⊢
  split
  · rename_i body rest he
    rw [String.toList_ofList]
    exact isBody_of_enclosed he
  · rename_i he
    rw [he] at h
    cases h

/-- A template starts with a backquote, with which nothing else starts. -/
theorem isBody_lexeme {c : Char} {cs : List Char} (h : (lexeme c cs).kind = .template) :
    IsBody (lexeme c cs).value.toList := by
  have hl := starts_lexeme c cs
  have hsource := hl.source
  rw [hl.template h] at hsource
  obtain ⟨rfl, -⟩ := List.cons_prefix_cons.1 hsource
  have hlexeme : lexeme '`' cs = templateLexeme cs := by
    rw [lexeme, if_neg (by decide), if_pos rfl]
  rw [hlexeme] at h ⊢
  exact isBody_templateLexeme h

/-- The template tokens of a text: the value of each is what stands between its backquotes. -/
theorem template_of_mem_tokensFrom (file start : Nat) (cs : List Char) :
    ∀ t ∈ tokensFrom file start cs, t.kind = .template →
      Stretch start cs t.span.start t.span.stop ('`' :: t.value.toList ++ ['`']) ∧
        IsBody t.value.toList := by
  induction start, cs using tokensFrom_induction file with
  | comment start passed text stop =>
    refine List.forall_mem_cons.2 ⟨?_, List.forall_mem_singleton.2 ?_⟩ <;>
      exact fun h => by cases h
  | last start gap newline => exact List.forall_mem_singleton.2 fun h => by cases h
  | lexeme start gap newline c rest after tokens _ hafter ih =>
    have hl := starts_lexeme c rest
    rw [← hafter]
    refine List.forall_mem_cons.2
      ⟨fun hk => ⟨.append gap ?_, isBody_lexeme hk⟩, fun t ht hk => ?_⟩
    · rw [← hl.template hk]
      exact stretch_front _ _ after
    · obtain ⟨hstretch, hbody⟩ := ih t ht hk
      exact ⟨.append gap (.append _ hstretch), hbody⟩

/-- A template token stands in the source with its value between its backquotes. The value can be
split into texts and substitutions, one text more than there are substitutions, and each
substitution stands in it between its braces. -/
theorem tokenize_template {source : String} {file base : Nat} {t : Token}
    (ht : t ∈ tokenize source file base) (hk : t.kind = .template) :
    Stretch base source.toList t.span.start t.span.stop ('`' :: t.value.toList ++ ['`']) ∧
      ∃ parts, split t.value = .ok parts ∧
        parts.texts.length = parts.substitutions.length + 1 ∧
        ∀ s ∈ parts.substitutions, s.IsDelimited 0 t.value.toList := by
  obtain ⟨hstretch, hbody⟩ := template_of_mem_tokensFrom file base source.toList t ht hk
  obtain ⟨parts, hp⟩ := hbody.exists_split
  exact ⟨hstretch, parts, hp, parts.length_texts, delimited_of_split hp⟩

/-- A substitution with an object, a string and another template in it. -/
theorem tokenize_template_nested :
    let body := "a\\`$\x7b x(\x7bb: '\x7d'\x7d, `c$\x7b\"`\"\x7d`) \x7d\\$\x7bd"
    let source := "f(`" ++ body ++ "`);"
    let t : Token := ⟨.template, ⟨2, 38, 7⟩, body, false⟩
    t ∈ tokenize source 7 0 ∧
      Stretch 0 source.toList t.span.start t.span.stop ('`' :: t.value.toList ++ ['`']) ∧
      ∃ parts, split t.value = .ok parts ∧
        parts.texts.length = parts.substitutions.length + 1 ∧
        ∀ s ∈ parts.substitutions, s.IsDelimited 0 t.value.toList := by
  intro body source t
  have ht : t ∈ tokenize source 7 0 := by decide +kernel
  exact ⟨ht, tokenize_template ht rfl⟩

end TypeStrip.Token
