import TypeStrip.Code.Text
import TypeStrip.Proofs.Lexing.Forms
import TypeStrip.Proofs.Template.Bodies
import TypeStrip.Proofs.Template.Substitutions

/-!
Templates as they are written: escaped texts, and names in braces between them. What is written is
read as one template, and split into the same texts and names again.
-/
namespace TypeStrip.Text

variable {s cs rest : List Char} {c : Char}

/-! ### Escaped texts -/

/-- Escaping puts no brace in front of a text. -/
theorem head?_templateChars (hs : s.head? ≠ some '\x7b') (hrest : rest.head? ≠ some '\x7b') :
    (templateChars s ++ rest).head? ≠ some '\x7b' := by
  unfold templateChars
  split
  · exact hrest
  · simp
  · simp
  · simp
  · simp
  · exact hs

structure IsVerbatim (c : Char) (cs : List Char) : Prop where
  ne_backquote : c ≠ '`'
  ne_backslash : c ≠ '\\'
  ne_return : c ≠ '\r'
  opensNothing : c = '$' → cs.head? ≠ some '\x7b'

/-- The ways to write the front of a text: behind a backslash, or as it is. -/
theorem templateChars_induction {P : List Char → List Char → Prop} (nil : P [] [])
    (escape : ∀ c d cs, d ∈ ['`', '\\', 'r', '$'] → simpleEscape d = c →
      P cs (templateChars cs) → P (c :: cs) ('\\' :: d :: templateChars cs))
    (verbatim : ∀ c cs, IsVerbatim c cs → P cs (templateChars cs) →
      P (c :: cs) (c :: templateChars cs)) (s : List Char) : P s (templateChars s) := by
  fun_induction templateChars s with
  | case1 => exact nil
  | case2 cs ih => exact escape _ _ _ (by decide) (by decide) ih
  | case3 cs ih => exact escape _ _ _ (by decide) (by decide) ih
  | case4 cs ih => exact escape _ _ _ (by decide) (by decide) ih
  | case5 cs ih =>
    have hbrace : IsVerbatim '\x7b' cs := ⟨by decide, by decide, by decide, fun h => by cases h⟩
    have htext : templateChars ('\x7b' :: cs) = '\x7b' :: templateChars cs := by
      rw [templateChars] <;> simp
    have h := escape '$' '$' ('\x7b' :: cs) (by decide) (by decide)
      (htext ▸ verbatim _ cs hbrace ih)
    rwa [htext] at h
  | case6 c cs hquote hback hreturn hopen ih =>
    refine verbatim c cs ⟨hquote, hback, hreturn, fun hc hhead => ?_⟩ ih
    obtain ⟨ds, rfl⟩ := List.head?_eq_some_iff.1 hhead
    exact hopen ds hc rfl

theorem cookTemplate_templateChars (s : List Char) : cookTemplate (templateChars s) = s := by
  refine templateChars_induction (P := fun s t => cookTemplate t = s) ?_ ?_ ?_ s
  · rw [cookTemplate]
  · intro c d cs hd hc ih
    have hplain : d ≠ 'u' ∧ d ≠ 'x' ∧ d ≠ '\n' := by
      simp only [List.mem_cons, List.not_mem_nil, or_false] at hd
      rcases hd with rfl | rfl | rfl | rfl <;> decide
    obtain ⟨hu, hx, hn⟩ := hplain
    rw [cookTemplate]
    simp [escaped, hu, hx, hn, hc, ih]
  · intro c cs hc ih
    rw [cookTemplate, ih]
    all_goals simp [hc.ne_return, hc.ne_backslash]

/-- An escaped text neither closes a template nor opens a substitution in it. -/
theorem enclosed_templateChars {outer : List Enclosure} (hrest : rest.head? ≠ some '\x7b')
    (s : List Char) :
    enclosed (.template :: outer) (templateChars s ++ rest) =
      (enclosed (.template :: outer) rest).map (prepend (templateChars s)) := by
  refine templateChars_induction (P := fun _ t => enclosed (.template :: outer) (t ++ rest) =
    (enclosed (.template :: outer) rest).map (prepend t)) ?_ ?_ ?_ s
  · exact (congrFun Option.map_id _).symm
  · intro c d cs _ _ ih
    rw [List.cons_append, List.cons_append, enclosed_escape (by simp), ih, map_prepend_prepend]
    rfl
  · intro c cs hc ih
    have hs : IsSingle .template c (templateChars cs ++ rest) :=
      ⟨fun h => absurd h hc.ne_backslash, fun h _ => head?_templateChars (hc.opensNothing h) hrest⟩
    rw [List.cons_append, enclosed_single hs, Enclosure.after, if_neg hc.ne_backquote, ih,
      map_prepend_prepend]
    rfl

end TypeStrip.Text

namespace TypeStrip.Template
open TypeStrip.Text

variable {c : Char} {rest : List Char}

/-! ### Names in braces -/

/-- A word in braces is closed by the brace behind it. -/
theorem enclosed_word {word : List Char} (h : ∀ c ∈ word, isWordPart c = true) :
    Text.enclosed [.braces] (word ++ '\x7d' :: rest) = some (word ++ ['\x7d'], rest) := by
  rw [enclosed_plain fun c hc => Token.isPlain_of_isWordPart (h c hc),
    enclosed_close (by simp) rfl rest]
  rfl

theorem exists_cutBraces_word {word : List Char} (h : ∀ c ∈ word, isWordPart c = true)
    (rest : List Char) :
    ∃ cut, cutBraces 0 (word ++ '\x7d' :: rest) = some cut ∧ cut.front = word ++ ['\x7d'] ∧
      cut.rest = rest := by
  have hparts := cutBraces_parts (word ++ '\x7d' :: rest)
  rw [enclosed_word h] at hparts
  obtain ⟨cut, hcut, hp⟩ := Option.map_eq_some_iff.1 hparts
  exact ⟨cut, hcut, congrArg Prod.fst hp, congrArg Prod.snd hp⟩

/-! ### Bodies as they are written -/

/-- A text, and then names in braces with a text behind each. -/
def writtenBody (head : String) (tail : List (String × String)) : List Char :=
  templateChars head.toList ++
    tail.flatMap fun (name, text) => '$' :: '\x7b' :: (name.toList ++ '\x7d' :: templateChars text.toList)

theorem writtenBody_cons (head name text : String) (tail : List (String × String)) :
    writtenBody head ((name, text) :: tail) = templateChars head.toList ++
      '$' :: '\x7b' :: (name.toList ++ '\x7d' :: writtenBody text tail) := by
  simp [writtenBody]

/-- A body as it is written ends at the backquote behind it. -/
theorem enclosed_writtenBody {head : String} {tail : List (String × String)}
    (h : ∀ p ∈ tail, ∀ c ∈ p.1.toList, isWordPart c = true) :
    Text.enclosed [.template] (writtenBody head tail ++ '`' :: rest) =
      some (writtenBody head tail ++ ['`'], rest) := by
  induction tail generalizing head with
  | nil =>
    rw [writtenBody, List.flatMap_nil, List.append_nil, enclosed_templateChars (by simp),
      enclosed_close (by simp) rfl]
    rfl
  | cons p tail ih =>
    obtain ⟨name, text⟩ := p
    obtain ⟨hname, htail⟩ := List.forall_mem_cons.1 h
    have hbody (rest : List Char) : writtenBody head ((name, text) :: tail) ++ rest =
        templateChars head.toList ++
          '$' :: '\x7b' :: (name.toList ++ '\x7d' :: (writtenBody text tail ++ rest)) := by
      simp [writtenBody_cons]
    rw [hbody, hbody, enclosed_templateChars (by simp), enclosed_substitution]
    have hinside : Text.enclosed [.braces, .template]
        (name.toList ++ '\x7d' :: (writtenBody text tail ++ '`' :: rest)) =
          some (name.toList ++ '\x7d' :: (writtenBody text tail ++ ['`']), rest) := by
      have happend := enclosed_append [.braces] [.template]
        (name.toList ++ '\x7d' :: (writtenBody text tail ++ '`' :: rest))
      rw [enclosed_word hname, Option.bind_some, ih htail] at happend
      simpa [prepend] using happend
    rw [hinside]
    rfl

/-- An escaped text becomes the front of a text of the template. -/
theorem segments_templateChars {head : List Char} {tail : List (Substitution × List Char)}
    (hrest : rest.head? ≠ some '\x7b') (s : List Char) (offset : Nat)
    (h : segments (offset + byteCount (templateChars s)) rest = .ok (head, tail)) :
    segments offset (templateChars s ++ rest) = .ok (templateChars s ++ head, tail) := by
  refine templateChars_induction (P := fun _ t => ∀ offset,
    segments (offset + byteCount t) rest = .ok (head, tail) →
      segments offset (t ++ rest) = .ok (t ++ head, tail)) ?_ ?_ ?_ s offset h
  · exact fun offset h => h
  · intro c d cs _ _ ih offset h
    have hback : '\\'.utf8Size = 1 := rfl
    rw [List.cons_append, List.cons_append, segments, ih]
    · rfl
    · rw [← h, byteCount_cons, byteCount_cons, hback, ← Nat.add_assoc, ← Nat.add_assoc]
  · intro c cs hc ih offset h
    have hhead (hdollar : c = '$') : (templateChars cs ++ rest).head? ≠ some '\x7b' :=
      head?_templateChars (hc.opensNothing hdollar) hrest
    rw [List.cons_append, segments, ih]
    · rfl
    · rw [← h, byteCount_cons, Nat.add_assoc]
    all_goals simp [hc.ne_backslash]
    rintro ds rfl hds
    simp [hds] at hhead

/-- A body as it is written is split into its texts and names. -/
theorem exists_segments_writtenBody (head : String) {tail : List (String × String)}
    (h : ∀ p ∈ tail, ∀ c ∈ p.1.toList, isWordPart c = true) (offset : Nat) :
    ∃ found : List (Substitution × List Char), segments offset (writtenBody head tail) =
        .ok (templateChars head.toList, found) ∧
      found.map (fun p => (p.1.source, p.2)) =
        tail.map fun (name, text) => (name, templateChars text.toList) := by
  induction tail generalizing head offset with
  | nil =>
    refine ⟨[], ?_, rfl⟩
    have hs : segments offset (templateChars head.toList ++ []) =
        .ok (templateChars head.toList ++ [], []) :=
      segments_templateChars (by simp) head.toList offset (by rw [segments])
    rw [List.append_nil] at hs
    rwa [writtenBody, List.flatMap_nil, List.append_nil]
  | cons p tail ih =>
    obtain ⟨name, text⟩ := p
    obtain ⟨hname, htail⟩ := List.forall_mem_cons.1 h
    obtain ⟨cut, hcut, hfront, hrest⟩ := exists_cutBraces_word hname (writtenBody text tail)
    obtain ⟨found, hfound, hmap⟩ := ih text htail
      (offset + byteCount (templateChars head.toList) + 2 + byteCount cut.front)
    refine ⟨(⟨name, offset + byteCount (templateChars head.toList) + 2⟩,
      templateChars text.toList) :: found, ?_, by simp [hmap]⟩
    rw [writtenBody_cons]
    have hcutAway : segments (offset + byteCount (templateChars head.toList))
        ('$' :: '\x7b' :: (name.toList ++ '\x7d' :: writtenBody text tail)) =
          .ok ([], (⟨name, offset + byteCount (templateChars head.toList) + 2⟩,
            templateChars text.toList) :: found) := by
      rw [segments, hcut]
      dsimp only
      rw [hrest, hfound]
      simp [hfront]
      rfl
    have hs := segments_templateChars (by simp) head.toList offset hcutAway
    rwa [List.append_nil] at hs

end TypeStrip.Template

namespace TypeStrip
open TypeStrip.Text TypeStrip.Template TypeStrip.Token

/-! ### Templates -/

def namesTemplate (head : String) (tail : List (String × String)) : Code.Expr :=
  .template (head :: tail.map Prod.snd) (tail.map fun p => .ident p.1)

theorem templateParts_names (depth : Nat) (head : String) (tail : List (String × String)) :
    (Code.templateParts depth (head :: tail.map Prod.snd) (tail.map fun p => .ident p.1)).toList =
      writtenBody head tail := by
  induction tail generalizing head with
  | nil => simp [Code.templateParts, templateText, writtenBody]
  | cons p tail ih =>
    obtain ⟨name, text⟩ := p
    simp [Code.templateParts, templateText, Code.Expr.text, ih text, writtenBody_cons]

theorem text_namesTemplate (depth : Nat) (head : String) (tail : List (String × String)) :
    ((namesTemplate head tail).text depth).toList = '`' :: (writtenBody head tail ++ ['`']) := by
  have hparts := templateParts_names depth head tail
  simp [namesTemplate, Code.Expr.text, hparts]

/-- What is written as a body is one token between backquotes. -/
theorem tokenize_template_body {text : String} {body : List Char} (htext : text.toList = '`' :: (body ++ ['`']))
    (hbody : Text.enclosed [.template] (body ++ ['`']) = some (body ++ ['`'], [])) (file start : Nat) :
    let stop := start + byteCount text.toList
    tokenize text file start = [⟨.template, ⟨start, stop, file⟩, String.ofList body, false⟩,
      ⟨.eof, ⟨stop, stop, file⟩, "", false⟩] := by
  have hl : lexeme '`' (body ++ ['`']) = ⟨.template, String.ofList body, '`' :: (body ++ ['`'])⟩ := by
    rw [lexeme, if_neg (by decide), if_pos rfl, templateLexeme, hbody]
    simp
  rw [tokenize, htext, tokensFrom_whole (by decide) (by decide) (by rw [hl]), hl, ← htext]
  rfl

/-- A template whose substitutions are names: its text is read as one token and the end of the text,
and what the token has between its backquotes is split into the texts and the names again. -/
theorem template_reads_back {head : String} {tail : List (String × String)}
    (h : ∀ p ∈ tail, Lexes p.1.toList [⟨.identifier, p.1, false⟩]) (depth file start : Nat) :
    let body := templateText head ++
      String.join (tail.map fun p => "$\x7b" ++ p.1 ++ "\x7d" ++ templateText p.2)
    let text := "`" ++ body ++ "`"
    let stop := start + byteCount text.toList
    (namesTemplate head tail).text depth = text ∧
      tokenize text file start = [⟨.template, ⟨start, stop, file⟩, body, false⟩,
        ⟨.eof, ⟨stop, stop, file⟩, "", false⟩] ∧
      ∃ parts, split body = .ok parts ∧ parts.texts = head :: tail.map Prod.snd ∧
        parts.substitutions.map Substitution.source = tail.map Prod.fst := by
  intro body text stop
  have hwords : ∀ p ∈ tail, ∀ c ∈ p.1.toList, isWordPart c = true := fun p hp =>
    forall_isWordPart (isIdentifier_iff_lexes.2 (h p hp)).word
  have hbody : body.toList = writtenBody head tail := by
    simp [body, writtenBody, templateText, List.flatMap_def, Function.comp_def]
  have htext : text.toList = '`' :: (body.toList ++ ['`']) := by simp [text]
  have hcode : (namesTemplate head tail).text depth = text := by
    rw [← String.toList_inj, text_namesTemplate, htext, hbody]
  have hend : Text.enclosed [.template] (body.toList ++ ['`']) = some (body.toList ++ ['`'], []) := by
    rw [hbody]
    exact enclosed_writtenBody hwords
  have htokens := tokenize_template_body htext hend file start
  rw [String.ofList_toList] at htokens
  obtain ⟨found, hfound, hmap⟩ := exists_segments_writtenBody head hwords 0
  have hsplit : split body = .ok ⟨String.ofList (cookTemplate (templateChars head.toList)),
      found.map fun p => (p.1, String.ofList (cookTemplate p.2))⟩ := by
    rw [split, hbody, hfound]
    rfl
  refine ⟨hcode, htokens, _, hsplit, ?_, ?_⟩
  · have htexts : found.map (fun p => String.ofList (cookTemplate p.2)) = tail.map Prod.snd := by
      have h := congrArg (List.map fun p => String.ofList (cookTemplate p.2)) hmap
      simpa [Function.comp_def, cookTemplate_templateChars] using h
    simp [Parts.texts, Function.comp_def, htexts, cookTemplate_templateChars]
  · have hnames := congrArg (List.map Prod.fst) hmap
    simpa [Parts.substitutions, Function.comp_def] using hnames

/-- A dollar sign in front of a substitution, and texts with a backquote, a brace, a backslash and a
carriage return. -/
theorem template_reads_back_escapes :
    let tail := [("x", "$\x7b`"), ("$", "\x7d\\\r\n")]
    let body := "a$$\x7bx\x7d\\$\x7b\\`$\x7b$\x7d\x7d\\\\\\r\n"
    (∀ p ∈ tail, Lexes p.1.toList [⟨.identifier, p.1, false⟩]) ∧
      (namesTemplate "a$" tail).text 0 = "`" ++ body ++ "`" ∧
      tokenize ("`" ++ body ++ "`") 0 0 = [⟨.template, ⟨0, 23, 0⟩, body, false⟩, ⟨.eof, ⟨23, 23, 0⟩, "", false⟩] ∧
      ∃ parts, split body = .ok parts ∧ parts.texts = ["a$", "$\x7b`", "\x7d\\\r\n"] ∧
        parts.substitutions.map Substitution.source = ["x", "$"] := by
  intro tail body
  have hnames : ∀ p ∈ tail, Lexes p.1.toList [⟨.identifier, p.1, false⟩] := by
    refine List.forall_mem_cons.2 ⟨?_, List.forall_mem_singleton.2 ?_⟩
    · exact isIdentifier_iff_lexes.1 ⟨by decide +kernel, by decide +kernel⟩
    · exact isIdentifier_iff_lexes.1 ⟨by decide +kernel, by decide +kernel⟩
  have hbody : templateText "a$" ++ String.join (tail.map fun p =>
      "$\x7b" ++ p.1 ++ "\x7d" ++ templateText p.2) = body := by decide +kernel
  have h := @template_reads_back "a$" tail hnames 0 0 0
  have hstop : 0 + byteCount ("`" ++ body ++ "`").toList = 23 := by decide +kernel
  rw [hbody] at h
  dsimp only at h
  rw [hstop] at h
  exact ⟨hnames, h⟩

end TypeStrip
