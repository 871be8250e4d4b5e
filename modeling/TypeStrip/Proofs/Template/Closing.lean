import TypeStrip.Template.Closing
import TypeStrip.Text.Enclosure

/-!
Two ways to find where a template or a substitution ends: to keep track of all open enclosures, and
to pass over each part inside as a whole. They find the same place, and it does not depend on what
comes after it.
-/
namespace TypeStrip.Text

variable {inner : Enclosure} {outer : List Enclosure} {c d : Char} {cs : List Char}

/-! ### Steps through enclosures -/

def prepend (front : List Char) (p : List Char × List Char) : List Char × List Char :=
  (front ++ p.1, p.2)

theorem map_prepend_prepend (a b : List Char) (p : Option (List Char × List Char)) :
    (p.map (prepend b)).map (prepend a) = p.map (prepend (a ++ b)) := by
  rw [Option.map_map]
  congr 1
  funext q
  exact congrArg (·, q.2) (List.append_assoc a b q.1).symm

/-- A character that neither hides the one after it nor opens a substitution with it. -/
def IsSingle (inner : Enclosure) (c : Char) (cs : List Char) : Prop :=
  (c = '\\' → inner = .braces ∨ cs = []) ∧ (c = '$' → inner = .template → cs.head? ≠ some '{')

theorem enclosed_single (h : IsSingle inner c cs) :
    enclosed (inner :: outer) (c :: cs) =
      (enclosed (inner.after outer c) cs).map (prepend [c]) := by
  cases cs with
  | nil =>
    rw [enclosed]
    rfl
  | cons d cs =>
    rw [enclosed, if_neg, if_neg]
    · rfl
    · rintro ⟨hc, rfl, hinner⟩
      exact h.2 hc hinner rfl
    · rintro ⟨hc, hinner⟩
      exact (h.1 hc).elim hinner (List.cons_ne_nil _ _)

theorem enclosed_escape (h : inner ≠ .braces) :
    enclosed (inner :: outer) ('\\' :: d :: cs) =
      (enclosed (inner :: outer) cs).map (prepend ['\\', d]) := by
  rw [enclosed, if_pos ⟨rfl, h⟩]
  rfl

theorem enclosed_substitution :
    enclosed (.template :: outer) ('$' :: '{' :: cs) =
      (enclosed (.braces :: .template :: outer) cs).map (prepend ['$', '{']) := by
  rw [enclosed, if_neg (by simp), if_pos ⟨rfl, rfl, rfl⟩]
  rfl

/-- A character that neither opens nor closes anything between braces. -/
def isPlain (c : Char) : Bool := !(['\x7b', '\x7d', '"', '\'', '`'].contains c)

/-- Characters of a kind to which none belongs that opens or closes something. -/
theorem isPlain_of_all {p : Char → Bool}
    (h : (['\x7b', '\x7d', '"', '\'', '`'].all fun c => !p c) = true) (hc : p c = true) :
    isPlain c = true := by
  rw [isPlain, Bool.not_eq_true', ← Bool.not_eq_true, List.contains_iff_mem]
  intro hmem
  have hnot := List.all_eq_true.1 h c hmem
  rw [hc] at hnot
  cases hnot

theorem after_of_isPlain (h : isPlain c = true) (outer : List Enclosure) :
    Enclosure.after .braces outer c = .braces :: outer := by
  simp only [isPlain, List.contains_eq_mem, List.mem_cons, List.not_mem_nil, or_false,
    Bool.not_eq_true', decide_eq_false_iff_not, not_or] at h
  simp [Enclosure.after, h]

/-- Plain text between braces is passed over. -/
theorem enclosed_plain {text : List Char} (h : ∀ c ∈ text, isPlain c = true) (cs : List Char) :
    enclosed (.braces :: outer) (text ++ cs) =
      (enclosed (.braces :: outer) cs).map (prepend text) := by
  induction text with
  | nil => exact (congrFun Option.map_id _).symm
  | cons c text ih =>
    obtain ⟨hc, h⟩ := List.forall_mem_cons.1 h
    have hs : IsSingle .braces c (text ++ cs) := ⟨fun _ => .inl rfl, by simp⟩
    rw [List.cons_append, enclosed_single hs, after_of_isPlain hc, ih h, Option.map_map]
    rfl

/-! ### One enclosure after the other -/

theorem after_append (inner : Enclosure) (outer more : List Enclosure) (c : Char) :
    inner.after (outer ++ more) c = inner.after outer c ++ more := by
  cases inner with
  | template =>
    simp only [Enclosure.after]
    split <;> rfl
  | quoted quote =>
    simp only [Enclosure.after]
    split <;> rfl
  | braces =>
    simp only [Enclosure.after]
    repeat' split
    all_goals rfl

theorem map_prepend_bind (front : List Char) (outers : List Enclosure)
    (p : Option (List Char × List Char)) :
    (p.bind fun q => (enclosed outers q.2).map (prepend q.1)).map (prepend front) =
      (p.map (prepend front)).bind fun q => (enclosed outers q.2).map (prepend q.1) := by
  cases p with
  | none => rfl
  | some q => exact map_prepend_prepend front q.1 _

/-- What closes the inner ones of some enclosures, and then what closes the others. -/
theorem enclosed_append (inners outers : List Enclosure) (cs : List Char) :
    enclosed (inners ++ outers) cs =
      (enclosed inners cs).bind fun p => (enclosed outers p.2).map (prepend p.1) := by
  fun_induction enclosed inners cs with
  | case1 cs => exact (congrFun Option.map_id (enclosed outers cs)).symm
  | case2 => rfl
  | case3 inner outer c ih =>
    rw [List.cons_append, enclosed, after_append, ih]
    exact map_prepend_bind [c] outers _
  | case4 inner outer c d cs h ih =>
    rw [List.cons_append, enclosed, if_pos h, ← List.cons_append, ih]
    exact map_prepend_bind [c, d] outers _
  | case5 inner outer c d cs hc h ih =>
    rw [List.cons_append, enclosed, if_neg hc, if_pos h, ← List.cons_append, ← List.cons_append, ih]
    exact map_prepend_bind [c, d] outers _
  | case6 inner outer c d cs hc h ih =>
    rw [List.cons_append, enclosed, if_neg hc, if_neg h, after_append, ih]
    exact map_prepend_bind [c] outers _

/-! ### What follows the end -/

/-- No string is open that a backslash would close. -/
def NoBackslash (stack : List Enclosure) : Prop := ∀ e ∈ stack, e ≠ .quoted '\\'

theorem NoBackslash.cons (h : NoBackslash outer) (hinner : inner ≠ .quoted '\\') :
    NoBackslash (inner :: outer) :=
  List.forall_mem_cons.2 ⟨hinner, h⟩

theorem NoBackslash.after (h : NoBackslash (inner :: outer)) (c : Char) :
    NoBackslash (inner.after outer c) := by
  have houter : NoBackslash outer := (List.forall_mem_cons.1 h).2
  cases inner with
  | template =>
    simp only [Enclosure.after]
    split
    · exact houter
    · exact h
  | quoted quote =>
    simp only [Enclosure.after]
    split
    · exact houter
    · exact h
  | braces =>
    simp only [Enclosure.after]
    split
    · exact h.cons (by simp)
    · split
      · exact houter
      · split
        · rename_i hc
          refine h.cons fun heq => ?_
          cases heq
          simp at hc
        · split
          · exact h.cons (by simp)
          · exact h

/-- A character that closes all that is open does nothing else. -/
theorem isSingle_of_after_eq_nil (h : NoBackslash (inner :: outer))
    (hc : inner.after outer c = []) (cs : List Char) : IsSingle inner c cs := by
  have hinner := (List.forall_mem_cons.1 h).1
  refine ⟨fun hback => ?_, fun hdollar ht => ?_⟩
  · subst hback
    cases inner with
    | template => simp [Enclosure.after] at hc
    | braces => exact .inl rfl
    | quoted quote =>
      have hquote : '\\' ≠ quote := fun heq => hinner (heq ▸ rfl)
      simp [Enclosure.after, hquote] at hc
  · subst hdollar ht
    simp [Enclosure.after] at hc

theorem front_ne_nil_of_enclosed {front rest : List Char}
    (h : enclosed (inner :: outer) cs = some (front, rest)) : front ≠ [] := by
  rintro rfl
  cases cs with
  | nil => cases h
  | cons c cs =>
    cases cs with
    | nil =>
      rw [enclosed] at h
      obtain ⟨p, -, hp⟩ := Option.map_eq_some_iff.1 h
      cases hp
    | cons d cs =>
      rw [enclosed] at h
      repeat' split at h
      all_goals
        obtain ⟨p, -, hp⟩ := Option.map_eq_some_iff.1 h
        cases hp

/-- A character after which all is closed by the given text. -/
theorem IsSingle.front {front rest : List Char} (h : NoBackslash (inner :: outer))
    (he : enclosed (inner.after outer c) cs = some (front, rest)) (hs : IsSingle inner c cs)
    (following : List Char) : IsSingle inner c (front ++ following) := by
  cases front with
  | nil =>
    cases ha : inner.after outer c with
    | nil => exact isSingle_of_after_eq_nil h ha _
    | cons e es =>
      rw [ha] at he
      exact absurd rfl (front_ne_nil_of_enclosed he)
  | cons d ds =>
    have hcs := append_of_enclosed he
    rw [List.cons_append] at hcs
    rw [← hcs] at hs
    exact ⟨fun hc => (hs.1 hc).imp_right (by simp), hs.2⟩

/-- What comes after the end does not matter. -/
theorem enclosed_front {stack : List Enclosure} {cs front rest : List Char}
    (h : enclosed stack cs = some (front, rest)) (hstack : NoBackslash stack)
    (following : List Char) :
    enclosed stack (front ++ following) = some (front, following) := by
  fun_induction enclosed stack cs generalizing front rest with
  | case1 cs =>
    cases h
    rw [enclosed]
    rfl
  | case2 => cases h
  | case3 inner outer c ih =>
    obtain ⟨⟨front, rest⟩, he, hp⟩ := Option.map_eq_some_iff.1 h
    cases hp
    have hs : IsSingle inner c [] := ⟨fun _ => .inr rfl, by simp⟩
    rw [List.cons_append, enclosed_single (hs.front hstack he following), ih he (hstack.after c)]
    rfl
  | case4 inner outer c d cs hc ih =>
    obtain ⟨⟨front, rest⟩, he, hp⟩ := Option.map_eq_some_iff.1 h
    cases hp
    rw [List.cons_append, List.cons_append, enclosed, if_pos hc, ih he hstack]
    rfl
  | case5 inner outer c d cs hc ho ih =>
    obtain ⟨⟨front, rest⟩, he, hp⟩ := Option.map_eq_some_iff.1 h
    cases hp
    rw [List.cons_append, List.cons_append, enclosed, if_neg hc, if_pos ho,
      ih he (hstack.cons (by simp))]
    rfl
  | case6 inner outer c d cs hc ho ih =>
    obtain ⟨⟨front, rest⟩, he, hp⟩ := Option.map_eq_some_iff.1 h
    cases hp
    have hs : IsSingle inner c (d :: cs) := by
      refine ⟨fun h => .inl (Decidable.byContradiction fun hi => hc ⟨h, hi⟩),
        fun h ht hd => ho ⟨h, ?_, ht⟩⟩
      exact Option.some.inj hd
    rw [List.cons_append, enclosed_single (hs.front hstack he following), ih he (hstack.after c)]
    rfl

end TypeStrip.Text

namespace TypeStrip.Template
open TypeStrip.Text

/-! ### One search finds what the other finds -/

namespace Cut
variable {cs : List Char}

def parts (a : Cut cs) : List Char × List Char := (a.front, a.rest)

theorem map_cons (c : Char) (a : Option (Cut cs)) :
    (a.map (Cut.cons c)).map parts = (a.map parts).map (prepend [c]) := by
  rw [Option.map_map, Option.map_map]
  rfl

theorem map_cons_cons (c d : Char) (a : Option (Cut cs)) :
    (a.map fun cut => (cut.cons d).cons c).map parts = (a.map parts).map (prepend [c, d]) := by
  rw [Option.map_map, Option.map_map]
  rfl

end Cut

/-- A character that closes the only enclosure that is open. -/
theorem enclosed_close {inner : Enclosure} {c : Char} (hinner : inner ≠ .quoted '\\')
    (h : inner.after [] c = []) (cs : List Char) :
    enclosed [inner] (c :: cs) = some ([c], cs) := by
  have hstack : NoBackslash [inner] := List.forall_mem_singleton.2 hinner
  rw [enclosed_single (isSingle_of_after_eq_nil hstack h cs), h, enclosed]
  rfl

theorem cutQuoted_parts {quote : Char} (hq : quote ≠ '\\') (cs : List Char) :
    (cutQuoted quote cs).map Cut.parts = enclosed [.quoted quote] cs := by
  have hinner : Enclosure.quoted quote ≠ .quoted '\\' := fun h => hq (by cases h; rfl)
  have hclose (cs : List Char) : enclosed [.quoted quote] (quote :: cs) = some ([quote], cs) :=
    enclosed_close hinner (by simp [Enclosure.after]) cs
  fun_induction cutQuoted quote cs with
  | case1 => rfl
  | case2 => exact (hclose []).symm
  | case3 c hc =>
    rw [enclosed, Enclosure.after, if_neg hc]
    rfl
  | case4 d cs => exact (hclose _).symm
  | case5 d cs hc ih => rw [Cut.map_cons_cons, ih, enclosed_escape (by simp)]
  | case6 c d cs hc hback ih =>
    have hs : IsSingle (.quoted quote) c (d :: cs) := ⟨fun h => absurd h hback, by simp⟩
    rw [Cut.map_cons, ih, enclosed_single hs, Enclosure.after, if_neg hc]

/-- A part inside, and then what is left of the text around it. -/
theorem Cut.map_append {inners outers : List Enclosure} {cs : List Char} {a : Option (Cut cs)}
    {next : ∀ b : Cut cs, Option (Cut b.rest)} (ha : a.map Cut.parts = enclosed inners cs)
    (hnext : ∀ b, (next b).map Cut.parts = enclosed outers b.rest) :
    (a.bind fun b => (next b).map b.append).map Cut.parts = enclosed (inners ++ outers) cs := by
  rw [enclosed_append, ← ha]
  cases a with
  | none => rfl
  | some b =>
    show ((next b).map b.append).map Cut.parts = (enclosed outers b.rest).map (prepend b.front)
    rw [← hnext, Option.map_map, Option.map_map]
    rfl

/-- Both ways to search find the same in texts that are shorter than that. -/
def AgreeBelow (n : Nat) : Prop := ∀ cs : List Char, cs.length < n →
  (∀ depth, (cutBraces depth cs).map Cut.parts =
    enclosed (List.replicate (depth + 1) .braces) cs) ∧
  (cutTemplate cs).map Cut.parts = enclosed [.template] cs

theorem AgreeBelow.braces {cs : List Char} (h : AgreeBelow cs.length) (depth : Nat) :
    (cutBraces depth cs).map Cut.parts = enclosed (List.replicate (depth + 1) .braces) cs := by
  cases cs with
  | nil =>
    rw [cutBraces.eq_def]
    rfl
  | cons c cs =>
    have hlt : cs.length < (c :: cs).length := Nat.lt_succ_self _
    have hrest (a : Cut cs) : a.rest.length < (c :: cs).length := Nat.lt_trans a.length_rest_lt hlt
    have hs : IsSingle .braces c cs := ⟨fun _ => .inl rfl, by simp⟩
    rw [cutBraces.eq_def, List.replicate_succ, enclosed_single hs]
    dsimp only [Enclosure.after]
    split
    · rw [Cut.map_cons, (h cs hlt).1]
      rfl
    · split
      · cases depth with
        | zero =>
          rw [List.replicate_zero, enclosed]
          rfl
        | succ depth => rw [Cut.map_cons, (h cs hlt).1]
      · split
        · rename_i hc
          have hquote : c ≠ '\\' := by
            rintro rfl
            simp at hc
          rw [Cut.map_cons, Cut.map_append (cutQuoted_parts hquote cs)
            fun a => (h _ (hrest a)).1 depth]
          rfl
        · split
          · rw [Cut.map_cons, Cut.map_append (h cs hlt).2 fun a => (h _ (hrest a)).1 depth]
            rfl
          · rw [Cut.map_cons, (h cs hlt).1]
            rfl

theorem AgreeBelow.template {cs : List Char} (h : AgreeBelow cs.length) :
    (cutTemplate cs).map Cut.parts = enclosed [.template] cs := by
  have hclose (cs : List Char) : enclosed [.template] ('`' :: cs) = some (['`'], cs) :=
    enclosed_close (by simp) rfl cs
  cases cs with
  | nil =>
    rw [cutTemplate]
    rfl
  | cons c cs =>
    cases cs with
    | nil =>
      rw [cutTemplate]
      split
      · rename_i hc
        rw [hc, hclose]
        rfl
      · rename_i hc
        rw [enclosed, Enclosure.after, if_neg hc]
        rfl
    | cons d cs =>
      have hlt : cs.length < (c :: d :: cs).length := by simp only [List.length_cons]; omega
      rw [cutTemplate]
      split
      · rename_i hc
        rw [hc, hclose]
        rfl
      · rename_i hc
        split
        · rename_i hback
          rw [hback, Cut.map_cons_cons, (h cs hlt).2, enclosed_escape (by simp)]
        · rename_i hback
          split
          · rename_i hopen
            rw [hopen.1, hopen.2, Cut.map_cons_cons,
              Cut.map_append ((h cs hlt).1 0) fun a => (h _ (Nat.lt_trans a.length_rest_lt hlt)).2,
              enclosed_substitution]
            rfl
          · rename_i hopen
            have hs : IsSingle .template c (d :: cs) :=
              ⟨fun h => absurd h hback, fun h _ hd => hopen ⟨h, Option.some.inj hd⟩⟩
            rw [Cut.map_cons, (h (d :: cs) (Nat.lt_succ_self _)).2, enclosed_single hs,
              Enclosure.after, if_neg hc]

theorem agreeBelow (n : Nat) : AgreeBelow n := by
  induction n with
  | zero => exact fun cs h => absurd h (Nat.not_lt_zero _)
  | succ n ih =>
    intro cs h
    have hbelow : AgreeBelow cs.length := fun ds hds => ih ds (by omega)
    exact ⟨hbelow.braces, hbelow.template⟩

/-- Passing over each part as a whole finds the brace that keeping track of what is open finds. -/
theorem cutBraces_parts (cs : List Char) :
    (cutBraces 0 cs).map Cut.parts = enclosed [.braces] cs :=
  (agreeBelow _).braces 0

end TypeStrip.Template
