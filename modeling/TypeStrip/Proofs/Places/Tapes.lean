import TypeStrip.Grammar.Program
import TypeStrip.Proofs.Places.Outline
import TypeStrip.Proofs.Places.Tokens

/-! What has been read on a tape whose tokens lie in a source. -/
namespace TypeStrip
open TypeStrip.Token (Follow Lies)

namespace Grammar

/-- The tokens are an expression: none of them is malformed, and the expression is read up to the
one that marks the end. -/
structure ReadsToEnd (tokens : List Token) (e : Expr) : Prop where
  sound : ∀ t ∈ tokens, t.kind ≠ .error
  reads : ∃ fuel t, wholeExpression (levels (substitutionUpTo fuel) (maxNesting + 1))
    (Tape.ofTokens tokens) = .ok e t ∧ t.current.kind = .eof ∧ t.position + 1 = tokens.length

end Grammar

open Grammar

/-- What a label says is so: a name is written at the span; a template is, between backquotes, and
the tokens of each of its substitutions are the expression. -/
def Label.Faithful (S : Source) (s : Span) : Label → Prop
  | .plain => True
  | .name text => S.Spells s text
  | .template texts exprs => ∃ raw parts, S.Spells s ("`" ++ raw ++ "`") ∧
      Template.split raw = .ok parts ∧ parts.texts = texts ∧
      List.Forall₂ (fun sub e => ReadsToEnd (substitutionTokens S.file (s.start + 1) sub) e)
        parts.substitutions exprs

/-- A node is a stretch of the source, its label is right, and it holds its parts. -/
inductive Outline.Faithful (S : Source) : Outline → Prop where
  | node {s : Span} {l : Label} {ps : List Outline} (hs : S.Holds s) (hl : l.Faithful S s)
    (hw : ∀ p ∈ ps, p.span.Within s) (hp : ∀ p ∈ ps, p.Faithful S) : Faithful S (.node s l ps)

theorem Outline.Faithful.holds {S : Source} {o : Outline} (h : o.Faithful S) : S.Holds o.span := by
  cases h
  assumption

theorem Outline.Faithful.leaf {S : Source} {s : Span} (h : S.Holds s) :
    (Outline.leaf s).Faithful S :=
  .node h trivial (by simp) (by simp)

theorem Outline.Faithful.inside {S : Source} {o o' : Outline} (h : o'.Faithful S)
    (ho : o.Inside o') :
    o.Faithful S := by
  induction ho with
  | refl => exact h
  | part hp _ ih =>
    cases h with
    | node _ _ _ hparts => exact ih (hparts _ hp)

/-! ### Tokens one after the other -/

namespace Token.Follow
variable {S : Source} {stop start : Nat} {t : Token} {ts : List Token}

theorem head (h : Follow S stop start (t :: ts)) : t.Lies S ∧ start ≤ t.span.start := by
  cases h with
  | last ht _ hs _ => exact ⟨ht, hs⟩
  | cons ht _ hs _ => exact ⟨ht, hs⟩

theorem tail {u : Token} (h : Follow S stop start (t :: u :: ts)) :
    Follow S stop t.span.stop (u :: ts) := by
  cases h
  assumption

theorem stop_le (h : Follow S stop start (t :: ts)) : t.span.stop ≤ stop := by
  induction ts generalizing t start with
  | nil =>
    cases h with
    | last _ _ _ he => exact he
    | cons _ _ _ h => cases h
  | cons u us ih =>
    have hu := h.tail
    exact Nat.le_trans (Nat.le_trans hu.head.2 hu.head.1.holds.le) (ih hu)

/-- Another token in place of the first one, with the same end. -/
theorem replace {u : Token} (h : Follow S stop start (t :: ts)) (ht : t.kind ≠ .eof) (hu : u.Lies S)
    (hk : u.kind ≠ .eof) (hs : t.span.start ≤ u.span.start) (he : u.span.stop = t.span.stop) :
    Follow S stop start (u :: ts) := by
  cases h with
  | last _ hk => exact absurd hk ht
  | cons _ _ hl hf => exact .cons hu hk (Nat.le_trans hl hs) (he ▸ hf)

end Token.Follow

namespace Grammar
variable {S : Source} {stop : Nat} {t t' : Tape}

/-- The tokens from the place on lie one after the other in the source, and the token before the
place in front of them. -/
structure Tape.Lies (S : Source) (stop : Nat) (t : Tape) : Prop where
  ahead : ∃ start, Follow S stop start (t.current :: t.following)
  behind : ∀ p ∈ t.passed.head?, S.Holds p.span ∧ p.span.start < p.span.stop ∧
    p.span.stop ≤ t.current.span.start

/-- The span starts at the given byte or after it, in the token before the place or earlier, and
that token does not end before the span. -/
def Tape.HasRead (t : Tape) (least : Nat) (s : Span) : Prop :=
  least ≤ s.start ∧ ∃ p ∈ t.passed.head?, s.start ≤ p.span.start ∧ s.stop ≤ p.span.stop

/-- What has been read from a place on, which is given by the span of the token there. -/
structure Since (S : Source) (stop : Nat) (start : Span) (os : List Outline) (t : Tape) : Prop where
  lies : t.Lies S stop
  holds : S.Holds start
  starts : start.start ≤ t.current.span.start
  stops : start.stop ≤ t.current.span.stop
  behind : ∀ p ∈ t.passed.head?, start.start ≤ p.span.start → start.stop ≤ p.span.stop
  parts : ∀ o ∈ os, o.Faithful S ∧ t.HasRead start.start o.span

/-- What may be left of an operator that starts with `>`. -/
structure IsRest (kind : Token.Kind) (value : String) : Prop where
  eof : kind ≠ .eof
  error : kind ≠ .error
  word : kind.isWord = false
  template : kind ≠ .template
  wide : 0 < Text.byteCount value.toList
  angle : ∀ kind' value', afterAngle? kind = some (kind', value') →
    Text.byteCount value.toList = Text.byteCount value'.toList + 1

theorem isRest_of_afterAngle? {k kind : Token.Kind} {value : String}
    (h : afterAngle? k = some (kind, value)) : k ≠ .eof ∧ IsRest kind value := by
  unfold afterAngle? at h
  split at h <;> cases h
  all_goals
    refine ⟨by decide, by decide, by decide, by decide, by decide, by decide, fun _ _ h => ?_⟩
    cases h <;> decide

namespace Tape.Lies

theorem current (h : t.Lies S stop) : t.current.Lies S := h.ahead.choose_spec.head.1

theorem current_le (h : t.Lies S stop) : t.current.span.stop ≤ stop := h.ahead.choose_spec.stop_le

theorem advance (h : t.Lies S stop) : t.advance.Lies S stop := by
  obtain ⟨start, hahead⟩ := h.ahead
  unfold Tape.advance
  split
  · rename_i next rest hend hfollowing
    rw [hfollowing] at hahead
    refine ⟨⟨_, hahead.tail⟩, fun p hp => ?_⟩
    cases hp
    have hkind : t.current.kind ≠ .eof := beq_eq_false_iff_ne.1 hend
    exact ⟨hahead.head.1.holds, hahead.head.1.wide hkind, hahead.tail.head.2⟩
  · exact h

theorem splitAngle (h : t.Lies S stop) {kind : Token.Kind} {value : String}
    (ha : afterAngle? t.current.kind = some (kind, value)) :
      (t.splitAngle kind value).Lies S stop := by
  obtain ⟨heof, hrest⟩ := isRest_of_afterAngle? ha
  obtain ⟨start, hahead⟩ := h.ahead
  have hcurrent := hahead.head.1
  have hwidth := hcurrent.angle kind value ha
  have hvalue := hrest.wide
  have hlies : (t.splitAngle kind value).current.Lies S := by
    refine ⟨⟨hcurrent.holds.file, ?_, hcurrent.holds.stop⟩, fun _ => ?_, fun hw => ?_, fun ht => ?_,
      fun kind' value' ha' => ?_⟩
    · exact Nat.le_trans (Nat.le_add_right ..) hwidth
    · exact Nat.lt_of_lt_of_le (Nat.lt_add_of_pos_right hvalue) hwidth
    · exact absurd hw
        (by rw [show (t.splitAngle kind value).current.kind = kind from rfl, hrest.word]; decide)
    · exact absurd ht hrest.template
    · have hangle := hrest.angle kind' value' ha'
      show t.current.span.start + 1 + 1 + _ ≤ t.current.span.stop
      omega
  refine ⟨⟨start, ?_⟩, fun p hp => ?_⟩
  · exact hahead.replace heof hlies hrest.eof (Nat.le_succ _) rfl
  · obtain ⟨hholds, hwide, hle⟩ := h.behind p hp
    exact ⟨hholds, hwide, Nat.le_succ_of_le hle⟩

theorem reaches (h : t.Lies S stop) (hr : t.Reaches t') : t'.Lies S stop := by
  induction hr with
  | refl => exact h
  | advance _ ih => exact ih.advance
  | splitAngle _ ha ih => exact ih.splitAngle ha

end Tape.Lies

/-! ### What stays read -/

/-- What has been read ends before the current token starts. -/
theorem Tape.HasRead.stop_le {least : Nat} {s : Span} (h : t.HasRead least s) (ht : t.Lies S stop) :
    s.stop ≤ t.current.span.start := by
  obtain ⟨-, p, hp, -, he⟩ := h
  exact Nat.le_trans he (ht.behind p hp).2.2

theorem Tape.HasRead.advance {least : Nat} {s : Span} (h : t.HasRead least s) (ht : t.Lies S stop) :
    t.advance.HasRead least s := by
  obtain ⟨hleast, p, hp, hs, he⟩ := h
  obtain ⟨hholds, -, hle⟩ := ht.behind p hp
  have hcurrent := ht.current.holds.le
  have hple := hholds.le
  unfold Tape.advance
  split
  · exact ⟨hleast, t.current, rfl, by omega, by omega⟩
  · exact ⟨hleast, p, hp, hs, he⟩

namespace Since
variable {start : Span} {os : List Outline}

theorem advance (h : Since S stop start os t) : Since S stop start os t.advance := by
  have hparts : ∀ o ∈ os, o.Faithful S ∧ t.advance.HasRead start.start o.span :=
    fun o ho => ⟨(h.parts o ho).1, (h.parts o ho).2.advance h.lies⟩
  have hlies := h.lies.advance
  have hcurrent := h.lies.current.holds.le
  have hstarts := h.starts
  have hstops := h.stops
  obtain ⟨first, hahead⟩ := h.lies.ahead
  revert hparts hlies
  unfold Tape.advance
  split
  · rename_i next rest hend hfollowing
    intro hparts hlies
    rw [hfollowing] at hahead
    have hnext := hahead.tail.head
    have hle := hnext.1.holds.le
    refine ⟨hlies, h.holds, ?_, ?_, fun p hp _ => ?_, hparts⟩
    · exact Nat.le_trans hstarts (Nat.le_trans hcurrent hnext.2)
    · exact Nat.le_trans hstops (Nat.le_trans hnext.2 hle)
    · cases hp
      exact hstops
  · exact fun _ _ => h

theorem splitAngle (h : Since S stop start os t) {kind : Token.Kind} {value : String}
    (ha : afterAngle? t.current.kind = some (kind, value)) :
    Since S stop start os (t.splitAngle kind value) :=
  ⟨h.lies.splitAngle ha, h.holds, Nat.le_succ_of_le h.starts, h.stops, h.behind, h.parts⟩

/-- What has been read stays read. -/
theorem reaches (h : Since S stop start os t) (hr : t.Reaches t') : Since S stop start os t' := by
  induction hr with
  | refl => exact h
  | advance _ ih => exact ih.advance
  | splitAngle _ ha ih => exact ih.splitAngle ha

/-- Nothing has been read from the current token on. -/
theorem here (h : t.Lies S stop) : Since S stop t.current.span [] t where
  lies := h
  holds := h.current.holds
  starts := Nat.le_refl _
  stops := Nat.le_refl _
  behind p hp hle := by
    obtain ⟨_, hwide, hstop⟩ := h.behind p hp
    omega
  parts := by simp

/-- Less has been read, too. -/
theorem subset {os' : List Outline} (h : Since S stop start os t) (hos : os' ⊆ os) :
    Since S stop start os' t :=
  { h with parts := fun o ho => h.parts o (hos ho) }

/-- What else has been read. -/
theorem append {os' : List Outline} (h : Since S stop start os t)
    (hos : ∀ o ∈ os', o.Faithful S ∧ t.HasRead start.start o.span) :
    Since S stop start (os' ++ os) t :=
  { h with parts := fun o ho => (List.mem_append.1 ho).elim (hos o) (h.parts o) }

theorem cons {o : Outline} (h : Since S stop start os t)
    (ho : o.Faithful S ∧ t.HasRead start.start o.span) : Since S stop start (o :: os) t :=
  h.append (List.forall_mem_singleton.2 ho)

/-- If anything has been read, the token at the start has. -/
theorem hasRead (h : Since S stop start os t) (hos : os ≠ []) : t.HasRead start.start start := by
  obtain ⟨o, os', rfl⟩ := List.exists_cons_of_ne_nil hos
  obtain ⟨-, hleast, p, hp, hs, -⟩ := h.parts o List.mem_cons_self
  have hstart := Nat.le_trans hleast hs
  exact ⟨Nat.le_refl _, p, hp, hstart, h.behind p hp hstart⟩

/-- What has been read since a node that was itself read. -/
theorem restart {o : Outline} (h : Since S stop start os t) (ho : o ∈ os) {os' : List Outline}
    (hos : os' ⊆ os) (hleast : ∀ p ∈ os', o.span.start ≤ p.span.start) :
    Since S stop o.span os' t := by
  obtain ⟨hfaithful, -, p, hp, hs, he⟩ := h.parts o ho
  obtain ⟨hholds, -, hle⟩ := h.lies.behind p hp
  have hp' := hholds.le
  have hcurrent := h.lies.current.holds.le
  refine ⟨h.lies, hfaithful.holds, by omega, by omega, fun q hq _ => ?_, fun q hq => ?_⟩
  · rw [hp] at hq
    cases hq
    exact he
  · exact ⟨(h.parts q (hos hq)).1, hleast q hq, (h.parts q (hos hq)).2.2⟩

/-- Another node at the span of one that has been read. -/
theorem relabel {o : Outline} {l : Label} {cs : List Outline} (h : Since S stop start os t)
    (ho : o ∈ os) (hl : l.Faithful S o.span)
      (hcs : ∀ c ∈ cs, c ∈ o.parts ∨ c ∈ os ∧ c.span = o.span) :
    Since S stop start (.node o.span l cs :: os) t := by
  obtain ⟨hfaithful, hread⟩ := h.parts o ho
  have hparts : ∀ c ∈ cs, c.span.Within o.span ∧ c.Faithful S := by
    intro c hc
    rcases hcs c hc with hc | ⟨hc, hspan⟩
    · cases hfaithful with
      | node _ _ hw hp => exact ⟨hw c hc, hp c hc⟩
    · exact ⟨hspan ▸ .refl _, (h.parts c hc).1⟩
  exact h.cons
    ⟨.node hfaithful.holds hl (fun c hc => (hparts c hc).1) fun c hc => (hparts c hc).2, hread⟩

/-- A node from the start to the place holds what has been read. -/
theorem node (h : Since S stop start os t) (hos : os ≠ []) {cs : List Outline} (hcs : cs ⊆ os) :
    (Outline.node (start.merge t.cursor.previous.span) .plain cs).Faithful S ∧
      t.HasRead start.start (start.merge t.cursor.previous.span) := by
  obtain ⟨-, p, hp, hs, he⟩ := h.hasRead hos
  have hprevious : t.cursor.previous = p := by rw [Tape.cursor, hp, Option.getD_some]
  obtain ⟨hholds, -, hle⟩ := h.lies.behind p hp
  have hstart : (start.merge p.span).start = start.start := Nat.min_eq_left hs
  have hstop : (start.merge p.span).stop = p.span.stop := Nat.max_eq_right he
  rw [hprevious]
  refine ⟨.node (h.holds.merge hholds) trivial (fun c hc => ?_) fun c hc => (h.parts c (hcs hc)).1,
    hstart ▸ Nat.le_refl _, p, hp, hstart ▸ hs, hstop ▸ Nat.le_refl _⟩
  obtain ⟨-, hleast, q, hq, -, hqe⟩ := h.parts c (hcs hc)
  rw [hp] at hq
  cases hq
  exact ⟨hstart ▸ hleast, hstop ▸ hqe⟩

/-- A node from the start to the end of what is read next holds that, and what has been read. -/
theorem hull (h : Since S stop start os t) (hr : t.Reaches t') {o : Outline} (ho : o.Faithful S)
    (hread : t'.HasRead t.current.span.start o.span) :
    (Outline.node (start.merge o.span) .plain (o :: os)).Faithful S ∧
      t'.HasRead start.start (start.merge o.span) := by
  obtain ⟨hleast, p, hp, hs, he⟩ := hread
  have hstarts := h.starts
  have hpassed := (h.reaches hr).behind p hp (by omega)
  have hstart : (start.merge o.span).start = start.start := Nat.min_eq_left (by omega)
  have hstop : o.span.stop ≤ (start.merge o.span).stop := Nat.le_max_right ..
  have hbefore : (start.merge o.span).start ≤ p.span.start := by omega
  have hlast : o.span.Within (start.merge o.span) := ⟨by omega, hstop⟩
  have hothers : ∀ c ∈ os, c.span.Within (start.merge o.span) := by
    intro c hc
    have hcread := (h.parts c hc).2
    have hcstop := hcread.stop_le h.lies
    have hcleast := hcread.1
    have hholds := ho.holds.le
    exact ⟨by omega, by omega⟩
  exact ⟨.node (h.holds.merge ho.holds) trivial (List.forall_mem_cons.2 ⟨hlast, hothers⟩)
    (List.forall_mem_cons.2 ⟨ho, fun c hc => (h.parts c hc).1⟩),
    hstart ▸ Nat.le_refl _, p, hp, hbefore, Nat.max_le.2 ⟨hpassed, he⟩⟩

end Since

end Grammar

end TypeStrip
