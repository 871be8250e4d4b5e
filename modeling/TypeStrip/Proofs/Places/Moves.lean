import TypeStrip.Proofs.Places.Locates

/-! The moves of parsers, and parsers that are repeated, locate what they read. -/
namespace TypeStrip.Grammar
open Outlined
open TypeStrip.Token (Kind)

variable {S : Source} {stop : Nat} {t : Tape} {start : Span} {os : List Outline}
variable {α β : Type} [Outlined α] [Outlined β] {P : α → Prop} {Q : β → Prop}

/-! ### Tokens that may be passed -/

def Tape.Passable (t : Tape) : Prop := t.current.kind ≠ .error ∧ t.current.kind ≠ .eof

theorem passable_of_at_ {k : Kind} (h : t.cursor.at_ k = true) (hk : k ≠ .error) :
    t.Passable := by
  obtain ⟨hend, hkind⟩ := Bool.and_eq_true_iff.1 h
  rw [Bool.not_eq_true'] at hend
  exact ⟨fun he => hk ((beq_iff_eq.1 hkind).symm.trans he), beq_eq_false_iff_ne.1 hend⟩

theorem kind_of_at_ {kind : Kind} (h : t.cursor.at_ kind = true) : t.current.kind = kind :=
  beq_iff_eq.1 (Bool.and_eq_true_iff.1 h).2

theorem passable_of_kind {kind : Kind} (h : t.current.kind = kind)
    (hk : kind ≠ .error ∧ kind ≠ .eof) :
    t.Passable := by
  unfold Tape.Passable
  rwa [h]

omit [Outlined β] in
theorem passable_of_some {f : Kind → Option β} (hf : f .error = none ∧ f .eof = none) {b : β}
    (h : f t.current.kind = some b) : t.Passable := by
  refine ⟨fun he => ?_, fun he => ?_⟩
  · rw [he, hf.1] at h
    cases h
  · rw [he, hf.2] at h
    cases h

theorem passable_of_atWord {word : String} (h : t.cursor.atWord word = true) : t.Passable :=
  passable_of_at_ (Bool.and_eq_true_iff.1 h).1 (by decide)

theorem passable_of_atName (h : t.cursor.atName = true) : t.Passable :=
  have hw := Token.isWord_cases h
  ⟨hw.2.2.1, hw.1⟩

theorem passable_of_seesAny {kinds : List Kind} (h : t.cursor.seesAny 0 kinds = true)
    (hk : ∀ k ∈ kinds, k ≠ .error ∧ k ≠ .eof) : t.Passable :=
  hk _ (List.contains_iff_mem.1 h)

theorem advance_eq {next : Token} {rest : List Token} (h : t.current.kind ≠ .eof)
    (hf : t.following = next :: rest) :
    t.advance = { t with passed := t.current :: t.passed, current := next, following := rest } := by
  have hend : t.cursor.atEnd = false := beq_eq_false_iff_ne.2 h
  rw [Tape.advance, hend, hf]

/-- The token after one that is passed. -/
theorem Tape.Passable.advance {p : Token → Bool} (h : t.Passable)
    (hs : (t.cursor.peek? 1).any p = true)
    (hp : ∀ u, p u = true → u.kind ≠ .error ∧ u.kind ≠ .eof) : t.advance.Passable := by
  cases hf : t.following with
  | nil =>
    rw [Cursor.peek?, show t.cursor.following = [] from hf] at hs
    cases hs
  | cons next rest =>
    rw [Cursor.peek?, show t.cursor.following = next :: rest from hf] at hs
    rw [advance_eq h.2 hf]
    exact hp next hs

theorem Tape.Passable.advance_of_seesAny {kinds : List Kind} (h : t.Passable)
    (hs : t.cursor.seesAny 1 kinds = true) (hk : ∀ k ∈ kinds, k ≠ .error ∧ k ≠ .eof) :
    t.advance.Passable :=
  h.advance hs fun _ hu => hk _ (List.contains_iff_mem.1 hu)

theorem Tape.Passable.advance_of_sees {kind : Kind} (h : t.Passable)
    (hs : t.cursor.sees 1 kind = true) (hk : kind ≠ .error ∧ kind ≠ .eof) : t.advance.Passable :=
  h.advance hs fun _ hu => beq_iff_eq.1 hu ▸ hk

/-- Something follows a token that is not the end. -/
theorem Tape.Lies.following (h : t.Lies S stop) (hk : t.current.kind ≠ .eof) :
    ∃ next rest, t.following = next :: rest := by
  obtain ⟨first, hahead⟩ := h.ahead
  cases hf : t.following with
  | nil =>
    rw [hf] at hahead
    cases hahead with
    | last _ he => exact absurd he hk
    | cons _ _ _ h => cases h
  | cons next rest => exact ⟨next, rest, rfl⟩

/-- A token that is passed has been read. -/
theorem Since.passed (h : Since S stop start os t) (hp : t.Passable) :
    Since S stop start (.leaf t.current.span :: os) t.advance ∧ t.PassesSound t.advance ∧
      t.advance.cursor.previous = t.current := by
  obtain ⟨next, rest, hf⟩ := h.lies.following hp.2
  have hread : t.advance.HasRead start.start t.current.span := by
    rw [advance_eq hp.2 hf]
    exact ⟨h.starts, t.current, rfl, Nat.le_refl _, Nat.le_refl _⟩
  refine ⟨h.advance.cons ⟨.leaf h.lies.current.holds, hread⟩, ?_, ?_⟩
  · rw [advance_eq hp.2 hf]
    intro u hu
    rcases List.mem_cons.1 hu with rfl | hu
    · exact .inr hp.1
    · exact .inl hu
  · rw [advance_eq hp.2 hf]
    rfl

namespace LocatesAt

/-- The current token lies in the source. -/
theorem lies {p : Parser α} (h : t.current.Lies S → LocatesAt S stop t start os P p) :
    LocatesAt S stop t start os P p :=
  fun hs => h hs.lies.current hs

/-- Moves on by one token, which is then read. -/
theorem skip {f : Unit → Parser α} (h : t.Passable)
    (hf : LocatesAt S stop t.advance start (.leaf t.current.span :: os) P (f ())) :
    LocatesAt S stop t start os P (skip >>= f) := by
  intro hs
  obtain ⟨hsince, hsound, -⟩ := hs.passed h
  exact (hf hsince).mono hsound

theorem take {f : Token → Parser α} (h : t.Passable)
    (hf : t.current.Lies S →
      LocatesAt S stop t.advance start (.leaf t.current.span :: os) P (f t.current)) :
    LocatesAt S stop t start os P (take >>= f) := by
  intro hs
  obtain ⟨hsince, hsound, hprevious⟩ := hs.passed h
  have ha := hf hs.lies.current hsince
  rw [← hprevious] at ha
  exact ha.mono hsound

/-- Moves past a token of the given kind, which is needed. -/
theorem expect {kind : Kind} (hk : kind ≠ .error) {f : Token → Parser α}
    (hf : t.current.kind = kind → t.current.Lies S →
      LocatesAt S stop t.advance start (.leaf t.current.span :: os) P (f t.current)) :
    LocatesAt S stop t start os P (expect kind >>= f) := by
  show LocatesAt S stop t start os P ((if t.cursor.at_ kind = true then _ else _) >>= f)
  split
  · rename_i h
    exact .take (passable_of_at_ h hk) (hf (kind_of_at_ h))
  · exact .bindSame (.complainFound _) fun _ _ => False.elim

/-- Moves past a token of the given kind, if it is there. -/
theorem accept {kind : Kind} (hk : kind ≠ .error) {f : Bool → Parser α}
    (ht : t.current.kind = kind →
      LocatesAt S stop t.advance start (.leaf t.current.span :: os) P (f true))
    (hf : LocatesAt S stop t start os P (f false)) :
    LocatesAt S stop t start os P (accept kind >>= f) := by
  show LocatesAt S stop t start os P ((if t.cursor.at_ kind = true
    then (do Grammar.skip; Pure.pure (t.cursor.at_ kind))
    else Pure.pure (t.cursor.at_ kind)) >>= f)
  split
  · rename_i h
    rw [h, bind_assoc]
    exact .skip (passable_of_at_ h hk) (by exact ht (kind_of_at_ h))
  · rename_i h
    rw [Bool.eq_false_iff.2 h]
    exact hf

theorem expectWord {word : String} {f : Unit → Parser α}
    (hf : ∀ s t', LocatesAt S stop t' start (.leaf s :: os) P (f ())) :
    LocatesAt S stop t start os P (expectWord word >>= f) := by
  show LocatesAt S stop t start os P ((if t.cursor.atWord word = true then _ else _) >>= f)
  split
  · rename_i h
    exact .skip (passable_of_atWord h) (hf _ _)
  · exact .bindSame (.complainFound _) fun _ _ => False.elim

end LocatesAt

/-! ### Moves that give nothing -/

theorem locatesAt_skip (h : t.Passable) :
    LocatesAt S stop t t.current.span [] (fun _ => True) skip := by
  have hskip : (skip >>= pure) = skip := bind_pure skip
  rw [← hskip]
  exact .skip h (.nothing trivial rfl)

theorem locates_accept {kind : Kind} (hk : kind ≠ .error) : Locates S stop (accept kind) := fun _ =>
  .get <| .when (fun h => locatesAt_skip (passable_of_at_ h hk)) fun _ =>
    .nothing trivial rfl

theorem locates_acceptWord (word : String) : Locates S stop (acceptWord word) := fun _ =>
  .get <| .when (fun h => locatesAt_skip (passable_of_atWord h)) fun _ =>
    .nothing trivial rfl

/-- A token of the given kind. -/
theorem locates_expect {kind : Kind} (hk : kind ≠ .error) : Locates S stop (expect kind) := by
  intro t
  have hexpect : (expect kind >>= pure) = expect kind := bind_pure _
  rw [← hexpect]
  exact .expect hk fun _ hlies => .ofParts hlies (fun _ => List.cons_ne_nil _ _)
    (List.Subset.refl _)

/-- Moves past a token of the given kind, of which nothing else is wanted. -/
theorem LocatesAt.expect' {kind : Kind} (hk : kind ≠ .error) {f : Unit → Parser α}
    (hf : ∀ s t', LocatesAt S stop t' start (.leaf s :: os) P (f ())) :
    LocatesAt S stop t start os P (Functor.discard (Grammar.expect kind) >>= f) :=
  .bindDiscard (locates_expect hk t) fun _ t' =>
    (hf _ t').subset (List.subset_cons_of_subset _ (List.Subset.refl _))

/-- What stands between two tokens. Both are passed, even if nothing stands there. -/
theorem LocatesAt.between {opening closing : Kind} (ho : opening ≠ .error) (hc : closing ≠ .error)
    {p : Parser β} {f : β → Parser α} (hp : LocatesTo S stop Q p)
    (hf : ∀ b s t', Q b → LocatesAt S stop t' start (.leaf s :: (parts b ++ os)) P (f b)) :
    LocatesAt S stop t start os P ((do
      Functor.discard (Grammar.expect opening)
      let b ← p
      Functor.discard (Grammar.expect closing)
      return b) >>= f) := by
  simp only [bind_assoc, pure_bind]
  refine .expect' ho fun s t => ?_
  refine .bind (hp t) fun b t' hb => .expect' hc fun s' t' => ?_
  refine (hf b s' t' hb).subset (List.cons_subset_cons _ ?_)
  have hgains : parts b ⊆ gains t.current.span b := subset_gains b _
  grind

theorem locates_between {opening closing : Kind} (ho : opening ≠ .error) (hc : closing ≠ .error)
    {p : Parser α} (hp : LocatesTo S stop P p) : LocatesTo S stop P (do
      discard <| expect opening
      let a ← p
      discard <| expect closing
      return a) := by
  intro t
  rw [← bind_pure (Bind.bind ..)]
  refine .between ho hc hp fun a s t' ha => .ofParts ha (fun _ => List.cons_ne_nil _ _) ?_
  exact List.subset_cons_of_subset _ (List.subset_append_left ..)

theorem locates_closeAngle : Locates S stop closeAngle := by
  intro t hs
  show Located S _ t _ (if t.current.kind = .gt then skip t else _)
  split
  · rename_i h
    exact locatesAt_skip (passable_of_kind h (by decide)) hs
  · split
    · exact ⟨trivial, List.forall_mem_nil _, .refl t⟩
    · exact LocatesAt.complainFound (P := fun _ => True) _ hs

theorem locates_endStatement : Locates S stop endStatement := fun t =>
  .get <| .ite (fun h => locatesAt_skip (passable_of_at_ h (by decide))) fun _ =>
    .ite (fun _ => .nothing trivial rfl) fun _ => .complainFound _

/-! ### Parsers inside others -/

/-- What is kept track of beside the place does not matter. -/
theorem Located.onTape {r : Outcome α} {f : Tape → Tape} (h : Located S start t P r)
    (hf : ∀ t, (f t).passed = t.passed) : Located S start t P (r.onTape f) := by
  cases r with
  | error e t' => exact h
  | ok a t' =>
    refine ⟨h.1, fun o ho => ⟨(h.2.1 o ho).1, (h.2.1 o ho).2.1, ?_⟩, fun u hu => h.2.2 u ?_⟩
    · rw [hf]
      exact (h.2.1 o ho).2.2
    · rwa [hf] at hu

theorem LocatesTo.nested {p : Parser α} (hp : LocatesTo S stop P p) :
    LocatesTo S stop P (nested p) := by
  intro t hs
  by_cases hd : t.depth < maxNesting
  · rw [nested_eq hd]
    exact (hp { t with depth := t.depth + 1 } (.here ⟨hs.lies.ahead, hs.lies.behind⟩)).onTape
      fun _ => rfl
  · rw [nested_eq_tooDeep hd]
    exact LocatesAt.complain .tooDeep hs

theorem LocatesTo.withIn {p : Parser α} (hp : LocatesTo S stop P p) (allowed : Bool) :
    LocatesTo S stop P (withIn allowed p) := fun t hs =>
  (hp { t with noIn := !allowed } (.here ⟨hs.lies.ahead, hs.lies.behind⟩)).onTape fun _ => rfl

theorem LocatesTo.discard {p : Parser α} (hp : LocatesTo S stop P p) :
    LocatesTo S stop (fun _ => True) (discard p) :=
  fun t => (hp t).discard

theorem LocatesTo.map {p : Parser α} {f : α → β} (hp : LocatesTo S stop P p)
    (hQ : ∀ a, P a → Q (f a)) (hm : moves β = true → moves α = true)
      (hf : ∀ a, parts (f a) ⊆ parts a) :
    LocatesTo S stop Q (f <$> p) := by
  intro t
  rw [map_eq_pure_bind]
  refine .bind (hp t) fun a t' ha => .ofParts (hQ a ha) (fun h => ?_) fun o ho => ?_
  · exact List.append_ne_nil_of_left_ne_nil (gains_ne_nil (hm h) _ a) _
  · exact List.mem_append_left _ (mem_gains (hf a ho) _)

theorem LocatesTo.some {p : Parser α} (hp : LocatesTo S stop P p) :
    LocatesTo S stop (fun a? => ∀ a, a? = Option.some a → P a) (Option.some <$> p) :=
  hp.map (fun _ ha _ h => Option.some.inj h ▸ ha) nofun fun a => by
    rw [parts_some]
    exact List.Subset.refl _

/-! ### Repetition -/

theorem locatesAt_collectUpTo {p : Parser (Option α)} {R : Option α → Prop}
    (hp : LocatesTo S stop R p) (fuel : Nat) (found : List α) (hf : found.flatMap parts ⊆ os) :
    LocatesAt S stop t start os (fun _ => True) (collectUpTo p fuel found) := by
  have hend (found : List α) (t : Tape) (os : List Outline) (hf : found.flatMap parts ⊆ os) :
      LocatesAt S stop t start os (fun _ => True) (pure found.reverse) :=
    .ofParts trivial nofun fun o ho => hf <| by
      obtain ⟨a, ha, ho⟩ := List.mem_flatMap.1 ho
      exact List.mem_flatMap.2 ⟨a, List.mem_reverse.1 ha, ho⟩
  induction fuel generalizing found t os with
  | zero => exact hend found t os hf
  | succ fuel ih =>
    refine .bind (hp t) fun a? t' _ => ?_
    cases a? with
    | none => exact hend found t' os hf
    | some a =>
      refine ih (a :: found) ?_
      rw [List.flatMap_cons, gains_option, parts_some]
      exact List.append_subset.2
        ⟨List.subset_append_left .., List.subset_append_of_subset_right _ hf⟩

theorem locates_collect {p : Parser (Option α)} {R : Option α → Prop} (hp : LocatesTo S stop R p) :
    Locates S stop (collect p) := fun _ =>
  .get <| locatesAt_collectUpTo hp _ [] (List.nil_subset _)

/-- A value that is found. -/
theorem LocatesAt.found {a : α} (hP : P a) (ha : parts a ⊆ os) :
    LocatesAt S stop t start os (fun a? => ∀ a, a? = some a → P a) (Pure.pure (some a)) :=
  .ofParts (fun _ h => Option.some.inj h ▸ hP) nofun (by rwa [parts_some])

/-- A node that is found from the start to the place. -/
theorem LocatesAt.foundNode {a : α} {cs : List Outline} (hP : P a)
    (ha : parts a = [.node (start.merge t.cursor.previous.span) .plain cs]) (hos : os ≠ [])
    (hcs : cs ⊆ os) :
    LocatesAt S stop t start os (fun a? => ∀ a, a? = some a → P a) (Pure.pure (some a)) :=
  .node (fun _ h => Option.some.inj h ▸ hP) ((parts_some a).trans ha) hos hcs

/-- A node that is found from the start to the end of what is read last. -/
theorem LocatesAt.foundHull [Placed β] {b : β} {a : α} {from_ : Span} {cs ds : List Outline}
    (hb : Whole S b) (hP : P a) (ha : parts a = [.node (from_.merge (Placed.span b)) .plain cs])
    (hcs : cs ⊆ parts b ++ ds) :
    LocatesAt S stop t start (hulls from_ ds (parts b) ++ os) (fun a? => ∀ a, a? = some a → P a)
      (Pure.pure (some a)) :=
  .hull hb (fun _ h => Option.some.inj h ▸ hP) ((parts_some a).trans ha) hcs

theorem locates_collectUntil {p : Parser α} (closer : Kind) (hp : LocatesTo S stop P p) :
    Locates S stop (collectUntil closer p) :=
  locates_collect (R := fun _ => True) fun t => .get <|
    .ite (fun _ => .nothing trivial rfl) fun _ =>
    .bind (hp t) fun _ _ ha => (LocatesAt.found ha fun _ ho =>
      List.mem_append_left _ (mem_gains ho _)).weaken fun _ _ => trivial

theorem locatesAt_extend {step : α → Parser (Option α)}
    (hs : ∀ a t os, P a → parts a ⊆ os → (moves α = true → os ≠ []) →
      LocatesAt S stop t start os (fun b? => ∀ b, b? = some b → P b) (step a))
    {a : α} (ha : P a) (hos : parts a ⊆ os) (hne : moves α = true → os ≠ []) :
    LocatesAt S stop t start os P (extend step a) := by
  refine .get ?_
  generalize t.cursor.remaining = fuel
  induction fuel generalizing a t os with
  | zero => exact .ofParts ha hne hos
  | succ fuel ih =>
    refine .bindSame (hs a t os ha hos hne) fun b? t' hb => ?_
    cases b? with
    | none => exact .ofParts ha hne hos
    | some b =>
      rw [gains_option, parts_some]
      exact ih (hb b rfl) (List.subset_append_left ..) fun hm =>
        List.append_ne_nil_of_right_ne_nil _ (hne hm)

theorem locates_after {p : Parser α} {kind : Kind} (hk : kind ≠ .error)
    (hp : LocatesTo S stop P p) :
    LocatesTo S stop (fun a? => ∀ a, a? = some a → P a) (after kind p) := fun t =>
  .bind (locates_accept hk t) fun _ t' _ => .ite
    (fun _ => .bind (hp t') fun _ _ ha => .found ha fun _ ho =>
      List.mem_append_left _ (mem_gains ho _))
    fun _ => .nothing nofun rfl

theorem locates_commaSeparated {p : Parser α} (closer : Kind) (hp : LocatesTo S stop P p) :
    Locates S stop (commaSeparated closer p) :=
  locates_collectUntil closer fun t => .bind (hp t) fun a t' ha =>
    .get <| .otherwise (fun _ => (locates_expect (by decide) t').discard) fun _ =>
      .kept t.current.span ha (List.subset_append_left ..)

theorem locates_sepBy1 {p : Parser α} {separator : Kind} (hk : separator ≠ .error)
    (hp : LocatesTo S stop P p) : Locates S stop (sepBy1 separator p) := by
  intro t
  refine .bind (hp t) fun first t' _ => .bind (locates_collect (R := fun _ => True) ?_ t')
    fun rest t'' _ => .ofParts trivial nofun ?_
  · exact fun t => .bind (locates_accept hk t) fun _ t' _ => .ite
      (fun _ => .bind (hp t') fun a _ ha => (LocatesAt.found ha fun _ ho =>
        List.mem_append_left _ (mem_gains ho _)).weaken fun _ _ => trivial)
      fun _ => .nothing trivial rfl
  · intro o ho
    rcases List.mem_append.1 ho with ho | ho
    · exact List.mem_append_right _ (List.mem_append_left _ (mem_gains ho _))
    · exact List.mem_append_left _ ho

end TypeStrip.Grammar
