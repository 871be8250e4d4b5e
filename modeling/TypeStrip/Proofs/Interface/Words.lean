import TypeStrip.Proofs.Places.Modules
import TypeStrip.Proofs.Places.Tiling

/-!
What the names in the imports of a module are: words, apart from the names of exports that are
strings, and identifiers where a name is bound. The parts of an import come in a fixed order.
-/
namespace TypeStrip
open Token Lowering Code

/-! ### Tokens -/

namespace Token

/-- A token of the kind of a word is spelled as a word of its kind. -/
def IsWorded (t : Token) : Prop :=
  t.kind.isWord = true → Text.isWord t.value = true ∧ t.kind = kindOfWord t.value

theorem IsWorded.identifier {t : Token} (h : t.IsWorded) (hk : t.kind = .identifier) :
    IsIdentifier t.value := by
  obtain ⟨hword, hkind⟩ := h (hk ▸ rfl)
  exact isIdentifier_of_kindOfWord hword (hkind.symm.trans hk)

theorem isWorded_of_mem_tokensFrom (file start : Nat) (cs : List Char) :
    ∀ t ∈ tokensFrom file start cs, t.IsWorded := by
  induction start, cs using tokensFrom_induction file with
  | comment start passed text stop =>
    refine List.forall_mem_cons.2 ⟨?_, List.forall_mem_singleton.2 ?_⟩ <;> exact fun h => by cases h
  | last start gap newline => exact List.forall_mem_singleton.2 fun h => by cases h
  | lexeme start gap newline c rest after tokens _ _ ih =>
    exact List.forall_mem_cons.2 ⟨isWord_lexeme, ih⟩

end Token

namespace Grammar

structure Tape.Worded (t : Tape) : Prop where
  words : ∀ u ∈ t.current :: t.following, u.IsWorded
  ends : (t.current :: t.following).getLast?.any (·.kind == .eof) = true

namespace Tape.Worded
variable {t t' : Tape}

theorem advance (h : t.Worded) : t.advance.Worded := by
  unfold Tape.advance
  split
  · next next rest _ hf =>
    obtain ⟨hwords, hends⟩ := h
    rw [hf] at hwords hends
    exact ⟨fun u hu => hwords u (List.mem_cons_of_mem _ hu), List.getLast?_cons_cons ▸ hends⟩
  · exact h

theorem splitAngle (h : t.Worded) {kind : Kind} {value : String}
    (ha : afterAngle? t.current.kind = some (kind, value)) : (t.splitAngle kind value).Worded := by
  obtain ⟨heof, hrest⟩ := isRest_of_afterAngle? ha
  obtain ⟨hwords, hends⟩ := h
  refine ⟨List.forall_mem_cons.2
    ⟨fun hw => ?_, fun u hu => hwords u (List.mem_cons_of_mem _ hu)⟩, ?_⟩
  · exact absurd hw (Bool.eq_false_iff.1 hrest.word)
  · show ((t.splitAngle kind value).current :: t.following).getLast?.any _ = true
    cases hf : t.following with
    | nil =>
      rw [hf] at hends
      exact absurd (beq_iff_eq.1 hends) heof
    | cons u us =>
      rw [hf, List.getLast?_cons_cons] at hends
      rwa [List.getLast?_cons_cons]

theorem reaches (h : t.Worded) (hr : t.Reaches t') : t'.Worded := by
  induction hr with
  | refl => exact h
  | advance _ ih => exact ih.advance
  | splitAngle _ ha ih => exact ih.splitAngle ha

/-- The current token is taken, unless it marks the end. -/
theorem take_eq (h : t.Worded) (hk : t.current.kind ≠ .eof) : take t = .ok t.current t.advance := by
  show EStateM.Result.ok t.advance.cursor.previous t.advance = _
  have hend : t.cursor.atEnd = false := beq_eq_false_iff_ne.2 hk
  cases hf : t.following with
  | nil =>
    have hends := h.ends
    rw [hf] at hends
    exact absurd (beq_iff_eq.1 hends) hk
  | cons u us =>
    rw [Tape.advance, hend, hf]
    rfl

end Tape.Worded

theorem worded_ofTokens {tokens : List Token} (h : ∀ t ∈ tokens, t.IsWorded) :
    (Tape.ofTokens tokens).Worded := by
  unfold Tape.ofTokens
  dsimp only
  generalize hended : (if tokens.getLast?.any (·.kind == .eof) = true then tokens
    else tokens ++ [Token.endOfText ((tokens.getLast?.map (·.span)).getD ⟨0, 0, 0⟩)]) = ended
  have hend (span : Span) : (Token.endOfText span).IsWorded := fun h => by cases h
  have hwords : ∀ t ∈ ended, t.IsWorded := by
    rw [← hended]
    split
    · exact h
    · exact List.forall_mem_append.2 ⟨h, List.forall_mem_singleton.2 (hend _)⟩
  have hlast : ended ≠ [] → ended.getLast?.any (·.kind == .eof) = true := by
    intro _
    rw [← hended]
    split
    · assumption
    · rw [List.getLast?_concat]
      rfl
  cases ended with
  | nil => exact ⟨List.forall_mem_singleton.2 (hend _), rfl⟩
  | cons t ts => exact ⟨hwords, hlast (List.cons_ne_nil _ _)⟩

/-! ### Parsers -/

/-- A parser whose values have a property, in front of tokens that are worded. -/
def Gives {α : Type} (P : α → Prop) (p : Parser α) : Prop :=
  ∀ ⦃t t' : Tape⦄ ⦃a : α⦄, t.Worded → p t = .ok a t' → P a

namespace Gives
variable {α β : Type} {P : α → Prop} {Q : β → Prop} {p : Parser α} {f : α → Parser β}

theorem any (p : Parser α) : Gives (fun _ => True) p := fun _ _ _ _ _ => trivial

theorem pure {a : α} (h : P a) : Gives P (pure a : Parser α) := by
  rintro _ _ _ - ⟨⟩
  exact h

theorem bind (hp : Gives P p) (hf : ∀ a, P a → Gives Q (f a)) : Gives Q (p >>= f) := by
  intro t t' b ht h
  obtain ⟨a, u, ha, hb⟩ := Parser.bind_eq_ok.1 h
  exact hf a (hp ht ha) (ht.reaches (Parser.reaches_of_ok ha)) hb

/-- A parser whose value does not matter, before another one. -/
theorem next (hf : ∀ a, Gives Q (f a)) : Gives Q (p >>= f) := .bind (.any p) fun a _ => hf a

theorem ite {b : Prop} [Decidable b] {q : Parser α} (hp : Gives P p) (hq : Gives P q) :
    Gives P (if b then p else q) := by
  split
  · exact hp
  · exact hq

/-- A step that may be left out, before another one. -/
theorem when {b : Prop} [Decidable b] {p : Parser Unit} {f : Unit → Parser β}
    (hf : Gives Q (f ())) : Gives Q (if b then p >>= f else f ()) :=
  .ite (.next fun _ => hf) hf

theorem complain (complaint : Complaint) : Gives P (complain complaint : Parser α) :=
  fun _ _ _ _ h => by cases h

theorem complainFound (complaint : Kind → Complaint) :
    Gives P (complainFound complaint : Parser α) := fun _ _ _ _ h => by cases h

theorem collect {p : Parser (Option α)} (hp : Gives (fun found => ∀ a, found = some a → P a) p) :
    Gives (fun as => ∀ a ∈ as, P a) (collect p) := by
  have hupTo (fuel : Nat) : ∀ found : List α, (∀ a ∈ found, P a) →
      Gives (fun as => ∀ a ∈ as, P a) (collectUpTo p fuel found) := by
    have hreverse (found : List α) (h : ∀ a ∈ found, P a) : ∀ a ∈ found.reverse, P a :=
      fun a ha => h a (List.mem_reverse.1 ha)
    induction fuel with
    | zero => exact fun found h => .pure (hreverse found h)
    | succ fuel ih =>
      refine fun found h => .bind hp fun o ho => ?_
      cases o with
      | none => exact .pure (hreverse found h)
      | some a => exact ih (a :: found) (List.forall_mem_cons.2 ⟨ho a rfl, h⟩)
  exact .next fun _ => hupTo _ _ (List.forall_mem_nil _)

theorem commaSeparated (closer : Kind) (hp : Gives P p) :
    Gives (fun as => ∀ a ∈ as, P a) (commaSeparated closer p) := by
  have hone : Gives P (do
      let a ← p
      unless (← get).at_ closer do discard <| expect .comma
      return a) :=
    .bind hp fun a ha => .next fun _ => .ite (.pure ha) (.next fun _ => .pure ha)
  exact .collect (.next fun _ => .ite (.pure nofun) (.bind hone fun a ha =>
    .pure fun _ h => Option.some.inj h ▸ ha))

end Gives

theorem gives_expect (k : Kind) : Gives (fun t => t.IsWorded ∧ t.kind = k) (expect k) := by
  intro t t' a ht h
  have hex : (if t.cursor.at_ k = true then take else complainFound (.expected k)) t = .ok a t' := h
  split at hex
  · next hat =>
    obtain ⟨hend, hk⟩ := Bool.and_eq_true_iff.1 hat
    have hne : t.current.kind ≠ .eof := by
      intro heof
      rw [Cursor.atEnd, show t.cursor.current.kind = .eof from heof] at hend
      cases hend
    rw [ht.take_eq hne] at hex
    cases hex
    exact ⟨ht.words _ List.mem_cons_self, beq_iff_eq.1 hk⟩
  · cases hex

theorem gives_identifier : Gives (fun n => IsIdentifier n.text) identifier :=
  .bind (gives_expect _) fun _ h => .pure (h.1.identifier h.2)

theorem gives_anyName : Gives (fun n => Text.isWord n.text = true) anyName := by
  intro t t' n ht h
  have hex : (if t.cursor.atName = true then (do
      let u ← take
      return (⟨u.span, u.value⟩ : Name)) else complainFound .expectedIdentifier) t = .ok n t' := h
  split at hex
  · next hname =>
    have hword : t.current.kind.isWord = true := hname
    have hne : t.current.kind ≠ .eof := by
      intro heof
      rw [heof] at hword
      cases hword
    rw [Parser.bind_run, ht.take_eq hne] at hex
    cases hex
    exact (ht.words _ List.mem_cons_self hword).1
  · cases hex

end Grammar

/-! ### Imports and exports -/

/-- The order of the parts of an import: the default export comes first, and the module itself and
other exports do not occur together. -/
def Code.Binding.Precedes : Binding → Binding → Prop
  | .default _, .whole _ | .default _, .named .. | .named .., .named .. => True
  | _, _ => False

/-- A part of an import is bound to an identifier, or it is an export under its own name. -/
def Code.Binding.IsBound : Binding → Prop
  | .default name | .whole name => IsIdentifier name
  | .named imported name => name = imported ∨ IsIdentifier name

structure Regular (bs : List Binding) : Prop where
  order : bs.Pairwise Binding.Precedes
  bound : ∀ b ∈ bs, b.IsBound

theorem Regular.sublist {bs cs : List Binding} (h : Regular bs) (hs : cs.Sublist bs) : Regular cs :=
  ⟨h.order.sublist hs, fun b hb => h.bound b (hs.subset hb)⟩

theorem Regular.kept {d : Import} (h : Regular (d.specifiers.map binding)) (ctx : Context) :
    Regular (keptBindings ctx d) :=
  h.sublist (List.filter_sublist.map binding)

def Item.IsWorded : Item → Prop
  | .import_ _ d => Regular (d.specifiers.map binding)
  | .exportAll _ _ name _ => ∀ n, name = some n → Text.isWord n.text = true
  | _ => True

namespace Grammar
variable {g : Inner}

theorem gives_renamed {P : Name → Prop} {name : Parser Name} (h : Gives P name) :
    Gives (fun renamed => ∀ n, renamed = some n → P n) (renamed name) :=
  .next fun _ => .ite (.bind h fun _ hn => .pure fun _ e => Option.some.inj e ▸ hn) (.pure nofun)

theorem gives_namedImport : Gives (fun s => ∃ imported name, binding s = .named imported name ∧
    (name = imported ∨ IsIdentifier name)) namedImport := by
  refine .next fun _ => .next fun imported => ?_
  refine .bind (gives_renamed gives_identifier) fun renamed h => ?_
  refine .pure ⟨imported.text, (renamed.getD imported).text, rfl, ?_⟩
  cases renamed with
  | none => exact .inl rfl
  | some n => exact .inr (h n rfl)

/-- What comes after the default export. -/
theorem gives_importClause : Gives (fun ss => Regular (ss.map binding) ∧
    ∀ b ∈ ss.map binding, ∀ name, (Binding.default name).Precedes b) importClause := by
  refine .next fun _ => .ite ?_ (.next fun _ => .ite ?_ ?_)
  · refine .next fun _ => .bind gives_identifier fun n hn => .pure ⟨⟨?_, ?_⟩, ?_⟩
    · exact List.pairwise_singleton ..
    · exact List.forall_mem_singleton.2 hn
    · exact List.forall_mem_singleton.2 fun _ => trivial
  · refine .bind (.commaSeparated _ gives_namedImport) fun names h => .next fun _ => .pure ?_
    have hnamed : ∀ b ∈ names.map binding, ∃ imported name, b = .named imported name ∧
        (name = imported ∨ IsIdentifier name) := List.forall_mem_map.2 h
    refine ⟨⟨List.pairwise_iff_forall_sublist.2 fun {a b} hs => ?_, fun b hb => ?_⟩, fun b hb => ?_⟩
    · obtain ⟨_, _, rfl, -⟩ := hnamed a (hs.subset List.mem_cons_self)
      obtain ⟨_, _, rfl, -⟩ := hnamed b (hs.subset (List.mem_cons_of_mem _ List.mem_cons_self))
      trivial
    · obtain ⟨_, _, rfl, hbound⟩ := hnamed b hb
      exact hbound
    · obtain ⟨_, _, rfl, -⟩ := hnamed b hb
      exact fun _ => trivial
  · exact .pure ⟨⟨.nil, List.forall_mem_nil _⟩, List.forall_mem_nil _⟩

theorem gives_defaultImport : Gives (fun ss => ss = [] ∨ ∃ n : Name, ss = [.default n] ∧
    IsIdentifier n.text) defaultImport :=
  .next fun _ => .ite (.pure (.inl rfl)) <| .when <| .bind gives_identifier fun n hn =>
    .next fun _ => .pure (.inr ⟨n, rfl, hn⟩)

theorem gives_importDecl : Gives (fun d => Regular (d.specifiers.map binding)) (importDecl g) := by
  refine .next fun _ => .next fun _ => .when <| .next fun _ => .ite ?_ ?_
  · exact .next fun _ => .next fun _ => .next fun _ => .pure ⟨.nil, List.forall_mem_nil _⟩
  · refine .bind gives_defaultImport fun first hfirst => ?_
    refine .bind gives_importClause fun rest hrest => ?_
    refine .when <| .next fun _ => .next fun _ => .pure ?_
    rw [List.map_append]
    rcases hfirst with rfl | ⟨n, rfl, hn⟩
    · exact hrest.1
    · exact ⟨List.pairwise_cons.2 ⟨fun b hb => hrest.2 b hb _, hrest.1.order⟩,
        List.forall_mem_cons.2 ⟨hn, hrest.1.bound⟩⟩

theorem gives_exportItem (item : Parser Item) : Gives Item.IsWorded (exportItem g item) := by
  refine .next fun _ => .next fun _ => .next fun _ => .ite ?_ <| .next fun _ => .when <|
    .next fun _ => .ite ?_ <| .next fun _ => .when <| .next fun _ => .ite ?_ <|
    .next fun _ => .ite ?_ ?_
  · refine .next fun _ => .ite ?_ ?_
    · exact .next fun _ => .next fun _ => .next fun _ => .pure trivial
    · exact .next fun _ => .next fun _ => .next fun _ => .pure trivial
  · exact .next fun _ => .next fun _ => .next fun _ => .next fun _ => .pure trivial
  · exact .bind (gives_renamed gives_anyName) fun name h => .next fun _ => .next fun _ =>
      .next fun _ => .pure h
  · refine .next fun _ => .next fun _ => .next fun _ => .ite ?_ ?_
    · exact .next fun _ => .next fun _ => .next fun _ => .pure trivial
    · exact .next fun _ => .next fun _ => .next fun _ => .pure trivial
  · refine .next fun _ => .ite ?_ (.ite ?_ (.complainFound _))
    · exact .next fun _ => .next fun _ => .next fun _ => .pure trivial
    · exact .next fun _ => .next fun _ => .next fun _ => .pure trivial

theorem gives_itemUpTo (fuel : Nat) : Gives Item.IsWorded (itemUpTo g fuel) := by
  cases fuel with
  | zero => exact .complain _
  | succ fuel =>
    refine .next fun _ => .ite ?_ (.ite (gives_exportItem _) ?_)
    · exact .bind gives_importDecl fun d hd => .next fun _ => .pure hd
    · exact .next fun _ => .next fun _ => .pure trivial

theorem ReadsItems.exists_reaches {t t' : Tape} {is : List Item} (h : ReadsItems g t is t') :
    ∀ i ∈ is, ∃ u u', t.Reaches u ∧ item g u = .ok i u' := by
  induction h with
  | nil => exact List.forall_mem_nil _
  | cons hi _ ih =>
    refine List.forall_mem_cons.2 ⟨⟨_, _, .refl, hi⟩, fun i hmem => ?_⟩
    obtain ⟨u, u', hu, hitem⟩ := ih i hmem
    exact ⟨u, u', (Parser.reaches_of_ok hi).trans hu, hitem⟩

/-- The items of a module that is parsed have such names. -/
theorem isWorded_of_parseModule {source : String} {file : Nat} {p : Program}
    (h : parseModule source file = .ok p) : ∀ i ∈ p.items, i.IsWorded := by
  obtain ⟨⟨t, hreads, -⟩, -⟩ := readsItems_of_parseModule h
  have hworded := worded_ofTokens (isWorded_of_mem_tokensFrom file 0 source.toList)
  intro i hi
  obtain ⟨u, u', hu, hitem⟩ := hreads.exists_reaches i hi
  exact Gives.next (fun _ => gives_itemUpTo _) (hworded.reaches hu) hitem

end Grammar

end TypeStrip
