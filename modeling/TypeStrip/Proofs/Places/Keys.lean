import TypeStrip.Proofs.Places.Moves

/-! Names, keys and patterns are located. -/
namespace TypeStrip.Grammar
open Outlined
open TypeStrip.Token (Kind)

/-- The expression that the tokens of a substitution stand for is read whole and lies where they do;
so does what is complained about. -/
structure LocatesSubstitution (S : Source) (substitution : List Token → Except ParseError Expr) :
    Prop where
  reads : ∀ tokens least most e, Token.Follow S most least tokens → substitution tokens = .ok e →
    ReadsToEnd tokens e ∧ ∀ o ∈ e.outline, o.Faithful S ∧ least ≤ o.span.start ∧ o.span.stop ≤ most
  complains : ∀ tokens least most e, Token.Follow S most least tokens →
    substitution tokens = .error e → S.Holds e.span

structure LocatesInner (S : Source) (stop : Nat) (g : Inner) : Prop where
  assign : Locates S stop g.assign
  unary : Locates S stop g.unary
  stmt : Locates S stop g.stmt
  type : Locates S stop g.type
  substitution : LocatesSubstitution S g.substitution

variable {S : Source} {stop : Nat} {g : Inner}

/-! ### Keys -/

theorem locates_identifier : Locates S stop identifier := fun _ =>
  .expect (by decide) fun hk hlies =>
    .ofParts (hlies.word (by rw [hk]; decide)) (fun _ => List.cons_ne_nil _ _) (List.Subset.refl _)

theorem locates_anyName : Locates S stop anyName := fun _ =>
  .get <| .ite
    (fun h => .take (passable_of_atName h) fun hlies =>
      .ofParts (hlies.word h) (fun _ => List.cons_ne_nil _ _) (List.Subset.refl _))
    fun _ => .complainFound _

/-- A name as a key. It is written as it says. -/
theorem locates_nameKey : Locates S stop (do return Key.ident (← anyName)) := fun t =>
  .bind (locates_anyName t) fun n _ hn =>
    .relabel (o := n.outline) (l := .name n.text) trivial (by grind)
    rfl hn (List.forall_mem_nil _)

theorem locates_key (hg : LocatesInner S stop g) : Locates S stop (key g) := by
  intro t
  refine .get ?_
  split
  · rename_i h
    refine .take (passable_of_kind h (by decide)) fun _ => ?_
    exact .ofParts trivial (fun _ => List.cons_ne_nil _ _) (List.nil_subset _)
  · rename_i h
    refine .take (passable_of_kind h (by decide)) fun _ => ?_
    exact .ofParts trivial (fun _ => List.cons_ne_nil _ _) (List.nil_subset _)
  · rename_i h
    refine .skip (passable_of_kind h (by decide))
      (.bind (hg.assign.withIn true _) fun e t' he => ?_)
    refine .expect' (by decide) fun s t'' => .ofParts trivial (fun _ => List.cons_ne_nil _ _) ?_
    show e.outline ⊆ _
    grind
  · exact .ite (fun _ => locates_nameKey t) fun _ => .complain _

theorem locates_methodWords : Locates S stop methodWords := by
  refine fun _ => .get <| .when (fun h => locatesAt_skip ?_) fun t' => ?_
  · revert h
    split
    · simp
    · split
      · exact fun _ => passable_of_atWord (by assumption)
      · split
        · exact fun _ => passable_of_atWord (by assumption)
        · split
          · exact fun _ => passable_of_atWord (by assumption)
          · simp
  · exact .ite (fun _ => .bind (locates_accept (by decide) t') fun _ _ _ => .nothing trivial rfl)
      fun _ => .nothing trivial rfl

/-! ### Patterns -/

theorem locatesAt_defaulted (hg : LocatesInner S stop g) {p : Pattern} (hp : p ≠ .omitted)
    (t : Tape) :
    LocatesAt S stop t p.span p.outline (Whole S) (defaulted g p) := by
  have hne : p.outline ≠ [] := Placed.parts_ne_nil (S := S) (a := p) hp
  refine .bindLast (locates_after (by decide) (hg.assign.withIn true)) fun e? t' he => ?_
  cases e? with
  | none => exact .ofParts hp (fun _ => hne) (List.Subset.refl _)
  | some e =>
    rw [parts_some]
    exact .hull (he e rfl) Pattern.noConfusion rfl (by grind)

variable {pattern : Parser Pattern}

theorem locates_restPattern (hp : Locates S stop pattern) : Locates S stop (restPattern pattern) :=
  locates_after (by decide) fun t => .bind (hp t) fun _ t' h =>
    .get <| .check (fun _ => .complain _) fun _ =>
      .kept t.current.span h (List.subset_append_left ..)

theorem locates_arrayPattern (hg : LocatesInner S stop g) (hp : Locates S stop pattern) :
    Locates S stop (arrayPattern g pattern) := by
  refine fun t => .here <| .expect' (by decide) fun s t' => ?_
  refine .bind (locates_collect (R := fun _ => True) ?_ t') fun ps t' _ => ?_
  · refine fun t => .get <| .ite (fun _ => .nothing trivial rfl) fun _ => ?_
    refine .bind (locates_accept (by decide) t) fun _ t' _ =>
      .ite (fun _ => .nothing trivial rfl) fun _ => ?_
    refine .bind (hp t') fun p t'' h => ?_
    refine .bindSame (.restart h (by grind) (locatesAt_defaulted hg h t'')) fun q u _ => ?_
    refine .get <| .otherwise (fun _ => (locates_expect (by decide) u).discard) fun _ => ?_
    exact .ofParts trivial nofun (by grind [parts_some])
  · refine .bind (locates_restPattern hp t') fun rest t' _ => .expect' (by decide) fun s t' => ?_
    exact .since <| .node Pattern.noConfusion rfl (List.cons_ne_nil _ _) (by grind)

theorem locates_patternField (hg : LocatesInner S stop g) (hp : Locates S stop pattern) :
    Locates S stop (patternField g pattern) := by
  refine fun t => .bind (locates_key hg t) fun k t' _ => ?_
  refine .bind (locates_accept (by decide) t') fun _ t' _ => .ite (fun _ => ?_) fun _ => ?_
  · refine .bind (hp t') fun p t'' h => ?_
    refine .bindSame (.restart h (by grind) (locatesAt_defaulted hg h t'')) fun q u _ => ?_
    exact .ofParts trivial nofun (by show Key.outline k ++ q.outline ⊆ _; grind)
  · split
    · rename_i _ name _
      have hname : Outline.node name.span (.name name.text) [] ∈ (Key.ident name).outline :=
        List.mem_singleton_self _
      refine .also .plain [] (List.mem_append_right _ (List.mem_append_left _
        (mem_gains hname _))) trivial nofun ?_
      refine .also .plain [name.outline] List.mem_cons_self trivial
        (by simp [Name.outline, Outline.leaf, Outline.span]) ?_
      refine .bindSame (.restart (b := Pattern.ident name.span name) Pattern.noConfusion
        (List.cons_subset.2 ⟨List.mem_cons_self, List.nil_subset _⟩)
        (locatesAt_defaulted hg Pattern.noConfusion t')) fun q u _ => ?_
      exact .ofParts trivial nofun (by show Key.outline _ ++ q.outline ⊆ _; grind)
    · exact .complain _

theorem locates_objectPattern (hg : LocatesInner S stop g) (hp : Locates S stop pattern) :
    Locates S stop (objectPattern g pattern) := by
  refine fun t => .here <| .expect' (by decide) fun s t' => ?_
  refine .bind (locates_collect (R := fun _ => True) ?_ t') fun fs t' _ => ?_
  · refine fun t => .get <| .ite (fun _ => .nothing trivial rfl) fun _ => ?_
    refine .bind (locates_patternField hg hp t) fun f t' _ => ?_
    refine .get <| .otherwise (fun _ => (locates_expect (by decide) t').discard) fun _ => ?_
    exact .ofParts trivial nofun (by rw [parts_some]; exact List.subset_append_left ..)
  · refine .bind (locates_restPattern hp t') fun rest t' _ => .expect' (by decide) fun s t' => ?_
    exact .since <| .node Pattern.noConfusion rfl (List.cons_ne_nil _ _) (by grind)

theorem locates_patternUpTo (hg : LocatesInner S stop g) (fuel : Nat) :
    Locates S stop (patternUpTo g fuel) := by
  induction fuel with
  | zero => exact fun _ => .complain _
  | succ fuel ih =>
    refine fun t => .get ?_
    split
    · refine .bind (locates_identifier t) fun n t' _ => ?_
      exact .relabel (o := n.outline) Pattern.noConfusion (by grind) rfl trivial
        (by grind [Name.outline])
    · exact locates_arrayPattern hg ih t
    · exact locates_objectPattern hg ih t
    · exact .complainFound _

theorem locates_pattern (hg : LocatesInner S stop g) : Locates S stop (Grammar.pattern g) :=
  fun t => .get <| locates_patternUpTo hg _ t

end TypeStrip.Grammar
