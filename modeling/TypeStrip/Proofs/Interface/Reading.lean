import TypeStrip.Proofs.Interface.Spelling

/-! Imports and exports are read from the tokens that they are written with. -/
namespace TypeStrip
open Token Grammar Lowering Code

namespace Grammar

/-! ### Words -/

variable {room : Nat} {f f' : Form} {fs gs : List Form} {g : Inner}

theorem reads_identifier {name : String} (h : IsIdentifier name) :
    Reads room identifier (.of name :: fs) fs fun n => n.text = name :=
  .bind (reads_expect h.kind_of) fun _ ht => .pure (congrArg Form.value ht)

theorem reads_exportName {name : String} (h : Text.isWord name = true) :
    Reads room exportName (.of name :: fs) fs fun n => n.text = name := by
  refine .get fun c hc => ?_
  have hstring : headKind (.of name :: fs) ≠ .string := Form.kind_ne_of_isWord h rfl
  rw [if_neg (by rw [hc.at_ne hstring]; decide)]
  exact reads_anyName h

/-- No token that is a word follows, except for `as`. -/
theorem reads_specifierType (h : f'.kind.isWord = false ∨ f'.value = "as") :
    Reads room specifierType (f :: f' :: fs) (f :: f' :: fs) fun typeOnly => typeOnly = false := by
  refine .get fun c hc => ?_
  have hnext : ((c.peek? 1).any fun t =>
      (t.kind == .identifier || t.kind.isReserved) && t.value != "as") = false := by
    refine (hc.any_peek? 1 fun f => f.kind.isWord && f.value != "as").trans ?_
    show (f'.kind.isWord && f'.value != "as") = false
    rcases h with h | h
    · rw [h, Bool.false_and]
    · rw [h, Bool.and_eq_false_iff]
      exact .inr (by decide)
  simp only [hnext, Bool.and_false, Bool.false_eq_true, if_false]
  exact .pure rfl

theorem as_kind : (Form.of "as").kind = .identifier := kind_interfaceWord (by decide)

theorem reads_renamed {p : Parser Name} {new : String}
    (hp : Reads room p (.of new :: gs) gs fun n => n.text = new) :
    Reads room (renamed p) (.of "as" :: .of new :: gs) gs
      fun r => ∃ n, r = some n ∧ n.text = new := by
  refine .bind (reads_acceptWord as_kind rfl) fun found hfound => ?_
  rw [if_pos hfound]
  exact hp.bind fun n hn => .pure ⟨n, rfl, hn⟩

theorem reads_renamed_none {p : Parser Name} (h : f.kind ≠ .identifier ∨ f.value ≠ "as") :
    Reads room (renamed p) (f :: fs) (f :: fs) fun r => r = none := by
  refine .bind (reads_acceptWord_ne h) fun found hfound => ?_
  rw [if_neg (by simp [hfound])]
  exact .pure rfl

/-- A name in a list of imports or exports, with the new name that it gets. -/
theorem reads_alias {α : Type} {p : Parser Name} {make : Bool → Name → Option Name → α}
    {Q : α → Prop} {name new : String} (hname : Text.isWord name = true)
    (hp : name ≠ new → ∀ gs, Reads room p (.of new :: gs) gs fun n => n.text = new)
    (hQ : ∀ n r, n.text = name → (r.getD n).text = new → Q (make false n r)) {gs : List Form}
    (hgs : headKind gs = .comma ∨ headKind gs = .rBrace) :
    Reads room (do
      let typeOnly ← specifierType
      let n ← exportName
      let r ← renamed p
      return make typeOnly n r) (aliasForms name new ++ gs) gs Q := by
  unfold aliasForms
  split
  · next heq =>
    subst heq
    cases gs with
    | nil => rcases hgs with hgs | hgs <;> cases hgs
    | cons f' gs =>
      have hkind : f'.kind.isWord = false ∧ f'.kind ≠ .identifier := by
        rcases hgs with hgs | hgs <;> rw [show f'.kind = _ from hgs] <;> decide
      refine .bind (reads_specifierType (.inl hkind.1)) fun typeOnly htype => ?_
      refine .bind (reads_exportName hname) fun n hn => ?_
      refine .bind (reads_renamed_none (.inl hkind.2)) fun r hr => .pure ?_
      rw [htype, hr]
      exact hQ n none hn hn
  · next hne =>
    refine .bind (reads_specifierType (.inr rfl)) fun typeOnly htype => ?_
    refine .bind (reads_exportName hname) fun n hn => ?_
    refine .bind (reads_renamed (hp hne gs)) fun r hr => .pure ?_
    obtain ⟨n', rfl, hn'⟩ := hr
    rw [htype]
    exact hQ n (some n') hn hn'

/-! ### Ends -/

theorem semicolon_kind : (Form.of ";").kind = .semicolon := by decide

theorem from_kind : (Form.of "from").kind = .identifier := kind_interfaceWord (by decide)

theorem reads_endStatement : Reads room endStatement (.of ";" :: fs) fs fun _ => True := by
  refine .get fun c hc => ?_
  rw [if_pos (hc.at_head semicolon_kind)]
  exact reads_skip

/-- No attributes follow. -/
theorem reads_skipAttributes :
    Reads room (skipAttributes g) (.of ";" :: fs) (.of ";" :: fs) fun _ => True := by
  refine .get fun c hc => ?_
  have hwith : c.at_ .kwWith = false := 
    hc.at_ne (show (Form.of ";").kind ≠ .kwWith by decide)
  have hassert : c.atWord "assert" = false :=
    hc.atWord_ne (.inl (show (Form.of ";").kind ≠ .identifier by decide))
  rw [if_neg (by simp [hwith, hassert])]
  exact .pure trivial

theorem reads_fromClause (source : String) : Reads room (fromClause g)
    (fromForms source ++ .of ";" :: fs) (.of ";" :: fs) fun found => found = source :=
  .bind (reads_expectWord from_kind rfl) fun _ _ => .bind (reads_expect rfl) fun _ ht =>
    .bind reads_skipAttributes fun _ _ => .pure (congrArg Form.value ht)

/-! ### Imports -/

def Reproduces (bs : List Binding) (ss : List ImportSpecifier) : Prop :=
  ss.map binding = bs ∧ ∀ s ∈ ss, s.isTypeOnly = false

theorem reads_namedImport {imported name : String} (himported : Text.isWord imported = true)
    (hname : name = imported ∨ IsIdentifier name) {gs : List Form}
    (hgs : headKind gs = .comma ∨ headKind gs = .rBrace) :
    Reads room namedImport (aliasForms imported name ++ gs) gs fun s =>
      binding s = .named imported name ∧ s.isTypeOnly = false := by
  refine reads_alias himported (fun hne gs => reads_identifier ?_) (fun n r hn hr => ?_) hgs
  · exact hname.resolve_left hne.symm
  · subst hn hr
    exact ⟨rfl, rfl⟩

theorem headKind_aliasForms {name new : String} (hname : Text.isWord name = true) {k : Kind}
    (hk : k.isWord = false) : headKind (aliasForms name new) ≠ k := by
  unfold aliasForms
  split
  · next heq => exact Form.kind_ne_of_isWord (heq ▸ hname) hk
  · exact Form.kind_ne_of_isWord hname hk

/-- Names in braces. -/
theorem reads_braced {α : Type} {p : Parser α} {R : String × String → α → Prop}
    {names : List (String × String)} (hnames : ∀ n ∈ names, Text.isWord n.1 = true)
    (hp : ∀ n ∈ names, ∀ gs, headKind gs = .comma ∨ headKind gs = .rBrace →
      Reads room p (aliasForms n.1 n.2 ++ gs) gs (R n)) :
    Reads room (commaSeparated .rBrace p)
      (separated (names.map fun n => aliasForms n.1 n.2) ++ .of "\x7d" :: gs) (.of "\x7d" :: gs)
      fun as => List.Forall₂ R names as := by
  refine reads_commaSeparated (by decide) (by decide) (fun n hn => ⟨?_, hp n hn⟩) gs
  have hname := hnames n hn
  exact
    ⟨headKind_aliasForms hname rfl, headKind_aliasForms hname rfl, headKind_aliasForms hname rfl⟩

theorem lBrace_kind : (Form.of "\x7b").kind = .lBrace := by decide

theorem star_kind : (Form.of "*").kind = .star := by decide

/-- The module itself. -/
theorem reads_importClause_whole {name : String} (h : IsIdentifier name) :
    Reads room importClause (.of "*" :: .of "as" :: .of name :: gs) gs
      (Reproduces [.whole name]) := by
  refine .bind (reads_accept star_kind) fun found hfound => ?_
  rw [if_pos hfound]
  refine .bind (reads_expectWord as_kind rfl) fun _ _ => .bind (reads_identifier h) fun n hn => ?_
  exact .pure ⟨congrArg (fun name => [Binding.whole name]) hn, List.forall_mem_singleton.2 rfl⟩

/-- Single exports in braces. -/
theorem reads_importClause_named {names : List (String × String)}
    (h : ∀ n ∈ names, Text.isWord n.1 = true ∧ (n.2 = n.1 ∨ IsIdentifier n.2)) :
    Reads room importClause (bracedForms (names.map fun n => aliasForms n.1 n.2) ++ gs) gs
      (Reproduces (names.map fun n => .named n.1 n.2)) := by
  rw [bracedForms, List.cons_append, List.append_assoc]
  have hstar : (Form.of "\x7b").kind ≠ .star := by decide
  refine .bind (reads_accept_ne hstar) fun found hfound => ?_
  rw [if_neg (by simp [hfound])]
  refine .bind (reads_accept lBrace_kind) fun found hfound => ?_
  rw [if_pos hfound]
  refine .bind (reads_braced (fun n hn => (h n hn).1) fun n hn gs hgs =>
    reads_namedImport (h n hn).1 (h n hn).2 hgs) fun ss hss => ?_
  refine .bind (reads_token (by decide)) fun _ _ => .pure ?_
  clear * - hss
  induction hss with
  | nil => exact ⟨rfl, List.forall_mem_nil _⟩
  | cons hs _ ih => exact ⟨congrArg₂ List.cons hs.1 ih.1, List.forall_mem_cons.2 ⟨hs.2, ih.2⟩⟩

/-- The default export comes first, if it is there. -/
theorem default_or_none {bs : List Binding} (h : bs.Pairwise Binding.Precedes) :
    (∃ name cs, bs = .default name :: cs) ∨ ∀ name, .default name ∉ bs := by
  cases bs with
  | nil => exact .inr fun _ => List.not_mem_nil
  | cons b bs =>
    cases b with
    | default name => exact .inl ⟨name, bs, rfl⟩
    | _ =>
      refine .inr fun name hmem => ?_
      rcases List.mem_cons.1 hmem with heq | hmem
      · cases heq
      · exact (List.rel_of_pairwise_cons h hmem).elim

/-- What comes after the default export: nothing, the module itself, or single exports. -/
theorem exists_of_pairwise {bs : List Binding} (h : bs.Pairwise Binding.Precedes)
    (hd : ∀ name, .default name ∉ bs) : (∃ name, bs = [.whole name]) ∨
      ∃ names : List (String × String), bs = names.map fun n => .named n.1 n.2 := by
  induction bs with
  | nil => exact .inr ⟨[], rfl⟩
  | cons b bs ih =>
    obtain ⟨hb, hbs⟩ := List.pairwise_cons.1 h
    cases b with
    | default name => exact absurd List.mem_cons_self (hd name)
    | whole name =>
      cases bs with
      | nil => exact .inl ⟨name, rfl⟩
      | cons b bs => exact (hb b List.mem_cons_self).elim
    | named imported name =>
      rcases ih hbs fun name hmem => hd name (List.mem_cons_of_mem _ hmem) with
        ⟨name, rfl⟩ | ⟨names, rfl⟩
      · exact (hb _ List.mem_cons_self).elim
      · exact .inr ⟨(imported, name) :: names, rfl⟩

theorem partForms_named (names : List (String × String)) :
    partForms (names.map fun n => .named n.1 n.2) =
      if names.isEmpty then [] else [bracedForms (names.map fun n => aliasForms n.1 n.2)] := by
  have hclauses : clauseForms (names.map fun n => .named n.1 n.2) = [] := by
    rw [clauseForms, List.filterMap_map, List.filterMap_eq_nil_iff]
    exact fun _ _ => rfl
  have hnames : namedForms (names.map fun n => .named n.1 n.2) =
      names.map fun n => aliasForms n.1 n.2 := by
    rw [namedForms, List.filterMap_map]
    exact congrFun List.filterMap_eq_map names
  rw [partForms, hclauses, hnames, List.nil_append]
  cases names <;> rfl

/-- What comes after the default export, in front of the word `from`. -/
theorem reads_importClause {bs : List Binding} (h : Regular bs) (hd : ∀ name, .default name ∉ bs)
    (hw : ∀ b ∈ bs, b.IsWritable) (hgs : headKind gs = .identifier) :
    Reads room importClause (separated (partForms bs) ++ gs) gs (Reproduces bs) := by
  rcases exists_of_pairwise h.order hd with ⟨name, rfl⟩ | ⟨names, rfl⟩
  · exact reads_importClause_whole (h.bound _ List.mem_cons_self)
  · rw [partForms_named]
    cases names with
    | nil =>
      refine .bind (reads_accept_ne (hgs ▸ by decide)) fun found hfound => ?_
      rw [if_neg (by simp [hfound])]
      refine .bind (reads_accept_ne (hgs ▸ by decide)) fun found hfound => ?_
      rw [if_neg (by simp [hfound])]
      exact .pure ⟨rfl, List.forall_mem_nil _⟩
    | cons n names =>
      rw [List.isEmpty_cons, if_neg Bool.false_ne_true, separated, List.intercalate_singleton]
      refine reads_importClause_named fun n' hn => ?_
      have hmem := List.mem_map_of_mem (f := fun n : String × String => Binding.named n.1 n.2) hn
      exact ⟨(hw _ hmem).1, h.bound _ hmem⟩

theorem reads_defaultImport_none (h : headKind fs ≠ .identifier) :
    Reads room defaultImport fs fs (Reproduces []) := by
  refine .get fun c hc => ?_
  rw [hc.at_ne h]
  exact .pure ⟨rfl, List.forall_mem_nil _⟩

/-- The default export, with the comma after it if there is one. -/
theorem reads_defaultImport {name : String} (h : IsIdentifier name)
    (hfs : fs = .of "," :: gs ∨ fs = gs ∧ headKind gs = .identifier) :
    Reads room defaultImport (.of name :: fs) gs (Reproduces [.default name]) := by
  refine .get fun c hc => ?_
  have hne : c.sees 1 .eq = false := by
    rw [hc.sees_one]
    rcases hfs with rfl | ⟨rfl, hgs⟩
    · exact beq_eq_false_iff_ne.2 (show (Form.of ",").kind ≠ .eq by decide)
    · exact beq_eq_false_iff_ne.2 (hgs ▸ by decide)
  rw [hc.at_head h.kind_of, if_neg (by decide), hne, if_neg (by decide)]
  refine .bind (reads_identifier h) fun n hn => ?_
  have hcomma : Reads room (discard (accept .comma)) fs gs fun _ => True := by
    rcases hfs with rfl | ⟨rfl, hgs⟩
    · exact (reads_accept comma_kind).discard
    · exact (reads_accept_ne (hgs ▸ by decide)).discard
  refine .bind hcomma fun _ _ => .pure ⟨?_, List.forall_mem_singleton.2 rfl⟩
  exact congrArg (fun name => [Binding.default name]) hn

theorem Reproduces.append {bs cs : List Binding} {ss ts : List ImportSpecifier}
    (hs : Reproduces bs ss) (ht : Reproduces cs ts) : Reproduces (bs ++ cs) (ss ++ ts) :=
  ⟨by rw [List.map_append, hs.1, ht.1], List.forall_mem_append.2 ⟨hs.2, ht.2⟩⟩

structure IsImportOf (bs : List Binding) (source : String) (d : Import) : Prop where
  specifiers : Reproduces bs d.specifiers
  source : d.source = source
  typeOnly : d.typeOnly = false

/-- An import of parts, which are read in two steps. -/
theorem reads_importParts {first rest : List Binding} {source : String}
    (htypes : ∀ c : Cursor, c.On fs → importsTypes c = false) (hstring : headKind fs ≠ .string)
    (hfirst : Reads room defaultImport fs gs (Reproduces first))
    (hrest : Reads room importClause gs (fromForms source ++ [.of ";"]) (Reproduces rest))
    (hne : first ++ rest ≠ []) :
    Reads room (importDecl g) (.of "import" :: fs) [] (IsImportOf (first ++ rest) source) := by
  refine .bind (reads_token (kind_interfaceWord (by decide))) fun _ _ => .get fun c hc => ?_
  simp only [htypes c hc, Bool.false_eq_true, if_false]
  refine .get fun c hc => ?_
  rw [if_neg (by rw [hc.at_ne hstring]; decide)]
  refine .bind hfirst fun ss hss => .bind hrest fun ts hts => ?_
  have happend := hss.append hts
  have hparts : (ss ++ ts).isEmpty = false := by
    rw [List.isEmpty_eq_false_iff]
    intro hnil
    rw [hnil] at happend
    exact hne happend.1.symm
  rw [hparts, if_neg Bool.false_ne_true]
  refine .bind (reads_fromClause source) fun found hfound => ?_
  exact .bind reads_endStatement fun _ _ => .pure ⟨happend, hfound, rfl⟩

/-- The word `type` does not make an import one of types where another part or the name of the
module follows, unless the module is called like the word in front of it. -/
theorem importsTypes_eq_false {c : Cursor} {name : String} (hname : Text.isWord name = true)
    (hfs : fs = .of "," :: gs ∨ ∃ source, fs = fromForms source ++ gs ∧
      (name = "type" → source ≠ "from")) (hc : c.On (.of name :: fs)) : importsTypes c = false := by
  by_cases htype : name = "type"
  · subst htype
    rcases hfs with rfl | ⟨source, rfl, hsource⟩
    · have hany : c.seesAny 1 [.lBrace, .star] = false :=
        (hc.any_next _).trans
          (show [Kind.lBrace, .star].contains (Form.of ",").kind = false by decide)
      have hsees : c.sees 1 .identifier = false :=
        (hc.sees_one _).trans (show ((Form.of ",").kind == .identifier) = false by decide)
      rw [importsTypes, hany, hsees]
      simp
    · have hany : c.seesAny 1 [.lBrace, .star] = false :=
        (hc.any_next _).trans
          (show [Kind.lBrace, .star].contains (Form.of "from").kind = false by rw [from_kind]; rfl)
      have hword : (c.peek? 1).any (·.value != "from") = false :=
        (hc.any_peek? 1 fun f => f.value != "from").trans (bne_self_eq_false "from")
      have hafter : (c.peek? 2).any (·.value == "from") = false :=
        (hc.any_peek? 2 fun f => f.value == "from").trans
          (beq_eq_false_iff_ne.2 (hsource rfl))
      rw [importsTypes, hany, hword, hafter]
      simp
  · rw [importsTypes, hc.atWord_ne (.inr htype), Bool.false_and]

/-- What comes after the default export starts with a star or with a brace. -/
theorem headKind_partForms {bs : List Binding} (h : bs.Pairwise Binding.Precedes)
    (hd : ∀ name, .default name ∉ bs) (hne : bs ≠ []) : partForms bs ≠ [] ∧
      (headKind (separated (partForms bs)) = .star ∨
        headKind (separated (partForms bs)) = .lBrace) := by
  rcases exists_of_pairwise h hd with ⟨name, rfl⟩ | ⟨names, rfl⟩
  · exact ⟨List.cons_ne_nil _ _, .inl star_kind⟩
  · have hempty : names.isEmpty = false := by
      rw [List.isEmpty_eq_false_iff]
      rintro rfl
      exact hne rfl
    rw [partForms_named, hempty, if_neg Bool.false_ne_true, separated, List.intercalate_singleton]
    exact ⟨List.cons_ne_nil _ _, .inr lBrace_kind⟩

theorem headKind_fromForms (source : String) (fs : List Form) :
    headKind (fromForms source ++ fs) = .identifier := from_kind

/-- An import that binds nothing. -/
theorem reads_importDecl_nil (source : String) :
    Reads room (importDecl g) (importForms [] source) [] (IsImportOf [] source) := by
  refine .bind (reads_token (kind_interfaceWord (by decide))) fun _ _ => .get fun c hc => ?_
  have htypes : importsTypes c = false := by
    have hstring : Kind.string ≠ .identifier := by decide
    rw [importsTypes, hc.atWord_ne (.inl hstring), Bool.false_and]
  simp only [htypes, Bool.false_eq_true, if_false]
  refine .get fun c hc => ?_
  rw [if_pos (hc.at_head rfl)]
  refine .bind reads_take fun t ht => .bind reads_skipAttributes fun _ _ => ?_
  refine .bind reads_endStatement fun _ _ => .pure ⟨⟨rfl, List.forall_mem_nil _⟩, ?_, rfl⟩
  exact congrArg Form.value ht

/-- An import that binds the default export, and maybe more. -/
theorem reads_importDecl_default {bs : List Binding} {name source : String}
    (h : Regular (.default name :: bs)) (hw : ∀ b ∈ bs, b.IsWritable)
    (hapart : bs = [] → name = "type" → source ≠ "from") :
    Reads room (importDecl g) (importForms (.default name :: bs) source) []
      (IsImportOf (.default name :: bs) source) := by
  obtain ⟨hbefore, horder⟩ := List.pairwise_cons.1 h.order
  obtain ⟨hname, hbound⟩ := List.forall_mem_cons.1 h.bound
  have hd : ∀ name, .default name ∉ bs := fun _ hmem => hbefore _ hmem
  have hstring : (Form.of name).kind ≠ .string := Form.kind_ne_of_isWord hname.word rfl
  have hclause : Reads room importClause (separated (partForms bs) ++ (fromForms source ++ [.of ";"]))
      (fromForms source ++ [.of ";"]) (Reproduces bs) :=
    reads_importClause ⟨horder, hbound⟩ hd hw (headKind_fromForms source [.of ";"])
  have hparts : partForms (.default name :: bs) = [.of name] :: partForms bs := rfl
  rw [importForms, List.isEmpty_cons, if_neg Bool.false_ne_true, hparts, List.cons_append,
    List.append_assoc]
  cases bs with
  | nil =>
    have htypes (c : Cursor) (hc : c.On (.of name :: (fromForms source ++ [.of ";"]))) :
        importsTypes c = false :=
      importsTypes_eq_false hname.word (.inr ⟨source, rfl, hapart rfl⟩) hc
    exact reads_importParts htypes hstring
      (reads_defaultImport hname (.inr ⟨rfl, headKind_fromForms ..⟩)) hclause (List.cons_ne_nil _ _)
  | cons b bs =>
    rw [separated_cons _ (headKind_partForms horder hd (List.cons_ne_nil _ _)).1]
    exact reads_importParts (fun c hc => importsTypes_eq_false hname.word (.inl rfl) hc) hstring
      (reads_defaultImport hname (.inl rfl)) hclause (List.cons_ne_nil _ _)

/-- An import that binds the module itself or single exports. -/
theorem reads_importDecl_parts {bs : List Binding} {source : String} (h : Regular bs)
    (hd : ∀ name, .default name ∉ bs) (hw : ∀ b ∈ bs, b.IsWritable) (hne : bs ≠ []) :
    Reads room (importDecl g) (importForms bs source) [] (IsImportOf bs source) := by
  obtain ⟨-, hhead⟩ := headKind_partForms h.order hd hne
  have hkind {k : Kind} (hstar : Kind.star ≠ k) (hbrace : Kind.lBrace ≠ k) :
      headKind (separated (partForms bs) ++ (fromForms source ++ [.of ";"])) ≠ k := by
    rw [headKind_append]
    · rcases hhead with hhead | hhead <;> rw [hhead] <;> assumption
    · rcases hhead with hhead | hhead <;> exact ne_nil_of_headKind hhead (by decide)
  have hidentifier := hkind (k := .identifier) (by decide) (by decide)
  have htypes (c : Cursor)
      (hc : c.On (separated (partForms bs) ++ (fromForms source ++ [.of ";"]))) :
      importsTypes c = false := by
    rw [importsTypes, Cursor.atWord, hc.at_ne hidentifier, Bool.false_and, Bool.false_and]
  rw [importForms, if_neg (by simpa using hne), List.cons_append, List.append_assoc]
  exact reads_importParts htypes (hkind (by decide) (by decide))
    (reads_defaultImport_none hidentifier)
    (reads_importClause h hd hw (headKind_fromForms source [.of ";"])) hne

/-- An import is read from its tokens. -/
theorem reads_importDecl {bs : List Binding} {source : String} (h : Regular bs)
    (hw : ∀ b ∈ bs, b.IsWritable) (hapart : bs = [.default "type"] → source ≠ "from") :
    Reads room (importDecl g) (importForms bs source) [] (IsImportOf bs source) := by
  rcases default_or_none h.order with ⟨name, cs, rfl⟩ | hd
  · refine reads_importDecl_default h (fun b hb => hw b (List.mem_cons_of_mem _ hb)) ?_
    rintro rfl rfl
    exact hapart rfl
  · by_cases hne : bs = []
    · rw [hne]
      exact reads_importDecl_nil source
    · exact reads_importDecl_parts h hd hw hne

/-! ### Exports -/

/-- What follows the word `export` if that is neither a word nor a sign of equality. -/
theorem reads_exportItem {item : Parser Item} {Q : Item → Prop}
    (hfs : headKind fs = .star ∨ headKind fs = .lBrace)
    (h : ∀ start, Reads room (do
      if ← accept .star then return ← exportAll g start false
      if ← accept .lBrace then return ← exportList g start false
      exportDeclaration g item start) fs [] Q) :
    Reads room (exportItem g item) (.of "export" :: fs) [] Q := by
  have hkind {k : Kind} (hstar : Kind.star ≠ k) (hbrace : Kind.lBrace ≠ k) : headKind fs ≠ k := by
    rcases hfs with hfs | hfs <;> rw [hfs] <;> assumption
  have hword {c : Cursor} (hc : c.On fs) (word : String) : c.atWord word = false := by
    rw [Cursor.atWord, hc.at_ne (hkind (by decide) (by decide)), Bool.false_and]
  have has : Reads room (acceptWord "as") fs fs fun found => found = false := by
    refine .get fun c hc => ?_
    simp only [hword hc, Bool.false_eq_true, if_false]
    exact .pure rfl
  refine .bind reads_here fun start _ => .bind (reads_token (kind_interfaceWord (by decide))) fun _ _ => ?_
  refine .bind (reads_accept_ne (hkind (by decide) (by decide))) fun found hfound => ?_
  rw [if_neg (by simp [hfound])]
  refine .get fun c hc => ?_
  have heq : c.at_ .eq = false := hc.at_ne (hkind (by decide) (by decide))
  simp only [heq, Bool.false_eq_true, if_false]
  refine .bind has fun found hfound => ?_
  rw [if_neg (by simp [hfound])]
  refine .get fun c hc => ?_
  simp only [hword hc, Bool.false_eq_true, if_false, Bool.false_and]
  exact h start

def IsExportOf (names : List (String × String)) (source : Option String) : Item → Prop
  | .exportNamed _ specifiers found typeOnly =>
    specifiers.map (fun s => (s.inner.text, s.exportedName.text)) = names ∧
      (∀ s ∈ specifiers, s.typeOnly = false) ∧ found = source ∧ typeOnly = false
  | _ => False

def IsExportAllOf (source : String) (name : Option String) : Item → Prop
  | .exportAll _ found new typeOnly => found = source ∧ new.map Name.text = name ∧ typeOnly = false
  | _ => False

theorem reads_exportSpecifier {name exported : String} (hname : Text.isWord name = true)
    (hexported : Text.isWord exported = true)
    (hgs : headKind gs = .comma ∨ headKind gs = .rBrace) :
    Reads room exportSpecifier (aliasForms name exported ++ gs) gs fun s =>
      (s.inner.text, s.exportedName.text) = (name, exported) ∧ s.typeOnly = false := by
  refine reads_alias hname (fun _ gs => reads_exportName hexported) (fun n r hn hr => ?_) hgs
  subst hn hr
  exact ⟨rfl, rfl⟩

/-- An export of names is read from its tokens. -/
theorem reads_exportNames {item : Parser Item} {names : List (String × String)}
    (h : ∀ n ∈ names, Text.isWord n.1 = true ∧ Text.isWord n.2 = true) (source : Option String) :
    Reads room (exportItem g item) (exportForms names source) [] (IsExportOf names source) := by
  rw [exportForms, bracedForms, List.cons_append, List.cons_append, List.append_assoc]
  refine reads_exportItem (.inr lBrace_kind) fun start => ?_
  have hstar : (Form.of "\x7b").kind ≠ .star := by decide
  refine .bind (reads_accept_ne hstar) fun found hfound => ?_
  rw [if_neg (by simp [hfound])]
  refine .bind (reads_accept lBrace_kind) fun found hfound => ?_
  rw [if_pos hfound]
  refine .bind (reads_braced (fun n hn => (h n hn).1) fun n hn gs hgs =>
    reads_exportSpecifier (h n hn).1 (h n hn).2 hgs) fun ss hss => ?_
  have hspecifiers : ss.map (fun s => (s.inner.text, s.exportedName.text)) = names ∧
      ∀ s ∈ ss, s.typeOnly = false := by
    clear * - hss
    induction hss with
    | nil => exact ⟨rfl, List.forall_mem_nil _⟩
    | cons hs _ ih => exact ⟨congrArg₂ List.cons hs.1 ih.1, List.forall_mem_cons.2 ⟨hs.2, ih.2⟩⟩
  have hend (found : Option String) (hfound : found = source) : Reads room (do
      endStatement
      return Item.exportNamed (← since start) ss found false) [.of ";"] []
      (IsExportOf names source) :=
    .bind reads_endStatement fun _ _ => .bind (reads_since start) fun _ _ =>
      .pure ⟨hspecifiers.1, hspecifiers.2, hfound, rfl⟩
  refine .bind (reads_token (by decide)) fun _ _ => .get fun c hc => ?_
  cases source with
  | none =>
    have hfrom : c.atWord "from" = false :=
      hc.atWord_ne (.inl (show (Form.of ";").kind ≠ .identifier by decide))
    rw [if_neg (by simp [hfrom])]
    exact .bind (.pure rfl) fun found hfound => hend found hfound.symm
  | some source =>
    have hfrom : c.atWord "from" = true := hc.atWord_head from_kind rfl
    rw [if_pos hfrom]
    exact .bind (.map (reads_fromClause source) fun _ hfound => (congrArg some hfound).symm)
      fun found hfound => hend found hfound.symm

/-- An export of all that a module exports is read from its tokens. -/
theorem reads_exportAll {item : Parser Item} (source : String) {name : Option String}
    (h : ∀ n, name = some n → Text.isWord n = true) :
    Reads room (exportItem g item) (exportAllForms source name) []
      (IsExportAllOf source name) := by
  refine reads_exportItem (.inl star_kind) fun start => ?_
  refine .bind (reads_accept star_kind) fun found hfound => ?_
  rw [if_pos hfound]
  have hend (new : Option Name) (hnew : new.map Name.text = name) : Reads room (do
      let source ← fromClause g
      endStatement
      return Item.exportAll (← since start) source new false) (fromForms source ++ [.of ";"]) []
      (IsExportAllOf source name) :=
    .bind (reads_fromClause source) fun _ hfound => .bind reads_endStatement fun _ _ =>
      .bind (reads_since start) fun _ _ => .pure ⟨hfound, hnew, rfl⟩
  cases name with
  | none =>
    refine .bind (reads_renamed_none (.inr ?_)) fun r hr => hend r (hr ▸ rfl)
    decide
  | some name =>
    refine .bind (reads_renamed (reads_anyName (h name rfl))) fun r hr => hend r ?_
    obtain ⟨n, rfl, hn⟩ := hr
    exact congrArg some hn

end Grammar

end TypeStrip
