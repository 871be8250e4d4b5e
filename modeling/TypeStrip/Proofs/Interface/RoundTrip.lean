import TypeStrip.Proofs.Interface.Reading

/-!
Imports and exports that stay as they are in the code of a module are read again as the same imports
and exports, as long as the names of exports in them are words: a name that is a string is written
without its quotes.
-/
namespace TypeStrip
open Token Grammar Lowering Code

/-! ### Items -/

def Code.Stmt.IsStatedBy : Code.Stmt → Item → Prop
  | .import_ bs source, .import_ _ d => IsImportOf bs source d
  | .exportNames names source, i => IsExportOf names source i
  | .exportAll source name, i => IsExportAllOf source name i
  | _, _ => False

namespace Grammar

variable {room : Nat} {g : Inner} {fs : List Form} {bs : List Binding} {source : String}

/-- What follows the word `import` does not make it an expression. -/
theorem headKind_importForms (h : Regular bs) (source : String) :
    headKind (importForms bs source).tail ∈ [Kind.string, .identifier, .star, .lBrace] := by
  by_cases hne : bs = []
  · rw [hne]
    exact List.mem_cons_self
  · have htail : (importForms bs source).tail =
        separated (partForms bs) ++ (fromForms source ++ [.of ";"]) := by
      rw [importForms, if_neg (by simpa using hne), List.cons_append, List.append_assoc]
      rfl
    rw [htail]
    rcases default_or_none h.order with ⟨name, cs, rfl⟩ | hd
    · have hname : (Form.of name).kind = .identifier :=
        (h.bound _ List.mem_cons_self).kind_of
      have hparts : partForms (.default name :: cs) = [.of name] :: partForms cs := rfl
      rw [hparts, separated_eq]
      show (Form.of name).kind ∈ _
      rw [hname]
      decide
    · obtain ⟨-, hhead⟩ := headKind_partForms h.order hd hne
      rcases hhead with hhead | hhead <;>
        rw [headKind_append (ne_nil_of_headKind hhead (by decide)), hhead] <;> decide

/-- An import is read as an item. -/
theorem reads_importItem (h : Regular bs) (hw : ∀ b ∈ bs, b.IsWritable)
    (hapart : bs = [.default "type"] → source ≠ "from") :
    Reads room (item g) (importForms bs source) [] (Code.Stmt.import_ bs source).IsStatedBy := by
  refine .get fun c hc => ?_
  rw [hc.remaining, itemUpTo]
  refine .get fun c hc => ?_
  have hhead : (Form.of "import").kind = .kwImport := kind_interfaceWord (by decide)
  have himport : c.atImport = true := by
    have hnext : c.seesAny 1 [.lParen, .dot] = false := by
      have hkinds : ∀ k ∈ [Kind.string, .identifier, .star, .lBrace],
          [Kind.lParen, .dot].contains k = false := by decide
      rw [show importForms bs source = .of "import" :: (importForms bs source).tail from rfl] at hc
      exact (hc.any_next _).trans (hkinds _ (headKind_importForms h source))
    rw [Cursor.atImport, Bool.and_eq_true_iff]
    exact ⟨hc.at_head hhead, by rw [hnext]; rfl⟩
  rw [if_pos himport]
  exact .bind (reads_importDecl h hw hapart) fun d hd => .bind (reads_since _) fun _ _ => .pure hd

/-- An export is read as an item. -/
theorem reads_exportedItem {Q : Item → Prop}
    (h : ∀ item : Parser Item, Reads room (exportItem g item) (.of "export" :: fs) [] Q) :
    Reads room (item g) (.of "export" :: fs) [] Q := by
  refine .get fun c hc => ?_
  rw [hc.remaining, itemUpTo]
  refine .get fun c hc => ?_
  have hhead : (Form.of "export").kind = .kwExport := kind_interfaceWord (by decide)
  have hne : headKind (.of "export" :: fs) ≠ .kwImport := by
    rw [headKind, hhead]
    decide
  have himport : c.atImport = false := by rw [Cursor.atImport, hc.at_ne hne, Bool.false_and]
  rw [himport, if_neg Bool.false_ne_true, if_pos (hc.at_head hhead)]
  exact h _

/-! ### Modules of one item -/

/-- A text whose tokens are read as one item is a module of that item. -/
theorem parseModule_item {text : String} {f : Form} {P : Item → Prop}
    (htext : Spells (fun _ => True) text (f :: fs)) (hplain : AllPlain (f :: fs))
    (h : ∀ g, Reads maxNesting (item g) (f :: fs) [] P) (file : Nat) :
    ∃ q i, parseModule text file = .ok q ∧ q.items = [i] ∧ P i := by
  have hforms : (tokenize text file 0).map form = f :: fs ++ [.end_] := by
    have hl := htext [] [] trivial .nil file 0
    rwa [List.append_nil, List.append_nil] at hl
  have hon := ofTokens_on hforms hplain
  generalize htokens : tokenize text file 0 = tokens at hforms hon
  obtain ⟨i, t', hitem, ht', hi⟩ := h (grammar tokens) _ hon
  have hsteps : itemStepsUpTo (grammar tokens) (Tape.ofTokens tokens).cursor.remaining
      (Tape.ofTokens tokens) = [.ok i] := by
    have herror : (Tape.ofTokens tokens).current.kind ≠ .error := by
      rw [show (Tape.ofTokens tokens).current.kind = f.kind from hon.cursor.kind]
      intro heq
      exact hplain f List.mem_cons_self (by simp [heq])
    have hend : (Tape.ofTokens tokens).cursor.atEnd = false := by
      rw [hon.cursor.atEnd, beq_eq_false_iff_ne]
      exact (hon.cursor.inner f List.mem_cons_self).1
    have hend' : t'.cursor.atEnd = true := by
      rw [ht'.cursor.atEnd]
      rfl
    have hstep : itemStep (grammar tokens) (Tape.ofTokens tokens) = (.ok i, t') := by
      rw [itemStep, if_neg herror, hitem]
    rw [hon.cursor.remaining, List.length_cons, itemStepsUpTo, hend, if_neg Bool.false_ne_true,
      hstep]
    show .ok i :: itemStepsUpTo (grammar tokens) (fs.length + 1) t' = _
    rw [itemStepsUpTo, if_pos hend']
  refine ⟨⟨[i], (Tape.ofTokens tokens).current.span.merge i.span⟩, i, ?_, rfl, hi⟩
  rw [parseModule, htokens, parseProgram]
  dsimp only
  rw [hsteps]
  rfl

end Grammar

/-! ### Imports and exports -/

theorem AllPlain.cons_interfaceWord {word : String} {fs : List Form}
    (h : word ∈ interfaceWords.map Prod.fst) (hfs : AllPlain fs) : AllPlain (.of word :: fs) :=
  (allPlain_word (isWord_interfaceWord h)).append hfs

theorem allPlain_aliasForms {name new : String} (hname : Text.isWord name = true)
    (hnew : Text.isWord new = true) : AllPlain (aliasForms name new) := by
  unfold aliasForms
  split
  · exact allPlain_word hnew
  · exact (allPlain_word hname).append
      (.cons_interfaceWord (by decide) (allPlain_word hnew))

theorem allPlain_bracedForms {fss : List (List Form)} (h : ∀ fs ∈ fss, AllPlain fs) :
    AllPlain (bracedForms fss) :=
  .cons (by decide) ((AllPlain.separated h).append (.cons (by decide) allPlain_nil))

theorem allPlain_fromForms (source : String) : AllPlain (fromForms source) :=
  .cons_interfaceWord (by decide) (.cons (show Kind.string ∉ _ by decide) allPlain_nil)

theorem allPlain_semicolon : AllPlain [.of ";"] := .cons (by decide) allPlain_nil

theorem allPlain_importForms {bs : List Binding} (hw : ∀ b ∈ bs, b.IsWritable) (source : String) :
    AllPlain (importForms bs source) := by
  have hclauses : ∀ fs ∈ clauseForms bs, AllPlain fs := by
    intro fs hfs
    obtain ⟨b, hb, heq⟩ := List.mem_filterMap.1 hfs
    have hb := hw b hb
    cases b with
    | default name =>
      cases heq
      exact allPlain_word hb
    | whole name =>
      cases heq
      exact .cons (by decide) (.cons_interfaceWord (by decide) (allPlain_word hb))
    | named imported name => cases heq
  have hnames : ∀ fs ∈ namedForms bs, AllPlain fs := by
    intro fs hfs
    obtain ⟨b, hb, heq⟩ := List.mem_filterMap.1 hfs
    have hb := hw b hb
    cases b with
    | named imported name =>
      cases heq
      exact allPlain_aliasForms hb.1 hb.2
    | _ => cases heq
  refine AllPlain.append (.cons_interfaceWord (by decide) ?_) allPlain_semicolon
  split
  · exact .cons (show Kind.string ∉ _ by decide) allPlain_nil
  · refine (AllPlain.separated fun fs hfs => ?_).append (allPlain_fromForms source)
    rcases List.mem_append.1 hfs with hfs | hfs
    · exact hclauses fs hfs
    · split at hfs
      · cases hfs
      · rw [List.mem_singleton.1 hfs]
        exact allPlain_bracedForms hnames

theorem allPlain_exportForms {names : List (String × String)}
    (h : ∀ n ∈ names, Text.isWord n.1 = true ∧ Text.isWord n.2 = true) (source : Option String) :
    AllPlain (exportForms names source) := by
  have hsource : AllPlain ((source.map fromForms).getD []) := by
    cases source with
    | none => exact allPlain_nil
    | some source => exact allPlain_fromForms source
  refine AllPlain.append (.cons_interfaceWord (by decide) (allPlain_bracedForms ?_))
    (hsource.append allPlain_semicolon)
  exact List.forall_mem_map.2 fun n hn => allPlain_aliasForms (h n hn).1 (h n hn).2

theorem allPlain_exportAllForms (source : String) {name : Option String}
    (h : ∀ n, name = some n → Text.isWord n = true) : AllPlain (exportAllForms source name) := by
  have hname : AllPlain ((name.map fun n => [.of "as", .of n]).getD []) := by
    cases name with
    | none => exact allPlain_nil
    | some name => exact .cons_interfaceWord (by decide) (allPlain_word (h name rfl))
  exact .cons_interfaceWord (by decide) (.cons (by decide)
    ((hname.append (allPlain_fromForms source)).append allPlain_semicolon))

/-- An import or export that can be read again: the parts of an import are as the grammar has them,
and names are words. An import of a default export called `type` is one of types if the module is
called `from`. -/
def Code.Stmt.IsReadable : Code.Stmt → Prop
  | .import_ bs source =>
    Regular bs ∧ (∀ b ∈ bs, b.IsWritable) ∧ (bs = [.default "type"] → source ≠ "from")
  | .exportNames names _ => ∀ n ∈ names, Text.isWord n.1 = true ∧ Text.isWord n.2 = true
  | .exportAll _ name => ∀ n, name = some n → Text.isWord n = true
  | _ => False

/-- The text of such an import or export is a module of one item, which states the same. -/
theorem Code.Stmt.IsReadable.parseModule_text {s : Code.Stmt} (h : s.IsReadable)
    (depth file : Nat) :
    ∃ q i, parseModule (s.text depth) file = .ok q ∧ q.items = [i] ∧ s.IsStatedBy i := by
  cases s with
  | import_ bs source =>
    obtain ⟨hregular, hw, hapart⟩ := h
    exact parseModule_item (spells_import hw source) (allPlain_importForms hw source)
      (fun _ => reads_importItem hregular hw hapart) file
  | exportNames names source =>
    exact parseModule_item (spells_export h source) (allPlain_exportForms h source)
      (fun _ => reads_exportedItem fun _ => reads_exportNames h source) file
  | exportAll source name =>
    exact parseModule_item (spells_exportAll source h depth) (allPlain_exportAllForms source h)
      (fun _ => reads_exportedItem fun _ => reads_exportAll source h) file
  | _ => exact h.elim

/-! ### Modules -/

def Item.kept? (ctx : Context) : Item → Option Code.Stmt
  | .import_ _ d => some (.import_ (keptBindings ctx d) d.source)
  | .exportNamed _ specifiers source _ =>
    some (.exportNames (keptExports ctx specifiers source) source)
  | .exportAll _ source name _ => some (.exportAll source (name.map Name.text))
  | _ => none

def Code.Stmt.exportedNames : Code.Stmt → List String
  | .import_ bs _ => bs.filterMap fun
    | .named imported _ => some imported
    | _ => none
  | .exportNames names _ => names.flatMap fun n => [n.1, n.2]
  | _ => []

theorem isWritable_of_regular {bs : List Binding} {source : String} (h : Regular bs)
    (hnames : ∀ name ∈ (Code.Stmt.import_ bs source).exportedNames, Text.isWord name = true) :
    ∀ b ∈ bs, b.IsWritable := by
  intro b hb
  have hbound := h.bound b hb
  cases b with
  | default name | whole name => exact hbound.word
  | named imported name =>
    have himported := hnames imported (List.mem_filterMap.2 ⟨_, hb, rfl⟩)
    refine ⟨himported, ?_⟩
    rcases hbound with rfl | hname
    · exact himported
    · exact hname.word

variable {ctx : Context} {i : Item} {s : Code.Stmt}

/-- What is left of such an item is what is kept of it, or nothing. -/
theorem lowerItem_kept (hs : i.kept? ctx = some s) (used : List String) :
    ((lowerItem ctx .kept i).run used).1 = [] ∨ ((lowerItem ctx .kept i).run used).1 = [s] := by
  cases i with
  | import_ span d =>
    cases hs
    rw [lowerItem, lowerImport]
    split
    · exact .inl rfl
    · exact .inr rfl
  | exportNamed span specifiers source typeOnly =>
    cases hs
    rw [lowerItem]
    split
    · exact .inl rfl
    · rw [show lowerExportNames ctx .kept specifiers source =
        if (keptExports ctx specifiers source).isEmpty && !specifiers.isEmpty then pure []
        else pure [.exportNames (keptExports ctx specifiers source) source] from rfl]
      split
      · exact .inl rfl
      · exact .inr rfl
  | exportAll span source name typeOnly =>
    cases hs
    rw [lowerItem]
    split
    · exact .inl rfl
    · exact .inr rfl
  | _ => cases hs

/-- The imports and the exports of names at the top of a module that is read can be read again from
the code, if the names of exports in them are words. -/
theorem isReadable_of_kept (hi : i.IsWorded) (hs : i.kept? ctx = some s)
    (hnames : ∀ name ∈ s.exportedNames, Text.isWord name = true)
    (hapart : s ≠ .import_ [.default "type"] "from") : s.IsReadable := by
  cases i with
  | import_ span d =>
    cases hs
    have hregular := Regular.kept hi ctx
    refine ⟨hregular, isWritable_of_regular hregular hnames, fun hbs hsource => hapart ?_⟩
    rw [hbs, hsource]
  | exportNamed span specifiers source typeOnly =>
    cases hs
    exact fun n hn => ⟨hnames _ (List.mem_flatMap.2 ⟨n, hn, List.mem_cons_self⟩),
      hnames _ (List.mem_flatMap.2 ⟨n, hn, List.mem_cons_of_mem _ List.mem_cons_self⟩)⟩
  | exportAll span source name typeOnly =>
    cases hs
    intro new hnew
    obtain ⟨n, rfl, rfl⟩ := Option.map_eq_some_iff.1 hnew
    exact hi n rfl
  | _ => cases hs

/-- Where imports and exports stay as they are, an import or an export of names at the top of a
module leaves nothing, or what is kept of it. The text of that is read as a declaration of the same
names from the same module, unless the name of an export is a string that is no word; and unless it
is the import of a default export called `type` from a module called `from`. -/
theorem Program.parseModule_kept {source : String} {file : Nat} {p : Program}
    (h : parseModule source file = .ok p) (hi : i ∈ p.items) (hs : i.kept? ctx = some s)
    (hnames : ∀ name ∈ s.exportedNames, Text.isWord name = true)
    (hapart : s ≠ .import_ [.default "type"] "from") (used : List String) (depth file' : Nat) :
    ∀ t ∈ ((lowerItem ctx .kept i).run used).1,
      ∃ q j, parseModule (t.text depth) file' = .ok q ∧ q.items = [j] ∧ s.IsStatedBy j := by
  have hreadable := isReadable_of_kept (isWorded_of_parseModule h i hi) hs hnames hapart
  intro t ht
  rcases lowerItem_kept hs used with hnone | hone
  · rw [hnone] at ht
    cases ht
  · rw [hone] at ht
    rw [List.mem_singleton.1 ht]
    exact hreadable.parseModule_text depth file'

/-- A string in place of a name is written without its quotes. -/
example : (parseModule ((Code.Stmt.import_ [.named "a-b" "c"] "m").text 0) 0).isOk = false := by
  decide +kernel

end TypeStrip
