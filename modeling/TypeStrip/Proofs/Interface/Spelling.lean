import TypeStrip.Proofs.Interface.Words
import TypeStrip.Proofs.Printing.RoundTrip

/-! The tokens that imports and exports are written with, and that their texts are read as them. -/
namespace TypeStrip
open Token Code

/-! ### Tokens -/

def interfaceWords : List (String × Kind) :=
  [("import", .kwImport), ("export", .kwExport), ("from", .identifier), ("as", .identifier)]

theorem kindOfWord_interfaceWords :
    ∀ w ∈ interfaceWords, Text.isWord w.1 = true ∧ kindOfWord w.1 = w.2 := by decide +kernel

theorem isWord_interfaceWord {word : String} (h : word ∈ interfaceWords.map Prod.fst) :
    Text.isWord word = true := by
  obtain ⟨w, hw, rfl⟩ := List.mem_map.1 h
  exact (kindOfWord_interfaceWords w hw).1

theorem kind_interfaceWord {word : String} {kind : Kind} (h : (word, kind) ∈ interfaceWords) :
    (Form.of word).kind = kind := by
  obtain ⟨hword, hkind⟩ := kindOfWord_interfaceWords _ h
  rw [Form.of_word hword]
  exact hkind

def aliasForms (name new : String) : List Form :=
  if name = new then [.of new] else [.of name, .of "as", .of new]

def bracedForms (fss : List (List Form)) : List Form :=
  .of "\x7b" :: (separated fss ++ [.of "\x7d"])

def fromForms (source : String) : List Form := [.of "from", ⟨.string, source, false⟩]

def clauseForms (bs : List Binding) : List (List Form) :=
  bs.filterMap fun
    | .default name => some [.of name]
    | .whole name => some [.of "*", .of "as", .of name]
    | .named .. => none

def namedForms (bs : List Binding) : List (List Form) :=
  bs.filterMap fun
    | .named imported name => some (aliasForms imported name)
    | _ => none

def partForms (bs : List Binding) : List (List Form) :=
  clauseForms bs ++ if (namedForms bs).isEmpty then [] else [bracedForms (namedForms bs)]

def importForms (bs : List Binding) (source : String) : List Form :=
  .of "import" :: (if bs.isEmpty then [⟨.string, source, false⟩]
    else separated (partForms bs) ++ fromForms source) ++ [.of ";"]

def exportForms (names : List (String × String)) (source : Option String) : List Form :=
  .of "export" :: bracedForms (names.map fun n => aliasForms n.1 n.2) ++
    ((source.map fromForms).getD [] ++ [.of ";"])

def exportAllForms (source : String) (name : Option String) : List Form :=
  .of "export" :: .of "*" :: ((name.map fun n => [.of "as", .of n]).getD [] ++ fromForms source ++
    [.of ";"])

/-! ### Texts -/

namespace Spells
variable {E : List Char → Prop} {t : String} {fs : List Form} {ts : List String}
  {fss : List (List Form)}

theorem semicolon : Spells (fun _ => True) ";" [.of ";"] :=
  delimiter .semicolon (by decide) (by decide) (by decide)

theorem string (s : String) : Spells (fun _ => True) (Text.quoted s) [⟨.string, s, false⟩] :=
  fun _ _ _ h => h.string s

/-- Texts in braces. -/
theorem braced (h : List.Forall₂ (Spells EndsNumber) ts fss) :
    Spells (fun _ => True) (inlineBraced ts) (bracedForms fss) := by
  have hopen : Spells (fun _ => True) "\x7b" [.of "\x7b"] :=
    delimiter .lBrace (by decide) (by decide) (by decide)
  have hclose : Spells (fun _ => True) "\x7d" [.of "\x7d"] :=
    delimiter .rBrace (by decide) (by decide) (by decide)
  unfold inlineBraced
  split
  · next hempty =>
    rw [List.isEmpty_iff.1 hempty, List.forall₂_nil_left_iff] at h
    rw [h]
    have htext : Spells (fun _ => True) ("\x7b" ++ "\x7d") ([.of "\x7b"] ++ [.of "\x7d"]) :=
      hopen.append hclose fun _ _ => trivial
    exact htext
  · have hopen' : Spells (fun _ => True) "\x7b " [.of "\x7b"] :=
      fun _ _ _ h => hopen _ _ trivial h.blank
    have hclose' : Spells (fun _ => True) " \x7d" [.of "\x7d"] :=
      fun _ _ _ h => (hclose _ _ trivial h).blank
    have hblank (rest : List Char) : EndsNumber (" \x7d".toList ++ rest) :=
      endsNumber_blank ('\x7d' :: rest)
    exact hopen'.around (listed h) hclose' hblank

/-- A word in front of a blank. -/
theorem word_blank {text : String} (hw : Text.isWord t = true) (ht : t ++ " " = text) :
    Spells (fun _ => True) text [.of t] := by
  intro rest gs _ h
  rw [← ht]
  have hl := h.spaced (.inr hw)
  simpa using hl

/-- A word in front of what ends a number. -/
theorem name (hw : Text.isWord t = true) : Spells EndsNumber t [.of t] :=
  (word hw).mono fun _ hrest => hrest.1

/-- The end of an import or export from a module. -/
theorem from_ (source : String) :
    Spells (fun _ => True) (" from " ++ Text.quoted source ++ ";")
      (fromForms source ++ [.of ";"]) := by
  have hfrom : Spells (fun _ => True) (" " ++ "from" ++ " ") [.of "from"] :=
    spaced (.inr (isWord_interfaceWord (by decide)))
  exact (hfrom.append (string source) fun _ _ => trivial).append semicolon fun _ _ => trivial

end Spells

theorem endsNumber_from (source : String) (rest : List Char) :
    EndsNumber ((" from " ++ Text.quoted source ++ ";").toList ++ rest) := by
  rw [String.toList_append, String.toList_append]
  exact endsNumber_blank _

/-- A name with the name that it gets. -/
theorem spells_alias {name new : String} (hname : Text.isWord name = true)
    (hnew : Text.isWord new = true) :
    Spells EndsNumber (if name = new then new else name ++ " as " ++ new)
      (aliasForms name new) := by
  unfold aliasForms
  split
  · exact .name hnew
  · have has : Spells (fun _ => True) (" " ++ "as" ++ " ") [.of "as"] :=
      .spaced (.inr (isWord_interfaceWord (by decide)))
    refine ((Spells.name hname).append has fun rest _ => ?_).append (.name hnew) fun _ _ => trivial
    exact endsNumber_blank ('a' :: 's' :: ' ' :: rest)

def Code.Binding.IsWritable : Binding → Prop
  | .default name | .whole name => Text.isWord name = true
  | .named imported name => Text.isWord imported = true ∧ Text.isWord name = true

variable {bs : List Binding} {source : String}

theorem spells_clauses (h : ∀ b ∈ bs, b.IsWritable) :
    List.Forall₂ (Spells EndsNumber) (importClauses bs) (clauseForms bs) := by
  have hstar : Spells (fun _ => True) ("*" ++ " " ++ ("as" ++ " ")) [.of "*", .of "as"] :=
    (Spells.word_blank (isWord_interfaceWord (by decide)) rfl).after (.inl (by decide))
  induction bs with
  | nil => exact .nil
  | cons b bs ih =>
    obtain ⟨hb, hbs⟩ := List.forall_mem_cons.1 h
    cases b with
    | default name => exact .cons (.name hb) (ih hbs)
    | whole name => exact .cons (hstar.append (.name hb) fun _ _ => trivial) (ih hbs)
    | named imported name => exact ih hbs

theorem spells_names (h : ∀ b ∈ bs, b.IsWritable) :
    List.Forall₂ (Spells EndsNumber) (importNames bs) (namedForms bs) := by
  induction bs with
  | nil => exact .nil
  | cons b bs ih =>
    obtain ⟨hb, hbs⟩ := List.forall_mem_cons.1 h
    cases b with
    | default name | whole name => exact ih hbs
    | named imported name => exact .cons (spells_alias hb.1 hb.2) (ih hbs)

theorem spells_import (h : ∀ b ∈ bs, b.IsWritable) (source : String) :
    Spells (fun _ => True) (importText bs source) (importForms bs source) := by
  have himport : Spells (fun _ => True) "import " [.of "import"] :=
    .word_blank (isWord_interfaceWord (by decide)) rfl
  have hnames := spells_names h
  have hempty : (importNames bs).isEmpty = (namedForms bs).isEmpty := by
    have hlength := hnames.length_eq
    cases hi : importNames bs <;> cases hn : namedForms bs <;> simp_all
  have hparts : List.Forall₂ (Spells EndsNumber)
      (if (importNames bs).isEmpty then [] else [inlineBraced (importNames bs)])
      (if (namedForms bs).isEmpty then [] else [bracedForms (namedForms bs)]) := by
    rw [hempty]
    split
    · exact .nil
    · exact .cons ((Spells.braced hnames).mono fun _ _ => trivial) .nil
  have hclauses := (Spells.listed (List.rel_append (spells_clauses h) hparts)).append
    (.from_ source) fun rest _ => endsNumber_from source rest
  unfold importText importForms partForms
  dsimp only
  split
  · have hsource := (himport.append (.string source) fun _ _ => trivial).append .semicolon
      fun _ _ => trivial
    exact hsource
  · have htext := himport.append hclauses fun _ _ => trivial
    simpa only [String.append_assoc, List.append_assoc, List.singleton_append, List.nil_append,
      List.cons_append] using htext

theorem spells_aliases {names : List (String × String)}
    (h : ∀ n ∈ names, Text.isWord n.1 = true ∧ Text.isWord n.2 = true) :
    List.Forall₂ (Spells EndsNumber)
      (names.map fun (name, exported) =>
        if exported = name then name else name ++ " as " ++ exported)
      (names.map fun n => aliasForms n.1 n.2) := by
  induction names with
  | nil => exact .nil
  | cons n names ih =>
    obtain ⟨name, exported⟩ := n
    obtain ⟨⟨hname, hexported⟩, hnames⟩ := List.forall_mem_cons.1 h
    have heq : (if exported = name then name else name ++ " as " ++ exported) =
        if name = exported then exported else name ++ " as " ++ exported := by
      by_cases h : exported = name
      · rw [if_pos h, if_pos h.symm, h]
      · rw [if_neg h, if_neg (Ne.symm h)]
    have halias := spells_alias hname hexported
    rw [← heq] at halias
    exact .cons halias (ih hnames)

theorem spells_export {names : List (String × String)}
    (h : ∀ n ∈ names, Text.isWord n.1 = true ∧ Text.isWord n.2 = true) (source : Option String) :
    Spells (fun _ => True) (exportNamesText names source) (exportForms names source) := by
  have hexport : Spells (fun _ => True) "export " [.of "export"] :=
    .word_blank (isWord_interfaceWord (by decide)) rfl
  have hnames := hexport.append (Spells.braced (spells_aliases h)) fun _ _ => trivial
  cases source with
  | none => exact hnames.append .semicolon fun _ _ => trivial
  | some source => exact hnames.append (.from_ source) fun _ _ => trivial

theorem spells_exportAll (source : String) {name : Option String}
    (h : ∀ n, name = some n → Text.isWord n = true) (depth : Nat) :
    Spells (fun _ => True) ((Code.Stmt.exportAll source name).text depth)
      (exportAllForms source name) := by
  have hstar {word text : String} (hw : Text.isWord word = true)
      (ht : "export" ++ " " ++ ("*" ++ " " ++ (word ++ " ")) = text) :
      Spells (fun _ => True) text [.of "export", .of "*", .of word] := by
    rw [← ht]
    exact ((Spells.word_blank hw rfl).after (.inl (by decide))).after (.inr (isWord_interfaceWord (by decide)))
  cases name with
  | none =>
    have hfrom : Spells (fun _ => True) "export * from " [.of "export", .of "*", .of "from"] :=
      hstar (isWord_interfaceWord (by decide)) rfl
    exact (hfrom.append (.string source) fun _ _ => trivial).append .semicolon fun _ _ => trivial
  | some name =>
    have has : Spells (fun _ => True) "export * as " [.of "export", .of "*", .of "as"] :=
      hstar (isWord_interfaceWord (by decide)) rfl
    have htext : Spells (fun _ => True) ("export * as " ++ name ++
        (" from " ++ Text.quoted source ++ ";")) (exportAllForms source (some name)) :=
      (has.append (.word (h name rfl)) fun _ _ => trivial).append (.from_ source)
        fun rest _ => (endsNumber_from source rest).1
    show Spells _ ("export * as " ++ name ++ " from " ++ Text.quoted source ++ ";") _
    simpa only [String.append_assoc] using htext

end TypeStrip
