import Mathlib.Data.List.Nodup
import Mathlib.Logic.Function.Basic
import TypeStrip.Proofs.Interface.Words
import TypeStrip.Proofs.Mentions.Shapes

/-!
What the code of an import does where modules are required: the module is required once, and every
part of the import that is kept ends up bound to what it stands for. A temporary that holds the
module is numbered without regard to the names of the parts, so it may be called like one of them:
the parts after that one are then taken from the wrong value.
-/
namespace TypeStrip
open Lowering Code

/-! ### Running code -/

/-- What code finds when it runs: the exports of modules, and the properties of values. -/
structure World (V : Type) where
  exportsOf : String → V
  property : V → String → V

/-- What code changes when it runs: the values of variables, and the modules that it has required,
the last one first. -/
structure Memory (V : Type) where
  values : String → Option V
  required : List String

variable {V : Type} {w : World V} {m m' : Memory V} {v : V}

def Memory.assign (m : Memory V) (name : String) (v : V) : Memory V :=
  { m with values := Function.update m.values name (some v) }

theorem Memory.values_assign (m : Memory V) (name : String) (v : V) :
    (m.assign name v).values name = some v :=
  Function.update_self ..

theorem Memory.values_assign_of_ne (m : Memory V) {name other : String} (v : V)
    (h : other ≠ name) : (m.assign name v).values other = m.values other :=
  Function.update_of_ne h ..

namespace World

/-- The value of a variable, a module that is required, or a property. The code of an import has no
other expressions. -/
def evaluate (w : World V) (m : Memory V) : Code.Expr → Option (V × Memory V)
  | .ident name => (m.values name).map fun v => (v, m)
  | .require source => some (w.exportsOf source, { m with required := source :: m.required })
  | .member object name => (w.evaluate m object).map fun (v, m) => (w.property v name, m)
  | .index object (.literal (.string name)) =>
    (w.evaluate m object).map fun (v, m) => (w.property v name, m)
  | _ => none

def step (w : World V) (m : Memory V) : Code.Stmt → Option (Memory V)
  | .vars .var [.mk (.ident name) (some e)] =>
    (w.evaluate m e).map fun (v, m) => m.assign name v
  | .expr e => (w.evaluate m e).map Prod.snd
  | _ => none

def run (w : World V) (m : Memory V) : List Code.Stmt → Option (Memory V)
  | [] => some m
  | s :: stmts => (w.step m s).bind fun m => w.run m stmts

theorem run_append (stmts stmts' : List Code.Stmt) :
    w.run m (stmts ++ stmts') = (w.run m stmts).bind fun m => w.run m stmts' := by
  induction stmts generalizing m with
  | nil => rfl
  | cons s stmts ih =>
    rw [List.cons_append, run, run, Option.bind_assoc]
    exact congrArg _ (funext fun m => ih)

theorem step_variable {name : String} {e : Code.Expr} (h : w.evaluate m e = some (v, m')) :
    w.step m (variable_ name e) = some (m'.assign name v) := by
  rw [variable_, step, h]
  rfl

/-- A property is found by its name, whether that is a word or not. -/
theorem evaluate_property {object : String} (h : m.values object = some v) (name : String) :
    w.evaluate m (Lowering.property object name) = some (w.property v name, m) := by
  rw [Lowering.property]
  split <;> rw [evaluate, evaluate, h] <;> rfl

end World

/-! ### Parts of an import -/

def Code.Binding.localName : Binding → String
  | default name | whole name | named _ name => name

def Code.Binding.isProperty : Binding → Bool
  | whole _ => false
  | _ => true

def Code.Binding.value (w : World V) (exports : V) : Binding → V
  | default _ => w.property exports "default"
  | whole _ => exports
  | named imported _ => w.property exports imported

abbrev localNames (bs : List Binding) : List String := bs.map Binding.localName

def propertiesOf (bs : List Binding) : List Binding := bs.filter Binding.isProperty

variable {bs : List Binding} {holder source : String}

theorem flatMap_bindFrom (holder : String) (bs : List Binding) :
    bs.flatMap (bindFrom holder) = (propertiesOf bs).flatMap (bindFrom holder) := by
  induction bs with
  | nil => rfl
  | cons b bs ih =>
    cases b with
    | whole name => exact ih
    | default name | named imported name => exact congrArg (_ :: ·) ih

/-- A property is taken from the variable that holds the module. -/
theorem run_bindFrom {b : Binding} (h : m.values holder = some v) (hb : b.isProperty = true) :
    w.run m (bindFrom holder b) = some (m.assign b.localName (b.value w v)) := by
  have hone {e : Code.Expr} (he : w.evaluate m e = some (b.value w v, m)) :
      w.run m [variable_ b.localName e] = some (m.assign b.localName (b.value w v)) := by
    rw [World.run, World.step_variable he]
    rfl
  cases b with
  | default name =>
    refine hone ?_
    rw [World.evaluate, World.evaluate, h]
    rfl
  | named imported name => exact hone (World.evaluate_property h imported)
  | whole name => cases hb

/-- Properties are bound one after the other, by induction on them: as long as the name of none but
the last one is that of the holder, the holder still has the exports of the module. -/
theorem run_properties (hb : ∀ b ∈ bs, b.isProperty = true) (hd : (localNames bs).Nodup)
    (hholder : holder ∉ (localNames bs).dropLast) (h : m.values holder = some v) :
    ∃ m', w.run m (bs.flatMap (bindFrom holder)) = some m' ∧ m'.required = m.required ∧
      (∀ b ∈ bs, m'.values b.localName = some (b.value w v)) ∧
      ∀ name ∉ localNames bs, m'.values name = m.values name := by
  induction bs generalizing m with
  | nil => exact ⟨m, rfl, rfl, List.forall_mem_nil _, fun _ _ => rfl⟩
  | cons b bs ih =>
    obtain ⟨hb, hbs⟩ := List.forall_mem_cons.1 hb
    obtain ⟨hnew, hd⟩ := List.nodup_cons.1 hd
    have hstep := run_bindFrom (w := w) h hb
    cases bs with
    | nil =>
      refine ⟨m.assign b.localName (b.value w v), ?_, rfl, ?_, fun name hname => ?_⟩
      · rw [List.flatMap_singleton, hstep]
      · exact List.forall_mem_singleton.2 (m.values_assign ..)
      · exact m.values_assign_of_ne _ (mt List.mem_singleton.2 hname)
    | cons b' bs =>
      have hne : holder ≠ b.localName := fun e => hholder (e ▸ List.mem_cons_self)
      obtain ⟨m', hrun, hrequired, hbound, hother⟩ := ih hbs hd
        (fun hmem => hholder (List.mem_cons_of_mem _ hmem)) ((m.values_assign_of_ne _ hne).trans h)
      refine ⟨m', ?_, hrequired, List.forall_mem_cons.2 ⟨?_, hbound⟩, fun name hname => ?_⟩
      · rw [List.flatMap_cons, World.run_append, hstep]
        exact hrun
      · exact (hother _ hnew).trans (m.values_assign ..)
      · obtain ⟨hname, hnames⟩ := not_or.1 (mt List.mem_cons.2 hname)
        exact (hother name hnames).trans (m.values_assign_of_ne _ hname)

/-- The world in which values are the ways to them: a module, and then names of properties, the last
one first. -/
def paths : World (List String) := ⟨fun source => [source], fun v name => name :: v⟩

theorem length_value_paths {b : Binding} (hb : b.isProperty = true) (v : List String) :
    (b.value paths v).length = v.length + 1 := by
  cases b with
  | default name | named imported name => rfl
  | whole name => cases hb

/-- If some property but the last one has the name of the holder, the one after it is taken from
that property and not from the module. -/
theorem exists_misbound {m m' : Memory (List String)} {v : List String}
    (hb : ∀ b ∈ bs, b.isProperty = true) (hd : (localNames bs).Nodup)
    (hholder : holder ∈ (localNames bs).dropLast) (h : m.values holder = some v)
    (hrun : paths.run m (bs.flatMap (bindFrom holder)) = some m') :
    ∃ b ∈ bs, m'.values b.localName ≠ some (b.value paths v) := by
  induction bs generalizing m with
  | nil => cases hholder
  | cons b bs ih =>
    obtain ⟨hfirst, hbs⟩ := List.forall_mem_cons.1 hb
    obtain ⟨hnew, hd⟩ := List.nodup_cons.1 hd
    rw [List.flatMap_cons, World.run_append, run_bindFrom h hfirst] at hrun
    cases bs with
    | nil => cases hholder
    | cons b' bs =>
      rcases List.mem_cons.1 hholder with rfl | hholder
      · obtain ⟨m'', hrun', -, hbound, -⟩ := run_properties hbs hd
          (fun hmem => hnew (List.dropLast_subset _ hmem)) (m.values_assign b.localName _)
        obtain rfl : m'' = m' := Option.some.inj (hrun'.symm.trans hrun)
        refine ⟨b', List.mem_cons_of_mem _ List.mem_cons_self, fun heq => ?_⟩
        have hb' := hbs b' List.mem_cons_self
        have hlength := congrArg List.length
          (Option.some.inj ((hbound b' List.mem_cons_self).symm.trans heq))
        rw [length_value_paths hb', length_value_paths hb', length_value_paths hfirst] at hlength
        omega
      · have hne : holder ≠ b.localName :=
          fun e => hnew (e ▸ List.dropLast_subset _ hholder)
        obtain ⟨c, hc, hvalue⟩ := ih hbs hd hholder ((m.values_assign_of_ne _ hne).trans h) hrun
        exact ⟨c, List.mem_cons_of_mem _ hc, hvalue⟩

/-! ### Imports -/

/-- Code requires a module once and binds the given parts of it, whatever the world and whatever was
done before. -/
def BindsAll (stmts : List Code.Stmt) (source : String) (bs : List Binding) : Prop :=
  ∀ (V : Type) (w : World V) (m : Memory V), ∃ m', w.run m stmts = some m' ∧
    m'.required = source :: m.required ∧
    ∀ b ∈ bs, m'.values b.localName = some (b.value w (w.exportsOf source))

/-- The variable that holds a module for several parts of an import: the name of the module itself,
or else a temporary. -/
def holderOf (source : String) (bs : List Binding) (used : List String) : String :=
  (wholeName? bs).getD ((fresh (temporaryBase source)).run used).1

def HasOneWhole (bs : List Binding) : Prop := ∀ name, .whole name ∈ bs → wholeName? bs = some name

/-- The name of the module itself is not that of a property. -/
theorem wholeName_not_mem (hd : (localNames bs).Nodup) {name : String}
    (h : wholeName? bs = some name) : name ∉ localNames (propertiesOf bs) := by
  intro hmem
  obtain ⟨b, hb, rfl⟩ := List.mem_map.1 hmem
  obtain ⟨hb, hproperty⟩ := List.mem_filter.1 hb
  have heq : b = .whole b.localName :=
    List.inj_on_of_nodup_map hd hb (mem_of_wholeName? h) rfl
  rw [heq] at hproperty
  cases hproperty

/-- The code for several parts: the holder, and what is taken from it. -/
theorem bindsAll_holder_iff (hd : (localNames bs).Nodup) (hw : HasOneWhole bs)
    (used : List String) :
    BindsAll (variable_ (holderOf source bs used) (.require source) ::
      bs.flatMap (bindFrom (holderOf source bs used))) source bs ↔
    holderOf source bs used ∉ (localNames (propertiesOf bs)).dropLast := by
  generalize hholder : holderOf source bs used = holder
  have hproperties : ∀ b ∈ propertiesOf bs, b.isProperty = true :=
    fun b hb => (List.mem_filter.1 hb).2
  have hdistinct : (localNames (propertiesOf bs)).Nodup := hd.sublist (List.filter_sublist.map _)
  have hrun {V : Type} (w : World V) (m : Memory V) :
      w.run m (variable_ holder (.require source) :: bs.flatMap (bindFrom holder)) =
        w.run (({ m with required := source :: m.required } : Memory V).assign holder
          (w.exportsOf source)) ((propertiesOf bs).flatMap (bindFrom holder)) := by
    rw [World.run, World.step_variable rfl, flatMap_bindFrom]
    rfl
  constructor
  · intro h hmem
    obtain ⟨m', hm', -, hbound⟩ := h _ paths ⟨fun _ => none, []⟩
    rw [hrun] at hm'
    obtain ⟨b, hb, hvalue⟩ :=
      exists_misbound hproperties hdistinct hmem (Memory.values_assign ..) hm'
    exact hvalue (hbound b (List.mem_filter.1 hb).1)
  · intro hfree V w m
    obtain ⟨m', hm', hrequired, hbound, hother⟩ :=
      run_properties (w := w) hproperties hdistinct hfree (Memory.values_assign ..)
    refine ⟨m', (hrun w m).trans hm', hrequired, fun b hb => ?_⟩
    by_cases hproperty : b.isProperty = true
    · exact hbound b (List.mem_filter.2 ⟨hb, hproperty⟩)
    · cases b with
      | whole name =>
        have hname := hw name hb
        obtain rfl : name = holder := by rw [← hholder, holderOf, hname, Option.getD_some]
        exact (hother _ (wholeName_not_mem hd hname)).trans (Memory.values_assign ..)
      | _ => exact absurd rfl hproperty

/-- The code of an import binds all parts if and only if the holder of the module has not the name
of a property other than the last one. -/
theorem bindsAll_requiredBindings_iff (hd : (localNames bs).Nodup) (hw : HasOneWhole bs)
    (used : List String) :
    BindsAll ((requiredBindings source bs).run used).1 source bs ↔
      holderOf source bs used ∉ (localNames (propertiesOf bs)).dropLast := by
  have hsingle {e : Code.Expr} {b : Binding} (he : ∀ (V : Type) (w : World V) (m : Memory V),
      w.evaluate m e = some (b.value w (w.exportsOf source),
        { m with required := source :: m.required })) :
      BindsAll [variable_ b.localName e] source [b] := by
    intro V w m
    refine ⟨({ m with required := source :: m.required } : Memory V).assign b.localName
      (b.value w (w.exportsOf source)), ?_, rfl,
      List.forall_mem_singleton.2 (Memory.values_assign ..)⟩
    rw [World.run, World.step_variable (he V w m)]
    rfl
  unfold requiredBindings
  split
  · exact iff_of_true (fun V w m => ⟨_, rfl, rfl, List.forall_mem_nil _⟩) List.not_mem_nil
  · next name =>
    exact iff_of_true (hsingle (b := .default name) fun V w m => rfl) List.not_mem_nil
  · next name =>
    exact iff_of_true (hsingle (b := .whole name) fun V w m => rfl) List.not_mem_nil
  · rw [← bindsAll_holder_iff hd hw used, holderOf]
    cases wholeName? bs <;> rfl

/-- Only one part is the module itself, since nothing comes after it. -/
theorem hasOneWhole_of_pairwise (h : bs.Pairwise Binding.Precedes) : HasOneWhole bs := by
  intro name hmem
  induction bs with
  | nil => cases hmem
  | cons b bs ih =>
    obtain ⟨hb, hbs⟩ := List.pairwise_cons.1 h
    rcases List.mem_cons.1 hmem with rfl | hrest
    · rfl
    · have hbefore := hb _ hrest
      cases b with
      | default other => exact ih hbs hrest
      | _ => exact hbefore.elim

theorem localName_binding (s : ImportSpecifier) : (binding s).localName = s.localName.text := by
  cases s <;> rfl

/-- An import at the top of a module that is read, with distinct names for its parts: where modules
are required, its code binds all parts that are kept if and only if the variable that holds the
module has not the name of a part that others are taken after. -/
theorem Program.bindsAll_lowerImport_iff {text : String} {file : Nat} {p : Program}
    (h : Grammar.parseModule text file = .ok p) {span : Span} {d : Import}
    (hmem : .import_ span d ∈ p.items) (hd : (d.specifiers.map fun s => s.localName.text).Nodup)
    (ctx : Context) (htypes : d.typeOnly = false)
    (hkept : d.specifiers = [] ∨ keptBindings ctx d ≠ []) {dest : Destination}
    (hdest : dest ≠ .kept) (used : List String) :
    BindsAll ((lowerImport ctx dest d).run used).1 d.source (keptBindings ctx d) ↔
      holderOf d.source (keptBindings ctx d) used ∉
        (localNames (propertiesOf (keptBindings ctx d))).dropLast := by
  have hregular : Regular (d.specifiers.map binding) := Grammar.isWorded_of_parseModule h _ hmem
  have hnames : localNames (d.specifiers.map binding) =
      d.specifiers.map fun s => s.localName.text := by
    rw [localNames, List.map_map]
    exact List.map_congr_left fun s _ => localName_binding s
  have hdistinct : (localNames (keptBindings ctx d)).Nodup :=
    (hnames ▸ hd).sublist ((List.filter_sublist.map binding).map _)
  have hdropped :
      (d.typeOnly || (!d.specifiers.isEmpty && (keptBindings ctx d).isEmpty)) = false := by
    rw [htypes, Bool.false_or]
    rcases hkept with hnone | hsome
    · rw [hnone]
      rfl
    · rw [List.isEmpty_eq_false_iff.2 hsome, Bool.and_false]
  rw [lowerImport, hdropped, if_neg Bool.false_ne_true, if_neg hdest]
  exact bindsAll_requiredBindings_iff hdistinct
    (hasOneWhole_of_pairwise (hregular.kept ctx).order) used

/-- The first of two parts is called like the temporary, so that the second one is taken from it. -/
example : (paths.run ⟨fun _ => none, []⟩
    ((requiredBindings "./a" [.named "b" "a_1", .named "c" "c"]).run []).1).bind (·.values "c") =
      some ["c", "b", "./a"] := by
  decide +kernel

end TypeStrip
