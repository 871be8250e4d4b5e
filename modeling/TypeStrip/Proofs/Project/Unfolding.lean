import Mathlib.Data.Set.Card
import TypeStrip.Proofs.Project.Building
import TypeStrip.Proofs.Project.Discovery

/-!
The tree of a module is the unfolding of the graph of its imports: a place for every trail of
imports from it.
-/
namespace TypeStrip

/-! ### Places -/

namespace ModuleTree

/-- The module at an address: which import is taken, and which one there, and so on. -/
def at? (m : ModuleTree) : List Nat → Option ModuleTree
  | [] => some m
  | i :: address => m.dependencies[i]?.bind fun d => d.at? address

def addresses (m : ModuleTree) : Set (List Nat) := {address | (m.at? address).isSome}

/-- The addresses in several trees, each after the number of its tree. -/
def addressesAll (ms : List ModuleTree) : Set (List Nat) :=
  {address | ∃ i rest m, address = i :: rest ∧ ms[i]? = some m ∧ rest ∈ m.addresses}

theorem addresses_eq (m : ModuleTree) :
    m.addresses = insert [] (addressesAll m.dependencies) := by
  ext address
  cases address with
  | nil => exact iff_of_true rfl (Set.mem_insert _ _)
  | cons i rest =>
    rw [Set.mem_insert_iff, or_iff_right (List.cons_ne_nil i rest)]
    change ((m.dependencies[i]?.bind fun d => d.at? rest).isSome = true) ↔ _
    constructor
    · intro h
      obtain ⟨d, hd⟩ := Option.isSome_iff_exists.1 (Option.isSome_of_isSome_bind h)
      rw [hd] at h
      exact ⟨i, rest, d, rfl, hd, h⟩
    · rintro ⟨i', rest', d, heq, hd, h⟩
      cases heq
      rw [hd]
      exact h

def shift : List Nat → List Nat := List.modifyHead (· + 1)

theorem addressesAll_cons (m : ModuleTree) (ms : List ModuleTree) :
    addressesAll (m :: ms) = List.cons 0 '' m.addresses ∪ shift '' addressesAll ms := by
  ext address
  constructor
  · rintro ⟨i, rest, d, rfl, hd, h⟩
    cases i with
    | zero =>
      cases hd
      exact .inl ⟨rest, h, rfl⟩
    | succ i => exact .inr ⟨i :: rest, ⟨i, rest, d, rfl, hd, h⟩, rfl⟩
  · rintro (⟨rest, h, rfl⟩ | ⟨-, ⟨i, rest, d, rfl, hd, h⟩, rfl⟩)
    · exact ⟨0, rest, m, rfl, rfl, h⟩
    · exact ⟨i + 1, rest, d, rfl, hd, h⟩

theorem shift_injective : Function.Injective shift := by
  intro a b h
  cases a <;> cases b <;> simp_all [shift]

mutual

/-- A tree has as many addresses as modules. -/
theorem encard_addresses (m : ModuleTree) : m.addresses.encard = m.size := by
  match m with
  | ⟨_, _, _, _, dependencies⟩ =>
    have hnil : ([] : List Nat) ∉ addressesAll dependencies := by
      rintro ⟨i, rest, d, h, -⟩
      cases h
    rw [addresses_eq, Set.encard_insert_of_notMem hnil, encard_addressesAll, size, add_comm]
    rfl

theorem encard_addressesAll (ms : List ModuleTree) : (addressesAll ms).encard = sizeAll ms := by
  match ms with
  | [] =>
    have hnone : addressesAll [] = ∅ := by
      refine Set.eq_empty_of_forall_notMem ?_
      rintro - ⟨i, rest, d, -, h, -⟩
      cases h
    rw [hnone, Set.encard_empty]
    rfl
  | m :: ms =>
    have hdisjoint : Disjoint (List.cons 0 '' m.addresses) (shift '' addressesAll ms) := by
      refine Set.disjoint_left.2 ?_
      rintro - ⟨rest, -, rfl⟩ ⟨-, ⟨i, rest', d, rfl, -⟩, h⟩
      cases h
    rw [addressesAll_cons, Set.encard_union_eq hdisjoint, shift_injective.encard_image,
      (List.cons_injective).encard_image, encard_addresses, encard_addressesAll, sizeAll]
    rfl

end

end ModuleTree

namespace ImportGraph

variable {g : ImportGraph}

def follow (g : ImportGraph) (path : ModulePath) : List Nat → Option ModulePath
  | [] => some path
  | i :: address => (g.dependencies path)[i]?.bind fun d => g.follow d address

/-- The trails of imports from a module. -/
def unfolding (g : ImportGraph) (path : ModulePath) : Set (List Nat) :=
  {address | (g.follow path address).isSome}

/-- A tree in which every module has the dependencies that the graph has for it, so that it has a
place for every trail of imports from the entry. -/
structure IsUnfolding (g : ImportGraph) (entry : ModulePath) (t : ModuleTree) : Prop where
  dependencies : ∀ address m, t.at? address = some m →
    (g.find? m.path).map ImportNode.dependencies = some (m.dependencies.map ModuleTree.path)
  places : ∀ address, (t.at? address).map ModuleTree.path = g.follow entry address
  size : (g.unfolding entry).encard = t.size

/-- The dependencies of each module in a tree determine all places. -/
theorem follow_eq_of_dependencies {t : ModuleTree}
    (h : ∀ address m, t.at? address = some m →
      g.dependencies m.path = m.dependencies.map ModuleTree.path) (address : List Nat) :
    (t.at? address).map ModuleTree.path = g.follow t.path address := by
  induction address generalizing t with
  | nil => rfl
  | cons i address ih =>
    rw [follow, h [] t rfl, List.getElem?_map, ModuleTree.at?]
    cases hd : t.dependencies[i]? with
    | none => rfl
    | some d =>
      refine ih fun rest m hm => h (i :: rest) m ?_
      rw [ModuleTree.at?, hd]
      exact hm

theorem isUnfolding_of_dependencies {t : ModuleTree}
    (h : ∀ address m, t.at? address = some m →
      (g.find? m.path).map ImportNode.dependencies = some (m.dependencies.map ModuleTree.path)) :
    g.IsUnfolding t.path t := by
  have hplaces := follow_eq_of_dependencies fun address m hm => by
    rw [dependencies, h address m hm]
    rfl
  refine ⟨h, hplaces, ?_⟩
  rw [← ModuleTree.encard_addresses]
  congr 1
  ext address
  change (g.follow t.path address).isSome = true ↔ (t.at? address).isSome = true
  rw [← hplaces, Option.isSome_map]

end ImportGraph

/-! ### Trees that are built -/

namespace ModuleTree

variable {files : FileTree} {resolve : Resolver} {options : CompilerOptions} {fuel : Nat}
  {entry path : ModulePath} {t : ModuleTree}

theorem path_of_build (h : build files resolve options fuel path = .ok t) : t.path = path := by
  cases fuel with
  | zero => exact absurd h build_zero_ne_ok
  | succ fuel =>
    obtain ⟨source, program, node, ts, -, -, -, -, rfl⟩ := build_succ_eq_ok_iff.1 h
    rfl

/-- A tree has one dependency for each of those that the node of its module has. -/
theorem dependencies_of_build (h : build files resolve options fuel path = .ok t) :
    ∃ node, files.importNode resolve path = .ok node ∧
      node.dependencies = t.dependencies.map ModuleTree.path := by
  cases fuel with
  | zero => exact absurd h build_zero_ne_ok
  | succ fuel =>
    obtain ⟨source, program, node, ts, -, -, hnode, hbuilt, rfl⟩ := build_succ_eq_ok_iff.1 h
    have hpaths := hbuilt.imp fun d t' ht' => (path_of_build ht').symm
    rw [← List.forall₂_map_right_iff (R := Eq), List.forall₂_eq_eq_eq] at hpaths
    exact ⟨node, hnode, hpaths⟩

/-- Every module in a tree that is built is built itself. -/
theorem exists_build_of_at? {address : List Nat} {m : ModuleTree}
    (h : build files resolve options fuel path = .ok t) (hm : t.at? address = some m) :
    files.Reaches resolve path m.path ∧
      ∃ fuel', build files resolve options fuel' m.path = .ok m := by
  induction address generalizing fuel path t with
  | nil =>
    cases hm
    rw [path_of_build h]
    exact ⟨.refl, fuel, h⟩
  | cons i address ih =>
    obtain ⟨d, hd, hm⟩ := Option.bind_eq_some_iff.1 hm
    cases fuel with
    | zero => exact absurd h build_zero_ne_ok
    | succ fuel =>
      obtain ⟨source, program, node, ts, -, -, hnode, hbuilt, rfl⟩ := build_succ_eq_ok_iff.1 h
      obtain ⟨hi, rfl⟩ := List.getElem?_eq_some_iff.1 hd
      have hi' : i < node.dependencies.length := hbuilt.length_eq ▸ hi
      obtain ⟨rfl, hnode'⟩ := FileTree.importNode_eq_ok_iff.1 hnode
      obtain ⟨hreaches, hbuild⟩ := ih (hbuilt.get hi' hi) hm
      exact ⟨hreaches.head (hnode'.imports_iff.2 (List.get_mem _ _)), hbuild⟩

theorem isUnfolding_of_build {g : ImportGraph} (hclosure : g.IsClosure files resolve entry)
    (h : build files resolve options fuel entry = .ok t) : g.IsUnfolding entry t := by
  rw [← path_of_build h]
  refine ImportGraph.isUnfolding_of_dependencies fun address m hm => ?_
  obtain ⟨hreaches, fuel', hbuild⟩ := exists_build_of_at? h hm
  obtain ⟨node, hfind, himport⟩ := hclosure.exists_node hreaches
  obtain ⟨node', himport', hdependencies⟩ := dependencies_of_build hbuild
  cases himport.symm.trans himport'
  rw [hfind, Option.map_some, hdependencies]

/-- A module is built exactly if its imports are discovered and have no cycle. -/
theorem exists_build_iff (hentry : entry.IsNormal) (hresolve : resolve.IsNormal) :
    (∃ t, build files resolve options (trailBound files) entry = .ok t) ↔
      ∃ g, ImportGraph.discover files resolve entry = .ok g ∧ g.cycle? = none := by
  constructor
  · rintro ⟨t, h⟩
    cases hg : ImportGraph.discover files resolve entry with
    | error fault =>
      obtain ⟨p, hp, himport⟩ := ImportGraph.hasFault_of_discover hentry hresolve hg
      obtain ⟨node, hnode⟩ := exists_importNode_of_build hp h
      cases himport.symm.trans hnode
    | ok g =>
      have hclosure := ImportGraph.isClosure_of_discover hentry hresolve hg
      exact ⟨g, rfl, hclosure.cycle?_eq_none_iff.2 (isAcyclicFrom_of_build h)⟩
  · rintro ⟨g, hg, hcycle⟩
    have hclosure := ImportGraph.isClosure_of_discover hentry hresolve hg
    cases h : build files resolve options (trailBound files) entry with
    | error fault =>
      obtain ⟨p, hp, himport⟩ := hasFault_of_build (hclosure.cycle?_eq_none_iff.1 hcycle)
        hentry hresolve .here (Nat.lt_succ_self _) h
      obtain ⟨node, -, hnode⟩ := hclosure.exists_node hp
      cases himport.symm.trans hnode
    | ok t => exact ⟨t, rfl⟩

/-- Loading a module and transpiling it succeeds exactly if its imports are discovered and have no
cycle, whatever the bound on trails. The tree is then the unfolding of the graph. -/
theorem transpile_unfolds (files : FileTree) (resolve : Resolver) (options : CompilerOptions)
    (entry : ModulePath) (hentry : entry.IsNormal) (hresolve : resolve.IsNormal) :
    ((∃ t, load files entry options >>= transpile files resolve = .ok t) ↔
        ∃ g, ImportGraph.discover files resolve entry = .ok g ∧ g.cycle? = none) ∧
      (∀ fuel t, load files entry options >>= transpileWithin files resolve fuel = .ok t →
        load files entry options >>= transpile files resolve = .ok t) ∧
      ∀ t g, load files entry options >>= transpile files resolve = .ok t →
        ImportGraph.discover files resolve entry = .ok g → g.IsUnfolding entry t := by
  refine ⟨exists_build_iff hentry hresolve, fun fuel t h => ?_, fun t g ht hg => ?_⟩
  · exact (exists_build_iff_trailBound hentry hresolve).1 ⟨fuel, h⟩
  · exact isUnfolding_of_build (ImportGraph.isClosure_of_discover hentry hresolve hg) ht

theorem transpile_unfolds_twice :
    let main : ModulePath := ⟨["main.ts"]⟩
    let files : FileTree :=
      ⟨[(["main.ts"], .file (some "import 'a'; import 'a'")), (["a.ts"], .file (some "f()"))]⟩
    let table : ResolverTable := ⟨[((none, "a"), ⟨["a"]⟩)]⟩
    main.IsNormal ∧ table.resolver.IsNormal ∧
      ∃ t g, load files main {} >>= transpile files table.resolver = .ok t ∧
        ImportGraph.discover files table.resolver main = .ok g ∧ g.IsUnfolding main t ∧
        t.size = 3 := by
  intro main files table
  have hmain : main.IsNormal := by decide
  have hresolve : table.resolver.IsNormal := ResolverTable.isNormal_resolver (by decide)
  obtain ⟨hiff, -, hunfolds⟩ := transpile_unfolds files table.resolver {} main hmain hresolve
  have hsize : (load files main {} >>= transpile files table.resolver).toOption.map size =
      some 3 := by decide +kernel
  cases ht : load files main {} >>= transpile files table.resolver with
  | error fault =>
    rw [ht] at hsize
    cases hsize
  | ok t =>
    rw [ht] at hsize
    obtain ⟨g, hg, -⟩ := hiff.1 ⟨t, ht⟩
    exact ⟨hmain, hresolve, t, g, rfl, hg, hunfolds t g ht hg, Option.some.inj hsize⟩

end ModuleTree

end TypeStrip
