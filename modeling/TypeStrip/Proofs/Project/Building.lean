import TypeStrip.Project.ModuleTree
import TypeStrip.Proofs.Project.Imports

/-!
When a module can be built together with everything that it imports. That is so exactly if every
module that it leads to can be read, parsed and resolved, and does not lead back to itself.
-/
namespace TypeStrip

variable {files : FileTree} {resolve : Resolver} {options : CompilerOptions} {fuel n : Nat}
  {entry path p : ModulePath} {source : String} {program : Program} {fault : LoadFault}

/-! ### A module that is read and parsed -/

namespace FileTree

theorem importNode_of_unreadable (h : files.readModule path = .error fault) :
    files.importNode resolve path = .error fault := by
  rw [importNode, h]
  rfl

theorem importNode_of_unparsable {failure : ParseFailure}
    (hsource : files.readModule path = .ok source)
    (hparse : parseNamed source path.text = .error failure) :
    files.importNode resolve path = .error (.unparsable failure) := by
  rw [importNode, hsource]
  change (scanImports path source >>= _) = _
  rw [scanImports, hparse]
  rfl

theorem importNode_of_parse (hsource : files.readModule path = .ok source)
    (hparse : parseNamed source path.text = .ok program) :
    files.importNode resolve path =
      (program.importSpecifiers.mapM (files.imported resolve path) >>= fun dependencies =>
        .ok ⟨path, program.importSpecifiers, dependencies⟩) := by
  rw [importNode, hsource]
  change (scanImports path source >>= _) = _
  rw [scanImports, hparse]
  rfl

theorem imports_of_parse (hsource : files.readModule path = .ok source)
    (hparse : parseNamed source path.text = .ok program) :
    files.Imports resolve path p ↔
      ∃ specifier ∈ program.importSpecifiers, files.imported resolve path specifier = .ok p := by
  have hscan : scanImports path source = .ok program.importSpecifiers := by
    rw [scanImports, hparse]
  constructor
  · rintro ⟨source', specifiers, hsource', hscan', himported⟩
    cases hsource.symm.trans hsource'
    cases hscan.symm.trans hscan'
    exact himported
  · intro himported
    exact ⟨source, program.importSpecifiers, hsource, hscan, himported⟩

end FileTree

namespace ModuleTree

variable {t : ModuleTree}

def build (files : FileTree) (resolve : Resolver) (options : CompilerOptions) (fuel : Nat)
    (path : ModulePath) : Except LoadFault ModuleTree :=
  load files path options >>= transpileWithin files resolve fuel

theorem build_of_unreadable (h : files.readModule path = .error fault) :
    build files resolve options fuel path = .error fault := by
  rw [build, load, h]
  rfl

theorem build_of_read (h : files.readModule path = .ok source) :
    build files resolve options fuel path =
      transpileWithin files resolve fuel ⟨path, source, options, none, []⟩ := by
  rw [build, load, h]
  rfl

theorem build_zero_ne_ok : build files resolve options 0 path ≠ .ok t := by
  intro h
  obtain ⟨m, -, h⟩ := bind_eq_ok_iff.1 h
  cases h

theorem build_of_unparsable {failure : ParseFailure} (hsource : files.readModule path = .ok source)
    (hparse : parseNamed source path.text = .error failure) :
    build files resolve options (fuel + 1) path = .error (.unparsable failure) := by
  rw [build_of_read hsource, transpileWithin, hparse]

theorem build_of_parse (hsource : files.readModule path = .ok source)
    (hparse : parseNamed source path.text = .ok program) :
    build files resolve options (fuel + 1) path =
      (program.importSpecifiers.mapM
          (loadImport files resolve ⟨path, source, options, none, []⟩) >>= fun loaded =>
        loaded.mapM (transpileWithin files resolve fuel) >>= fun dependencies =>
          .ok ⟨path, source, options, some (program.emit options), dependencies⟩) := by
  rw [build_of_read hsource, transpileWithin, hparse]
  rfl

/-- All imports are found and loaded, and what was loaded is transpiled, exactly if all imports are
found and what they stand for is built. -/
theorem exists_loaded_iff {specifiers : List String} {ts : List ModuleTree} :
    (∃ loaded, specifiers.mapM (loadImport files resolve ⟨path, source, options, none, []⟩) =
        .ok loaded ∧ loaded.mapM (transpileWithin files resolve fuel) = .ok ts) ↔
      ∃ dependencies, specifiers.mapM (files.imported resolve path) = .ok dependencies ∧
        List.Forall₂ (fun d t => build files resolve options fuel d = .ok t) dependencies ts := by
  simp only [mapM_eq_ok_iff, build, loadImport, forall₂_bind_iff]
  constructor
  · rintro ⟨loaded, ⟨dependencies, hfound, hload⟩, hbuilt⟩
    exact ⟨dependencies, hfound, loaded, hload, hbuilt⟩
  · rintro ⟨dependencies, hfound, loaded, hload, hbuilt⟩
    exact ⟨loaded, ⟨dependencies, hfound, hload⟩, hbuilt⟩

/-- A module is built exactly if its node is found and each of its dependencies is built. -/
theorem build_succ_eq_ok_iff :
    build files resolve options (fuel + 1) path = .ok t ↔
      ∃ source program node ts, files.readModule path = .ok source ∧
        parseNamed source path.text = .ok program ∧ files.importNode resolve path = .ok node ∧
        List.Forall₂ (fun d t => build files resolve options fuel d = .ok t)
          node.dependencies ts ∧
        t = ⟨path, source, options, some (program.emit options), ts⟩ := by
  constructor
  · intro h
    cases hsource : files.readModule path with
    | error fault =>
      rw [build_of_unreadable hsource] at h
      cases h
    | ok source =>
      cases hparse : parseNamed source path.text with
      | error failure =>
        rw [build_of_unparsable hsource hparse] at h
        cases h
      | ok program =>
        rw [build_of_parse hsource hparse] at h
        obtain ⟨loaded, hloaded, h⟩ := bind_eq_ok_iff.1 h
        obtain ⟨ts, hts, h⟩ := bind_eq_ok_iff.1 h
        cases h
        obtain ⟨dependencies, hfound, hbuilt⟩ := exists_loaded_iff.1 ⟨loaded, hloaded, hts⟩
        refine ⟨source, program, ⟨path, program.importSpecifiers, dependencies⟩, ts, rfl, hparse,
          ?_, hbuilt, rfl⟩
        rw [FileTree.importNode_of_parse hsource hparse, hfound]
        rfl
  · rintro ⟨source, program, node, ts, hsource, hparse, hnode, hbuilt, rfl⟩
    rw [FileTree.importNode_of_parse hsource hparse] at hnode
    obtain ⟨dependencies, hfound, h⟩ := bind_eq_ok_iff.1 hnode
    cases h
    obtain ⟨loaded, hloaded, hts⟩ := exists_loaded_iff.2 ⟨dependencies, hfound, hbuilt⟩
    rw [build_of_parse hsource hparse]
    exact bind_eq_ok_iff.2 ⟨loaded, hloaded, bind_eq_ok_iff.2 ⟨ts, hts, rfl⟩⟩

/-! ### What is built -/

theorem exists_build_of_imports {a b : ModulePath} (himports : files.Imports resolve a b)
    (h : build files resolve options fuel a = .ok t) :
    ∃ fuel' < fuel, ∃ t', build files resolve options fuel' b = .ok t' := by
  cases fuel with
  | zero => exact absurd h build_zero_ne_ok
  | succ fuel =>
    obtain ⟨source, program, node, ts, -, -, hnode, hbuilt, -⟩ := build_succ_eq_ok_iff.1 h
    obtain ⟨rfl, hnode'⟩ := FileTree.importNode_eq_ok_iff.1 hnode
    obtain ⟨i, hi, rfl⟩ := List.getElem_of_mem (hnode'.imports_iff.1 himports)
    exact ⟨fuel, Nat.lt_succ_self fuel, _, hbuilt.get hi (hbuilt.length_eq ▸ hi)⟩

/-- What a module leads to is built with less fuel. -/
theorem exists_build_of_transGen {a b : ModulePath}
    (hleads : Relation.TransGen (files.Imports resolve) a b)
    (h : build files resolve options fuel a = .ok t) :
    ∃ fuel' < fuel, ∃ t', build files resolve options fuel' b = .ok t' := by
  induction hleads with
  | single himports => exact exists_build_of_imports himports h
  | tail _ himports ih =>
    obtain ⟨fuel', hlt, t', h'⟩ := ih
    obtain ⟨fuel'', hlt', h''⟩ := exists_build_of_imports himports h'
    exact ⟨fuel'', hlt'.trans hlt, h''⟩

theorem exists_build_of_reaches (hreaches : files.Reaches resolve entry p)
    (h : build files resolve options fuel entry = .ok t) :
    ∃ fuel', ∃ t', build files resolve options fuel' p = .ok t' := by
  rcases Relation.reflTransGen_iff_eq_or_transGen.1 hreaches with rfl | hleads
  · exact ⟨fuel, t, h⟩
  · obtain ⟨fuel', -, h'⟩ := exists_build_of_transGen hleads h
    exact ⟨fuel', h'⟩

theorem exists_importNode_of_build (hreaches : files.Reaches resolve entry p)
    (h : build files resolve options fuel entry = .ok t) :
    ∃ node, files.importNode resolve p = .ok node := by
  obtain ⟨fuel', t', h'⟩ := exists_build_of_reaches hreaches h
  cases fuel' with
  | zero => exact absurd h' build_zero_ne_ok
  | succ fuel' =>
    obtain ⟨-, -, node, -, -, -, hnode, -⟩ := build_succ_eq_ok_iff.1 h'
    exact ⟨node, hnode⟩

/-- A module that leads back to itself is never built: it would be built with less and less
fuel. -/
theorem isAcyclicFrom_of_build (h : build files resolve options fuel entry = .ok t) :
    files.IsAcyclicFrom resolve entry := by
  have hnever (fuel : Nat) (p : ModulePath) (hcycle : Relation.TransGen (files.Imports resolve) p p)
      (t : ModuleTree) : build files resolve options fuel p ≠ .ok t := by
    induction fuel using Nat.strong_induction_on generalizing t with
    | h fuel ih =>
      intro h
      obtain ⟨fuel', hlt, t', h'⟩ := exists_build_of_transGen hcycle h
      exact ih fuel' hlt t' h'
  intro p hp hcycle
  obtain ⟨fuel', t', h'⟩ := exists_build_of_reaches hp h
  exact hnever fuel' p hcycle t' h'

/-! ### What is not built -/

/-- If an import of a module is not loaded, it is not found, which its node tells, or stands for a
module that cannot be read. -/
theorem hasFault_of_loadImport (hsource : files.readModule path = .ok source)
    (hparse : parseNamed source path.text = .ok program)
    (h : program.importSpecifiers.mapM
      (loadImport files resolve ⟨path, source, options, none, []⟩) = .error fault) :
    files.HasFault resolve path fault := by
  obtain ⟨before, specifier, after, hsplit, hbefore, h⟩ := mapM_eq_error_iff.1 h
  rcases bind_eq_error_iff.1 h with h | ⟨d, hd, h⟩
  · refine ⟨path, .refl, ?_⟩
    have hfound : ∀ s ∈ before, ∃ d, files.imported resolve path s = .ok d := by
      intro s hs
      obtain ⟨m, hm⟩ := hbefore s hs
      obtain ⟨d, hd, -⟩ := bind_eq_ok_iff.1 hm
      exact ⟨d, hd⟩
    rw [FileTree.importNode_of_parse hsource hparse, bind_eq_error_iff]
    exact .inl (mapM_eq_error_iff.2 ⟨before, specifier, after, hsplit, hfound, h⟩)
  · have himports : files.Imports resolve path d := by
      refine (FileTree.imports_of_parse hsource hparse).2 ⟨specifier, ?_, hd⟩
      rw [hsplit]
      exact List.mem_append_right before List.mem_cons_self
    rcases bind_eq_error_iff.1 h with h | ⟨source, -, h⟩
    · exact ⟨d, .single himports, FileTree.importNode_of_unreadable h⟩
    · cases h

/-- Without cycles, a module that is not built leads to one that cannot be read, parsed or
resolved. The fuel lasts, since no trail of imports is longer than there are files. -/
theorem hasFault_of_build (hacyclic : files.IsAcyclicFrom resolve entry)
    (hentry : entry.IsNormal) (hresolve : resolve.IsNormal)
    (hleads : files.LeadsIn resolve entry n path) (hfuel : files.fileCount < fuel + n)
    (h : build files resolve options fuel path = .error fault) :
    files.HasFault resolve path fault := by
  induction fuel generalizing path n with
  | zero =>
    have hle := hleads.le_fileCount hacyclic hentry hresolve
    omega
  | succ fuel ih =>
    cases hsource : files.readModule path with
    | error fault' =>
      rw [build_of_unreadable hsource] at h
      cases h
      exact ⟨path, .refl, FileTree.importNode_of_unreadable hsource⟩
    | ok source =>
      cases hparse : parseNamed source path.text with
      | error failure =>
        rw [build_of_unparsable hsource hparse] at h
        cases h
        exact ⟨path, .refl, FileTree.importNode_of_unparsable hsource hparse⟩
      | ok program =>
        rw [build_of_parse hsource hparse] at h
        rcases bind_eq_error_iff.1 h with h | ⟨loaded, hloaded, h⟩
        · exact hasFault_of_loadImport hsource hparse h
        · rcases bind_eq_error_iff.1 h with h | ⟨ts, -, h⟩
          · obtain ⟨before, m, after, rfl, -, h⟩ := mapM_eq_error_iff.1 h
            obtain ⟨specifier, hspecifier, hm⟩ :=
              (mem_iff_of_forall₂ (mapM_eq_ok_iff.1 hloaded)).1
                (List.mem_append_right before List.mem_cons_self)
            obtain ⟨d, hd, hm⟩ := bind_eq_ok_iff.1 hm
            have himports : files.Imports resolve path d :=
              (FileTree.imports_of_parse hsource hparse).2 ⟨specifier, hspecifier, hd⟩
            obtain ⟨p, hp, hnode⟩ := ih (hleads.next himports) (by omega)
              (bind_eq_error_iff.2 (.inr ⟨m, hm, h⟩))
            exact ⟨p, hp.head himports, hnode⟩
          · cases h

/-! ### The bound -/

/-- What is built with some fuel is built with more. -/
theorem build_of_le {fuel' : Nat} (hle : fuel ≤ fuel')
    (h : build files resolve options fuel path = .ok t) :
    build files resolve options fuel' path = .ok t := by
  induction fuel generalizing path t fuel' with
  | zero => exact absurd h build_zero_ne_ok
  | succ fuel ih =>
    obtain ⟨fuel', rfl⟩ := Nat.exists_eq_add_of_lt hle
    obtain ⟨source, program, node, ts, hsource, hparse, hnode, hbuilt, rfl⟩ :=
      build_succ_eq_ok_iff.1 h
    refine build_succ_eq_ok_iff.2 ⟨source, program, node, ts, hsource, hparse, hnode, ?_, rfl⟩
    exact hbuilt.imp fun d t' ht' => ih (by omega) ht'

/-- The bound hides nothing: what is built with any fuel is built with it. -/
theorem exists_build_iff_trailBound (hentry : entry.IsNormal) (hresolve : resolve.IsNormal) :
    (∃ fuel, build files resolve options fuel entry = .ok t) ↔
      build files resolve options (trailBound files) entry = .ok t := by
  refine ⟨fun ⟨fuel, h⟩ => ?_, fun h => ⟨_, h⟩⟩
  cases hbound : build files resolve options (trailBound files) entry with
  | error fault =>
    obtain ⟨p, hp, himport⟩ := hasFault_of_build (isAcyclicFrom_of_build h) hentry hresolve
      .here (Nat.lt_succ_self _) hbound
    obtain ⟨node, hnode⟩ := exists_importNode_of_build hp h
    cases himport.symm.trans hnode
  | ok t' =>
    have hmore := build_of_le (Nat.le_max_left fuel (trailBound files)) h
    rw [build_of_le (Nat.le_max_right fuel (trailBound files)) hbound] at hmore
    exact hmore

end ModuleTree

end TypeStrip
