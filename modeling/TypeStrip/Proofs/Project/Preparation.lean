import TypeStrip.Project.Basic
import TypeStrip.Proofs.Project.Unfolding

/-!
What the check for cycles changes where there are none. It looks at the modules nearest first, and
without it they are built depth first: only which of several faults is met can differ.
-/
namespace TypeStrip.Project

variable {files : FileTree} {project : Project} {entry : String} {path : ModulePath}
  {fault : LoadFault}

theorem isNormal_entryFile (h : project.entryFile files entry = .ok path) : path.IsNormal :=
  FileTree.isNormal_moduleFile (ModulePath.isNormal_join _ _) h

/-- An entry with a recognized extension stands for itself. -/
theorem entryFile_of_isRecognized (hpath : project.root.join entry = path)
    (hrecognized : path.isRecognized = true) : project.entryFile files entry = .ok path := by
  rw [entryFile, FileTree.moduleFile, hpath, hrecognized, if_pos rfl]

/-- The project with or without the check for cycles. -/
def checking (project : Project) (check : Bool) : Project :=
  { project with config := { project.config with detectCycles := check } }

theorem prepare_of_no_entry {check : Bool} (h : project.entryFile files entry = .error fault) :
    (project.checking check).prepare files entry = .error fault := by
  rw [prepare]
  change (project.entryFile files entry >>= _) = _
  rw [h]
  rfl

theorem prepare_unchecked (h : project.entryFile files entry = .ok path) :
    (project.checking false).prepare files entry =
      ModuleTree.build files project.resolve project.config.options
        (ModuleTree.trailBound files) path := by
  rw [prepare]
  change (project.entryFile files entry >>= _) = _
  rw [h]
  rfl

theorem prepare_checked (h : project.entryFile files entry = .ok path) :
    (project.checking true).prepare files entry =
      (ImportGraph.discover files project.resolve path >>= fun g =>
        checkAcyclic g >>= fun _ =>
          ModuleTree.build files project.resolve project.config.options
            (ModuleTree.trailBound files) path) := by
  rw [prepare]
  change (project.entryFile files entry >>= _) = _
  rw [h]
  rfl

/-- Without cycles, the check makes no difference to a project that is prepared, and one that is
not fails with a fault in reach of the entry both times. -/
theorem prepare_ok_or_error (hresolve : project.resolve.IsNormal)
    (hpath : project.entryFile files entry = .ok path)
    (hacyclic : files.IsAcyclicFrom project.resolve path) :
    (∃ t, (project.checking true).prepare files entry = .ok t ∧
        (project.checking false).prepare files entry = .ok t) ∨
      ∃ checked unchecked, (project.checking true).prepare files entry = .error checked ∧
        (project.checking false).prepare files entry = .error unchecked ∧
        files.HasFault project.resolve path checked ∧
        files.HasFault project.resolve path unchecked := by
  have hnormal := isNormal_entryFile hpath
  rw [prepare_checked hpath, prepare_unchecked hpath]
  cases hbuild : ModuleTree.build files project.resolve project.config.options
      (ModuleTree.trailBound files) path with
  | ok t =>
    obtain ⟨g, hg, hcycle⟩ := (ModuleTree.exists_build_iff hnormal hresolve).1 ⟨t, hbuild⟩
    have hcheck : checkAcyclic g = .ok () := by rw [checkAcyclic, hcycle]
    exact .inl ⟨t, bind_eq_ok_iff.2 ⟨g, hg, bind_eq_ok_iff.2 ⟨(), hcheck, rfl⟩⟩, rfl⟩
  | error unchecked =>
    have hunchecked := ModuleTree.hasFault_of_build hacyclic hnormal hresolve .here
      (Nat.lt_succ_self _) hbuild
    cases hg : ImportGraph.discover files project.resolve path with
    | ok g =>
      have hclosure := ImportGraph.isClosure_of_discover hnormal hresolve hg
      obtain ⟨t, ht⟩ := (ModuleTree.exists_build_iff hnormal hresolve).2
        ⟨g, hg, hclosure.cycle?_eq_none_iff.2 hacyclic⟩
      cases hbuild.symm.trans ht
    | error checked =>
      have hchecked := ImportGraph.hasFault_of_discover hnormal hresolve hg
      exact .inr ⟨checked, unchecked, rfl, rfl, hchecked, hunchecked⟩

/-- Without cycles, a project is prepared with the check exactly if it is without, and to the same
tree. What it fails with is a fault in reach of the entry, and the same with the check and without
if there are no two. -/
theorem prepare_checking (files : FileTree) (project : Project) (entry : String)
    (hresolve : project.resolve.IsNormal)
    (hacyclic : ∀ path, project.entryFile files entry = .ok path →
      files.IsAcyclicFrom project.resolve path) :
    (∀ t, (project.checking true).prepare files entry = .ok t ↔
        (project.checking false).prepare files entry = .ok t) ∧
      (∀ check fault, (project.checking check).prepare files entry = .error fault →
        project.entryFile files entry = .error fault ∨
          ∃ path, project.entryFile files entry = .ok path ∧
            files.HasFault project.resolve path fault) ∧
      ((∀ path fault fault', project.entryFile files entry = .ok path →
          files.HasFault project.resolve path fault → files.HasFault project.resolve path fault' →
          fault = fault') →
        (project.checking true).prepare files entry =
          (project.checking false).prepare files entry) := by
  cases hpath : project.entryFile files entry with
  | error fault =>
    refine ⟨fun t => ?_, fun check fault' h => .inl ?_, fun _ => ?_⟩
    · rw [prepare_of_no_entry hpath, prepare_of_no_entry hpath]
    · rw [prepare_of_no_entry hpath] at h
      cases h
      rfl
    · rw [prepare_of_no_entry hpath, prepare_of_no_entry hpath]
  | ok path =>
    rcases prepare_ok_or_error hresolve hpath (hacyclic path hpath) with
      ⟨t, hchecked, hunchecked⟩ | ⟨checked, unchecked, hchecked, hunchecked, hfault, hfault'⟩
    · refine ⟨fun t' => by rw [hchecked, hunchecked], fun check fault h => ?_, fun _ => ?_⟩
      · cases check with
        | true => cases hchecked.symm.trans h
        | false => cases hunchecked.symm.trans h
      · rw [hchecked, hunchecked]
    · refine ⟨fun t' => ?_, fun check fault h => .inr ⟨path, rfl, ?_⟩, fun hsame => ?_⟩
      · rw [hchecked, hunchecked]
        exact iff_of_false nofun nofun
      · cases check with
        | true =>
          cases hchecked.symm.trans h
          exact hfault
        | false =>
          cases hunchecked.symm.trans h
          exact hfault'
      · rw [hchecked, hunchecked, hsame path checked unchecked rfl hfault hfault']

theorem prepare_checking_shared :
    let files : FileTree := ⟨[
      (["main.ts"], .file (some "import './a.ts'; import './b.ts'")),
      (["a.ts"], .file (some "import './b.ts'")), (["b.ts"], .file (some "f()"))]⟩
    let project : Project := ⟨⟨[]⟩, .onDisk none, {}⟩
    ∃ path t, project.resolve.IsNormal ∧ project.entryFile files "main.ts" = .ok path ∧
      files.IsAcyclicFrom project.resolve path ∧
      (project.checking false).prepare files "main.ts" = .ok t ∧
      (project.checking true).prepare files "main.ts" = .ok t := by
  intro files project
  have hresolve : project.resolve.IsNormal := Resolver.isNormal_onDisk none
  have hpath : project.entryFile files "main.ts" = .ok ⟨["main.ts"]⟩ :=
    entryFile_of_isRecognized (by decide +kernel) (by decide +kernel)
  have hacyclic : files.IsAcyclicFrom project.resolve ⟨["main.ts"]⟩ :=
    FileTree.isAcyclicFrom_of_rank [⟨["main.ts"]⟩, ⟨["a.ts"]⟩, ⟨["b.ts"]⟩]
      (fun p => if p = ⟨["main.ts"]⟩ then 2 else if p = ⟨["a.ts"]⟩ then 1 else 0)
      (by decide) (by decide +kernel)
  have hok : ((project.checking false).prepare files "main.ts").isOk = true := by decide +kernel
  obtain ⟨hiff, -, -⟩ := prepare_checking files project "main.ts" hresolve fun path h => by
    cases hpath.symm.trans h
    exact hacyclic
  cases h : (project.checking false).prepare files "main.ts" with
  | error fault =>
    rw [h] at hok
    cases hok
  | ok t => exact ⟨⟨["main.ts"]⟩, t, hresolve, hpath, hacyclic, rfl, (hiff t).2 h⟩

/-- Where one module with a fault is nearer and another one is met first depth first, the check
decides which fault it is. -/
theorem prepare_checking_two_faults :
    let files : FileTree := ⟨[
      (["main.ts"], .file (some "import './a.ts'; import './b.ts'")),
      (["a.ts"], .file (some "import './c.ts'")), (["b.ts"], .file (some "(")),
      (["c.ts"], .file (some ")"))]⟩
    let project : Project := ⟨⟨[]⟩, .onDisk none, {}⟩
    ∃ path, project.resolve.IsNormal ∧ project.entryFile files "main.ts" = .ok path ∧
      files.IsAcyclicFrom project.resolve path ∧
      (project.checking true).prepare files "main.ts" ≠
        (project.checking false).prepare files "main.ts" := by
  intro files project
  let wording (outcome : Except LoadFault ModuleTree) : Except String Unit :=
    (outcome.mapError LoadFault.message).map fun _ => ()
  have hchecked : wording ((project.checking true).prepare files "main.ts") =
      .error "failed to parse /b.ts: Parse error at 1..1: Unexpected token: Eof" := by
    decide +kernel
  have hunchecked : wording ((project.checking false).prepare files "main.ts") =
      .error "failed to parse /c.ts: Parse error at 0..1: Unexpected token: RParen" := by
    decide +kernel
  refine ⟨⟨["main.ts"]⟩, Resolver.isNormal_onDisk none,
    entryFile_of_isRecognized (by decide +kernel) (by decide +kernel), ?_, fun heq => ?_⟩
  · exact FileTree.isAcyclicFrom_of_rank [⟨["main.ts"]⟩, ⟨["a.ts"]⟩, ⟨["b.ts"]⟩, ⟨["c.ts"]⟩]
      (fun p => if p = ⟨["main.ts"]⟩ then 2 else if p = ⟨["c.ts"]⟩ then 0 else 1)
      (by decide) (by decide +kernel)
  · rw [heq, hunchecked] at hchecked
    exact absurd hchecked (by decide)

end TypeStrip.Project
