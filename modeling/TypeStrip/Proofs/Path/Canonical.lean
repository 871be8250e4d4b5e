import Mathlib.Data.List.Induction
import Mathlib.Data.List.Nodup
import Mathlib.Logic.Relation
import TypeStrip.Proofs.Path.Normal
import TypeStrip.Proofs.Project.Resolution

/-!
Simplified paths as the identity of modules: a path is the one that its own text leads to, two texts
lead to one path exactly if they are spellings of each other, and it makes no difference whether a
path is simplified before something is looked up from it.
-/
namespace TypeStrip

/-! ### Texts and their parts -/

namespace Text

theorem slashParts_of_notMem {part : List Char} (h : '/' ∉ part) : slashParts part = [part] := by
  induction part with
  | nil => rfl
  | cons c cs ih =>
    obtain ⟨hc, hcs⟩ := not_or.1 (mt List.mem_cons.2 h)
    rw [slashParts, if_neg (Ne.symm hc), ih hcs]

theorem slashParts_append_slash {part : List Char} (h : '/' ∉ part) (rest : List Char) :
    slashParts (part ++ '/' :: rest) = part :: slashParts rest := by
  induction part with
  | nil => rw [List.nil_append, slashParts, if_pos rfl]
  | cons c cs ih =>
    obtain ⟨hc, hcs⟩ := not_or.1 (mt List.mem_cons.2 h)
    rw [List.cons_append, slashParts, if_neg (Ne.symm hc), ih hcs]

/-- Parts without slashes are found again between the slashes that join them. -/
theorem slashParts_intercalate {parts : List (List Char)} (hne : parts ≠ [])
    (h : ∀ part ∈ parts, '/' ∉ part) : slashParts (['/'].intercalate parts) = parts := by
  induction parts with
  | nil => exact absurd rfl hne
  | cons part parts ih =>
    obtain ⟨hpart, hparts⟩ := List.forall_mem_cons.1 h
    cases parts with
    | nil => rw [List.intercalate_singleton, slashParts_of_notMem hpart]
    | cons next parts =>
      rw [List.intercalate_cons_cons, List.append_assoc, List.singleton_append,
        slashParts_append_slash hpart, ih (List.cons_ne_nil _ _) hparts]

theorem slash_notMem_of_mem_slashParts (cs : List Char) : ∀ part ∈ slashParts cs, '/' ∉ part := by
  induction cs with
  | nil => exact List.forall_mem_singleton.2 List.not_mem_nil
  | cons c cs ih =>
    rw [slashParts]
    split
    · exact List.forall_mem_cons.2 ⟨List.not_mem_nil, ih⟩
    · rename_i hc
      split
      · rename_i part parts hparts
        rw [hparts] at ih
        obtain ⟨hpart, hrest⟩ := List.forall_mem_cons.1 ih
        exact List.forall_mem_cons.2 ⟨mt List.mem_cons.1 (not_or.2 ⟨Ne.symm hc, hpart⟩), hrest⟩
      · exact List.forall_mem_singleton.2 (mt List.mem_singleton.1 (Ne.symm hc))

end Text

namespace WrittenPath

/-- A text that can stand between two slashes. -/
def IsPart (part : String) : Prop := '/' ∉ part.toList

instance (part : String) : Decidable (IsPart part) :=
  inferInstanceAs (Decidable ('/' ∉ part.toList))

theorem isPart_of_mem_partsOf {s part : String} (h : part ∈ partsOf s) : IsPart part := by
  obtain ⟨cs, hcs, rfl⟩ := List.mem_map.1 h
  rw [IsPart, String.toList_ofList]
  exact Text.slash_notMem_of_mem_slashParts _ cs hcs

theorem isPart_of_mem_ofText {s part : String} (h : part ∈ (ofText s).parts) : IsPart part := by
  unfold ofText at h
  dsimp only at h
  split at h
  · exact isPart_of_mem_partsOf (List.mem_of_mem_tail h)
  · exact isPart_of_mem_partsOf h

theorem toList_text (p : WrittenPath) :
    p.text.toList = '/' :: ['/'].intercalate (p.parts.map String.toList) := by
  rw [text, String.toList_append, String.toList_intercalate]
  rfl

theorem isAbsolute_text (p : WrittenPath) : isAbsolute p.text = true := by
  rw [isAbsolute, toList_text]
  rfl

/-- A path is read back from its text. The root is read as a path with one empty part. -/
theorem ofText_text {p : WrittenPath} (h : ∀ part ∈ p.parts, IsPart part) :
    ofText p.text = if p.parts = [] then ⟨[""]⟩ else p := by
  rw [ofText, if_pos p.isAbsolute_text, partsOf, toList_text, Text.slashParts, if_pos rfl]
  obtain ⟨parts⟩ := p
  split
  · next hnil =>
    dsimp only at hnil
    rw [hnil]
    rfl
  · next hne =>
    have hslash : ∀ part ∈ parts.map String.toList, '/' ∉ part := by
      rw [List.forall_mem_map]
      exact h
    rw [Text.slashParts_intercalate (mt List.map_eq_nil_iff.1 hne) hslash, List.map_cons,
      List.tail_cons, List.map_map]
    simp

end WrittenPath

open WrittenPath (isName IsPart step_of_isName)

namespace ModulePath

variable {p q : ModulePath}

/-! ### Paths that are simplified part by part -/

theorem ofWritten_append (p : WrittenPath) (parts : List String) :
    ofWritten ⟨p.parts ++ parts⟩ = ⟨parts.foldl step (ofWritten p).segments⟩ := by
  rw [ofWritten, ofParts, List.foldl_append]
  rfl

theorem foldl_step_of_isName {parts : List String} (h : ∀ part ∈ parts, isName part = true)
    (segments : List String) : parts.foldl step segments = segments ++ parts := by
  induction parts generalizing segments with
  | nil => exact (List.append_nil segments).symm
  | cons part parts ih =>
    obtain ⟨hpart, hparts⟩ := List.forall_mem_cons.1 h
    rw [List.foldl_cons, step_of_isName hpart, ih hparts, List.append_assoc, List.singleton_append]

/-- There is nothing left to simplify in a path of names. -/
theorem IsNormal.ofWritten_written (h : p.IsNormal) : ofWritten p.written = p := by
  have hparts : ∀ part ∈ p.written.parts, isName part = true := h
  rw [ofWritten, ofParts, foldl_step_of_isName hparts, List.nil_append]
  rfl

/-- Parts are never made up. -/
theorem mem_of_mem_step {segments : List String} {part name : String}
    (h : name ∈ step segments part) : name ∈ segments ∨ name = part := by
  unfold step at h
  split at h
  · exact .inl h
  · split at h
    · exact .inl (List.dropLast_subset _ h)
    · exact (List.mem_append.1 h).imp_right List.mem_singleton.1

theorem mem_parts_of_mem_segments {w : WrittenPath} {name : String}
    (h : name ∈ (ofWritten w).segments) : name ∈ w.parts := by
  have hfold : ∀ segments : List String, name ∈ w.parts.foldl step segments →
      name ∈ segments ∨ name ∈ w.parts := by
    induction w.parts with
    | nil => exact fun segments hmem => .inl hmem
    | cons part parts ih =>
      intro segments hmem
      rcases ih _ hmem with hstep | hrest
      · exact (mem_of_mem_step hstep).imp_right fun e => List.mem_cons.2 (.inl e)
      · exact .inr (List.mem_cons_of_mem _ hrest)
  exact (hfold [] h).resolve_left List.not_mem_nil

/-- What a relative text leads to depends on the simplified directory only. -/
theorem ofWritten_join {w : WrittenPath} {s : String} (h : WrittenPath.isAbsolute s = false) :
    ofWritten (w.join s) = ⟨(WrittenPath.partsOf s).foldl step (ofWritten w).segments⟩ := by
  rw [WrittenPath.join, h, if_neg Bool.false_ne_true]
  dsimp only
  split
  · next hlast =>
    -- The empty part after a slash at the end stays in place.
    obtain ⟨init, hparts⟩ := List.getLast?_eq_some_iff.1 hlast
    have hsame : ofWritten w = ofWritten ⟨init⟩ := by
      rw [ofWritten, ofWritten, ofParts, hparts, List.foldl_concat]
      rfl
    rw [hparts, List.dropLast_concat, hsame]
    exact ofWritten_append ⟨init⟩ _
  · exact ofWritten_append w _

theorem ofWritten_join_congr {v w : WrittenPath} (h : ofWritten v = ofWritten w) (s : String) :
    ofWritten (v.join s) = ofWritten (w.join s) := by
  cases hs : WrittenPath.isAbsolute s with
  | true => rw [WrittenPath.join, WrittenPath.join, hs, if_pos rfl, if_pos rfl]
  | false => rw [ofWritten_join hs, ofWritten_join hs, h]

/-! ### Canonical paths -/

/-- A path that its own text leads to. -/
def IsCanonical (p : ModulePath) : Prop := ofText p.text = p

theorem isCanonical_of_isNormal (h : p.IsNormal) (hparts : ∀ part ∈ p.segments, IsPart part) :
    p.IsCanonical := by
  rw [IsCanonical, text, ofText, WrittenPath.ofText_text (p := p.written) hparts]
  split
  · next hroot =>
    obtain ⟨segments⟩ := p
    obtain rfl : segments = [] := hroot
    rfl
  · exact h.ofWritten_written

theorem isPart_of_mem_segments_ofText {s part : String} (h : part ∈ (ofText s).segments) :
    IsPart part :=
  WrittenPath.isPart_of_mem_ofText (mem_parts_of_mem_segments h)

theorem isCanonical_ofText (s : String) : (ofText s).IsCanonical :=
  isCanonical_of_isNormal (isNormal_ofWritten _) fun _ => isPart_of_mem_segments_ofText

/-- The canonical paths are those of names without slashes. -/
theorem isCanonical_iff : p.IsCanonical ↔ p.IsNormal ∧ ∀ part ∈ p.segments, IsPart part := by
  refine ⟨fun h => ?_, fun h => isCanonical_of_isNormal h.1 h.2⟩
  rw [← show ofText p.text = p from h]
  exact ⟨isNormal_ofWritten _, fun _ => isPart_of_mem_segments_ofText⟩

/-- The text of a canonical path has names only between its slashes, if it is not the root. -/
theorem IsCanonical.isName_of_mem (h : p.IsCanonical) (hroot : p.text ≠ "/") :
    ∀ part ∈ (WrittenPath.ofText p.text).parts, isName part = true := by
  obtain ⟨hnormal, hparts⟩ := isCanonical_iff.1 h
  rw [text, WrittenPath.ofText_text (p := p.written) hparts]
  split
  · next hnil =>
    refine absurd ?_ hroot
    rw [text, WrittenPath.text, hnil]
    rfl
  · exact hnormal

/-! ### Spellings -/

/-- A way to spell a path with fewer parts: without one that stays in place, without a name and the
way back from it, or without a way back at the root. -/
inductive Respelling : List String → List String → Prop where
  | stay (before after : List String) {part : String} (h : WrittenPath.staysInPlace part = true) :
    Respelling (before ++ part :: after) (before ++ after)
  | back (before after : List String) {part : String} (h : isName part = true) :
    Respelling (before ++ part :: ".." :: after) (before ++ after)
  | top (after : List String) : Respelling (".." :: after) after

/-- Paths of the same parts, up to parts that change nothing. -/
abbrev SameSpelling : List String → List String → Prop := Relation.EqvGen Respelling

variable {parts parts' : List String}

theorem Respelling.append (h : Respelling parts parts') (rest : List String) :
    Respelling (parts ++ rest) (parts' ++ rest) := by
  cases h with
  | stay before after h =>
    rw [List.append_assoc, List.append_assoc, List.cons_append]
    exact .stay before _ h
  | back before after h =>
    rw [List.append_assoc, List.append_assoc, List.cons_append, List.cons_append]
    exact .back before _ h
  | top after => exact .top _

theorem SameSpelling.append (h : SameSpelling parts parts') (rest : List String) :
    SameSpelling (parts ++ rest) (parts' ++ rest) := by
  induction h with
  | rel _ _ h => exact .rel _ _ (h.append rest)
  | refl _ => exact .refl _
  | symm _ _ _ ih => exact .symm _ _ ih
  | trans _ _ _ _ _ ih ih' => exact .trans _ _ _ ih ih'

theorem Respelling.ofParts_eq (h : Respelling parts parts') : ofParts parts = ofParts parts' := by
  cases h with
  | stay before after h =>
    rw [ofParts, ofParts, List.foldl_append, List.foldl_append, List.foldl_cons, step, if_pos h]
  | back before after h =>
    rw [ofParts, ofParts, List.foldl_append, List.foldl_append, List.foldl_cons, List.foldl_cons,
      step_of_isName h, step, if_neg (by decide), if_pos rfl, List.dropLast_concat]
  | top after => rfl

/-- A path and the next part, by cases on that part: it stays in place, it leads back from a name or
at the root, or it is a name itself. -/
theorem sameSpelling_step {segments : List String} (h : ∀ part ∈ segments, isName part = true)
    (part : String) : SameSpelling (segments ++ [part]) (step segments part) := by
  unfold step
  split
  · next hstay =>
    have hrel := Respelling.stay segments [] hstay
    rw [List.append_nil] at hrel
    exact .rel _ _ hrel
  · split
    · next hback =>
      subst hback
      rcases List.eq_nil_or_concat segments with rfl | ⟨init, name, rfl⟩
      · exact .rel _ _ (.top [])
      · have hrel := Respelling.back init [] (h name (by simp))
        rw [List.append_nil] at hrel
        rw [List.concat_eq_append, List.append_assoc, List.dropLast_concat]
        exact .rel _ _ hrel
    · exact .refl _

/-- Every path is a spelling of its simplified form, by induction from the last part on. -/
theorem sameSpelling_ofParts (parts : List String) :
    SameSpelling parts (ofParts parts).segments := by
  induction parts using List.reverseRecOn with
  | nil => exact .refl _
  | append_singleton parts part ih =>
    have hstep := sameSpelling_step (isNormal_ofWritten ⟨parts⟩) part
    rw [ofParts, List.foldl_concat]
    exact .trans _ _ _ (ih.append [part]) hstep

/-- Two lists of parts lead to one path exactly if they are spellings of each other. -/
theorem ofParts_eq_iff : ofParts parts = ofParts parts' ↔ SameSpelling parts parts' := by
  constructor
  · intro h
    have hparts := sameSpelling_ofParts parts
    rw [h] at hparts
    exact .trans _ _ _ hparts (.symm _ _ (sameSpelling_ofParts parts'))
  · intro h
    induction h with
    | rel _ _ h => exact h.ofParts_eq
    | refl _ => rfl
    | symm _ _ _ ih => exact ih.symm
    | trans _ _ _ _ _ ih ih' => exact ih.trans ih'

/-! ### Candidates -/

theorem IsCanonical.candidates (h : p.IsCanonical) : ∀ c ∈ p.candidates, c.IsCanonical := by
  obtain ⟨hnormal, hparts⟩ := isCanonical_iff.1 h
  have hprobed : ∀ extension ∈ probedExtensions,
      IsPart ("." ++ extension) ∧ IsPart ("index." ++ extension) := by decide
  intro c hc
  refine isCanonical_of_isNormal (hnormal.candidates c hc) fun part hpart => ?_
  rcases List.mem_append.1 hc with hc | hc
  · obtain ⟨extension, he, rfl⟩ := List.mem_map.1 hc
    rcases List.mem_append.1 hpart with hpart | hpart
    · exact hparts part (List.dropLast_subset _ hpart)
    · rw [List.mem_singleton.1 hpart, IsPart, String.toList_append, List.mem_append, not_or]
      refine ⟨?_, (hprobed extension he).1⟩
      rw [basename]
      cases hlast : p.segments.getLast? with
      | none => exact List.not_mem_nil
      | some name => exact hparts name (List.mem_of_getLast? hlast)
  · obtain ⟨extension, he, rfl⟩ := List.mem_map.1 hc
    rcases List.mem_append.1 hpart with hpart | hpart
    · exact hparts part hpart
    · rw [List.mem_singleton.1 hpart]
      exact (hprobed extension he).2

theorem append_injective (p : ModulePath) : Function.Injective p.append := by
  intro s t h
  have hlast := List.append_cancel_left (congrArg segments h)
  exact String.append_right_inj _ |>.1 (List.singleton_inj.1 hlast)

/-- A file beside a path is none in the directory of that path. -/
theorem append_ne_index (p : ModulePath) (s t : String) :
    p.append ("." ++ s) ≠ ⟨p.segments ++ ["index." ++ t]⟩ := by
  intro h
  have hsegments : p.segments.dropLast ++ [p.basename ++ ("." ++ s)] =
      p.segments ++ ["index." ++ t] := congrArg segments h
  rcases List.eq_nil_or_concat p.segments with hroot | ⟨init, name, hname⟩
  · rw [basename, hroot] at hsegments
    have hhead := congrArg (fun l : List String => l.head?.bind fun s => s.toList.head?) hsegments
    simp at hhead
  · have hlength := congrArg List.length hsegments
    rw [hname] at hlength
    simp at hlength

theorem nodup_candidates (p : ModulePath) : p.candidates.Nodup := by
  have hprobed : probedExtensions.Nodup := by decide
  refine List.nodup_append.2 ⟨hprobed.map fun s t h => ?_, hprobed.map fun s t h => ?_, ?_⟩
  · exact String.append_right_inj _ |>.1 (p.append_injective h)
  · have hlast := List.append_cancel_left (congrArg segments h)
    exact String.append_right_inj _ |>.1 (List.singleton_inj.1 hlast)
  · intro c hc d hd
    obtain ⟨s, -, rfl⟩ := List.mem_map.1 hc
    obtain ⟨t, -, rfl⟩ := List.mem_map.1 hd
    exact p.append_ne_index s t

/-- The file that is found for a canonical path is canonical, be it the path or a candidate. -/
theorem IsCanonical.namedFile {files : FileTree} {file : ModulePath} (h : p.IsCanonical)
    (hfile : files.namedFile p = .ok file) : file.IsCanonical := by
  have hmem := List.mem_of_find?_eq_some (FileTree.namedFile_eq_ok_iff.1 hfile)
  rcases List.mem_cons.1 hmem with rfl | hcandidate
  · exact h
  · exact h.candidates file hcandidate

/-- The path of a text identifies a module. It is the path of its own text, which is absolute and
has names only between its slashes; simplifying it first makes no difference to where another text
leads from it; and the texts with the same path are the other spellings of it. The candidates of
the path are eight different paths of this kind, and so is the file that is found for it. -/
theorem identity_canonical (a : String) :
    (ofText a).IsCanonical ∧ WrittenPath.isAbsolute (ofText a).text = true ∧
      ((ofText a).text = "/" ∨
        ∀ part ∈ (WrittenPath.ofText (ofText a).text).parts, isName part = true) ∧
      (∀ b, (ofText a).join b = ofWritten ((WrittenPath.ofText a).join b)) ∧
      (∀ b, ofText a = ofText b ↔
        SameSpelling (WrittenPath.ofText a).parts (WrittenPath.ofText b).parts) ∧
      (ofText a).candidates.length = 8 ∧ ((ofText a).candidates.map text).Nodup ∧
      (∀ c ∈ (ofText a).candidates, c.IsCanonical) ∧
      ∀ files file, FileTree.namedFile files (ofText a) = .ok file → file.IsCanonical := by
  have hcanonical := isCanonical_ofText a
  have hnormal : (ofText a).IsNormal := isNormal_ofWritten _
  have htexts : ((ofText a).candidates.map text).Nodup := by
    refine (nodup_candidates _).map_on fun c hc d hd htext => ?_
    have hc : ofText c.text = c := hcanonical.candidates c hc
    have hd : ofText d.text = d := hcanonical.candidates d hd
    rw [← hc, ← hd, htext]
  refine ⟨hcanonical, WrittenPath.isAbsolute_text _, ?_, ?_, fun b => ofParts_eq_iff, rfl, htexts,
    hcanonical.candidates, fun files file => hcanonical.namedFile⟩
  · exact or_iff_not_imp_left.2 hcanonical.isName_of_mem
  · exact fun b => ofWritten_join_congr hnormal.ofWritten_written b

example : ofText "/a/./b//../c/" = ofText "/../a/c" ∧ (ofText "/a/./b//../c/").text = "/a/c" := by
  decide +kernel

end ModulePath

end TypeStrip
