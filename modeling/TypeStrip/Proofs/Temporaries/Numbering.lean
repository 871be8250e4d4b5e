import Mathlib.Data.List.Nodup
import Std.Data.String.ToNat
import TypeStrip.Lowering.Temporary

/-!
The numbering of temporaries. A run makes its temporaries one by one; each of them is recorded by
its base, and no two of them have one name, whatever their bases are.
-/
namespace TypeStrip.Lowering

variable {α β : Type} {base base' name : String} {used bases names names' : List String}

/-! ### Numbered names -/

def temporaryName (base : String) (number : Nat) : String := base ++ "_" ++ toString number

theorem isDigit_of_mem_toString {number : Nat} {c : Char} (h : c ∈ (toString number).toList) :
    c.isDigit = true := by
  rw [Nat.toString_eq_repr, Nat.toList_repr] at h
  exact Nat.isDigit_of_mem_toDigits (by decide) (by decide) h

theorem underscore_notMem_toString (number : Nat) : '_' ∉ (toString number).toList :=
  fun h => absurd (isDigit_of_mem_toString h) (by decide)

/-- What follows the last underscore of a text can be told from what is before it. -/
theorem append_underscore_inj {front front' back back' : List Char} (hback : '_' ∉ back)
    (hback' : '_' ∉ back') (h : front ++ '_' :: back = front' ++ '_' :: back') :
    front = front' ∧ back = back' := by
  rcases List.append_eq_append_iff.1 h with ⟨rest, rfl, hrest⟩ | ⟨rest, rfl, hrest⟩
  · cases rest with
    | nil => exact ⟨(List.append_nil _).symm, (List.cons.inj hrest).2⟩
    | cons c rest =>
      refine absurd ?_ hback
      rw [(List.cons.inj hrest).2]
      simp
  · cases rest with
    | nil => exact ⟨List.append_nil _, (List.cons.inj hrest).2.symm⟩
    | cons c rest =>
      refine absurd ?_ hback'
      rw [(List.cons.inj hrest).2]
      simp

/-- A numbered name determines its base and its number, also where the base looks like a numbered
name itself. -/
theorem temporaryName_inj {number number' : Nat} :
    temporaryName base number = temporaryName base' number' ↔ base = base' ∧ number = number' := by
  constructor
  · intro h
    have hlists := congrArg String.toList h
    simp only [temporaryName, String.toList_append, List.append_assoc] at hlists
    obtain ⟨hbase, hnumber⟩ := append_underscore_inj (underscore_notMem_toString number)
      (underscore_notMem_toString number') hlists
    exact ⟨String.toList_inj.1 hbase, Nat.repr_injective (String.toList_inj.1 hnumber)⟩
  · rintro ⟨rfl, rfl⟩
    rfl

/-! ### Runs -/

/-- The run of a lowering, after temporaries of the bases `used`, makes new ones with the given
names, in this order. -/
inductive Lower.Draws : {α : Type} → Lower α → List String → List String → Prop where
  | pure {α : Type} (a : α) (used : List String) : Draws (Pure.pure a) used []
  | fresh (base : String) (used : List String) :
    Draws (fresh base) used [((fresh base).run used).1]
  | bind {α β : Type} {x : Lower α} {f : α → Lower β} {used names names' : List String}
    (hx : Draws x used names) (hf : Draws (f (x.run used).1) (x.run used).2 names') :
    Draws (x >>= f) used (names ++ names')

/-- The temporaries of the given bases, the last one first, after those of the bases `used`. -/
def temporaries (used : List String) : List String → List String
  | [] => []
  | base :: bases => temporaries used bases ++ [((fresh base).run (bases ++ used)).1]

theorem temporaries_append (used bases bases' : List String) :
    temporaries used (bases' ++ bases) =
      temporaries used bases ++ temporaries (bases ++ used) bases' := by
  induction bases' with
  | nil => exact (List.append_nil _).symm
  | cons base bases' ih =>
    rw [List.cons_append, temporaries, temporaries, ih, List.append_assoc, List.append_assoc]

/-- The record of a run tells which temporaries it has made. -/
theorem Lower.Draws.exists_bases {x : Lower α} (h : x.Draws used names) :
    ∃ bases, (x.run used).2 = bases ++ used ∧ names = temporaries used bases := by
  induction h with
  | pure a used => exact ⟨[], rfl, rfl⟩
  | fresh base used => exact ⟨[base], rfl, rfl⟩
  | bind _ _ ihx ihf =>
    obtain ⟨bases, hx, rfl⟩ := ihx
    obtain ⟨bases', hf, rfl⟩ := ihf
    refine ⟨bases' ++ bases, ?_, ?_⟩
    · rw [List.append_assoc, ← hx]
      exact hf
    · rw [temporaries_append, hx]

/-- There is only one list of temporaries that a run makes. -/
theorem Lower.Draws.unique {x : Lower α} (h : x.Draws used names) (h' : x.Draws used names') :
    names = names' := by
  obtain ⟨bases, hbases, rfl⟩ := h.exists_bases
  obtain ⟨bases', hbases', rfl⟩ := h'.exists_bases
  rw [List.append_cancel_right (hbases.symm.trans hbases')]

/-- The numbers of a base go on from those that were used before. -/
theorem mem_temporaries_iff : name ∈ temporaries used bases ↔
    ∃ base number, name = temporaryName base number ∧ used.count base < number ∧
      number ≤ (bases ++ used).count base := by
  induction bases with
  | nil =>
    refine ⟨nofun, ?_⟩
    rintro ⟨base, number, -, hlt, hle⟩
    rw [List.nil_append] at hle
    omega
  | cons first bases ih =>
    have hfirst : ((fresh first).run (bases ++ used)).1 =
        temporaryName first ((bases ++ used).count first + 1) := rfl
    rw [temporaries, List.mem_append, List.mem_singleton, ih, hfirst, List.cons_append]
    constructor
    · rintro (⟨base, number, rfl, hlt, hle⟩ | rfl)
      · exact ⟨base, number, rfl, hlt, Nat.le_trans hle List.count_le_count_cons⟩
      · refine ⟨first, _, rfl, ?_, ?_⟩
        · rw [List.count_append]
          omega
        · exact Nat.le_of_eq List.count_cons_self.symm
    · rintro ⟨base, number, rfl, hlt, hle⟩
      by_cases hold : number ≤ (bases ++ used).count base
      · exact .inl ⟨base, number, rfl, hlt, hold⟩
      · -- The number is that of the last temporary, and so is its base.
        refine .inr (temporaryName_inj.2 ?_)
        rw [List.count_cons] at hle
        split at hle
        · next heq =>
          obtain rfl : first = base := beq_iff_eq.1 heq
          exact ⟨rfl, by omega⟩
        · omega

theorem nodup_temporaries (used bases : List String) : (temporaries used bases).Nodup := by
  induction bases with
  | nil => exact List.nodup_nil
  | cons base bases ih =>
    refine List.nodup_append.2 ⟨ih, List.nodup_singleton _, fun name hname last hlast heq => ?_⟩
    obtain ⟨base', number, rfl, -, hle⟩ := mem_temporaries_iff.1 hname
    rw [List.mem_singleton.1 hlast] at heq
    obtain ⟨rfl, rfl⟩ := temporaryName_inj.1 heq
    omega

/-- A run makes different temporaries, and none that was made before it. -/
theorem Lower.Draws.nodup {x : Lower α} (h : x.Draws used names) :
    names.Nodup ∧ ∀ name ∈ names, name ∉ temporaries [] used := by
  obtain ⟨bases, -, rfl⟩ := h.exists_bases
  refine ⟨nodup_temporaries used bases, fun name hname hbefore => ?_⟩
  obtain ⟨base, number, rfl, hlt, -⟩ := mem_temporaries_iff.1 hname
  obtain ⟨base', number', heq, -, hle⟩ := mem_temporaries_iff.1 hbefore
  obtain ⟨rfl, rfl⟩ := temporaryName_inj.1 heq
  rw [List.append_nil] at hle
  omega

/-! ### Lowerings -/

/-- Whatever temporaries were made before, a lowering does nothing but make new ones. -/
def Lower.IsTraced (x : Lower α) : Prop := ∀ used, ∃ names, x.Draws used names

theorem Lower.IsTraced.pure (a : α) : Lower.IsTraced (Pure.pure a) := fun used => ⟨[], .pure a used⟩

theorem isTraced_fresh (base : String) : (fresh base).IsTraced := fun used => ⟨_, .fresh base used⟩

theorem Lower.IsTraced.bind {x : Lower α} {f : α → Lower β} (hx : x.IsTraced)
    (hf : ∀ a, (f a).IsTraced) : Lower.IsTraced (x >>= f) := by
  intro used
  obtain ⟨names, hnames⟩ := hx used
  obtain ⟨names', hnames'⟩ := hf (x.run used).1 (x.run used).2
  exact ⟨names ++ names', .bind hnames hnames'⟩

theorem Lower.IsTraced.map {x : Lower α} {f : α → β} (hx : x.IsTraced) :
    Lower.IsTraced (x >>= fun a => Pure.pure (f a)) :=
  hx.bind fun a => .pure (f a)

end TypeStrip.Lowering
