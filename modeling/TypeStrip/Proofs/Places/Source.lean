import TypeStrip.Text.Span

/-! Stretches of a source file, and what is written there. -/
namespace TypeStrip

namespace Text

@[simp] theorem byteCount_nil : byteCount [] = 0 := rfl

@[simp] theorem byteCount_cons (c : Char) (cs : List Char) :
    byteCount (c :: cs) = c.utf8Size + byteCount cs := rfl

@[simp] theorem byteCount_append (cs ds : List Char) :
    byteCount (cs ++ ds) = byteCount cs + byteCount ds := by
  induction cs with
  | nil => simp
  | cons c cs ih =>
    simp only [List.cons_append, byteCount_cons, ih]
    omega

theorem byteCount_pos {cs : List Char} (h : cs ≠ []) : 0 < byteCount cs := by
  obtain ⟨c, ds, rfl⟩ := List.exists_cons_of_ne_nil h
  have := c.utf8Size_pos
  rw [byteCount_cons]
  omega

end Text

open Text

structure Source where
  text : List Char
  file : Nat

structure Span.Within (a b : Span) : Prop where
  start : b.start ≤ a.start
  stop : a.stop ≤ b.stop

theorem Span.Within.refl (s : Span) : s.Within s := ⟨Nat.le_refl _, Nat.le_refl _⟩

namespace Source

/-- A span of the source: it does not end before it starts, and both ends lie in the text. -/
structure Holds (S : Source) (s : Span) : Prop where
  file : s.file = S.file
  le : s.start ≤ s.stop
  stop : s.stop ≤ byteCount S.text

def HasAt (S : Source) (start : Nat) (part : List Char) : Prop :=
  ∃ before after, S.text = before ++ part ++ after ∧ byteCount before = start

structure Spells (S : Source) (s : Span) (text : String) : Prop where
  has : S.HasAt s.start text.toList
  stop : s.stop = s.start + byteCount text.toList

variable {S : Source} {start : Nat}

theorem hasAt_text (S : Source) : S.HasAt 0 S.text := ⟨[], [], by simp, rfl⟩

theorem HasAt.le {part : List Char} (h : S.HasAt start part) :
    start + byteCount part ≤ byteCount S.text := by
  obtain ⟨before, after, ht, hb⟩ := h
  rw [ht, byteCount_append, byteCount_append]
  omega

theorem HasAt.left {cs ds : List Char} (h : S.HasAt start (cs ++ ds)) : S.HasAt start cs := by
  obtain ⟨before, after, ht, hb⟩ := h
  exact ⟨before, ds ++ after, by simp [ht], hb⟩

theorem HasAt.right {cs ds : List Char} (h : S.HasAt start (cs ++ ds)) :
    S.HasAt (start + byteCount cs) ds := by
  obtain ⟨before, after, ht, hb⟩ := h
  exact ⟨before ++ cs, after, by simp [ht], by rw [byteCount_append, hb]⟩

theorem HasAt.holds {part : List Char} (h : S.HasAt start part) :
    S.Holds ⟨start, start + byteCount part, S.file⟩ :=
  ⟨rfl, Nat.le_add_right .., h.le⟩

/-- A span between two spans of the source. -/
theorem Holds.merge {a b : Span} (ha : S.Holds a) (hb : S.Holds b) : S.Holds (a.merge b) where
  file := ha.file
  le := Nat.le_trans (Nat.min_le_left ..) (Nat.le_trans ha.le (Nat.le_max_left ..))
  stop := Nat.max_le.2 ⟨ha.stop, hb.stop⟩

end Source

end TypeStrip
