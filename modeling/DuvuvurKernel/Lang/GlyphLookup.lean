import DuvuvurKernel.Lang.Font
import DuvuvurKernel.Lib.LowerBound

/-!
# Looking up a glyph

`GetGlyphFromHankakuBin` and `GetGlyphFromZenkakuBin` of `lang/font.cpp`: `std::lower_bound` over a
table, and a comparison with the glyph it arrives at.

## The model

A pointer to a glyph is its position in the table; the position at the end has what follows the
table in memory. With the glyph that is returned come all positions that are read. For a sorted
table this is the lookup of `DuvuvurKernel.Lang.Font` (`get_eq_getGlyph`).

**Result** (`lookup_sound_iff`): a lookup reads entries only, and finds the entry if there is one,
just when the tables have an entry that is not smaller. If all are smaller, `lower_bound` arrives at
the end, which is read all the same (`lookup_past_end`).
-/

namespace DuvuvurKernel

open Lib.LowerBound

namespace GlyphTable

variable {w : ℕ}

/-- The glyph at a position. -/
def glyphAt (t : GlyphTable w) (i : ℕ) : Glyph w := t.entries.getD i t.atEnd

/-- `CompHalfwidthGlyph` and `CompFullwidthGlyph`. -/
def compGlyph (a b : Glyph w) : Bool := a.codePoint < b.codePoint

/-- `std::lower_bound` as it is called: the position it returns, and those it reads. -/
def candidate (t : GlyphTable w) (c : UInt32) : ℕ × List ℕ :=
  bound (fun i => compGlyph (t.glyphAt i) ⟨c, fun _ => 0⟩) t.entries.length

/-- `GetGlyphFromHankakuBin` and `GetGlyphFromZenkakuBin`: the position of the glyph returned, and those read. -/
def getGlyph (t : GlyphTable w) (c : UInt32) : Option ℕ × List ℕ :=
  (if (t.glyphAt (t.candidate c).1).codePoint = c then some (t.candidate c).1 else none,
    (t.candidate c).2 ++ [(t.candidate c).1])

/-- The table is sorted by code point. -/
def Sorted (t : GlyphTable w) : Prop := t.entries.Pairwise fun a b => a.codePoint ≤ b.codePoint

/-- A lookup gives the entry of the character, or nothing if there is none, and reads entries only. -/
structure Sound (t : GlyphTable w) (c : UInt32) : Prop where
  found : (∃ g ∈ t.entries, g.codePoint = c) →
    ∃ i g, (t.getGlyph c).1 = some i ∧ t.entries[i]? = some g ∧ g.codePoint = c
  notFound : (∀ g ∈ t.entries, g.codePoint ≠ c) → (t.getGlyph c).1 = none
  reads : ∀ i ∈ (t.getGlyph c).2, i < t.entries.length

/-- An entry is not smaller than the character. -/
def Reaches (t : GlyphTable w) (c : UInt32) : Prop := ∃ g ∈ t.entries, c ≤ g.codePoint

variable {t : GlyphTable w} {c : UInt32} {i : ℕ}

theorem glyphAt_of_lt (hi : i < t.entries.length) : t.glyphAt i = t.entries[i] := by
  rw [glyphAt, List.getD_eq_getElem?_getD, List.getElem?_eq_getElem hi]
  rfl

theorem glyphAt_end : t.glyphAt t.entries.length = t.atEnd := by
  rw [glyphAt, List.getD_eq_getElem?_getD, List.getElem?_eq_none le_rfl]
  rfl

theorem compGlyph_eq_false {a b : Glyph w} : compGlyph a b = false ↔ b.codePoint ≤ a.codePoint := by
  rw [compGlyph, decide_eq_false_iff_not, UInt32.not_lt]

/-- The entries that are smaller come first. -/
theorem Sorted.splits (h : t.Sorted) (c : UInt32) :
    Splits (fun i => compGlyph (t.glyphAt i) ⟨c, fun _ => 0⟩) t.entries.length (t.candidate c).1 := by
  refine bound_splits fun i j hij hj hbelow => ?_
  rcases Nat.lt_or_eq_of_le hij with hlt | rfl
  · have hle := List.pairwise_iff_getElem.mp h i j (hlt.trans hj) hj hlt
    have hj' : t.glyphAt j = t.entries[j] := glyphAt_of_lt hj
    rw [hj'] at hbelow
    rw [glyphAt_of_lt (hlt.trans hj)]
    exact decide_eq_true (UInt32.lt_of_le_of_lt hle (of_decide_eq_true (p := t.entries[j].codePoint < c) hbelow))
  · exact hbelow

/-- The search ends at an entry when one is not smaller. -/
theorem Sorted.found_lt_iff (h : t.Sorted) (c : UInt32) :
    (t.candidate c).1 < t.entries.length ↔ t.Reaches c := by
  have hsplits := h.splits c
  constructor
  · intro hlt
    have hafter := hsplits.after _ le_rfl hlt
    refine ⟨_, List.getElem_mem hlt, ?_⟩
    rw [glyphAt_of_lt hlt] at hafter
    exact compGlyph_eq_false.mp hafter
  · rintro ⟨g, hg, hc⟩
    obtain ⟨i, hi, rfl⟩ := List.getElem_of_mem hg
    by_contra hge
    have hbefore := hsplits.before i (lt_of_lt_of_le hi (not_lt.mp hge))
    rw [glyphAt_of_lt hi] at hbefore
    rw [compGlyph_eq_false.mpr hc] at hbefore
    cases hbefore

/-- An entry of the character is where the search ends. -/
theorem Sorted.getGlyph_of_mem (h : t.Sorted) (hc : ∃ g ∈ t.entries, g.codePoint = c) :
    ∃ i g, (t.getGlyph c).1 = some i ∧ t.entries[i]? = some g ∧ g.codePoint = c := by
  have hsplits := h.splits c
  obtain ⟨g, hg, rfl⟩ := hc
  have hlt := (h.found_lt_iff g.codePoint).mpr ⟨g, hg, UInt32.le_refl _⟩
  obtain ⟨k, hk, rfl⟩ := List.getElem_of_mem hg
  generalize hr : (t.candidate t.entries[k].codePoint).1 = r at hsplits hlt
  -- The entry is not before the place that is found, and what is there is not smaller.
  have hrk : r ≤ k := by
    by_contra hlt'
    have hbefore := hsplits.before k (not_le.mp hlt')
    rw [glyphAt_of_lt hk] at hbefore
    exact absurd (of_decide_eq_true (p := t.entries[k].codePoint < t.entries[k].codePoint) hbefore) (UInt32.lt_irrefl _)
  have hge : t.entries[k].codePoint ≤ t.entries[r].codePoint := by
    have hafter := hsplits.after r le_rfl hlt
    rw [glyphAt_of_lt hlt] at hafter
    exact compGlyph_eq_false.mp hafter
  have hle : t.entries[r].codePoint ≤ t.entries[k].codePoint := by
    rcases Nat.lt_or_eq_of_le hrk with hlt' | rfl
    · exact List.pairwise_iff_getElem.mp h r k hlt hk hlt'
    · exact UInt32.le_refl _
  refine ⟨r, t.entries[r], ?_, List.getElem?_eq_getElem hlt, UInt32.le_antisymm hle hge⟩
  rw [getGlyph, hr, glyphAt_of_lt hlt, if_pos (UInt32.le_antisymm hle hge)]

/-- **A lookup in one table** is sound just when an entry is not smaller. -/
theorem Sorted.sound_iff (h : t.Sorted) (c : UInt32) : t.Sound c ↔ t.Reaches c := by
  rw [← h.found_lt_iff c]
  constructor
  · exact fun hsound => hsound.reads _ (List.mem_append_right _ List.mem_cons_self)
  · intro hlt
    refine ⟨h.getGlyph_of_mem, fun hnone => ?_, fun i hi => ?_⟩
    · rw [getGlyph, glyphAt_of_lt hlt, if_neg (hnone _ (List.getElem_mem hlt))]
    · rcases List.mem_append.mp hi with hi | hi
      · exact bound_reads hi
      · rw [List.mem_singleton.mp hi]
        exact hlt

/-- The lookup of `Font` is this one. -/
theorem Sorted.get_eq_getGlyph (h : t.Sorted) (c : UInt32) :
    t.get c = (t.getGlyph c).1.map fun i => (t.glyphAt i).glyph := by
  have hsplits := h.splits c
  have hfind : t.lowerBound c = t.glyphAt (t.candidate c).1 := by
    generalize (t.candidate c).1 = r at hsplits
    rw [lowerBound]
    rcases Nat.lt_or_eq_of_le hsplits.le with hlt | rfl
    · have hsome : t.entries.find? (fun g => !decide (g.codePoint < c)) = some t.entries[r] := by
        refine List.find?_eq_some_iff_getElem.mpr ⟨?_, r, hlt, rfl, fun j hj => ?_⟩
        · have hafter := hsplits.after r le_rfl hlt
          rw [glyphAt_of_lt hlt] at hafter
          rw [Bool.not_eq_true']
          exact hafter
        · have hbefore := hsplits.before j hj
          rw [glyphAt_of_lt (hj.trans hlt)] at hbefore
          rw [Bool.not_not]
          exact hbefore
      rw [hsome, glyphAt_of_lt hlt]
      rfl
    · have hnone : t.entries.find? (fun g => !decide (g.codePoint < c)) = none := by
        refine List.find?_eq_none.mpr fun g hg => ?_
        obtain ⟨i, hi, rfl⟩ := List.getElem_of_mem hg
        have hbefore := hsplits.before i hi
        rw [glyphAt_of_lt hi] at hbefore
        simpa [compGlyph] using hbefore
      rw [hnone, glyphAt_end]
      rfl
  simp only [GlyphTable.get, getGlyph, hfind]
  split
  · rfl
  · rfl

end GlyphTable

namespace Font

/-- `GetGlyphFromHankakuBin`. -/
def getGlyphFromHankakuBin (f : Font) (c : UInt32) : Option ℕ × List ℕ := f.hankaku.getGlyph c

/-- `GetGlyphFromZenkakuBin`. -/
def getGlyphFromZenkakuBin (f : Font) (c : UInt32) : Option ℕ × List ℕ := f.zenkaku.getGlyph c

/-- **The lookups are sound** just when each table has an entry that is not smaller than the character. -/
theorem lookup_sound_iff (f : Font) (c : UInt32) (hhankaku : f.hankaku.Sorted) (hzenkaku : f.zenkaku.Sorted) :
    f.hankaku.Sound c ∧ f.zenkaku.Sound c ↔ f.hankaku.Reaches c ∧ f.zenkaku.Reaches c :=
  and_congr (hhankaku.sound_iff c) (hzenkaku.sound_iff c)

/-- A font of two tables with one entry each, for U+0020 and U+3042. Behind the table of halfwidth characters there is
what looks like a glyph for U+0041. -/
def twoGlyphs : Font where
  hankaku := ⟨[⟨0x20, fun _ => 0⟩], ⟨0x41, fun _ => 0⟩⟩
  zenkaku := ⟨[⟨0x3042, fun _ => 0⟩], ⟨0xffffffff, fun _ => 0⟩⟩
  newFTFace := none

/-- A space is found in the table of halfwidth characters. -/
theorem lookup_sound_iff_space : twoGlyphs.hankaku.Sound 0x20 ∧ twoGlyphs.zenkaku.Sound 0x20 :=
  (lookup_sound_iff twoGlyphs 0x20 (List.pairwise_singleton _ _) (List.pairwise_singleton _ _)).mpr
    ⟨⟨_, List.mem_cons_self, by decide⟩, ⟨_, List.mem_cons_self, by decide⟩⟩

/-- A letter after the last entry: what is behind the table is read, and returned. -/
theorem lookup_past_end : twoGlyphs.hankaku.Sorted ∧ twoGlyphs.zenkaku.Sorted ∧
    (twoGlyphs.getGlyphFromHankakuBin 0x41).1 = some 1 ∧ 1 ∈ (twoGlyphs.getGlyphFromHankakuBin 0x41).2 ∧
      ¬ (twoGlyphs.hankaku.Sound 0x41 ∧ twoGlyphs.zenkaku.Sound 0x41) := by
  refine ⟨List.pairwise_singleton _ _, List.pairwise_singleton _ _, by decide, by decide, fun hsound => ?_⟩
  have hlt : 1 < twoGlyphs.hankaku.entries.length := hsound.1.reads 1 (by decide)
  exact absurd hlt (by decide)

end Font

end DuvuvurKernel
