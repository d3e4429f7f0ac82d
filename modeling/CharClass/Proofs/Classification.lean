import CharClass.Proofs.Description
import Mathlib.Data.List.Pairwise

/-!
# The classification of the code points

The eleven kinds of ASCII characters, each with its code points and with all the categories that these
have. No two kinds share a code point and none is left out, so it does not matter in which order the
rows are read; the rules that fill the table overlap and rely on theirs.

A category is made of the rows that name it. That, and that the rows lie apart, gives the categories of
every code point at once.
-/

namespace CharClass

/-- Code points that have the same categories. -/
structure ClassRow where
  ranges : List (Std.Rcc CodePoint)
  categories : CategorySet

def classRows : List ClassRow :=
  [⟨[0x00...=0x08, 0x0E...=0x1F, 0x7F...=0x7F], {.control}⟩,
    ⟨[0x09...=0x09], {.control, .whitespace, .blank}⟩,
    ⟨[0x0A...=0x0D], {.control, .whitespace}⟩,
    ⟨[0x20...=0x20], {.printable, .whitespace, .blank}⟩,
    ⟨[0x21...=0x2F, 0x3A...=0x40, 0x5B...=0x5E, 0x60...=0x60, 0x7B...=0x7E],
      {.printable, .graphical, .punctuation}⟩,
    ⟨[0x5F...=0x5F], {.printable, .graphical, .punctuation, .word, .wordStart}⟩,
    ⟨[0x30...=0x39], {.printable, .graphical, .digit, .hexDigit, .word}⟩,
    ⟨[0x41...=0x46], {.printable, .graphical, .alpha, .upper, .word, .wordStart, .hexDigit}⟩,
    ⟨[0x47...=0x5A], {.printable, .graphical, .alpha, .upper, .word, .wordStart}⟩,
    ⟨[0x61...=0x66], {.printable, .graphical, .alpha, .lower, .word, .wordStart, .hexDigit}⟩,
    ⟨[0x67...=0x7A], {.printable, .graphical, .alpha, .lower, .word, .wordStart}⟩]

namespace ClassRow

/-- Every range of one row ends before every range of the other starts, or the other way round. -/
def Apart (first second : ClassRow) : Prop :=
  ∀ range ∈ first.ranges, ∀ other ∈ second.ranges,
    range.upper < other.lower ∨ other.upper < range.lower

instance (first second : ClassRow) : Decidable (Apart first second) :=
  inferInstanceAs (Decidable (∀ range ∈ first.ranges, ∀ other ∈ second.ranges, _ ∨ _))

instance : Std.Symm Apart :=
  ⟨fun _ _ hapart range hrange other hother => (hapart other hother range hrange).symm⟩

theorem Apart.not_inRanges {first second : ClassRow} (hapart : Apart first second) {ch : CodePoint}
    (hfirst : InRanges ch first.ranges) : ¬InRanges ch second.ranges := by
  rintro ⟨other, hother, hin⟩
  obtain ⟨range, hrange, hch⟩ := hfirst
  have hbounds : range.lower.toInt ≤ ch.toInt ∧ ch.toInt ≤ range.upper.toInt :=
    CodePoint.mem_range.1 hch
  have hotherBounds : other.lower.toInt ≤ ch.toInt ∧ ch.toInt ≤ other.upper.toInt :=
    CodePoint.mem_range.1 hin
  rcases hapart range hrange other hother with hbefore | hafter
  · rw [Int32.lt_iff_toInt_lt] at hbefore
    omega
  · rw [Int32.lt_iff_toInt_lt] at hafter
    omega

end ClassRow

theorem pairwise_apart_classRows : classRows.Pairwise ClassRow.Apart := by decide

variable {ch : CodePoint}

theorem row_unique {row other : ClassRow} (hrow : row ∈ classRows) (hother : other ∈ classRows)
    (hch : InRanges ch row.ranges) (hchOther : InRanges ch other.ranges) : row = other := by
  by_contra hne
  have hapart : row.Apart other := pairwise_apart_classRows.forall hrow hother hne
  exact hapart.not_inRanges hch hchOther

/-- The class of a category is made of the rows that name it. -/
theorem inRanges_iff_exists_row (category : Category) :
    InRanges ch category.ranges
      ↔ ∃ row ∈ classRows, InRanges ch row.ranges ∧ category ∈ row.categories := by
  simp only [classRows, List.mem_cons, List.not_mem_nil, or_false, exists_eq_or_imp,
    exists_eq_left, inRanges_cons, inRanges_nil, CodePoint.mem_range, Int32.reduceToInt,
    CategorySet.mem_insert, CategorySet.mem_singleton]
  -- the rows that do not name the category drop out, and the ends of the others meet
  cases category with
  | _ =>
      simp only [Category.ranges, inRanges_cons, inRanges_nil, or_false, CodePoint.mem_between,
        Char.reduceToNat, reduceCtorEq, false_or, and_false, or_true, and_true]
      omega

namespace CodePoint

theorem categories_eq_of_mem_row {row : ClassRow} (hrow : row ∈ classRows)
    (hch : InRanges ch row.ranges) : ch.categories = row.categories := by
  have hknown : ∀ row ∈ classRows, row.categories.IsKnown := by decide
  apply (CategorySet.isKnown_categories ch).ext (hknown row hrow)
  intro category
  rw [mem_categories, inRanges_iff_exists_row]
  refine ⟨?_, fun hmem => ⟨row, hrow, hch, hmem⟩⟩
  rintro ⟨other, hother, hchOther, hmem⟩
  rwa [row_unique hrow hother hch hchOther]

/-- Every ASCII code point has a category, and some row names it. -/
theorem exists_row (hascii : ch.isAscii = true) : ∃ row ∈ classRows, InRanges ch row.ranges := by
  obtain ⟨category, hmem⟩ := exists_mem_categories hascii
  rw [mem_categories, inRanges_iff_exists_row] at hmem
  obtain ⟨row, hrow, hch, _⟩ := hmem
  exact ⟨row, hrow, hch⟩

/-- A class within ASCII consists of the characters of a text if it does so at every index of the
table. -/
theorem inRanges_iff_mem_ofText {ranges : List (Std.Rcc CodePoint)} {text : String}
    (hranges : ∀ range ∈ ranges, 0 ≤ range.lower.toInt ∧ range.upper.toInt ≤ 0x7F)
    (htext : (ofText text).all isAscii = true)
    (hindices : ∀ index : Fin 128,
      InRanges (Int32.ofNat index.val) ranges ↔ Int32.ofNat index.val ∈ ofText text) :
    InRanges ch ranges ↔ ch ∈ ofText text := by
  by_cases hascii : ch.isAscii = true
  · exact forall_of_isAscii (P := fun ch => InRanges ch ranges ↔ ch ∈ ofText text) hindices hascii
  · rw [List.all_eq_true] at htext
    exact iff_of_false (fun hch => hascii (hch.isAscii hranges)) fun hch => hascii (htext ch hch)

theorem includes_punctuation_iff : ch.categories.includes {.punctuation} = true
    ↔ ch ∈ ofText "!\"#$%&'()*+,-./:;<=>?@[\\]^_\x60\x7b|\x7d~" := by
  rw [CategorySet.includes_singleton, mem_categories]
  exact inRanges_iff_mem_ofText Category.punctuation.ranges_ascii (by decide +kernel)
    (by decide +kernel)

theorem includes_whitespace_iff :
    ch.categories.includes {.whitespace} = true ↔ ch ∈ ofText " \t\n\x0b\x0c\r" := by
  rw [CategorySet.includes_singleton, mem_categories]
  exact inRanges_iff_mem_ofText Category.whitespace.ranges_ascii (by decide +kernel)
    (by decide +kernel)

/-- The categories of a code point are those of its row, no more and no fewer. An ASCII code point is
in one row and any other has no category at all. So a category belongs to its own class of code points,
which for punctuation and white space are the characters of a text. -/
theorem categories_classification (ch : CodePoint) :
    (∀ row ∈ classRows, InRanges ch row.ranges → ch.categories = row.categories)
      ∧ (0 ≤ ch.toInt ∧ ch.toInt ≤ 0x7F → ∃! row, row ∈ classRows ∧ InRanges ch row.ranges)
      ∧ (¬(0 ≤ ch.toInt ∧ ch.toInt ≤ 0x7F) → ch.categories = ∅)
      ∧ (∀ category : Category,
          ch.categories.includes {category} = true ↔ InRanges ch category.ranges)
      ∧ (ch.categories.includes {.punctuation} = true
          ↔ ch ∈ ofText "!\"#$%&'()*+,-./:;<=>?@[\\]^_\x60\x7b|\x7d~")
      ∧ (ch.categories.includes {.whitespace} = true ↔ ch ∈ ofText " \t\n\x0b\x0c\r") := by
  refine ⟨fun row hrow hch => categories_eq_of_mem_row hrow hch, fun hbounds => ?_,
    fun hout => ?_, fun category => ?_, includes_punctuation_iff, includes_whitespace_iff⟩
  · obtain ⟨row, hrow, hch⟩ := exists_row (isAscii_iff.2 hbounds)
    refine ⟨row, ⟨hrow, hch⟩, fun other hother => ?_⟩
    exact row_unique hother.1 hrow hother.2 hch
  · exact categories_of_not_isAscii (mt isAscii_iff.1 hout)
  · rw [CategorySet.includes_singleton]
    exact mem_categories

/-- The underscore has two categories more than the rest of the punctuation around it, and `0x15F`,
which has the same low byte, has none. -/
theorem categories_classification_underscore :
    InRanges (ofChar '_') [0x5F...=0x5F]
      ∧ (ofChar '_').categories = {.printable, .graphical, .punctuation, .word, .wordStart}
      ∧ (∃! row, row ∈ classRows ∧ InRanges (ofChar '_') row.ranges)
      ∧ (ofChar '^').categories = {.printable, .graphical, .punctuation}
      ∧ (0x15F : CodePoint).categories = ∅ := by
  have hunderscore : InRanges (ofChar '_') [0x5F...=0x5F] := by decide
  have hcaret : InRanges (ofChar '^')
      [0x21...=0x2F, 0x3A...=0x40, 0x5B...=0x5E, 0x60...=0x60, 0x7B...=0x7E] := by decide
  obtain ⟨hrow, hunique, _⟩ := categories_classification (ofChar '_')
  obtain ⟨hcaretRow, _⟩ := categories_classification (ofChar '^')
  obtain ⟨_, _, hout, _⟩ := categories_classification 0x15F
  refine ⟨hunderscore, hrow ⟨_, _⟩ (by simp [classRows]) hunderscore, hunique (by decide),
    hcaretRow ⟨_, _⟩ (by simp [classRows]) hcaret, hout (by decide)⟩

end CodePoint

end CharClass
