import CharClass.Proofs.Classes
import CharClass.Proofs.Text

/-!
# What is told of a code point

A code point is described three times: by its categories, by the names that are written for them and
by the predicates. Each category has a predicate that asks for it, most of which never look into the
table. The ranges tie the two together: a category and its predicate have the same ones.

Every ASCII code point is a control or printable, so only the code points outside ASCII are written
as the empty set.
-/

namespace CharClass.CodePoint

open Text (Joiner Sink)

variable {ch : CodePoint}

theorem ranges_predicate (category : Category) : category.predicate.ranges = category.ranges := by
  cases category <;> rfl

theorem mem_categories_iff_test {category : Category} :
    category ∈ ch.categories ↔ category.predicate.test ch = true := by
  rw [mem_categories, Predicate.test_iff, ranges_predicate]

theorem toList_categories (ch : CodePoint) :
    ch.categories.toList = Category.all.filter fun category => category.predicate.test ch := by
  refine List.filter_congr fun category _ => ?_
  rw [Bool.eq_iff_iff, decide_eq_true_iff]
  exact mem_categories_iff_test

theorem control_or_printable (hascii : ch.isAscii = true) :
    .control ∈ ch.categories ∨ .printable ∈ ch.categories := by
  have hbounds := isAscii_iff.1 hascii
  simp only [mem_categories, Category.ranges, inRanges_cons, inRanges_nil, or_false, mem_between,
    Char.reduceToNat]
  omega

theorem exists_mem_categories (hascii : ch.isAscii = true) :
    ∃ category, category ∈ ch.categories := by
  rcases control_or_printable hascii with hcontrol | hprintable
  · exact ⟨.control, hcontrol⟩
  · exact ⟨.printable, hprintable⟩

theorem isEmpty_categories (ch : CodePoint) :
    ch.categories.isEmpty = true ↔ ch.isAscii = false := by
  rw [CategorySet.isEmpty_iff, ← Bool.not_eq_true]
  refine ⟨fun hempty hascii => ?_, categories_of_not_isAscii⟩
  obtain ⟨category, hmem⟩ := exists_mem_categories hascii
  rw [hempty] at hmem
  exact CategorySet.not_mem_empty category hmem

/-- A walk through the categories of a code point meets those whose predicate holds, in the order of
their positions, and their names make up the text; it is `NONE` outside ASCII only. -/
theorem categories_agree_with_predicates {join : Joiner} (hjoin : join.Interleaves)
    (ch : CodePoint) :
    (Cursor.start ch.categories).collect.1
        = (Category.all.filter fun category => category.predicate.test ch).map Category.item
      ∧ (ch.isAscii = true → ch.categories.text join
          = " | ".intercalate ((Category.all.filter fun category =>
              category.predicate.test ch).map Category.name))
      ∧ (ch.categories.text join = "NONE" ↔ ch.isAscii = false) := by
  have hknown := CategorySet.isKnown_categories ch
  refine ⟨?_, fun hascii => ?_, ?_⟩
  · rw [Cursor.collect_fst, Cursor.remaining_start, toList_categories]
  · have hempty : ch.categories.isEmpty ≠ true := by
      rw [Ne, isEmpty_categories, hascii]
      decide
    rw [CategorySet.text_of_not_isEmpty hjoin hempty, toList_categories]
    rfl
  · rw [← isEmpty_categories]
    exact CategorySet.text_eq_emptyText_iff hjoin hknown

theorem categories_agree_with_predicates_underscore :
    Joiner.Interleaves Sink.separated
      ∧ (ofChar '_').isAscii = true
      ∧ (ofChar '_').categories.text Sink.separated
        = "WORD | WORD_START | PUNCTUATION | PRINTABLE | GRAPHICAL"
      ∧ (0x161 : CodePoint).categories.text Sink.separated = "NONE" := by
  have hascii : (ofChar '_').isAscii = true := by decide
  have hmembers : (Category.all.filter fun category => category.predicate.test (ofChar '_'))
      = [.word, .wordStart, .punctuation, .printable, .graphical] := by decide +kernel
  have hjoin := Joiner.interleaves_separated
  obtain ⟨_, hwritten, _⟩ := categories_agree_with_predicates hjoin (ofChar '_')
  obtain ⟨_, _, hnone⟩ := categories_agree_with_predicates hjoin 0x161
  refine ⟨hjoin, hascii, (hwritten hascii).trans ?_, hnone.2 (by decide)⟩
  rw [hmembers]
  rfl

end CharClass.CodePoint
