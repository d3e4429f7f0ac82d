import CharClass.Proofs.CaseClasses
import Mathlib.Data.List.Forall2

/-!
# Code points that are alike

The predicates that never look into the table could tell apart code points that have the same
categories. None does, but for the one that asks for the null character, which has the categories of
the other controls: every other answer is read off the categories.

A conversion takes the categories along. Which ones the result has, and whether anything was converted
at all, depends on the categories only, so code points that are alike stay alike through any chain of
conversions.
-/

namespace CharClass

variable {first second : CodePoint}

namespace Predicate

theorem test_congr {predicate : Predicate} (hnull : predicate ≠ .null)
    (hsame : first.categories = second.categories) :
    predicate.test first = predicate.test second := by
  have hcategory : ∀ category : Category,
      category.predicate.test first = category.predicate.test second := by
    intro category
    rw [Bool.eq_iff_iff, ← CodePoint.mem_categories_iff_test, hsame,
      CodePoint.mem_categories_iff_test]
  -- a masked look-up is computed from the categories, and each other predicate asks for one of them
  cases predicate with
  | null => exact absurd rfl hnull
  | ascii =>
      show first.isAscii = second.isAscii
      rw [← Bool.not_inj_iff, Bool.eq_iff_iff, Bool.not_eq_true', Bool.not_eq_true',
        ← CodePoint.isEmpty_categories, hsame, CodePoint.isEmpty_categories]
  | lowerHexDigit | upperHexDigit | lowerWord | upperWord | lowerWordStart | upperWordStart =>
      simp only [test, CodePoint.isLowerHexDigit, CodePoint.isUpperHexDigit, CodePoint.isLowerWord,
        CodePoint.isUpperWord, CodePoint.isLowerWordStart, CodePoint.isUpperWordStart,
        CodePoint.hasWithout, hsame]
  | alpha => exact hcategory .alpha
  | lower => exact hcategory .lower
  | upper => exact hcategory .upper
  | digit => exact hcategory .digit
  | hexDigit => exact hcategory .hexDigit
  | word => exact hcategory .word
  | wordStart => exact hcategory .wordStart
  | punctuation => exact hcategory .punctuation
  | whitespace => exact hcategory .whitespace
  | blank => exact hcategory .blank
  | control => exact hcategory .control
  | printable => exact hcategory .printable
  | graphical => exact hcategory .graphical

end Predicate

namespace CodePoint

theorem categories_ext
    (hmem : ∀ category, category ∈ first.categories ↔ category ∈ second.categories) :
    first.categories = second.categories :=
  (CategorySet.Constructible.categories first).ext (.categories second) hmem

theorem categories_eq_of_test
    (hanswers : ∀ predicate : Predicate, predicate ≠ .null →
      predicate.test first = predicate.test second) :
    first.categories = second.categories := by
  apply categories_ext
  intro category
  have hnull : category.predicate ≠ .null := by cases category <;> decide
  rw [mem_categories_iff_test, mem_categories_iff_test, hanswers category.predicate hnull]

/-! ### Conversions -/

theorem categories_convert_congr (hsame : first.categories = second.categories)
    (target : LetterCase) :
    (target.convert first).categories = (target.convert second).categories := by
  apply categories_ext
  intro category
  by_cases hwanted : category = target.category
  · rw [hwanted, category_mem_convert, category_mem_convert, hsame]
  · by_cases hother : category = target.opposite.category
    · rw [hother]
      exact iff_of_false (opposite_not_mem_convert target first)
        (opposite_not_mem_convert target second)
    · have hcase : category ≠ .lower ∧ category ≠ .upper := by
        cases target with
        | lower => exact ⟨hwanted, hother⟩
        | upper => exact ⟨hother, hwanted⟩
      rw [mem_categories_convert hcase.1 hcase.2, mem_categories_convert hcase.1 hcase.2, hsame]

theorem convert_eq_self_iff (target : LetterCase) (ch : CodePoint) :
    target.convert ch = ch ↔ ¬target.opposite.category ∈ ch.categories := by
  rw [mem_categories_iff_test, Bool.not_eq_true]
  cases target with
  | lower => exact toLower_eq_self_iff
  | upper => exact toUpper_eq_self_iff

/-- Two code points that have the same categories, get the same answers but to the question for the
null character, and are moved by the same conversions. -/
structure Alike (first second : CodePoint) : Prop where
  categories : first.categories = second.categories
  test : ∀ predicate : Predicate, predicate ≠ .null →
    predicate.test first = predicate.test second
  convert : ∀ target : LetterCase, target.convert first = first ↔ target.convert second = second

theorem alike_of_categories_eq (hsame : first.categories = second.categories) :
    Alike first second := by
  refine ⟨hsame, fun predicate hnull => Predicate.test_congr hnull hsame, fun target => ?_⟩
  rw [convert_eq_self_iff, convert_eq_self_iff, hsame]

theorem Alike.convert_alike (halike : Alike first second) (target : LetterCase) :
    Alike (target.convert first) (target.convert second) :=
  alike_of_categories_eq (categories_convert_congr halike.categories target)

theorem Alike.chain_alike (halike : Alike first second) (targets : List LetterCase) :
    List.Forall₂ Alike (LetterCase.chain targets first) (LetterCase.chain targets second) := by
  induction targets generalizing first second with
  | nil => exact .nil
  | cons target rest ih =>
      have hnext := halike.convert_alike target
      exact .cons hnext (ih hnext)

/-- Code points with the same categories are alike, and stay alike at every stage of any chain of
conversions; code points with different categories are told apart by some predicate. -/
theorem categories_congruence (first second : CodePoint) :
    (first.categories = second.categories → ∀ targets : List LetterCase,
        List.Forall₂ Alike (first :: LetterCase.chain targets first)
          (second :: LetterCase.chain targets second))
      ∧ (first.categories ≠ second.categories →
          ∃ predicate : Predicate, predicate ≠ .null
            ∧ predicate.test first ≠ predicate.test second) := by
  constructor
  · intro hsame targets
    have halike := alike_of_categories_eq hsame
    exact .cons halike (halike.chain_alike targets)
  · intro hdifferent
    by_contra hnone
    apply hdifferent
    apply categories_eq_of_test
    intro predicate hnull
    by_contra htest
    exact hnone ⟨predicate, hnull, htest⟩

/-- `G` and `Z` have the same categories; `F` is a hexadecimal digit besides. -/
theorem categories_congruence_outside_hexDigit :
    (ofChar 'G').categories = (ofChar 'Z').categories
      ∧ List.Forall₂ Alike [ofChar 'G', ofChar 'g', ofChar 'G', ofChar 'G']
          [ofChar 'Z', ofChar 'z', ofChar 'Z', ofChar 'Z']
      ∧ (ofChar 'F').categories ≠ (ofChar 'G').categories
      ∧ ∃ predicate : Predicate, predicate ≠ .null
          ∧ predicate.test (ofChar 'F') ≠ predicate.test (ofChar 'G') := by
  have hsame : (ofChar 'G').categories = (ofChar 'Z').categories := by decide +kernel
  have hdifferent : (ofChar 'F').categories ≠ (ofChar 'G').categories := by decide +kernel
  obtain ⟨hstages, _⟩ := categories_congruence (ofChar 'G') (ofChar 'Z')
  obtain ⟨_, htold⟩ := categories_congruence (ofChar 'F') (ofChar 'G')
  exact ⟨hsame, hstages hsame [.lower, .upper, .upper], hdifferent, htold hdifferent⟩

end CodePoint

end CharClass
