import CharClass.Proofs.Conversion
import CharClass.Proofs.Description

/-!
# Classes and letter case

A conversion takes a letter from one case to the other and touches no other class: the two forms of a
letter are in the same classes but for those that keep to one case, and what is no letter is not
moved. So what a converted code point belongs to is a matter of what it belonged to before.

A predicate that keeps to a letter case is one that takes both, without the letters of the other
case. So what it leaves out of the converted code points is nothing, if they were converted to its own
case, and every letter, if they were converted to the other one.
-/

namespace CharClass

variable {ch : CodePoint}

/-! ### Classes that take both cases -/

/-- A predicate that keeps to no letter case does not notice a conversion. -/
theorem Predicate.test_convert {predicate : Predicate} (hcaseless : predicate.letterCase? = none)
    (target : LetterCase) (ch : CodePoint) :
    predicate.test (target.convert ch) = predicate.test ch := by
  rw [Bool.eq_iff_iff, test_iff, test_iff]
  cases predicate with
  | lower | upper | lowerHexDigit | upperHexDigit | lowerWord | upperWord | lowerWordStart
  | upperWordStart => cases hcaseless
  | ascii | alpha | digit | hexDigit | word | wordStart | punctuation | whitespace | blank | null
  | control | printable | graphical =>
      cases target with
      | lower | upper =>
          simp only [LetterCase.convert, ranges, Category.ranges, inRanges_cons, inRanges_nil,
            or_false, CodePoint.mem_between, Char.reduceToNat, CodePoint.toInt_toLower,
            CodePoint.toInt_toUpper]
          omega

theorem Category.letterCase?_predicate {category : Category} (hlower : category ≠ .lower)
    (hupper : category ≠ .upper) : category.predicate.letterCase? = none := by
  cases category with
  | lower => exact absurd rfl hlower
  | upper => exact absurd rfl hupper
  | _ => rfl

namespace CodePoint

theorem mem_categories_convert {category : Category} (hlower : category ≠ .lower)
    (hupper : category ≠ .upper) (target : LetterCase) :
    category ∈ (target.convert ch).categories ↔ category ∈ ch.categories := by
  have hcaseless := Category.letterCase?_predicate hlower hupper
  rw [mem_categories_iff_test, mem_categories_iff_test, Predicate.test_convert hcaseless]

/-! ### Letters -/

theorem mem_categories_alpha (letterCase : LetterCase) :
    .alpha ∈ ch.categories
      ↔ letterCase.category ∈ ch.categories ∨ letterCase.opposite.category ∈ ch.categories := by
  have hletters : .alpha ∈ ch.categories ↔ .lower ∈ ch.categories ∨ .upper ∈ ch.categories := by
    simp only [mem_categories, Category.ranges, inRanges_cons, inRanges_nil, or_false]
  cases letterCase with
  | lower => exact hletters
  | upper => exact hletters.trans or_comm

theorem opposite_not_mem_convert (target : LetterCase) (ch : CodePoint) :
    ¬target.opposite.category ∈ (target.convert ch).categories := by
  rw [mem_categories]
  cases target with
  | lower | upper =>
      simp only [LetterCase.convert, LetterCase.category, LetterCase.opposite, Category.ranges,
        inRanges_cons, inRanges_nil, or_false, mem_between, Char.reduceToNat, toInt_toLower,
        toInt_toUpper]
      omega

theorem category_mem_convert (target : LetterCase) :
    target.category ∈ (target.convert ch).categories ↔ .alpha ∈ ch.categories := by
  have halpha : .alpha ∈ (target.convert ch).categories ↔ .alpha ∈ ch.categories :=
    mem_categories_convert (by decide) (by decide) target
  rw [← halpha, mem_categories_alpha target, or_iff_left (opposite_not_mem_convert target ch)]

end CodePoint

namespace Predicate

/-! ### Classes that keep to one case -/

theorem letterCase?_of_inCase? {predicate variant : Predicate} {letterCase : LetterCase}
    (hvariant : predicate.inCase? letterCase = some variant) : predicate.letterCase? = none := by
  cases predicate with
  | alpha | hexDigit | word | wordStart => rfl
  | _ => cases hvariant

/-- The form of a predicate in one letter case leaves out the letters of the other case and nothing
else. -/
theorem test_inCase {predicate variant : Predicate} {letterCase : LetterCase}
    (hvariant : predicate.inCase? letterCase = some variant) :
    variant.test ch = true
      ↔ predicate.test ch = true ∧ ¬letterCase.opposite.category ∈ ch.categories := by
  rw [test_iff, test_iff, CodePoint.mem_categories]
  cases predicate with
  | alpha | hexDigit | word | wordStart =>
      cases letterCase with
      | lower | upper =>
          obtain rfl := Option.some.inj hvariant
          simp only [LetterCase.opposite, LetterCase.category, ranges, Category.ranges,
            inRanges_cons, inRanges_nil, or_false, CodePoint.mem_between, Char.reduceToNat]
          omega
  | _ => cases hvariant

theorem test_inCase_convert {predicate variant : Predicate} {target : LetterCase}
    (hvariant : predicate.inCase? target = some variant) (ch : CodePoint) :
    variant.test (target.convert ch) = predicate.test ch := by
  rw [Bool.eq_iff_iff, test_inCase hvariant, test_convert (letterCase?_of_inCase? hvariant)]
  exact and_iff_left (CodePoint.opposite_not_mem_convert target ch)

theorem test_inCase_opposite_convert {predicate variant : Predicate} {target : LetterCase}
    (hvariant : predicate.inCase? target.opposite = some variant) (ch : CodePoint) :
    variant.test (target.convert ch) = (predicate.test ch && !ch.isAlpha) := by
  have halpha : .alpha ∈ ch.categories ↔ ch.isAlpha = true := CodePoint.mem_categories_iff_test
  rw [Bool.eq_iff_iff, test_inCase hvariant, test_convert (letterCase?_of_inCase? hvariant),
    LetterCase.opposite_opposite, CodePoint.category_mem_convert, halpha, Bool.and_eq_true,
    Bool.not_eq_true', Bool.not_eq_true]

end Predicate

/-- A conversion changes the categories of a code point in `lower` and `upper` only: nothing is left
in the other case, and every letter is in the wanted one. The predicates follow, those that keep to no
letter case, those that keep to the wanted one, and those that keep to the other. -/
theorem LetterCase.classification_convert (target : LetterCase) (ch : CodePoint) :
    (∀ category : Category, category ≠ .lower → category ≠ .upper →
        (category ∈ (target.convert ch).categories ↔ category ∈ ch.categories))
      ∧ ¬target.opposite.category ∈ (target.convert ch).categories
      ∧ (target.category ∈ (target.convert ch).categories ↔ .alpha ∈ ch.categories)
      ∧ (∀ predicate : Predicate, predicate.letterCase? = none →
          predicate.test (target.convert ch) = predicate.test ch)
      ∧ (∀ predicate variant : Predicate, predicate.inCase? target = some variant →
          variant.test (target.convert ch) = predicate.test ch)
      ∧ ∀ predicate variant : Predicate, predicate.inCase? target.opposite = some variant →
          variant.test (target.convert ch) = (predicate.test ch && !ch.isAlpha) := by
  refine ⟨fun category hlower hupper => ?_, CodePoint.opposite_not_mem_convert target ch,
    CodePoint.category_mem_convert target, fun predicate hcaseless => ?_, ?_, ?_⟩
  · exact CodePoint.mem_categories_convert hlower hupper target
  · exact Predicate.test_convert hcaseless target ch
  · intro predicate variant hvariant
    exact Predicate.test_inCase_convert hvariant ch
  · intro predicate variant hvariant
    exact Predicate.test_inCase_opposite_convert hvariant ch

/-- `F` is a hexadecimal digit and `G` is none, in lower case as well. -/
theorem LetterCase.classification_convert_hexDigit :
    (.hexDigit ∈ (CodePoint.toLower (CodePoint.ofChar 'F')).categories
        ↔ .hexDigit ∈ (CodePoint.ofChar 'F').categories)
      ∧ Predicate.hexDigit.test (CodePoint.toLower (CodePoint.ofChar 'G'))
          = Predicate.hexDigit.test (CodePoint.ofChar 'G')
      ∧ Predicate.lowerHexDigit.test (CodePoint.toLower (CodePoint.ofChar 'F')) = true
      ∧ Predicate.upperHexDigit.test (CodePoint.toLower (CodePoint.ofChar 'F')) = false := by
  have htest : Predicate.hexDigit.test (CodePoint.ofChar 'F') = true := by decide +kernel
  obtain ⟨hcategories, _, _, _, hwanted, hother⟩ :=
    LetterCase.classification_convert .lower (CodePoint.ofChar 'F')
  obtain ⟨_, _, _, hcaseless, _, _⟩ :=
    LetterCase.classification_convert .lower (CodePoint.ofChar 'G')
  refine ⟨hcategories .hexDigit (by decide) (by decide), hcaseless .hexDigit rfl, ?_, ?_⟩
  · exact (hwanted .hexDigit .lowerHexDigit rfl).trans htest
  · rw [show CodePoint.toLower _ = LetterCase.lower.convert (CodePoint.ofChar 'F') from rfl,
      hother .hexDigit .upperHexDigit rfl, htest]
    decide

end CharClass
