import CharClass.Proofs.CaseClasses
import Mathlib.Logic.Basic

/-!
# Many code points at once

Two sets sum up a list of code points: the categories that one of them has, and those that all of them
have. A single look at either answers a question about the whole list, "is there one" at the first and
"are they all" at the second. A question that leaves out a letter case needs both, since "none is an
upper case letter" is told by the first set and "all are hexadecimal digits" by the second.

A code point outside ASCII has no category. It adds nothing to the first set and empties the second.
-/

namespace CharClass.CodePoint

open CategorySet (joinAll meetAll)

variable {ch : CodePoint} {chs others : List CodePoint}

/-- The categories that some code point of a list has. -/
def someCategories (chs : List CodePoint) : CategorySet := joinAll (chs.map categories)

/-- The categories that every code point of a list has. -/
def sharedCategories (chs : List CodePoint) : CategorySet := meetAll (chs.map categories)

theorem isKnown_of_mem_map_categories (chs : List CodePoint) :
    ∀ set ∈ chs.map categories, set.IsKnown := by
  intro set hset
  obtain ⟨ch, _, rfl⟩ := List.mem_map.1 hset
  exact CategorySet.isKnown_categories ch

theorem isKnown_someCategories (chs : List CodePoint) : (someCategories chs).IsKnown :=
  CategorySet.isKnown_joinAll (isKnown_of_mem_map_categories chs)

theorem mem_someCategories {category : Category} :
    category ∈ someCategories chs ↔ ∃ ch ∈ chs, category ∈ ch.categories := by
  rw [someCategories, CategorySet.mem_joinAll]
  simp only [List.mem_map, exists_exists_and_eq_and]

theorem mem_sharedCategories {category : Category} :
    category ∈ sharedCategories chs ↔ ∀ ch ∈ chs, category ∈ ch.categories := by
  rw [sharedCategories, CategorySet.mem_meetAll, List.forall_mem_map]

theorem isEmpty_someCategories :
    (someCategories chs).isEmpty = true ↔ ∀ ch ∈ chs, ch.isAscii = false := by
  rw [CategorySet.isEmpty_iff, (isKnown_someCategories chs).eq_empty_iff]
  refine ⟨fun hnone ch hch => ?_, fun houtside category hmem => ?_⟩
  · rw [← isEmpty_categories, CategorySet.isEmpty_iff,
      (CategorySet.isKnown_categories ch).eq_empty_iff]
    intro category hmem
    exact hnone category (mem_someCategories.2 ⟨ch, hch, hmem⟩)
  · obtain ⟨ch, hch, hcategory⟩ := mem_someCategories.1 hmem
    exact Bool.eq_false_iff.1 (houtside ch hch) (isAscii_of_mem_categories hcategory)

/-- A code point outside ASCII leaves nothing that all have. -/
theorem sharedCategories_eq_empty (hch : ch ∈ chs) (houtside : ch.isAscii ≠ true) :
    sharedCategories chs = ∅ := by
  have hknown := CategorySet.isKnown_meetAll (isKnown_of_mem_map_categories chs)
  apply hknown.eq_empty_iff.2
  intro category hmem
  have hcategory := mem_sharedCategories.1 hmem ch hch
  exact houtside (isAscii_of_mem_categories hcategory)

/-! ### Questions to all -/

theorem includes_someCategories {category : Category} :
    (someCategories chs).includes {category} = true
      ↔ ∃ ch ∈ chs, category.predicate.test ch = true := by
  rw [CategorySet.includes_singleton, mem_someCategories]
  simp only [mem_categories_iff_test]

theorem includes_sharedCategories {category : Category} :
    (sharedCategories chs).includes {category} = true
      ↔ ∀ ch ∈ chs, category.predicate.test ch = true := by
  rw [CategorySet.includes_singleton, mem_sharedCategories]
  simp only [mem_categories_iff_test]

theorem intersects_someCategories {category : Category} :
    (someCategories chs).intersects {category} = false
      ↔ ∀ ch ∈ chs, ¬category ∈ ch.categories := by
  rw [← Bool.not_eq_true, (isKnown_someCategories chs).intersects_singleton, mem_someCategories]
  exact not_exists.trans (forall_congr' fun ch => not_and)

/-- All are in a class that leaves out a letter case if the category is shared by all and nobody has
the letters left out. -/
theorem forall_test_inCase {category : Category} {letterCase : LetterCase} {variant : Predicate}
    (hvariant : category.predicate.inCase? letterCase = some variant) :
    (∀ ch ∈ chs, variant.test ch = true)
      ↔ (sharedCategories chs).includes {category} = true
        ∧ (someCategories chs).intersects {letterCase.opposite.category} = false := by
  rw [includes_sharedCategories, intersects_someCategories]
  calc
    (∀ ch ∈ chs, variant.test ch = true)
        ↔ ∀ ch ∈ chs, category.predicate.test ch = true
            ∧ ¬letterCase.opposite.category ∈ ch.categories :=
      forall₂_congr fun _ _ => Predicate.test_inCase hvariant
    _ ↔ (∀ ch ∈ chs, category.predicate.test ch = true)
          ∧ ∀ ch ∈ chs, ¬letterCase.opposite.category ∈ ch.categories := forall₂_and

theorem someCategories_perm (hperm : chs.Perm others) :
    someCategories chs = someCategories others :=
  CategorySet.joinAll_eq_of_mem_iff fun _ => (hperm.map categories).mem_iff

theorem sharedCategories_perm (hperm : chs.Perm others) :
    sharedCategories chs = sharedCategories others :=
  CategorySet.meetAll_eq_of_mem_iff (isKnown_of_mem_map_categories chs) fun _ =>
    (hperm.map categories).mem_iff

/-- What two sets tell of a list of code points, in whatever order they come: who has a category, who
is ASCII at all, and whether everybody is in a class, the ones that leave out a letter case included. -/
theorem list_told_by_some_and_shared (chs : List CodePoint) :
    (∀ category : Category,
        ((someCategories chs).includes {category} = true
            ↔ ∃ ch ∈ chs, category.predicate.test ch = true)
          ∧ ((sharedCategories chs).includes {category} = true
            ↔ ∀ ch ∈ chs, category.predicate.test ch = true))
      ∧ ((someCategories chs).isEmpty = true ↔ ∀ ch ∈ chs, ch.isAscii = false)
      ∧ (∀ ch ∈ chs, ch.isAscii = false → sharedCategories chs = ∅)
      ∧ (∀ (category : Category) (letterCase : LetterCase) (variant : Predicate),
          category.predicate.inCase? letterCase = some variant →
            ((∀ ch ∈ chs, variant.test ch = true)
              ↔ (sharedCategories chs).includes {category} = true
                ∧ (someCategories chs).intersects {letterCase.opposite.category} = false))
      ∧ ∀ others : List CodePoint, chs.Perm others →
          someCategories chs = someCategories others
            ∧ sharedCategories chs = sharedCategories others := by
  refine ⟨fun category => ⟨includes_someCategories, includes_sharedCategories⟩,
    isEmpty_someCategories, fun ch hch houtside => ?_,
    fun category letterCase variant hvariant => forall_test_inCase hvariant,
    fun others hperm => ⟨someCategories_perm hperm, sharedCategories_perm hperm⟩⟩
  exact sharedCategories_eq_empty hch (Bool.eq_false_iff.1 houtside)

/-- `7` and `f` are lower case hexadecimal digits; with `F` in the place of `f` not all are, though all
are hexadecimal digits, and with the end of the input among them all have nothing in common. -/
theorem list_told_by_some_and_shared_hexDigits :
    Category.hexDigit.predicate.inCase? .lower = some .lowerHexDigit
      ∧ (∀ ch ∈ [ofChar '7', ofChar 'f'], Predicate.lowerHexDigit.test ch = true)
      ∧ (∀ ch ∈ [ofChar '7', ofChar 'F'], Predicate.hexDigit.test ch = true)
      ∧ (¬∀ ch ∈ [ofChar '7', ofChar 'F'], Predicate.lowerHexDigit.test ch = true)
      ∧ sharedCategories [ofChar '7', -1] = ∅
      ∧ someCategories [ofChar '7', -1, ofChar 'F'] = someCategories [-1, ofChar 'F', ofChar '7'] := by
  have hvariant : Category.hexDigit.predicate.inCase? .lower = some .lowerHexDigit := rfl
  have hperm : [ofChar '7', -1, ofChar 'F'].Perm [-1, ofChar 'F', ofChar '7'] := by decide
  obtain ⟨_, _, _, hlower, _⟩ := list_told_by_some_and_shared [ofChar '7', ofChar 'f']
  obtain ⟨hdigits, _, _, hupper, _⟩ := list_told_by_some_and_shared [ofChar '7', ofChar 'F']
  obtain ⟨_, _, houtside, _, _⟩ := list_told_by_some_and_shared [ofChar '7', -1]
  obtain ⟨_, _, _, _, horder⟩ := list_told_by_some_and_shared [ofChar '7', -1, ofChar 'F']
  obtain ⟨_, hshared⟩ := hdigits .hexDigit
  refine ⟨hvariant, (hlower _ _ _ hvariant).2 (by decide +kernel), hshared.1 (by decide +kernel),
    fun hall => ?_, houtside (-1) (by decide) (by decide), (horder _ hperm).1⟩
  have hnone := ((hupper _ _ _ hvariant).1 hall).2
  exact absurd hnone (by decide +kernel)

end CharClass.CodePoint
