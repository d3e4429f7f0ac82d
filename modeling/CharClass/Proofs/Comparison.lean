import CharClass.Proofs.Classes
import CharClass.Proofs.Order

/-!
# Masked comparisons

A masked comparison asks about each category of the mask by itself: whether the set has it exactly if
it is expected. What is expected outside the mask can never be met. So under a given mask a set meets
one expectation, its own part inside the mask, and the questions for every category and for some
category of a set are masked comparisons too.

Several comparisons can be asked as one, under the join of the masks and with the join of what they
expect, if no two of them expect something different inside both masks. Where two do, they cannot both
be met, although the merged comparison may be.
-/

namespace CharClass

namespace CategorySet

variable {set mask expected : CategorySet}

/-! ### Category by category -/

theorem matchesOn_iff_categories (hset : set.IsKnown) (hexpected : expected.IsKnown) :
    set.matchesOn mask expected = true
      ↔ mask.includes expected = true
        ∧ ∀ category ∈ mask, category ∈ set ↔ category ∈ expected := by
  rw [hset.matchesOn_iff hexpected, hexpected.includes_iff]
  constructor
  · intro hmatch
    refine ⟨fun category hmem => ((hmatch category).2 hmem).2, fun category hmask => ?_⟩
    rw [← hmatch category]
    exact (and_iff_left hmask).symm
  · rintro ⟨hinside, hmembers⟩ category
    refine ⟨fun hmem => (hmembers category hmem.2).1 hmem.1, fun hmem => ?_⟩
    have hmask := hinside category hmem
    exact ⟨(hmembers category hmask).2 hmem, hmask⟩

end CategorySet

namespace CodePoint

variable {ch : CodePoint} {wanted : CategorySet}

theorem hasAny_iff :
    ch.hasAny wanted = true ↔ ∃ category, category ∈ ch.categories ∧ category ∈ wanted :=
  (CategorySet.isKnown_categories ch).intersects_iff

/-- With nothing barred and a single category wanted, having all and having some are the same. -/
theorem hasWithout_empty (ch : CodePoint) (wanted : Category) :
    ch.hasWithout {wanted} ∅ = ch.hasAny {wanted} := by
  rw [Bool.eq_iff_iff, hasAny_singleton, hasWithout_iff (CategorySet.isKnown_singleton wanted)]
  simp

end CodePoint

namespace CategorySet

/-- A masked comparison passes for the sets that agree with what is expected in each category of the
mask, provided nothing is expected outside it. So it asks for every category of the wanted set and for
none of the others under the mask, whereas an intersection asks for some category only. -/
theorem matchesOn_by_category :
    (∀ set mask expected : CategorySet, Constructible set → Constructible expected →
        (set.matchesOn mask expected = true
            ↔ mask.includes expected = true
              ∧ ∀ category : Category, mask.includes {category} = true →
                  (set.includes {category} = true ↔ expected.includes {category} = true))
          ∧ Constructible (set ∩ mask)
          ∧ (set.matchesOn mask expected = true ↔ expected = set ∩ mask))
      ∧ (∀ set other : CategorySet,
          set.includes other = set.matchesOn other other
            ∧ set.intersects other = !set.matchesOn other ∅)
      ∧ (∀ (ch : CodePoint) (wanted barred : CategorySet), Constructible wanted →
          (ch.hasWithout wanted barred = true
              ↔ (∀ category, category ∈ wanted → category ∈ ch.categories)
                ∧ ∀ category, category ∈ ch.categories → category ∈ barred → category ∈ wanted)
            ∧ (ch.hasAny wanted = true
              ↔ ∃ category, category ∈ ch.categories ∧ category ∈ wanted))
      ∧ ∀ (ch : CodePoint) (wanted : Category),
          ch.hasWithout {wanted} ∅ = ch.hasAny {wanted} := by
  refine ⟨fun set mask expected hset hexpected => ⟨?_, hset.isKnown.inter.constructible, ?_⟩,
    fun set other => ⟨rfl, rfl⟩,
    fun ch wanted barred hwanted => ⟨?_, CodePoint.hasAny_iff⟩, CodePoint.hasWithout_empty⟩
  · simp only [includes_singleton]
    exact matchesOn_iff_categories hset.isKnown hexpected.isKnown
  · rw [matchesOn_iff_inter]
    exact eq_comm
  · rw [CodePoint.hasWithout_iff hwanted.isKnown]
    exact and_congr_right' (forall_congr' fun category => imp.swap)

/-- `7` is a digit, which is wanted and barred at once. -/
theorem matchesOn_by_category_hexDigit :
    Constructible {.alpha, .lower, .hexDigit}
      ∧ Constructible {.hexDigit}
      ∧ matchesOn {.alpha, .lower, .hexDigit} {.hexDigit, .upper} {.hexDigit} = true
      ∧ ¬matchesOn {.alpha, .lower, .hexDigit} {.hexDigit, .upper} {.hexDigit, .lower} = true
      ∧ (CodePoint.ofChar '7').hasWithout {.digit, .hexDigit} {.digit, .upper} = true
      ∧ (CodePoint.ofChar 'f').hasWithout {.hexDigit} ∅
          = (CodePoint.ofChar 'f').hasAny {.hexDigit} := by
  have hset : Constructible {.alpha, .lower, .hexDigit} := IsKnown.constructible (by decide)
  have hexpected : Constructible {.hexDigit, .lower} := IsKnown.constructible (by decide)
  have hwanted : Constructible {.digit, .hexDigit} := IsKnown.constructible (by decide)
  have hmembers : ∀ category ∈ Category.all, includes {.hexDigit, .upper} {category} = true →
      (includes {.alpha, .lower, .hexDigit} {category} = true
        ↔ includes {.hexDigit} {category} = true) := by decide
  have hdigit : (CodePoint.ofChar '7').categories.includes {.digit, .hexDigit} = true := by
    decide +kernel
  have hupper : ¬.upper ∈ (CodePoint.ofChar '7').categories := by decide +kernel
  obtain ⟨hcomparison, _, hquestion, hsingle⟩ := matchesOn_by_category
  obtain ⟨hmatch, _, _⟩ := hcomparison _ {.hexDigit, .upper} _ hset (.singleton .hexDigit)
  obtain ⟨hother, _, _⟩ := hcomparison _ {.hexDigit, .upper} _ hset hexpected
  obtain ⟨hseven, _⟩ := hquestion (CodePoint.ofChar '7') _ {.digit, .upper} hwanted
  refine ⟨hset, .singleton .hexDigit, hmatch.2 ⟨by decide, fun category => ?_⟩, fun hpasses => ?_,
    hseven.2 ⟨hwanted.isKnown.includes_iff.1 hdigit, fun category hmem hbarred => ?_⟩,
    hsingle _ _⟩
  · exact hmembers category category.mem_all
  · exact absurd (hother.1 hpasses).1 (by decide)
  · simp only [mem_insert, mem_singleton] at hbarred ⊢
    rcases hbarred with rfl | rfl
    · exact Or.inl rfl
    · exact absurd hmem hupper

/-! ### Several comparisons at once -/

/-- What a masked comparison asks of a set. -/
structure Comparison where
  mask : CategorySet
  expected : CategorySet

namespace Comparison

def passes (comparison : Comparison) (set : CategorySet) : Bool :=
  set.matchesOn comparison.mask comparison.expected

/-- Asks what a list of comparisons asks, in one comparison. -/
def merge (comparisons : List Comparison) : Comparison :=
  ⟨joinAll (comparisons.map mask), joinAll (comparisons.map expected)⟩

/-- Inside both masks the same is expected. -/
def Compatible (comparison other : Comparison) : Prop :=
  comparison.expected ∩ other.mask = other.expected ∩ comparison.mask

variable {comparison other : Comparison} {comparisons : List Comparison} {set : CategorySet}

theorem passes_iff :
    comparison.passes set = true ↔ set ∩ comparison.mask = comparison.expected :=
  matchesOn_iff_inter

theorem compatible_of_passes (hcomparison : comparison.passes set = true)
    (hother : other.passes set = true) : Compatible comparison other := by
  rw [passes_iff] at hcomparison hother
  calc
    comparison.expected ∩ other.mask = set ∩ (comparison.mask ∩ other.mask) := by
      rw [← hcomparison, inter_assoc]
    _ = set ∩ (other.mask ∩ comparison.mask) := by rw [inter_comm comparison.mask]
    _ = other.expected ∩ comparison.mask := by rw [← hother, inter_assoc]

theorem passes_merge (hall : ∀ comparison ∈ comparisons, comparison.passes set = true) :
    (merge comparisons).passes set = true := by
  rw [passes_iff, merge, inter_joinAll, List.map_map]
  exact congrArg joinAll (List.map_congr_left fun comparison hmem =>
    passes_iff.1 (hall comparison hmem))

/-- Each comparison is met under its own mask, since there the others expect nothing else. -/
theorem passes_of_passes_merge
    (hinside : ∀ comparison ∈ comparisons, comparison.mask.includes comparison.expected = true)
    (hcompatible : ∀ comparison ∈ comparisons, ∀ other ∈ comparisons, Compatible comparison other)
    (hmerge : (merge comparisons).passes set = true) (hmem : comparison ∈ comparisons) :
    comparison.passes set = true := by
  have hmask : (joinAll (comparisons.map mask)).includes comparison.mask = true :=
    joinAll_includes (List.mem_map_of_mem hmem)
  have hexpected := includes_trans hmask (hinside comparison hmem)
  have hmerged : set ∩ joinAll (comparisons.map mask) = joinAll (comparisons.map expected) :=
    passes_iff.1 hmerge
  rw [includes_iff_inter] at hmask hexpected
  rw [passes_iff]
  calc
    set ∩ comparison.mask
        = joinAll (comparisons.map expected) ∩ comparison.mask := by
      rw [← hmerged, inter_assoc, hmask]
    _ = joinAll (comparisons.map fun other => comparison.mask ∩ other.expected) := by
      rw [inter_comm, inter_joinAll, List.map_map]
      rfl
    _ = joinAll (comparisons.map fun other => comparison.expected ∩ other.mask) := by
      refine congrArg joinAll (List.map_congr_left fun other hother => ?_)
      rw [inter_comm, ← hcompatible comparison hmem other hother]
    _ = joinAll (comparisons.map mask) ∩ comparison.expected := by
      rw [inter_comm (joinAll _), inter_joinAll, List.map_map]
      rfl
    _ = comparison.expected := hexpected

/-- Comparisons that expect something inside their masks only, and the same inside any two of them, are
all met exactly if the merged one is. If two expect something different inside both masks, no set meets
them all. -/
theorem passes_merge_iff_forall_passes :
    (∀ comparisons : List Comparison,
        (∀ comparison ∈ comparisons, comparison.mask.includes comparison.expected = true) →
        (∀ comparison ∈ comparisons, ∀ other ∈ comparisons,
          comparison.expected ∩ other.mask = other.expected ∩ comparison.mask) →
        ∀ set, (merge comparisons).passes set = true
          ↔ ∀ comparison ∈ comparisons, comparison.passes set = true)
      ∧ ∀ comparisons : List Comparison, ∀ comparison ∈ comparisons, ∀ other ∈ comparisons,
          comparison.expected ∩ other.mask ≠ other.expected ∩ comparison.mask →
            ∀ set, ¬∀ comparison ∈ comparisons, comparison.passes set = true := by
  refine ⟨fun comparisons hinside hcompatible set => ⟨fun hmerge comparison hmem => ?_,
    passes_merge⟩, fun comparisons comparison hmem other hother hdiffer set hall => ?_⟩
  · exact passes_of_passes_merge hinside hcompatible hmerge hmem
  · exact hdiffer (compatible_of_passes (hall comparison hmem) (hall other hother))

/-- The second two comparisons disagree about `lower`, and the merged one does not notice. -/
theorem passes_merge_iff_forall_passes_upper :
    (merge [⟨{.hexDigit, .upper}, {.hexDigit}⟩, ⟨{.word, .upper}, {.word}⟩]).passes
        {.alpha, .lower, .hexDigit, .word} = true
      ∧ (∀ comparison : Comparison,
          comparison ∈ [⟨{.hexDigit, .upper}, {.hexDigit}⟩, ⟨{.word, .upper}, {.word}⟩] →
            comparison.passes {.alpha, .lower, .hexDigit, .word} = true)
      ∧ (merge [⟨{.alpha, .lower}, {.alpha}⟩, ⟨{.lower, .digit}, {.lower}⟩]).passes
          {.alpha, .lower} = true
      ∧ ∀ set : CategorySet, ¬∀ comparison : Comparison,
          comparison ∈ [⟨{.alpha, .lower}, {.alpha}⟩, ⟨{.lower, .digit}, {.lower}⟩] →
            comparison.passes set = true := by
  have hmerge : (merge [⟨{.hexDigit, .upper}, {.hexDigit}⟩, ⟨{.word, .upper}, {.word}⟩]).passes
      {.alpha, .lower, .hexDigit, .word} = true := by decide
  obtain ⟨htogether, hapart⟩ := passes_merge_iff_forall_passes
  refine ⟨hmerge, (htogether _ (by decide) (by decide) _).1 hmerge, by decide, ?_⟩
  exact hapart _ ⟨{.alpha, .lower}, {.alpha}⟩ (by simp) ⟨{.lower, .digit}, {.lower}⟩ (by simp)
    (by decide)

end Comparison

end CategorySet

end CharClass
