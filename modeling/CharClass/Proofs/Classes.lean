import CharClass.CategorySet.Constructible
import CharClass.Ranges

/-!
# Classes of code points

A code point has a category exactly if it lies in one of the ranges of that category, and a predicate
holds exactly on its own ranges. The table is compared with the ranges once, entry by entry; a code
point outside ASCII has no entry and lies in no range.

From there on a question that goes through a mask is a question about membership, and the rest is
comparing integers. The rest of the proofs reach the table only through `CodePoint.mem_categories`.
-/

namespace CharClass

open CodePoint (between)

/-! ### Inside ASCII and outside -/

namespace CodePoint

theorem isAscii_iff {ch : CodePoint} : ch.isAscii = true ↔ 0 ≤ ch.toInt ∧ ch.toInt ≤ 0x7F := by
  rw [isAscii, decide_eq_true_iff, mem_range]
  rfl

theorem toInt_ofNat (index : Fin 128) : (Int32.ofNat index.val).toInt = index.val := by
  have hlt := index.isLt
  exact Int32.toInt_ofNat_of_lt (by omega)

/-- An ASCII code point is one of the indices of the table. -/
theorem exists_ofNat_eq {ch : CodePoint} (hascii : ch.isAscii = true) :
    ∃ index : Fin 128, Int32.ofNat index.val = ch := by
  rw [isAscii_iff] at hascii
  have hlt : ch.toInt.toNat < 128 := by omega
  refine ⟨⟨ch.toInt.toNat, hlt⟩, Int32.toInt_inj.1 ?_⟩
  rw [toInt_ofNat]
  exact Int.toNat_of_nonneg hascii.1

/-- What holds at every index of the table holds of every ASCII code point. -/
theorem forall_of_isAscii {P : CodePoint → Prop}
    (hindices : ∀ index : Fin 128, P (Int32.ofNat index.val)) {ch : CodePoint}
    (hascii : ch.isAscii = true) : P ch := by
  obtain ⟨index, rfl⟩ := exists_ofNat_eq hascii
  exact hindices index

theorem tableIndex?_ofNat (index : Fin 128) :
    tableIndex? (Int32.ofNat index.val) = some index := by
  have hlt := index.isLt
  have hmem : Int32.ofNat index.val ∈ (0x00 : CodePoint)...=0x7F := by
    rw [mem_range, toInt_ofNat]
    change (0 : Int) ≤ _ ∧ _ ≤ (127 : Int)
    omega
  rw [tableIndex?, dif_pos hmem]
  congr
  rw [toInt_ofNat]
  rfl

theorem categories_ofNat (index : Fin 128) :
    categories (Int32.ofNat index.val) = byteCategories (UInt8.ofNat index.val) := by
  rw [categories, tableIndex?_ofNat]
  exact get_table index

theorem tableIndex?_of_not_isAscii {ch : CodePoint} (hascii : ch.isAscii ≠ true) :
    ch.tableIndex? = none := by
  have hout : ¬ch ∈ (0x00 : CodePoint)...=0x7F := fun hmem => hascii (decide_eq_true hmem)
  rw [tableIndex?, dif_neg hout]

theorem categories_of_not_isAscii {ch : CodePoint} (hascii : ch.isAscii ≠ true) :
    ch.categories = ∅ := by
  rw [categories, tableIndex?_of_not_isAscii hascii]

end CodePoint

/-- A class whose ranges end inside ASCII has ASCII code points only. -/
theorem InRanges.isAscii {ch : CodePoint} {ranges : List (Std.Rcc CodePoint)}
    (hranges : ∀ range ∈ ranges, 0 ≤ range.lower.toInt ∧ range.upper.toInt ≤ 0x7F)
    (hch : InRanges ch ranges) : ch.isAscii = true := by
  obtain ⟨range, hrange, hmem⟩ := hch
  have hinside : ch ∈ range.lower...=range.upper := hmem
  obtain ⟨hlower, hupper⟩ := CodePoint.mem_range.1 hinside
  obtain ⟨hfirst, hlast⟩ := hranges range hrange
  rw [CodePoint.isAscii_iff]
  omega

theorem Category.ranges_ascii (category : Category) :
    ∀ range ∈ category.ranges, 0 ≤ range.lower.toInt ∧ range.upper.toInt ≤ 0x7F := by
  cases category <;> decide

theorem Predicate.ranges_ascii (predicate : Predicate) :
    ∀ range ∈ predicate.ranges, 0 ≤ range.lower.toInt ∧ range.upper.toInt ≤ 0x7F := by
  cases predicate <;> decide

@[simp] theorem inRanges_nil (ch : CodePoint) : ¬InRanges ch [] := by
  intro hch
  obtain ⟨range, hrange, _⟩ := hch
  exact List.not_mem_nil hrange

@[simp] theorem inRanges_cons {ch : CodePoint} {range : Std.Rcc CodePoint}
    {ranges : List (Std.Rcc CodePoint)} :
    InRanges ch (range :: ranges) ↔ ch ∈ range ∨ InRanges ch ranges := by
  simp [InRanges]

/-! ### The table and the ranges -/

theorem mem_byteCategories {category : Category} (index : Fin 128) :
    category ∈ byteCategories (UInt8.ofNat index.val)
      ↔ InRanges (Int32.ofNat index.val) category.ranges := by
  have hentries : ∀ entry : Fin 128, ∀ category ∈ Category.all,
      category ∈ byteCategories (UInt8.ofNat entry.val)
        ↔ InRanges (Int32.ofNat entry.val) category.ranges := by decide +kernel
  exact hentries index category category.mem_all

theorem CodePoint.mem_categories {category : Category} {ch : CodePoint} :
    category ∈ ch.categories ↔ InRanges ch category.ranges := by
  by_cases hascii : ch.isAscii = true
  · obtain ⟨index, rfl⟩ := exists_ofNat_eq hascii
    rw [categories_ofNat]
    exact mem_byteCategories index
  · have hout : ¬InRanges ch category.ranges := fun hch =>
      hascii (hch.isAscii category.ranges_ascii)
    rw [categories_of_not_isAscii hascii]
    exact iff_of_false (CategorySet.not_mem_empty category) hout

theorem CodePoint.isAscii_of_mem_categories {category : Category} {ch : CodePoint}
    (hmem : category ∈ ch.categories) : ch.isAscii = true :=
  (mem_categories.1 hmem).isAscii category.ranges_ascii

/-! ### Questions to the table -/

namespace CodePoint

variable {ch : CodePoint}

theorem hasAny_singleton {wanted : Category} :
    ch.hasAny {wanted} = true ↔ wanted ∈ ch.categories :=
  (CategorySet.isKnown_categories ch).intersects_singleton

/-- A barred category that is wanted as well is not barred. -/
theorem hasWithout_iff {wanted barred : CategorySet} (hwanted : wanted.IsKnown) :
    ch.hasWithout wanted barred = true
      ↔ (∀ category, category ∈ wanted → category ∈ ch.categories)
        ∧ ∀ category, category ∈ barred → category ∈ ch.categories → category ∈ wanted := by
  rw [hasWithout, (CategorySet.isKnown_categories ch).matchesOn_iff hwanted]
  refine ⟨fun hmatch => ?_, fun hquestion category => ?_⟩
  · refine ⟨fun category hmem => ((hmatch category).2 hmem).1, fun category hbarred hmem => ?_⟩
    exact (hmatch category).1 ⟨hmem, CategorySet.mem_union.2 (Or.inr hbarred)⟩
  · obtain ⟨hall, hnone⟩ := hquestion
    rw [CategorySet.mem_union]
    refine ⟨fun hmasked => ?_, fun hwant => ⟨hall category hwant, Or.inl hwant⟩⟩
    obtain ⟨hmem, hwant | hbarred⟩ := hmasked
    · exact hwant
    · exact hnone category hbarred hmem

theorem hasWithout_singleton {wanted barred : Category} (hne : barred ≠ wanted) :
    ch.hasWithout {wanted} {barred} = true ↔ wanted ∈ ch.categories ∧ ¬barred ∈ ch.categories := by
  rw [hasWithout_iff (CategorySet.isKnown_singleton wanted)]
  simp only [CategorySet.mem_singleton]
  refine ⟨fun hquestion => ?_, fun hmembers => ?_⟩
  · obtain ⟨hall, hnone⟩ := hquestion
    exact ⟨hall wanted rfl, fun hmem => hne (hnone barred rfl hmem)⟩
  · obtain ⟨hmem, hnot⟩ := hmembers
    refine ⟨fun category hcategory => hcategory ▸ hmem, fun category hcategory hbarred => ?_⟩
    exact absurd (hcategory ▸ hbarred) hnot

end CodePoint

/-! ### The predicates and the ranges -/

theorem Predicate.test_iff {predicate : Predicate} {ch : CodePoint} :
    predicate.test ch = true ↔ InRanges ch predicate.ranges := by
  cases predicate with
  | hexDigit | word | wordStart | punctuation | whitespace =>
      exact CodePoint.hasAny_singleton.trans CodePoint.mem_categories
  | lowerHexDigit | upperHexDigit | lowerWord | upperWord | lowerWordStart | upperWordStart =>
      -- the ranges of the wanted category without those of the barred letter case
      refine (CodePoint.hasWithout_singleton (by decide)).trans ?_
      rw [CodePoint.mem_categories, CodePoint.mem_categories]
      simp only [Category.ranges, ranges, inRanges_cons, inRanges_nil, or_false,
        CodePoint.mem_between, Char.reduceToNat]
      omega
  | alpha | lower | upper | digit =>
      simp only [test, CodePoint.isAlpha, CodePoint.isLower, CodePoint.isUpper, CodePoint.isDigit,
        Bool.or_eq_true, decide_eq_true_iff, ranges, Category.ranges, inRanges_cons, inRanges_nil,
        or_false]
  | ascii | blank | null | control | printable | graphical =>
      simp only [test, CodePoint.isAscii, CodePoint.isBlank, CodePoint.isNull,
        CodePoint.isControl, CodePoint.isPrintable, CodePoint.isGraphical, Bool.or_eq_true,
        decide_eq_true_iff, beq_iff_eq, ← Int32.toInt_inj, CodePoint.mem_range, ranges,
        Category.ranges, inRanges_cons, inRanges_nil, or_false, CodePoint.mem_between,
        Char.reduceToNat, Int32.reduceToInt]
      omega

/-- Every predicate is the function that its ranges describe, whichever way it is computed, and it
holds for no code point outside ASCII. -/
theorem Predicate.test_eq_inRanges (predicate : Predicate) :
    (predicate.test = fun ch => decide (InRanges ch predicate.ranges))
      ∧ ∀ ch : CodePoint, ¬(0 ≤ ch.toInt ∧ ch.toInt ≤ 0x7F) → predicate.test ch = false := by
  refine ⟨?_, fun ch hout => ?_⟩
  · funext ch
    rw [Bool.eq_iff_iff, test_iff, decide_eq_true_iff]
  · rw [Bool.eq_false_iff]
    intro htest
    have hascii : ch.isAscii = true := (test_iff.1 htest).isAscii predicate.ranges_ascii
    exact hout (CodePoint.isAscii_iff.1 hascii)

/-- The low byte of `0x161` is a lower case letter, and the code point is none. -/
theorem Predicate.test_eq_inRanges_alias :
    ¬(0 ≤ (0x161 : CodePoint).toInt ∧ (0x161 : CodePoint).toInt ≤ 0x7F)
      ∧ Predicate.lower.test 0x161 = false := by
  have hout : ¬(0 ≤ (0x161 : CodePoint).toInt ∧ (0x161 : CodePoint).toInt ≤ 0x7F) := by decide
  exact ⟨hout, (Predicate.test_eq_inRanges .lower).2 0x161 hout⟩

example : Predicate.lowerWord.ranges.map (fun range => (range.lower.toInt, range.upper.toInt))
    = [(0x5F, 0x5F), (0x30, 0x39), (0x61, 0x7A)] := by decide

end CharClass
