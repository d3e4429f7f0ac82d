import CharClass.Proofs.Description

/-!
# The table as a tabulated function

The table is `byteCategories` written down for the bytes below `0x80`, entry by entry and each at its
own index. To fill it takes one iteration for each entry and no more, and a look-up never asks for an
entry that is not there.

A byte from `0x80` on has no categories, so it does not matter that the table leaves it out. It does
matter that a look-up refuses every code point outside the table: one that only ends in the byte of an
ASCII character has none of its categories.
-/

namespace CharClass

namespace Filling

theorem filled_advanceBy_start {count : Nat} (hcount : count ≤ 128) :
    (start.advanceBy count).Filled count := by
  have hfilled := filled_start.advanceBy (Nat.zero_le 128) count
  rwa [Nat.zero_add, Nat.min_eq_left hcount] at hfilled

/-- The last of several entries is filled like the first. -/
theorem advanceBy_succ_last {filling : Filling} {count : Nat}
    (hnext : (filling.advanceBy count).next < 128) :
    filling.advanceBy (count + 1) = (filling.advanceBy count).advance hnext := by
  induction count generalizing filling with
  | zero => exact advanceBy_succ hnext 0
  | succ count ih =>
      by_cases hfirst : filling.next < 128
      · simp only [advanceBy_succ hfirst] at hnext ⊢
        exact ih hnext
      · -- nothing is filled once the table has ended
        rw [advanceBy, dif_neg hfirst] at hnext
        exact absurd hnext hfirst

theorem exists_advance_eq {count : Nat} (hcount : count < 128) :
    ∃ hnext : (start.advanceBy count).next < 128,
      start.advanceBy (count + 1) = (start.advanceBy count).advance hnext
        ∧ (UInt8.ofNat (start.advanceBy count).next).toNat = count := by
  have hindex := (filled_advanceBy_start (Nat.le_of_lt hcount)).next_eq
  have hnext : (start.advanceBy count).next < 128 := by omega
  refine ⟨hnext, advanceBy_succ_last hnext, ?_⟩
  rw [hindex, UInt8.toNat_ofNat']
  omega

end Filling

/-! ### Bytes that have no categories -/

/-- No rule reaches beyond ASCII. -/
theorem ByteRule.toNat_lt_of_applies {rule : ByteRule} (hrule : rule ∈ byteRules) {byte : UInt8}
    (happlies : rule.applies byte = true) : byte.toNat < 0x80 := by
  have hranges : ∀ rule ∈ byteRules, ∀ range ∈ rule.ranges, range.upper.toNat < 0x80 := by decide
  obtain ⟨range, hrange, hmem⟩ := List.any_eq_true.1 happlies
  have hbounds : range.lower ≤ byte ∧ byte ≤ range.upper := of_decide_eq_true hmem
  have hbelow := UInt8.le_iff_toNat_le.1 hbounds.2
  have hupper := hranges rule hrule range hrange
  omega

theorem byteCategories_eq_empty_iff (byte : UInt8) :
    byteCategories byte = ∅ ↔ 0x80 ≤ byte.toNat := by
  refine ⟨fun hempty => ?_, fun hhigh => ?_⟩
  · apply Nat.le_of_not_lt
    intro hbyte
    have hnone : (CodePoint.categories (Int32.ofNat byte.toNat)).isEmpty = true := by
      rw [CodePoint.categories_ofNat ⟨byte.toNat, hbyte⟩, UInt8.ofNat_toNat, hempty]
      rfl
    rw [CodePoint.isEmpty_categories, ← Bool.not_eq_true, CodePoint.isAscii_iff,
      CodePoint.toInt_ofNat ⟨byte.toNat, hbyte⟩] at hnone
    omega
  · have hnone : byteRules.find? (fun rule => rule.applies byte) = none := by
      rw [List.find?_eq_none]
      intro rule hrule happlies
      have hlow := ByteRule.toNat_lt_of_applies hrule happlies
      omega
    rw [byteCategories, hnone]

namespace CodePoint

/-! ### Looking up a code point -/

/-- The byte that a code point ends in. -/
def lowByte (ch : CodePoint) : UInt8 := UInt8.ofNat (ch.toInt % 0x100).toNat

theorem toNat_lowByte (ch : CodePoint) : (ch.lowByte.toNat : Int) = ch.toInt % 0x100 := by
  rw [lowByte, UInt8.toNat_ofNat']
  omega

variable {ch : CodePoint}

theorem map_val_tableIndex?_eq_some_iff {i : Nat} :
    ch.tableIndex?.map Fin.val = some i
      ↔ (0 ≤ ch.toInt ∧ ch.toInt ≤ 0x7F) ∧ (i : Int) = ch.toInt := by
  by_cases hascii : ch.isAscii = true
  · obtain ⟨index, rfl⟩ := exists_ofNat_eq hascii
    have hindex := index.isLt
    rw [tableIndex?_ofNat, Option.map_some, Option.some.injEq, toInt_ofNat]
    omega
  · rw [tableIndex?_of_not_isAscii hascii, ← isAscii_iff]
    simp [hascii]

theorem toInt_of_tableIndex? {index : Fin 128} (hch : ch.tableIndex? = some index) :
    ch.toInt = index.val := by
  have hindex : ch.tableIndex?.map Fin.val = some index.val := by rw [hch, Option.map_some]
  exact (map_val_tableIndex?_eq_some_iff.1 hindex).2.symm

theorem tableIndex?_inj {other : CodePoint} {index : Fin 128} (hch : ch.tableIndex? = some index)
    (hother : other.tableIndex? = some index) : ch = other := by
  rw [← Int32.toInt_inj, toInt_of_tableIndex? hch, toInt_of_tableIndex? hother]

theorem getElem?_table_of_tableIndex? {i : Nat} (hindex : ch.tableIndex?.map Fin.val = some i) :
    table[i]? = some ch.categories := by
  obtain ⟨index, hsome, rfl⟩ := Option.map_eq_some_iff.1 hindex
  rw [categories, hsome, Vector.getElem?_eq_getElem index.isLt]
  rfl

theorem categories_eq_byteCategories_lowByte (hbyte : 0 ≤ ch.toInt ∧ ch.toInt ≤ 0xFF) :
    ch.categories = byteCategories ch.lowByte := by
  by_cases hascii : ch.isAscii = true
  · obtain ⟨index, rfl⟩ := exists_ofNat_eq hascii
    have hlow : lowByte (Int32.ofNat index.val) = UInt8.ofNat index.val := by
      have hvalue := toNat_lowByte (Int32.ofNat index.val)
      rw [toInt_ofNat] at hvalue
      rw [← UInt8.toNat_inj, UInt8.toNat_ofNat']
      omega
    rw [categories_ofNat, hlow]
  · have hvalue := toNat_lowByte ch
    rw [isAscii_iff] at hascii
    have hhigh : 0x80 ≤ ch.lowByte.toNat := by omega
    rw [categories_of_not_isAscii (mt isAscii_iff.1 hascii), (byteCategories_eq_empty_iff _).2 hhigh]

end CodePoint

/-- After any number of iterations that many entries are filled and the rest are empty. Each iteration
fills the next entry, whose index is inside the table and is a byte, and after 128 of them the table
is finished.

A look-up takes an ASCII code point, and no other, to the entry at its own index. So every byte gets
its own categories, those from `0x80` on included. Any other code point has no categories, although
the byte that it ends in has some if it is below `0x80`. -/
theorem table_tabulates_byteCategories :
    (∀ count ≤ 128, (Filling.start.advanceBy count).Filled count)
      ∧ (∀ count < 128, ∃ hnext : (Filling.start.advanceBy count).next < 128,
          Filling.start.advanceBy (count + 1) = (Filling.start.advanceBy count).advance hnext
            ∧ (UInt8.ofNat (Filling.start.advanceBy count).next).toNat = count)
      ∧ ¬(Filling.start.advanceBy 128).next < 128
      ∧ Filling.start.finish = Filling.start.advanceBy 128
      ∧ (∀ (i : Nat) (hi : i < 128), table[i] = byteCategories (UInt8.ofNat i))
      ∧ (∀ (ch : CodePoint) (i : Nat), ch.tableIndex?.map Fin.val = some i
          ↔ (0 ≤ ch.toInt ∧ ch.toInt ≤ 0x7F) ∧ (i : Int) = ch.toInt)
      ∧ (∀ (ch other : CodePoint) (index : Fin 128), ch.tableIndex? = some index →
          other.tableIndex? = some index → ch = other)
      ∧ (∀ (ch : CodePoint) (i : Nat), ch.tableIndex?.map Fin.val = some i →
          table[i]? = some ch.categories)
      ∧ (∀ ch : CodePoint, 0 ≤ ch.toInt ∧ ch.toInt ≤ 0xFF →
          (ch.lowByte.toNat : Int) = ch.toInt ∧ ch.categories = byteCategories ch.lowByte)
      ∧ ∀ ch : CodePoint, ¬(0 ≤ ch.toInt ∧ ch.toInt ≤ 0xFF) →
          (ch.lowByte.toNat : Int) = ch.toInt % 0x100
            ∧ ch.categories = ∅
            ∧ (byteCategories ch.lowByte = ∅ ↔ 0x80 ≤ ch.lowByte.toNat) := by
  refine ⟨fun count hcount => Filling.filled_advanceBy_start hcount,
    fun count hcount => Filling.exists_advance_eq hcount, ?_, Filling.finish_eq_advanceBy _,
    getElem_table, fun ch i => CodePoint.map_val_tableIndex?_eq_some_iff,
    fun ch other index hch hother => CodePoint.tableIndex?_inj hch hother,
    fun ch i hindex => CodePoint.getElem?_table_of_tableIndex? hindex, fun ch hbyte => ⟨?_, ?_⟩,
    fun ch hout => ⟨ch.toNat_lowByte, ?_, byteCategories_eq_empty_iff _⟩⟩
  · rw [(Filling.filled_advanceBy_start (Nat.le_refl 128)).next_eq]
    exact Nat.lt_irrefl 128
  · have hvalue := ch.toNat_lowByte
    omega
  · exact CodePoint.categories_eq_byteCategories_lowByte hbyte
  · apply CodePoint.categories_of_not_isAscii
    rw [Ne, CodePoint.isAscii_iff]
    omega

/-- `A` has the last entry of the first `0x42`. The code point `0xC1` is a byte that has no entry, and
`0x141` is no byte and only ends in that of `A`. -/
theorem table_tabulates_byteCategories_A :
    (Filling.start.advanceBy 0x42).Filled 0x42
      ∧ (Filling.start.advanceBy 0x41).next < 128
      ∧ (CodePoint.ofChar 'A').tableIndex? = some 0x41
      ∧ CodePoint.ofChar 'A' = 0x41
      ∧ table[0x41]? = some (CodePoint.ofChar 'A').categories
      ∧ (0xC1 : CodePoint).categories = byteCategories 0xC1
      ∧ (0x141 : CodePoint).categories = ∅
      ∧ byteCategories (CodePoint.lowByte 0x141) ≠ ∅ := by
  obtain ⟨hfilled, hiterations, _, _, _, _, hinj, hread, hbyte, hother⟩ :=
    table_tabulates_byteCategories
  have hindex : (CodePoint.ofChar 'A').tableIndex? = some 0x41 := by decide
  obtain ⟨hnext, _⟩ := hiterations 0x41 (by decide)
  obtain ⟨_, hnone, hempty⟩ := hother 0x141 (by decide)
  refine ⟨hfilled 0x42 (by decide), hnext, hindex, hinj _ _ _ hindex (by decide),
    hread _ _ (by rw [hindex]; rfl), (hbyte 0xC1 (by decide)).2, hnone, ?_⟩
  exact mt hempty.1 (by decide)

end CharClass
