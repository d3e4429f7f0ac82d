import CharClass.CategorySet.Cursor
import CharClass.CategorySet.Session
import CharClass.Table

/-!
# Sets that can be built

A set is constructible if the operations of this library lead to it, starting from the constants, raw
words, code points and entries of the table. A walk through a constructible set hands out further ones
with the names. The stored word has three bits that stand for nothing; no constructible set has one of
them set (`Constructible.isKnown`), so a constructible set is determined by its members.
-/

namespace CharClass.CategorySet

/-- The sets that the operations lead to. -/
inductive Constructible : CategorySet → Prop
  | empty : Constructible ∅
  | default : Constructible default
  | singleton (category : Category) : Constructible {category}
  | ofBits (word : BitVec 16) : Constructible (ofBits word)
  | categories (ch : CodePoint) : Constructible ch.categories
  | entry (index : Fin 128) : Constructible (table.get index)
  | listed {set : CategorySet} {item : Item} (hset : Constructible set)
      (hlisted : item ∈ set.items) : Constructible item.2
  | union {set other : CategorySet} (hset : Constructible set) (hother : Constructible other) :
      Constructible (set.union other)
  | inter {set other : CategorySet} (hset : Constructible set) (hother : Constructible other) :
      Constructible (set.inter other)
  | join {set operand : CategorySet} (spelling : Spelling) (hset : Constructible set)
      (hoperand : Constructible operand) : Constructible ((Update.join spelling operand).apply set)
  | meet {set operand : CategorySet} (spelling : Spelling) (hset : Constructible set)
      (hoperand : Constructible operand) : Constructible ((Update.meet spelling operand).apply set)

theorem isKnown_categories_of_mem_byteRules : ∀ rule ∈ byteRules, rule.categories.IsKnown := by
  decide

theorem isKnown_byteCategories (byte : UInt8) : (byteCategories byte).IsKnown := by
  unfold byteCategories
  split
  next rule hrule =>
    exact isKnown_categories_of_mem_byteRules rule (List.mem_of_find?_eq_some hrule)
  next => exact isKnown_empty

theorem isKnown_get_table (index : Fin 128) : (table.get index).IsKnown := by
  rw [get_table]
  exact isKnown_byteCategories _

theorem isKnown_categories (ch : CodePoint) : ch.categories.IsKnown := by
  unfold CodePoint.categories
  split
  · exact isKnown_get_table _
  · exact isKnown_empty

theorem Constructible.isKnown {set : CategorySet} (hset : Constructible set) : set.IsKnown := by
  induction hset with
  | empty => exact isKnown_empty
  | default => exact isKnown_empty
  | singleton category => exact isKnown_singleton category
  | ofBits word => exact isKnown_ofBits word
  | categories ch => exact isKnown_categories ch
  | entry index => exact isKnown_get_table index
  | listed _ hlisted =>
      obtain ⟨category, _, rfl⟩ := mem_items.1 hlisted
      exact isKnown_singleton category
  | union _ _ hset hother => exact hset.union hother
  | inter _ _ hset _ => exact hset.inter
  | join spelling _ _ hset hoperand =>
      rw [Update.apply_join]
      exact hset.union hoperand
  | meet spelling _ _ hset _ =>
      rw [Update.apply_meet]
      exact hset.inter

theorem Constructible.ext {set other : CategorySet} (hset : Constructible set)
    (hother : Constructible other) (hmem : ∀ category, category ∈ set ↔ category ∈ other) :
    set = other :=
  hset.isKnown.ext hother.isKnown hmem

theorem IsKnown.constructible {set : CategorySet} (hset : set.IsKnown) : Constructible set := by
  rw [← hset.ofBits_bits]
  exact Constructible.ofBits set.bits

end CharClass.CategorySet
