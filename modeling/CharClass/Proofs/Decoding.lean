import CharClass.Proofs.Items
import CharClass.Proofs.Order

/-!
# Decoding raw words

A raw word may have bits that stand for no category. Decoding meets it with the word of the full set,
which drops exactly those bits, since the full set is the join of the thirteen items. So a word is
decoded to the join of the items whose bits it has, and to the largest set inside the word.

A meet with a fixed word commutes with joins and meets. Raw words can therefore be combined before they
are decoded or after, one at a time or a whole list of them.
-/

namespace CharClass.CategorySet

variable {set : CategorySet} {word : BitVec 16}

theorem ofBits_eq_inter_full (word : BitVec 16) : ofBits word = ⟨word⟩ ∩ full := rfl

/-! ### One word -/

/-- A word is decoded to the items whose bit it has. -/
theorem items_ofBits (word : BitVec 16) :
    (ofBits word).items = allItems.filter fun item => word &&& item.2.bits == item.2.bits := by
  apply items_eq_filter_of_mem_iff
  intro category
  change includes ⟨word⟩ {category} = true ↔ category ∈ ofBits word
  rw [includes_singleton, mem_ofBits, mem_def]

theorem ofBits_eq_joinAll (word : BitVec 16) :
    ofBits word
      = joinAll ((allItems.filter fun item => word &&& item.2.bits == item.2.bits).map
          Prod.snd) := by
  rw [← items_ofBits, (isKnown_ofBits word).joinAll_items]

theorem joinAll_allItems : joinAll (allItems.map Prod.snd) = full := by decide

theorem includes_ofBits (word : BitVec 16) : includes ⟨word⟩ (ofBits word) = true :=
  (inter_includes_iff.1 (includes_refl (ofBits word))).1

theorem isKnown_iff_full_includes : set.IsKnown ↔ full.includes set = true := by
  rw [includes_iff_inter, inter_comm]
  exact ⟨fun hset => CategorySet.ext hset, fun hset => congrArg bits hset⟩

theorem IsKnown.ofBits_includes_iff (hset : set.IsKnown) :
    (ofBits word).includes set = true ↔ includes ⟨word⟩ set = true := by
  rw [ofBits_eq_inter_full, inter_includes_iff]
  exact and_iff_left (isKnown_iff_full_includes.1 hset)

/-! ### Several words -/

theorem ofBits_or (first second : BitVec 16) :
    ofBits (first ||| second) = ofBits first ∪ ofBits second :=
  union_inter_distrib_right ⟨first⟩ ⟨second⟩ full

theorem ofBits_and (first second : BitVec 16) :
    ofBits (first &&& second) = ofBits first ∩ ofBits second :=
  inter_inter_distrib_right ⟨first⟩ ⟨second⟩ full

theorem ofBits_foldl_or (words : List (BitVec 16)) :
    ofBits (words.foldl (· ||| ·) 0#16) = joinAll (words.map ofBits) := by
  rw [joinAll, List.foldl_map]
  exact (List.foldl_hom ofBits fun joined word => (ofBits_or joined word).symm).symm

/-- A word is decoded to the join of the items whose bits it has, the items being those of the known
bits. This is the largest set inside the word, and the set itself where the word is that of a set.
Words may be joined or met before they are decoded as well as after. -/
theorem ofBits_retracts_words :
    (∀ word : BitVec 16,
        ofBits word
          = joinAll ((allItems.filter fun item => word &&& item.2.bits == item.2.bits).map
              Prod.snd))
      ∧ knownBits = (joinAll (allItems.map Prod.snd)).bits
      ∧ (∀ word : BitVec 16,
          (Constructible (ofBits word) ∧ word &&& (ofBits word).bits = (ofBits word).bits)
            ∧ ∀ set : CategorySet, Constructible set → word &&& set.bits = set.bits →
                (ofBits word).includes set = true)
      ∧ (∀ set : CategorySet, Constructible set → ofBits set.bits = set)
      ∧ (∀ first second : BitVec 16,
          ofBits (first ||| second) = ofBits first ∪ ofBits second
            ∧ ofBits (first &&& second) = ofBits first ∩ ofBits second)
      ∧ ∀ words : List (BitVec 16),
          ofBits (words.foldl (· ||| ·) 0#16) = joinAll (words.map ofBits) := by
  refine ⟨ofBits_eq_joinAll, (congrArg bits joinAll_allItems).symm, fun word => ?_,
    fun set hset => hset.isKnown.ofBits_bits,
    fun first second => ⟨ofBits_or first second, ofBits_and first second⟩, ofBits_foldl_or⟩
  refine ⟨⟨.ofBits word, beq_iff_eq.1 (includes_ofBits word)⟩, fun set hset hinside => ?_⟩
  rw [hset.isKnown.ofBits_includes_iff, includes, beq_iff_eq]
  exact hinside

/-- The word has the bits of `alpha` and `digit` and three that stand for nothing. -/
theorem ofBits_retracts_words_alpha_digit :
    ofBits 0xE009#16 = {.alpha, .digit}
      ∧ (ofBits 0xE009#16).includes {.digit} = true
      ∧ ofBits ({.alpha, .digit} : CategorySet).bits = {.alpha, .digit}
      ∧ ofBits (0xE001#16 &&& 0xE009#16) = {.alpha}
      ∧ joinAll ([0xE001#16, 0x8008#16, 0x2000#16].map ofBits) = {.alpha, .digit} := by
  obtain ⟨hitems, _, hlargest, hretract, hwords, hlist⟩ := ofBits_retracts_words
  obtain ⟨_, hinside⟩ := hlargest 0xE009#16
  refine ⟨(hitems 0xE009#16).trans (by decide), hinside _ (.singleton .digit) (by decide),
    hretract _ (IsKnown.constructible (by decide)),
    (hwords 0xE001#16 0xE009#16).2.trans (by decide), ?_⟩
  exact (hlist [0xE001#16, 0x8008#16, 0x2000#16]).symm.trans (by decide)

end CharClass.CategorySet
