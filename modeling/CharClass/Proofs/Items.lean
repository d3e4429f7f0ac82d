import CharClass.CategorySet.Constructible
import CharClass.Proofs.Listing
import Mathlib.Data.List.Infix

/-!
# The items of a set

A walk through a set hands out an item for each member. So the items of a set are some of the thirteen
in their order.

Which ones they are tells everything about the set. Joining the items gives the set back, and what one
asks of two sets can be asked of the two lists instead: inclusion is being a sublist, a join and a meet
keep the items found in one or in both, and two sets intersect where their lists share a name.
-/

namespace CharClass

theorem Category.item_injective : Function.Injective Category.item :=
  fun _ _ hitem => name_inj.1 (congrArg Prod.fst hitem)

namespace CategorySet

variable {set other : CategorySet}

theorem name_mem_names {category : Category} : category.name ∈ set.names ↔ category ∈ set := by
  rw [names_eq, ← mem_toList]
  refine ⟨fun hname => ?_, fun hmem => List.mem_map_of_mem hmem⟩
  obtain ⟨found, hfound, heq⟩ := List.mem_map.1 hname
  rwa [← Category.name_inj.1 heq]

/-- Of all items, those of the members of a set are the items of the set. -/
theorem items_eq_filter_of_mem_iff (keep : Item → Bool)
    (hkeep : ∀ category : Category, keep category.item = true ↔ category ∈ set) :
    set.items = allItems.filter keep := by
  rw [items_eq_filter_includes]
  refine List.filter_congr fun item hitem => ?_
  obtain ⟨category, _, rfl⟩ := List.mem_map.1 hitem
  rw [Bool.eq_iff_iff, hkeep]
  exact includes_singleton

/-! ### One set -/

theorem items_sublist (set : CategorySet) : set.items.Sublist allItems := by
  rw [items_eq_filter_includes]
  exact List.filter_sublist

theorem pairwise_bits_items (set : CategorySet) :
    set.items.Pairwise fun first second => first.2.bits < second.2.bits := by
  have hall : allItems.Pairwise fun first second => first.2.bits < second.2.bits := by decide
  exact hall.sublist set.items_sublist

theorem cpopNatRec_eq_countP {width : Nat} (word : BitVec width) (count : Nat) :
    word.cpopNatRec count 0 = (List.range count).countP word.getLsbD := by
  induction count with
  | zero => rfl
  | succ count ih =>
      rw [BitVec.cpopNatRec_succ, BitVec.cpopNatRec_add, ih, List.range_succ, List.countP_append,
        List.countP_singleton]
      cases word.getLsbD count <;> rfl

theorem IsKnown.cpop_bits (hset : set.IsKnown) :
    set.bits.cpop.toNat = (List.range 13).countP set.bits.getLsbD := by
  -- the three bits that stand for nothing are not set, so they can be counted along
  have hunset : ∀ i, 13 ≤ i → set.bits.getLsbD i = false := by
    intro i hi
    by_contra hbit
    have := isKnown_iff.1 hset i (by simpa using hbit)
    omega
  rw [BitVec.toNat_cpop, BitVec.cpopNatRec_succ, BitVec.cpopNatRec_succ, BitVec.cpopNatRec_succ,
    hunset 13 (by omega), hunset 14 (by omega), hunset 15 (by omega)]
  exact cpopNatRec_eq_countP set.bits 13

/-- There are as many items as set bits, since the positions are the thirteen lowest ones. -/
theorem IsKnown.length_items (hset : set.IsKnown) : set.items.length = set.bits.cpop.toNat := by
  have hpositions : Category.all.map Category.position = List.range 13 := by decide
  calc
    set.items.length = Category.all.countP (· ∈ set) := by
      rw [items_eq, List.length_map, toList, List.countP_eq_length_filter]
    _ = Category.all.countP (set.bits.getLsbD ∘ Category.position) := by
      apply List.countP_congr
      intro category _
      rw [decide_eq_true_iff]
      exact mem_def
    _ = set.bits.cpop.toNat := by rw [← List.countP_map, hpositions, hset.cpop_bits]

theorem IsKnown.joinAll_items (hset : set.IsKnown) : joinAll (set.items.map Prod.snd) = set := by
  have hsingle : set.items.map Prod.snd
      = set.toList.map fun category => ({category} : CategorySet) := by
    rw [items_eq, List.map_map]
    rfl
  rw [hsingle]
  have hknown : ∀ joined ∈ set.toList.map fun category => ({category} : CategorySet),
      joined.IsKnown := by
    intro joined hjoined
    obtain ⟨category, _, rfl⟩ := List.mem_map.1 hjoined
    exact isKnown_singleton category
  refine (isKnown_joinAll hknown).ext hset fun category => ?_
  simp

theorem existsUnique_items_eq {part : List (String × CategorySet)} (hpart : part.Sublist allItems) :
    ∃! set, Constructible set ∧ set.items = part := by
  obtain ⟨categories, hcategories, rfl⟩ := List.sublist_map_iff.1 hpart
  have hknown := isKnown_ofList categories
  refine ⟨ofList categories, ⟨hknown.constructible, ?_⟩, fun set hset => ?_⟩
  · rw [items_eq, toList_ofList hcategories]
  · obtain ⟨hconstructible, hitems⟩ := hset
    rw [items_eq] at hitems
    have hlist : set.toList = categories := Category.item_injective.list_map hitems
    rw [← hlist, hconstructible.isKnown.ofList_toList]

/-! ### Two sets -/

theorem IsKnown.toList_sublist_iff (hother : other.IsKnown) :
    other.toList.Sublist set.toList ↔ set.includes other = true := by
  rw [hother.includes_iff]
  refine ⟨fun hsub category hmem => mem_toList.1 (hsub.subset (mem_toList.2 hmem)), fun hall => ?_⟩
  have hfilter : other.toList = set.toList.filter (· ∈ other) := by
    rw [toList, toList, List.filter_filter]
    apply List.filter_congr
    intro category _
    by_cases hmem : category ∈ other
    · simp [hmem, hall category hmem]
    · simp [hmem]
  rw [hfilter]
  exact List.filter_sublist

theorem IsKnown.names_sublist_iff (hother : other.IsKnown) :
    other.names.Sublist set.names ↔ set.includes other = true := by
  rw [names_eq, names_eq, ← hother.toList_sublist_iff]
  refine ⟨fun hsub => ?_, fun hsub => hsub.map Category.name⟩
  obtain ⟨categories, hcategories, hnames⟩ := List.sublist_map_iff.1 hsub
  have hinj : Function.Injective Category.name := fun _ _ hname => Category.name_inj.1 hname
  rwa [hinj.list_map hnames]

theorem items_union (set other : CategorySet) :
    (set ∪ other).items
      = allItems.filter fun item => item.1 ∈ set.names ∨ item.1 ∈ other.names := by
  apply items_eq_filter_of_mem_iff
  intro category
  rw [decide_eq_true_iff, mem_union]
  exact or_congr name_mem_names name_mem_names

theorem items_inter (set other : CategorySet) :
    (set ∩ other).items
      = allItems.filter fun item => item.1 ∈ set.names ∧ item.1 ∈ other.names := by
  apply items_eq_filter_of_mem_iff
  intro category
  rw [decide_eq_true_iff, mem_inter]
  exact and_congr name_mem_names name_mem_names

theorem IsKnown.intersects_iff_shared_name (hset : set.IsKnown) :
    set.intersects other = true ↔ ∃ name ∈ set.names, name ∈ other.names := by
  rw [hset.intersects_iff]
  constructor
  · rintro ⟨category, hmem, hother⟩
    exact ⟨category.name, name_mem_names.2 hmem, name_mem_names.2 hother⟩
  · rintro ⟨name, hname, hother⟩
    rw [names_eq] at hname
    obtain ⟨category, hmem, rfl⟩ := List.mem_map.1 hname
    exact ⟨category, mem_toList.1 hmem, name_mem_names.1 hother⟩

/-- The items of a set are the single bits of its members with their names, lowest bit first, and
together they are the set. Every choice among the thirteen items is that of one set, and the order and
the operations of sets are those of the lists. -/
theorem items_isomorphism :
    (∀ set : CategorySet, Constructible set →
        set.items = allItems.filter (fun item => set.includes item.2)
          ∧ set.items.Pairwise (fun first second => first.2.bits < second.2.bits)
          ∧ (∀ item ∈ set.items, ∃ category ∈ set,
              item.1 = category.name ∧ item.2.bits = BitVec.twoPow 16 category.position)
          ∧ set.items.length = set.bits.cpop.toNat
          ∧ joinAll (set.items.map Prod.snd) = set)
      ∧ (∀ part : List (String × CategorySet), part.Sublist allItems →
          ∃! set, Constructible set ∧ set.items = part)
      ∧ ∀ set other : CategorySet, Constructible set → Constructible other →
          (set.includes other = true ↔ other.names.Sublist set.names)
            ∧ (set ∪ other).items
                = allItems.filter (fun item => item.1 ∈ set.names ∨ item.1 ∈ other.names)
            ∧ (set ∩ other).items
                = allItems.filter (fun item => item.1 ∈ set.names ∧ item.1 ∈ other.names)
            ∧ (set.intersects other = true ↔ ∃ name ∈ set.names, name ∈ other.names) := by
  refine ⟨fun set hset => ?_, fun part hpart => existsUnique_items_eq hpart,
    fun set other hset hother => ?_⟩
  · refine ⟨items_eq_filter_includes set, pairwise_bits_items set, fun item hitem => ?_,
      hset.isKnown.length_items, hset.isKnown.joinAll_items⟩
    obtain ⟨category, hmem, rfl⟩ := mem_items.1 hitem
    refine ⟨category, hmem, rfl, ?_⟩
    rw [BitVec.twoPow_eq]
    rfl
  · exact ⟨hother.isKnown.names_sublist_iff.symm, items_union set other, items_inter set other,
      hset.isKnown.intersects_iff_shared_name⟩

/-- `DIGIT` is no name of the set of `hexDigit` and `blank`, though `HEX_DIGIT` is one. -/
theorem items_isomorphism_hexDigit_blank :
    Constructible {.hexDigit, .blank}
      ∧ ({.hexDigit, .blank} : CategorySet).items.length = 2
      ∧ joinAll (({.hexDigit, .blank} : CategorySet).items.map Prod.snd) = {.hexDigit, .blank}
      ∧ (∃! set, Constructible set ∧ set.items = [("HEX_DIGIT", {.hexDigit}), ("BLANK", {.blank})])
      ∧ ¬(names {.digit}).Sublist (names {.hexDigit, .blank})
      ∧ ({.hexDigit} ∪ {.blank} : CategorySet).items
          = [("HEX_DIGIT", {.hexDigit}), ("BLANK", {.blank})] := by
  have hset : Constructible {.hexDigit, .blank} := IsKnown.constructible (by decide)
  have hpart : [("HEX_DIGIT", {.hexDigit}), ("BLANK", {.blank})].Sublist allItems := by decide
  obtain ⟨hone, hunique, htwo⟩ := items_isomorphism
  obtain ⟨_, _, _, hlength, hjoin⟩ := hone _ hset
  obtain ⟨hincludes, _⟩ := htwo _ _ hset (.singleton .digit)
  obtain ⟨_, hunion, _⟩ := htwo _ _ (.singleton .hexDigit) (.singleton .blank)
  refine ⟨hset, hlength.trans (by decide), hjoin, hunique _ hpart, fun hsub => ?_, ?_⟩
  · exact absurd (hincludes.2 hsub) (by decide)
  · exact hunion.trans (by decide)

end CategorySet

end CharClass
