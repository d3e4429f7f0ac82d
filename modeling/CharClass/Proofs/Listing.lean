import CharClass.CategorySet.Lemmas

/-!
# Sets and the lists of their members

A set of known bits and the list of its members in the order of their positions determine each other,
and the lists that occur are exactly the sublists of the list of all categories. So what is written or
read as a list of categories loses nothing.

The thirteen positions increase along `Category.all`, which is what leaves a sublist of it no choice
but the order of the positions.
-/

namespace CharClass

theorem Category.pairwise_position_all :
    Category.all.Pairwise fun first second => first.position < second.position := by decide

theorem Category.nodup_all : Category.all.Nodup := by decide

/-- Two sublists of all categories with the same members are the same list. -/
theorem Category.sublist_all_ext {left right : List Category} (hleft : left.Sublist Category.all)
    (hright : right.Sublist Category.all) (hmem : ∀ category, category ∈ left ↔ category ∈ right) :
    left = right := by
  have hperm : left.Perm right :=
    (List.perm_ext_iff_of_nodup (hleft.nodup nodup_all) (hright.nodup nodup_all)).2 hmem
  have hleftOrder := pairwise_position_all.sublist hleft
  have hrightOrder := pairwise_position_all.sublist hright
  refine hperm.eq_of_pairwise (fun first second _ _ hlt hgt => ?_) hleftOrder hrightOrder
  omega

namespace CategorySet

theorem toList_sublist (set : CategorySet) : set.toList.Sublist Category.all :=
  List.filter_sublist

theorem pairwise_position_toList (set : CategorySet) :
    set.toList.Pairwise fun first second => first.position < second.position :=
  Category.pairwise_position_all.sublist set.toList_sublist

theorem isKnown_ofList (categories : List Category) : (ofList categories).IsKnown := by
  induction categories with
  | nil => exact isKnown_empty
  | cons category rest ih => exact (isKnown_singleton category).union ih

theorem toList_ofList {categories : List Category} (hsub : categories.Sublist Category.all) :
    (ofList categories).toList = categories := by
  refine Category.sublist_all_ext (toList_sublist _) hsub fun category => ?_
  rw [mem_toList, mem_ofList]

theorem IsKnown.ofList_toList {set : CategorySet} (hset : set.IsKnown) :
    ofList set.toList = set := by
  refine (isKnown_ofList _).ext hset fun category => ?_
  rw [mem_ofList, mem_toList]

theorem IsKnown.toList_inj {set other : CategorySet} (hset : set.IsKnown)
    (hother : other.IsKnown) : set.toList = other.toList ↔ set = other := by
  refine ⟨fun hlist => ?_, fun heq => by rw [heq]⟩
  rw [← hset.ofList_toList, hlist, hother.ofList_toList]

theorem IsKnown.toList_eq_nil_iff {set : CategorySet} (hset : set.IsKnown) :
    set.toList = [] ↔ set.isEmpty = true := by
  have hnil : (∅ : CategorySet).toList = [] := by decide
  rw [isEmpty_iff, ← hnil]
  exact hset.toList_inj isKnown_empty

end CategorySet

end CharClass
