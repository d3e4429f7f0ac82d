import CharClass.CategorySet.Constructible
import CharClass.CategorySet.Grouping
import Mathlib.Logic.Basic

/-!
# The order of inclusion

Inclusion orders the sets, and it decides what joins and meets are: what includes a join is what
includes each of its sets, and what a meet includes is what each of its sets includes. The two ways to
tell whether a set includes another by an operation, whether it absorbs the other in a join or leaves
nothing of it out in a meet, are the same question.

The same holds of the join and the meet of a whole list. So neither depends on how often or in which
order the sets are listed, nor on how they are put in groups that are combined first.
-/

namespace CharClass.CategorySet

variable {set other first second third : CategorySet} {sets : List CategorySet}

/-! ### Two sets -/

theorem includes_refl (set : CategorySet) : set.includes set = true :=
  includes_iff_getLsbD.2 fun _ hbit => hbit

theorem includes_trans (hfirst : first.includes second = true)
    (hsecond : second.includes third = true) : first.includes third = true := by
  rw [includes_iff_getLsbD] at hfirst hsecond ⊢
  intro i hbit
  exact hfirst i (hsecond i hbit)

theorem includes_antisymm (hfirst : first.includes second = true)
    (hsecond : second.includes first = true) : first = second := by
  rw [includes_iff_getLsbD] at hfirst hsecond
  exact eq_of_getLsbD_iff fun i => ⟨hsecond i, hfirst i⟩

/-- The join is the least set that includes both. -/
theorem includes_union_iff :
    set.includes (first ∪ second) = true
      ↔ set.includes first = true ∧ set.includes second = true := by
  simp only [includes_iff_getLsbD, getLsbD_union, or_imp, forall_and]

/-- The meet is the greatest set that both include. -/
theorem inter_includes_iff :
    (first ∩ second).includes set = true
      ↔ first.includes set = true ∧ second.includes set = true := by
  simp only [includes_iff_getLsbD, getLsbD_inter, imp_and, forall_and]

theorem includes_iff_union : first.includes second = true ↔ first ∪ second = first := by
  have hupper := includes_union_iff.1 (includes_refl (first ∪ second))
  refine ⟨fun hincludes => ?_, fun heq => ?_⟩
  · exact includes_antisymm hupper.1 (includes_union_iff.2 ⟨includes_refl first, hincludes⟩)
  · rw [heq] at hupper
    exact hupper.2

theorem intersects_eq_not_isEmpty (first second : CategorySet) :
    first.intersects second = !(first ∩ second).isEmpty := by
  rw [Bool.eq_iff_iff, intersects_iff_inter, Bool.not_eq_true', ← Bool.not_eq_true, isEmpty_iff]

/-! ### The sets of a list -/

theorem includes_joinAll_iff :
    set.includes (joinAll sets) = true ↔ ∀ other ∈ sets, set.includes other = true := by
  simp only [includes_iff_getLsbD, getLsbD_joinAll]
  refine ⟨fun hall other hother i hbit => hall i ⟨other, hother, hbit⟩, fun hall i hexists => ?_⟩
  obtain ⟨other, hother, hbit⟩ := hexists
  exact hall other hother i hbit

theorem joinAll_includes (hset : set ∈ sets) : (joinAll sets).includes set = true :=
  includes_joinAll_iff.1 (includes_refl (joinAll sets)) set hset

theorem inter_joinAll (set : CategorySet) (sets : List CategorySet) :
    set ∩ joinAll sets = joinAll (sets.map fun other => set ∩ other) := by
  refine eq_of_getLsbD_iff fun i => ?_
  simp only [getLsbD_inter, getLsbD_joinAll, List.mem_map, exists_exists_and_eq_and]
  constructor
  · rintro ⟨hset, other, hother, hbit⟩
    exact ⟨other, hother, hset, hbit⟩
  · rintro ⟨other, hother, hset, hbit⟩
    exact ⟨hset, other, hother, hbit⟩

theorem joinAll_intersects_iff :
    (joinAll sets).intersects set = true ↔ ∃ other ∈ sets, other.intersects set = true := by
  simp only [intersects_iff_getLsbD, getLsbD_joinAll]
  constructor
  · rintro ⟨i, ⟨other, hother, hbit⟩, hset⟩
    exact ⟨other, hother, i, hbit, hset⟩
  · rintro ⟨other, hother, i, hbit, hset⟩
    exact ⟨i, ⟨other, hother, hbit⟩, hset⟩

theorem IsKnown.meetAll_includes_iff (hset : set.IsKnown) :
    (meetAll sets).includes set = true ↔ ∀ other ∈ sets, other.includes set = true := by
  simp only [hset.includes_iff, mem_meetAll]
  exact ⟨fun hall other hother category hmem => hall category hmem other hother,
    fun hall category hmem other hother => hall other hother category hmem⟩

/-! ### Groups of sets -/

theorem joinAll_singleton (set : CategorySet) : joinAll [set] = set :=
  eq_of_getLsbD_iff fun i => by simp [getLsbD_joinAll]

theorem joinAll_map_joinAll (lists : List (List CategorySet)) :
    joinAll (lists.map joinAll) = joinAll lists.flatten := by
  refine eq_of_getLsbD_iff fun i => ?_
  simp only [getLsbD_joinAll, List.mem_map, List.mem_flatten, exists_exists_and_eq_and]
  constructor
  · rintro ⟨list, hlist, set, hset, hbit⟩
    exact ⟨set, ⟨list, hlist, hset⟩, hbit⟩
  · rintro ⟨set, ⟨list, hlist, hset⟩, hbit⟩
    exact ⟨list, hlist, set, hset, hbit⟩

theorem meetAll_map_meetAll {lists : List (List CategorySet)}
    (hlists : ∀ list ∈ lists, ∀ set ∈ list, set.IsKnown) :
    meetAll (lists.map meetAll) = meetAll lists.flatten := by
  have hparts : ∀ set ∈ lists.map meetAll, set.IsKnown := by
    intro set hset
    obtain ⟨list, hlist, rfl⟩ := List.mem_map.1 hset
    exact isKnown_meetAll (hlists list hlist)
  have hflat : ∀ set ∈ lists.flatten, set.IsKnown := by
    intro set hset
    obtain ⟨list, hlist, hmem⟩ := List.mem_flatten.1 hset
    exact hlists list hlist set hmem
  refine (isKnown_meetAll hparts).ext (isKnown_meetAll hflat) fun category => ?_
  rw [mem_meetAll, mem_meetAll, List.forall_mem_map]
  simp only [mem_meetAll, List.mem_flatten]
  constructor
  · rintro hall set ⟨list, hlist, hset⟩
    exact hall list hlist set hset
  · intro hall list hlist set hset
    exact hall set ⟨list, hlist, hset⟩

namespace Grouping

variable {combine : List CategorySet → CategorySet}

/-- Groups do not matter to a combination that does not tell a list of lists from their sets. -/
theorem foldWith_eq (hsingleton : ∀ single, combine [single] = single)
    (hflatten : ∀ lists : List (List CategorySet),
      (∀ list ∈ lists, ∀ set ∈ list, set.IsKnown) →
        combine (lists.map combine) = combine lists.flatten)
    (grouping : Grouping) (hleaves : ∀ set ∈ grouping.leaves, set.IsKnown) :
    grouping.foldWith combine = combine grouping.leaves := by
  induction grouping with
  | set single => exact (hsingleton single).symm
  | group parts ih =>
      have hparts : ∀ part ∈ parts, ∀ set ∈ part.leaves, set.IsKnown :=
        fun part hpart set hset => hleaves set (mem_leaves_group.2 ⟨part, hpart, hset⟩)
      calc
        (group parts).foldWith combine
            = combine (parts.map (foldWith combine)) := foldWith_group combine parts
        _ = combine ((parts.map leaves).map combine) := by
          rw [List.map_map]
          exact congrArg combine (List.map_congr_left fun part hpart =>
            ih part hpart (hparts part hpart))
        _ = combine (parts.map leaves).flatten := hflatten _ (List.forall_mem_map.2 hparts)
        _ = combine (group parts).leaves := by rw [leaves_group]

variable {grouping : Grouping}

theorem join_eq (hleaves : ∀ set ∈ grouping.leaves, set.IsKnown) :
    grouping.join = joinAll grouping.leaves :=
  foldWith_eq joinAll_singleton (fun lists _ => joinAll_map_joinAll lists) grouping hleaves

theorem meet_eq (hleaves : ∀ set ∈ grouping.leaves, set.IsKnown) :
    grouping.meet = meetAll grouping.leaves :=
  foldWith_eq (fun _ => rfl) (fun _ hlists => meetAll_map_meetAll hlists) grouping hleaves

end Grouping

/-- The join and the meet of a list are the same for every grouping of its sets, whatever the order and
however often a set occurs, and inclusion says what they are. Inclusion is a partial order, in which
the join and the meet of two sets are their least upper and their greatest lower bound. -/
theorem folds_are_bounds :
    (∀ (sets : List CategorySet) (grouping : Grouping), (∀ set ∈ sets, Constructible set) →
        (∀ set, set ∈ grouping.leaves ↔ set ∈ sets) →
          grouping.join = joinAll sets ∧ grouping.meet = meetAll sets)
      ∧ (∀ (sets : List CategorySet) (other : CategorySet), Constructible other →
          (other.includes (joinAll sets) = true ↔ ∀ set ∈ sets, other.includes set = true)
            ∧ ((joinAll sets).intersects other = true
              ↔ ∃ set ∈ sets, set.intersects other = true)
            ∧ ((meetAll sets).includes other = true ↔ ∀ set ∈ sets, set.includes other = true))
      ∧ (∀ set : CategorySet, set.includes set = true)
      ∧ (∀ first second third : CategorySet, first.includes second = true →
          second.includes third = true → first.includes third = true)
      ∧ (∀ first second : CategorySet,
          first.includes second = true → second.includes first = true → first = second)
      ∧ ∀ first second : CategorySet,
          (∀ set : CategorySet, set.includes (first ∪ second) = true
              ↔ set.includes first = true ∧ set.includes second = true)
            ∧ (∀ set : CategorySet, (first ∩ second).includes set = true
              ↔ first.includes set = true ∧ second.includes set = true)
            ∧ (first.includes second = true ↔ first ∪ second = first)
            ∧ (first.includes second = true ↔ first ∩ second = second)
            ∧ first.intersects second = !(first ∩ second).isEmpty := by
  refine ⟨fun sets grouping hsets hsame => ?_, fun sets other hother => ?_, includes_refl,
    fun _ _ _ => includes_trans, fun _ _ => includes_antisymm, fun first second => ?_⟩
  · have hleaves : ∀ set ∈ grouping.leaves, set.IsKnown :=
      fun set hset => (hsets set ((hsame set).1 hset)).isKnown
    rw [grouping.join_eq hleaves, grouping.meet_eq hleaves]
    exact ⟨joinAll_eq_of_mem_iff hsame, meetAll_eq_of_mem_iff hleaves hsame⟩
  · exact ⟨includes_joinAll_iff, joinAll_intersects_iff, hother.isKnown.meetAll_includes_iff⟩
  · exact ⟨fun _ => includes_union_iff, fun _ => inter_includes_iff, includes_iff_union,
      includes_iff_inter, intersects_eq_not_isEmpty first second⟩

/-- A set that occurs twice among the groups counts once. -/
theorem folds_are_bounds_alpha :
    Grouping.meet (.group [.group [.set {.alpha, .digit}], .group [.set {.alpha, .lower},
        .set {.alpha, .digit}]]) = meetAll [{.alpha, .lower}, {.alpha, .digit}]
      ∧ (meetAll [{.alpha, .lower}, {.alpha, .digit}]).includes {.alpha} = true
      ∧ ¬(meetAll [{.alpha, .lower}, {.alpha, .digit}]).includes {.lower} = true
      ∧ (joinAll [{.alpha, .lower}, {.alpha, .digit}]).intersects {.digit, .blank} = true
      ∧ ({.alpha, .lower, .word} : CategorySet).includes {.alpha} = true
      ∧ ({.alpha} ∪ {.lower} : CategorySet) = {.lower, .alpha} := by
  have hknown : ∀ set ∈ [({.alpha, .lower} : CategorySet), {.alpha, .digit}], set.IsKnown := by
    decide
  have hleaves : ∀ set, set ∈ Grouping.leaves (.group [.group [.set {.alpha, .digit}],
      .group [.set {.alpha, .lower}, .set {.alpha, .digit}]])
        ↔ set ∈ [{.alpha, .lower}, {.alpha, .digit}] := by
    intro set
    simp only [Grouping.leaves, Grouping.leavesOfEach, List.append_nil, List.cons_append,
      List.nil_append]
    grind
  obtain ⟨hgroupings, hqueries, _, htrans, hantisymm, _⟩ := folds_are_bounds
  obtain ⟨_, hmeet⟩ := hgroupings _ _ (fun set hset => (hknown set hset).constructible) hleaves
  obtain ⟨_, _, halpha⟩ := hqueries [{.alpha, .lower}, {.alpha, .digit}] {.alpha} (.singleton .alpha)
  obtain ⟨_, _, hlower⟩ := hqueries [{.alpha, .lower}, {.alpha, .digit}] {.lower} (.singleton .lower)
  obtain ⟨_, hsome, _⟩ := hqueries [{.alpha, .lower}, {.alpha, .digit}] {.digit, .blank}
    (IsKnown.constructible (by decide))
  refine ⟨hmeet, halpha.2 (by decide), fun hincludes => absurd (hlower.1 hincludes) (by decide),
    hsome.2 ⟨{.alpha, .digit}, by decide, by decide⟩, ?_, ?_⟩
  · exact htrans _ {.alpha, .lower} _ (by decide) (by decide)
  · exact hantisymm _ _ (by decide) (by decide)

end CharClass.CategorySet
