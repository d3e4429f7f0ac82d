import CharClass.CategorySet.Basic

/-!
# Sets in nested groups

A list of sets may be combined all at once or group by group, where a group may hold further groups. A
grouping is such a nesting of any depth, and it is joined or met from the inside out: every group is
combined to one set before the group around it. An empty group adds nothing to a join, for which it is
the empty set, and nothing to a meet, for which it is the full one.
-/

namespace CharClass.CategorySet

inductive Grouping where
  | set (single : CategorySet)
  | group (parts : List Grouping)

namespace Grouping

mutual

/-- Combines the parts of each group, those that are groups themselves first. -/
def foldWith (combine : List CategorySet → CategorySet) : Grouping → CategorySet
  | set single => single
  | group parts => combine (foldEach combine parts)

def foldEach (combine : List CategorySet → CategorySet) : List Grouping → List CategorySet
  | [] => []
  | part :: rest => part.foldWith combine :: foldEach combine rest

end

mutual

/-- The sets of a grouping from left to right. -/
def leaves : Grouping → List CategorySet
  | set single => [single]
  | group parts => leavesOfEach parts

def leavesOfEach : List Grouping → List CategorySet
  | [] => []
  | part :: rest => part.leaves ++ leavesOfEach rest

end

def join (grouping : Grouping) : CategorySet := grouping.foldWith joinAll

def meet (grouping : Grouping) : CategorySet := grouping.foldWith meetAll

@[induction_eliminator]
theorem induction {motive : Grouping → Prop} (set : ∀ single, motive (.set single))
    (group : ∀ parts, (∀ part ∈ parts, motive part) → motive (.group parts)) :
    ∀ grouping, motive grouping
  | .set single => set single
  | .group parts => group parts fun part _ => induction set group part

theorem foldWith_group (combine : List CategorySet → CategorySet) (parts : List Grouping) :
    (group parts).foldWith combine = combine (parts.map (foldWith combine)) := by
  have heach : foldEach combine parts = parts.map (foldWith combine) := by
    induction parts with
    | nil => rfl
    | cons part rest ih => rw [foldEach, ih, List.map_cons]
  rw [foldWith, heach]

theorem leaves_group (parts : List Grouping) :
    (group parts).leaves = (parts.map leaves).flatten := by
  rw [leaves]
  induction parts with
  | nil => rfl
  | cons part rest ih => rw [leavesOfEach, ih, List.map_cons, List.flatten_cons]

theorem mem_leaves_group {parts : List Grouping} {single : CategorySet} :
    single ∈ (group parts).leaves ↔ ∃ part ∈ parts, single ∈ part.leaves := by
  rw [leaves_group, ← List.flatMap_def, List.mem_flatMap]

end Grouping

end CharClass.CategorySet
