import CharClass.CategorySet.Lemmas

/-!
# Walking through a set

An item is the name of a category with the set of that category alone, so there are thirteen of them.
A cursor walks through the items in the order of the positions and stops at those that its set
includes. Where it stands is the list of the items it has not looked at yet, included or not;
`remaining` are the included ones among them. Taking one item looks just far enough to find it; the
operations that take everything are folds over what is ahead.

A cursor that has nothing remaining stays so, and everything asked of it then finds nothing.
-/

namespace CharClass

/-- The name of a category and the set of it alone. -/
abbrev Item := String × CategorySet

def Category.item (category : Category) : Item := (category.name, {category})

/-- The items of all categories, in the order of their positions. -/
def allItems : List Item := Category.all.map Category.item

structure Cursor where
  set : CategorySet
  /-- The items not looked at yet. -/
  ahead : List Item

namespace Cursor

/-- A cursor in front of the first item. -/
def start (set : CategorySet) : Cursor := ⟨set, allItems⟩

/-- The items not visited yet, in the order in which they will be. -/
def remaining (cursor : Cursor) : List Item :=
  cursor.ahead.filter fun item => cursor.set.includes item.2

/-- The first item of a list that a set includes, and the list behind it. -/
def seek (set : CategorySet) : List Item → Option Item × List Item
  | [] => (none, [])
  | item :: rest => if set.includes item.2 then (some item, rest) else seek set rest

def next (cursor : Cursor) : Option Item × Cursor :=
  let (found, rest) := seek cursor.set cursor.ahead
  (found, { cursor with ahead := rest })

/-- Skips a number of items and visits the one after them. Where none remains before that, nothing
is visited. -/
def nth : Nat → Cursor → Option Item × Cursor
  | 0, cursor => cursor.next
  | count + 1, cursor =>
      match cursor.next with
      | (none, passed) => (none, passed)
      | (some _, passed) => nth count passed

/-- Visits every remaining item and combines them from left to right. -/
def fold {α : Type} (combine : α → Item → α) (start : α) (cursor : Cursor) : α × Cursor :=
  let visit (result : α) (item : Item) : α :=
    if cursor.set.includes item.2 then combine result item else result
  (cursor.ahead.foldl visit start, { cursor with ahead := [] })

def collect (cursor : Cursor) : List Item × Cursor :=
  cursor.fold (fun items item => items ++ [item]) []

def count (cursor : Cursor) : Nat × Cursor := cursor.fold (fun seen _ => seen + 1) 0

/-- Visits every remaining item and keeps the last one, if there is any. -/
def last (cursor : Cursor) : Option Item × Cursor := cursor.fold (fun _ item => some item) none

inductive Step where
  | next
  | nth (skipped : Nat)
  | collect
  | count
  | last
deriving DecidableEq

inductive Answer where
  /-- One item, or none where none was left. -/
  | item (found : Option Item)
  | items (found : List Item)
  | count (items : Nat)
deriving DecidableEq

def step (cursor : Cursor) : Step → Answer × Cursor
  | .next => cursor.next.map .item id
  | .nth skipped => (cursor.nth skipped).map .item id
  | .collect => cursor.collect.map .items id
  | .count => cursor.count.map .count id
  | .last => cursor.last.map .item id

/-- Takes steps one after the other and lists the answers; the cursor stands where the last step
left it. -/
def run (cursor : Cursor) : List Step → List Answer × Cursor
  | [] => ([], cursor)
  | request :: rest =>
      let (answer, after) := cursor.step request
      let (answers, last) := after.run rest
      (answer :: answers, last)

theorem seek_eq (set : CategorySet) (ahead : List Item) :
    (seek set ahead).1 = (ahead.filter fun item => set.includes item.2).head?
      ∧ (seek set ahead).2.filter (fun item => set.includes item.2)
        = (ahead.filter fun item => set.includes item.2).tail := by
  induction ahead with
  | nil => simp [seek]
  | cons item rest ih => by_cases hfound : set.includes item.2 <;> simp [seek, hfound, ih]

theorem next_fst (cursor : Cursor) : cursor.next.1 = cursor.remaining.head? :=
  (seek_eq cursor.set cursor.ahead).1

theorem remaining_next (cursor : Cursor) : cursor.next.2.remaining = cursor.remaining.tail :=
  (seek_eq cursor.set cursor.ahead).2

theorem fold_fst {α : Type} (combine : α → Item → α) (start : α) (cursor : Cursor) :
    (cursor.fold combine start).1 = cursor.remaining.foldl combine start := by
  simp [fold, remaining, List.foldl_filter]

@[simp] theorem remaining_fold {α : Type} (combine : α → Item → α) (start : α) (cursor : Cursor) :
    (cursor.fold combine start).2.remaining = [] := rfl

/-- Collecting from a cursor lists what remains. -/
theorem collect_fst (cursor : Cursor) : cursor.collect.1 = cursor.remaining := by
  rw [collect, fold_fst, List.foldl_append_eq_append (f := fun item => [item]),
    List.nil_append, ← List.flatMap_def, List.flatMap_singleton']

/-- In front of the first item those of the members remain, in the order of their positions. -/
theorem remaining_start (set : CategorySet) :
    (start set).remaining = set.toList.map Category.item := by
  change allItems.filter (fun item => set.includes item.2) = _
  rw [allItems, List.filter_map, CategorySet.toList]
  refine congrArg (List.map Category.item) (List.filter_congr fun category _ => ?_)
  rw [Bool.eq_iff_iff, decide_eq_true_iff]
  exact CategorySet.includes_singleton

end Cursor

namespace CategorySet

variable {set : CategorySet}

/-- The items that a walk through a set hands out. -/
def items (set : CategorySet) : List Item := (Cursor.start set).collect.1

def names (set : CategorySet) : List String := set.items.map Prod.fst

theorem items_eq_filter_includes (set : CategorySet) :
    set.items = allItems.filter fun item => set.includes item.2 :=
  (Cursor.start set).collect_fst

theorem items_eq (set : CategorySet) : set.items = set.toList.map Category.item := by
  rw [items, Cursor.collect_fst, Cursor.remaining_start]

theorem names_eq (set : CategorySet) : set.names = set.toList.map Category.name := by
  rw [names, items_eq, List.map_map]
  rfl

theorem mem_items {item : Item} : item ∈ set.items ↔ ∃ category ∈ set, category.item = item := by
  simp [items_eq]

end CategorySet

end CharClass
