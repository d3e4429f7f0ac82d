import CharClass.CategorySet.Text

/-!
# Names in the text of a set

The text of a set cut where the separator stands. A name never contains the separator, so cutting the
text of a set that is not empty gives the names of its members again.
-/

namespace CharClass.CategorySet

/-- A text cut at every bar between two blanks, from left to right. -/
def pieces : List Char → List (List Char)
  | [] => [[]]
  | ' ' :: '|' :: ' ' :: rest => [] :: pieces rest
  | char :: rest =>
      match pieces rest with
      | [] => [[char]]
      | first :: others => (char :: first) :: others

/-- The names that stand between the separators of a text. -/
def namesIn (text : String) : List String := (pieces text.toList).map String.ofList

/-- The set of the categories with the given names; other names are passed over. -/
def ofNames (names : List String) : CategorySet := ofList (names.filterMap Category.ofName?)

theorem ofNames_map_name (categories : List Category) :
    ofNames (categories.map Category.name) = ofList categories := by
  have hread : Category.ofName? ∘ Category.name = some := funext Category.ofName?_name
  rw [ofNames, List.filterMap_map, hread, List.filterMap_some]

end CharClass.CategorySet
