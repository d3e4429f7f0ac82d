/-!
# Character categories

The thirteen kinds an ASCII character may belong to. They overlap: `a` is at once alphabetic, lower
case, a hexadecimal digit, a word character, the possible start of a word, printable and graphical.

A category has a position, its place in the list `all`, and a name. Both tell the categories apart
(`position_inj`, `name_inj`), so a set can be stored as one bit per category and read back from the
names of its members.
-/

namespace CharClass

/-- The version this library is published under. -/
def version : String := "0.1.0"

/-- A kind of character. -/
inductive Category where
  /-- The letters, `a-z` and `A-Z`. -/
  | alpha
  /-- The lower case letters, `a-z`. -/
  | lower
  /-- The upper case letters, `A-Z`. -/
  | upper
  /-- The decimal digits, `0-9`. -/
  | digit
  /-- The hexadecimal digits of either case, `0-9`, `a-f` and `A-F`. -/
  | hexDigit
  /-- The characters of a word, `_`, `0-9`, `a-z` and `A-Z`. -/
  | word
  /-- The characters a word may start with, `_`, `a-z` and `A-Z`. -/
  | wordStart
  /-- The graphical characters that are neither letters nor digits; the underscore is one of them. -/
  | punctuation
  /-- Space and the five controls from tab to carriage return. -/
  | whitespace
  /-- Space and tab. -/
  | blank
  /-- The characters below space, and delete. -/
  | control
  /-- The characters from space to tilde. -/
  | printable
  /-- The printable characters other than space. -/
  | graphical
deriving DecidableEq

namespace Category

/-- Every category, in the order of their positions. -/
def all : List Category :=
  [alpha, lower, upper, digit, hexDigit, word, wordStart, punctuation, whitespace, blank, control,
    printable, graphical]

/-- The place of a category in `all`, which is also its bit in a stored set. -/
def position : Category → Nat
  | alpha => 0
  | lower => 1
  | upper => 2
  | digit => 3
  | hexDigit => 4
  | word => 5
  | wordStart => 6
  | punctuation => 7
  | whitespace => 8
  | blank => 9
  | control => 10
  | printable => 11
  | graphical => 12

/-- The name a category is written with. -/
def name : Category → String
  | alpha => "ALPHA"
  | lower => "LOWER"
  | upper => "UPPER"
  | digit => "DIGIT"
  | hexDigit => "HEX_DIGIT"
  | word => "WORD"
  | wordStart => "WORD_START"
  | punctuation => "PUNCTUATION"
  | whitespace => "WHITESPACE"
  | blank => "BLANK"
  | control => "CONTROL"
  | printable => "PRINTABLE"
  | graphical => "GRAPHICAL"

/-- The category that is written with a given name, if there is one. -/
def ofName? (name : String) : Option Category :=
  all.find? fun category => category.name = name

theorem mem_all (category : Category) : category ∈ all := by
  cases category <;> decide

theorem position_lt (category : Category) : category.position < 13 := by
  cases category <;> decide

theorem getElem?_all_position (category : Category) : all[category.position]? = some category := by
  cases category <;> rfl

theorem position_inj {first second : Category} :
    first.position = second.position ↔ first = second := by
  refine ⟨fun hposition => ?_, fun heq => by rw [heq]⟩
  have hfirst := getElem?_all_position first
  rw [hposition, getElem?_all_position second] at hfirst
  exact (Option.some.inj hfirst).symm

@[simp] theorem ofName?_name (category : Category) : ofName? category.name = some category := by
  cases category <;> decide

theorem name_inj {first second : Category} : first.name = second.name ↔ first = second := by
  refine ⟨fun hname => ?_, fun heq => by rw [heq]⟩
  have hfirst := ofName?_name first
  rw [hname, ofName?_name second] at hfirst
  exact (Option.some.inj hfirst).symm

theorem ofName?_eq_some_iff {name : String} {category : Category} :
    ofName? name = some category ↔ category.name = name := by
  refine ⟨fun hfound => ?_, fun hname => by rw [← hname, ofName?_name]⟩
  simpa using List.find?_some hfound

end Category

end CharClass
