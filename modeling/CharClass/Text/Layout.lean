/-!
# Layouts

What the reader of a text asks for when it is written: a width to fill, a length to cut at, whether
a container is spread over several lines. A layout is a request only. `Layout.fit` is how a text that
honours it is cut and filled; a text that ignores it is written as it stands.
-/

namespace CharClass.Text

/-- Where a text stands in a field wider than itself. -/
inductive Alignment where
  | left
  | center
  | right
deriving DecidableEq

/-- Which numbers carry a sign. -/
inductive SignStyle where
  /-- The negative ones only. -/
  | negative
  /-- Every number, a plus before those that are not negative. -/
  | always
deriving DecidableEq

/-- The requests for one written value. Without any of them a text is written as it stands. -/
structure Layout where
  width : Nat := 0
  /-- The greatest number of characters taken from the text. -/
  precision : Option Nat := none
  fill : Char := ' '
  /-- Where the text stands in such a field. -/
  alignment : Alignment := .left
  /-- Which numbers carry a sign; a text has none. -/
  sign : SignStyle := .negative
  /-- Whether a number is filled with zeros after its sign; a text is not. -/
  leadingZeros : Bool := false
  /-- Whether a container puts each item on lines of its own. -/
  multiline : Bool := false
deriving DecidableEq

namespace Layout

def plain : Layout := {}

/-- The part of a text that the precision leaves. -/
def cut (layout : Layout) (text : List Char) : List Char :=
  match layout.precision with
  | none => text
  | some limit => text.take limit

/-- How many of the missing characters are filled in before the text. A centred text has the odd one
after it. -/
def leading (layout : Layout) (missing : Nat) : Nat :=
  match layout.alignment with
  | .left => 0
  | .center => missing / 2
  | .right => missing

def fit (layout : Layout) (text : String) : String :=
  let kept := layout.cut text.toList
  let missing := layout.width - kept.length
  let before := layout.leading missing
  String.ofList (List.replicate before layout.fill ++ kept
    ++ List.replicate (missing - before) layout.fill)

theorem leading_le (layout : Layout) (missing : Nat) : layout.leading missing ≤ missing := by
  unfold leading
  split <;> omega

/-- A fitted text is as wide as requested, or as long as what the precision leaves. -/
theorem length_fit (layout : Layout) (text : String) :
    (layout.fit text).length = max layout.width (layout.cut text.toList).length := by
  have hleading := layout.leading_le (layout.width - (layout.cut text.toList).length)
  simp only [fit, String.length_ofList, List.length_append, List.length_replicate]
  omega

@[simp] theorem fit_plain (text : String) : plain.fit text = text := by
  simp [fit, plain, cut, leading]

end Layout

end CharClass.Text
