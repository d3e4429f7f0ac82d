import CharClass.CategorySet.Cursor
import CharClass.Text.Sink

/-!
# Sets of categories as text

A set is written as the names of its members in the order of their positions, with a bar between any
two, and the empty set as `NONE`. The tagged form puts `CharFlags(` and `)` around it. The names are
put together by a joiner, which every form takes as its first argument.

Both forms take a line as it comes: the layout requested for the value never reaches the names, so
they are neither cut nor filled nor spread over lines.
-/

namespace CharClass.CategorySet

open CharClass.Text

def separator : String := " | "

def emptyText : String := "NONE"

def write (join : Joiner) (set : CategorySet) (sink : Sink) : Sink :=
  if set.isEmpty then sink.write emptyText
  else sink.under .plain (join separator (set.names.map Sink.writeFitted))

def writeTagged (join : Joiner) (set : CategorySet) (sink : Sink) : Sink :=
  ((sink.write "CharFlags(").under .plain (set.write join)).write ")"

def text (join : Joiner) (set : CategorySet) : String := Sink.render .plain (set.write join)

def taggedText (join : Joiner) (set : CategorySet) : String :=
  Sink.render .plain (set.writeTagged join)

end CharClass.CategorySet
