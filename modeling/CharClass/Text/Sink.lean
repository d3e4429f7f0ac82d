import CharClass.Text.Layout

/-!
# Writing texts

A sink is the text written so far together with the layout requested for what comes next. A writer
adds the text of one value to it. Writers combine: one after the other with a separator between
(`separated`), between brackets (`bracketed`), under a layout of their own (`under`).

The layout reaches a text only through `writeFitted`. What `write` adds stands as it is, and what is
written `under` another layout does not see the requested one.

A caller may bring a way of its own to join the items of a list, a `Joiner`. All that is assumed of it
are the laws `Joiner.Interleaves`, which `separated` has.
-/

namespace CharClass.Text

structure Sink where
  layout : Layout := .plain
  written : String := ""

/-- A writer adds the text of one value to a sink. -/
abbrev Writer := Sink → Sink

namespace Sink

def write (text : String) (sink : Sink) : Sink := { sink with written := sink.written ++ text }

/-- Adds a text cut and filled as the layout requests. -/
def writeFitted (text : String) (sink : Sink) : Sink := sink.write (sink.layout.fit text)

/-- Lets a writer work under a layout of its own, after which the requested one is back. -/
def under (layout : Layout) (writer : Writer) (sink : Sink) : Sink :=
  { writer { sink with layout := layout } with layout := sink.layout }

/-- Runs writers one after the other, with a separator between any two. -/
def separated (separator : String) : List Writer → Writer
  | [] => id
  | [item] => item
  | item :: rest => fun sink => separated separator rest ((item sink).write separator)

/-- What a writer adds to an empty sink. -/
def render (layout : Layout) (writer : Writer) : String := (writer { layout := layout }).written

/-- The blanks in front of each line inside a container. -/
def margin : List Char := [' ', ' ', ' ', ' ']

/-- A text with the margin in front of each of its lines. -/
def indentFrom (atLineStart : Bool) : List Char → List Char
  | [] => []
  | char :: rest =>
      (if atLineStart then margin else []) ++ char :: indentFrom (char == '\n') rest

/-- A text with the margin in front of each of its lines, the first one included. -/
def indented (text : String) : String := String.ofList (indentFrom true text.toList)

/-- Adds the items of a container between its brackets. They share one line, or, where the layout
requests it, each stands indented on lines of its own and ends in a comma. -/
def bracketed (opening closing : String) (items : List Writer) (sink : Sink) : Sink :=
  if sink.layout.multiline && !items.isEmpty then
    let addLines (sink : Sink) (item : Writer) : Sink :=
      sink.write (indented (render sink.layout item ++ ",\n"))
    (items.foldl addLines (sink.write (opening ++ "\n"))).write closing
  else
    (separated ", " items (sink.write opening)).write closing

@[simp] theorem written_write (text : String) (sink : Sink) :
    (sink.write text).written = sink.written ++ text := rfl

@[simp] theorem layout_write (text : String) (sink : Sink) :
    (sink.write text).layout = sink.layout := rfl

theorem writeFitted_of_plain {sink : Sink} (hplain : sink.layout = .plain) (text : String) :
    sink.writeFitted text = sink.write text := by
  rw [writeFitted, hplain, Layout.fit_plain]

theorem write_write (first second : String) (sink : Sink) :
    (sink.write first).write second = sink.write (first ++ second) := by
  simp [write, String.append_assoc]

/-- A writer that adds the same text to every sink renders that text under any layout. -/
theorem render_eq_of_forall_write {writer : Writer} {text : String}
    (hwriter : ∀ sink, writer sink = sink.write text) (layout : Layout) :
    render layout writer = text := by
  rw [render, hwriter, written_write, String.empty_append]

end Sink

/-- A way to write a list of items with a separator, supplied from outside. -/
abbrev Joiner := String → List Writer → Writer

/-- What is assumed of a joiner. It writes the items in order, each to the sink as what comes before
leaves it and so under the layout found there, with the separator between any two that follow each
other. -/
structure Joiner.Interleaves (join : Joiner) : Prop where
  /-- Where there is no item, nothing is written. -/
  nil (separator : String) (sink : Sink) : join separator [] sink = sink
  /-- A single item is written alone. -/
  singleton (separator : String) (item : Writer) (sink : Sink) :
    join separator [item] sink = item sink
  /-- Between an item and the next one stands the separator. -/
  cons_cons (separator : String) (item next : Writer) (rest : List Writer) (sink : Sink) :
    join separator (item :: next :: rest) sink
      = join separator (next :: rest) ((item sink).write separator)

theorem Joiner.interleaves_separated : Interleaves Sink.separated where
  nil _ _ := rfl
  singleton _ _ _ := rfl
  cons_cons _ _ _ _ _ := rfl

end CharClass.Text
