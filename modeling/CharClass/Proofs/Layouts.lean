import CharClass.Proofs.Text

/-!
# Sets under any layout

What is written for a set does not depend on the layout requested for it. A width, a fill or a
precision neither fills nor cuts its names, and the request for many lines does not spread them. So a
set adds the same text to every sink, and that text has no line break.

A container that stands on many lines indents whatever its items write, line by line. A set then takes
up exactly one of these lines, with the margin before its text and a comma behind it.
-/

namespace CharClass

namespace Text

/-- The lines of a text, without the breaks that end them. -/
def lines (text : String) : List String := (text.toList.splitOn '\n').map String.ofList

theorem lines_of_no_break {text : String} (htext : '\n' ∉ text.toList) : lines text = [text] := by
  rw [lines, List.splitOn_eq_singleton htext, List.map_singleton, String.ofList_toList]

theorem lines_append_break {first : String} (hfirst : '\n' ∉ first.toList) (rest : String) :
    lines (first ++ "\n" ++ rest) = first :: lines rest := by
  have hchars : (first ++ "\n" ++ rest).toList = first.toList ++ '\n' :: rest.toList := by simp
  rw [lines, hchars, List.splitOn_append_cons_self_of_not_mem hfirst, List.map_cons,
    String.ofList_toList, lines]

theorem lines_join_append {texts : List String} (htexts : ∀ text ∈ texts, '\n' ∉ text.toList)
    {closing : String} (hclosing : '\n' ∉ closing.toList) :
    lines (String.join (texts.map fun text => text ++ "\n") ++ closing) = texts ++ [closing] := by
  induction texts with
  | nil => simpa using lines_of_no_break hclosing
  | cons text rest ih =>
      obtain ⟨htext, hrest⟩ := List.forall_mem_cons.1 htexts
      rw [List.map_cons, String.join_cons, String.append_assoc, lines_append_break htext, ih hrest,
        List.cons_append]

/-- A character that joined texts contain is one of a text or of the separator. -/
theorem not_mem_intercalate {char : Char} {separator : String} (hseparator : char ∉ separator.toList)
    {texts : List String} (htexts : ∀ text ∈ texts, char ∉ text.toList) :
    char ∉ (separator.intercalate texts).toList := by
  induction texts with
  | nil => simp
  | cons text rest ih =>
      obtain ⟨htext, hrest⟩ := List.forall_mem_cons.1 htexts
      cases rest with
      | nil => rwa [String.intercalate_singleton]
      | cons next others =>
          rw [String.intercalate_cons_cons, String.toList_append, String.toList_append]
          simp only [List.mem_append, not_or]
          exact ⟨⟨htext, hseparator⟩, ih hrest⟩

namespace Sink

/-! ### Indented lines -/

theorem indentFrom_true {chars : List Char} (hchars : chars ≠ []) :
    indentFrom true chars = margin ++ indentFrom false chars := by
  obtain ⟨first, rest, rfl⟩ := List.exists_cons_of_ne_nil hchars
  rfl

theorem indentFrom_false_append {line : List Char} (hline : '\n' ∉ line) (rest : List Char) :
    indentFrom false (line ++ rest) = line ++ indentFrom false rest := by
  induction line with
  | nil => rfl
  | cons char line ih =>
      obtain ⟨hchar, htail⟩ := not_or.1 (mt List.mem_cons.2 hline)
      have hbreak : (char == '\n') = false := beq_false_of_ne (Ne.symm hchar)
      rw [List.cons_append, indentFrom, hbreak, ih htail]
      rfl

/-- A single line gets one margin. -/
theorem indented_line {line : String} (hline : '\n' ∉ line.toList) :
    indented (line ++ ",\n") = "    " ++ line ++ "," ++ "\n" := by
  rw [← String.toList_inj, indented, String.toList_ofList, String.toList_append,
    indentFrom_true (by simp), indentFrom_false_append hline]
  simp [margin, indentFrom]

theorem foldl_write_indented (items : List Writer) (sink : Sink) :
    items.foldl
        (fun target item => target.write (indented (render target.layout item ++ ",\n"))) sink
      = sink.write
          (String.join (items.map fun item => indented (render sink.layout item ++ ",\n"))) := by
  induction items generalizing sink with
  | nil => simp [write]
  | cons item rest ih =>
      rw [List.foldl_cons, ih, layout_write, write_write, List.map_cons, String.join_cons]

/-- On many lines a container writes its items one after the other, each indented on its own. -/
theorem bracketed_of_multiline (opening closing : String) {items : List Writer} (hitems : items ≠ [])
    {sink : Sink} (hmultiline : sink.layout.multiline = true) :
    bracketed opening closing items sink
      = sink.write (opening ++ "\n"
          ++ String.join (items.map fun item => indented (render sink.layout item ++ ",\n"))
          ++ closing) := by
  have hsome : items.isEmpty = false := List.isEmpty_eq_false_iff.2 hitems
  rw [bracketed, hmultiline, hsome, Bool.not_false, Bool.and_true, if_pos rfl]
  dsimp only
  rw [foldl_write_indented, layout_write, write_write, write_write, ← String.append_assoc]

end Sink

end Text

namespace CategorySet

open Text (Joiner Layout Sink lines)

variable {join : Joiner}

theorem break_not_mem_taggedText (hjoin : join.Interleaves) (set : CategorySet) :
    '\n' ∉ (set.taggedText join).toList := by
  have hname : ∀ category : Category, '\n' ∉ category.name.toList := by
    intro category
    cases category <;> decide
  have htext : '\n' ∉ (set.text join).toList := by
    rw [text_eq hjoin]
    split
    · decide
    · refine Text.not_mem_intercalate (by decide) fun name hmem => ?_
      obtain ⟨category, _, rfl⟩ := List.mem_map.1 hmem
      exact hname category
  rw [taggedText_eq hjoin]
  simpa using htext

theorem render_writeTagged (hjoin : join.Interleaves) (set : CategorySet) (layout : Layout) :
    Sink.render layout (set.writeTagged join) = set.taggedText join := by
  rw [taggedText_eq hjoin]
  exact Sink.render_eq_of_forall_write (writeTagged_eq hjoin set) layout

theorem indented_writeTagged (hjoin : join.Interleaves) (set : CategorySet) (layout : Layout) :
    Sink.indented (Sink.render layout (set.writeTagged join) ++ ",\n")
      = "    " ++ set.taggedText join ++ "," ++ "\n" := by
  rw [render_writeTagged hjoin, Sink.indented_line (break_not_mem_taggedText hjoin set)]

/-- A container of sets that stands on many lines has one line for each of them. -/
theorem lines_bracketed (hjoin : join.Interleaves) {opening closing : String}
    (hopening : '\n' ∉ opening.toList) (hclosing : '\n' ∉ closing.toList)
    {sets : List CategorySet} (hsets : sets ≠ []) {sink : Sink}
    (hmultiline : sink.layout.multiline = true) :
    ∃ added, Sink.bracketed opening closing (sets.map (writeTagged join)) sink = sink.write added
      ∧ lines added
        = opening :: sets.map (fun set => "    " ++ set.taggedText join ++ ",") ++ [closing] := by
  have hlines : ∀ line ∈ sets.map (fun set => "    " ++ set.taggedText join ++ ","),
      '\n' ∉ line.toList := by
    intro line hline
    obtain ⟨set, _, rfl⟩ := List.mem_map.1 hline
    simpa using break_not_mem_taggedText hjoin set
  have hitems : sets.map (writeTagged join) ≠ [] := mt List.map_eq_nil_iff.1 hsets
  refine ⟨_, Sink.bracketed_of_multiline opening closing hitems hmultiline, ?_⟩
  rw [List.map_map, Function.comp_def]
  simp only [indented_writeTagged hjoin]
  rw [String.append_assoc, Text.lines_append_break hopening, List.cons_append,
    ← Text.lines_join_append hlines hclosing, List.map_map]
  rfl

/-- Both forms of a set add the same text whatever layout is requested and whatever has been written
before, and leave the layout as it was. In a container on many lines a set has a line of its own and
no break inside it. -/
theorem text_ignores_layout {join : Joiner} (hjoin : join.Interleaves) :
    (∀ (set : CategorySet) (sink : Sink),
        set.write join sink = { sink with written := sink.written ++ set.text join }
          ∧ set.writeTagged join sink
            = { sink with written := sink.written ++ ("CharFlags(" ++ set.text join ++ ")") })
      ∧ (∀ set : CategorySet, lines (set.taggedText join) = [set.taggedText join])
      ∧ ∀ (opening closing : String) (sets : List CategorySet) (sink : Sink),
          '\n' ∉ opening.toList → '\n' ∉ closing.toList → sets ≠ [] →
            sink.layout.multiline = true →
              ∃ added, Sink.bracketed opening closing (sets.map (writeTagged join)) sink
                  = { sink with written := sink.written ++ added }
                ∧ lines added
                  = opening :: sets.map (fun set => "    " ++ set.taggedText join ++ ",")
                    ++ [closing] := by
  refine ⟨fun set sink => ⟨write_eq_write_text hjoin set sink, writeTagged_eq hjoin set sink⟩,
    fun set => Text.lines_of_no_break (break_not_mem_taggedText hjoin set), ?_⟩
  intro opening closing sets sink hopening hclosing hsets hmultiline
  exact lines_bracketed hjoin hopening hclosing hsets hmultiline

/-- The same layout pads and cuts a text that honours it. -/
theorem text_ignores_layout_some :
    Joiner.Interleaves Sink.separated
      ∧ Sink.writeFitted "NONE" ⟨{ width := 6, precision := some 2, fill := '*' }, "> "⟩
        = ⟨{ width := 6, precision := some 2, fill := '*' }, "> NO****"⟩
      ∧ write Sink.separated ∅ ⟨{ width := 6, precision := some 2, fill := '*' }, "> "⟩
        = ⟨{ width := 6, precision := some 2, fill := '*' }, "> NONE"⟩
      ∧ ∃ added, Sink.bracketed "Some(" ")" [writeTagged Sink.separated {.digit, .word}]
            ⟨{ multiline := true, width := 40 }, "> "⟩
          = ⟨{ multiline := true, width := 40 }, "> " ++ added⟩
        ∧ lines added = ["Some(", "    CharFlags(DIGIT | WORD),", ")"] := by
  obtain ⟨hwrite, _, hlines⟩ := text_ignores_layout Joiner.interleaves_separated
  obtain ⟨hempty, _⟩ := hwrite ∅ ⟨{ width := 6, precision := some 2, fill := '*' }, "> "⟩
  obtain ⟨added, hadded, hsome⟩ := hlines "Some(" ")" [{.digit, .word}]
    ⟨{ multiline := true, width := 40 }, "> "⟩ (by decide) (by decide) (by decide) rfl
  exact ⟨Joiner.interleaves_separated, rfl, hempty.trans rfl, added, hadded, hsome.trans rfl⟩

end CategorySet

end CharClass
