import CharClass.CategorySet.Constructible
import CharClass.CategorySet.Names
import CharClass.Proofs.Listing

/-!
# The text of a set can be read back

A set that is not empty is written as the names of its members with the separator between any two,
whatever layout is requested and whichever joiner puts them together. No name contains a blank, so
cutting the text at the separator gives exactly the names, and the names give the members: a set of
known bits is determined by its text.

The text of the empty set is the only other text that is written. It is no name and contains no
separator, so no other set is written like it.
-/

namespace CharClass

/-! ### What is written -/

/-- Where no layout is requested, joining items that would honour it joins their texts. -/
theorem Text.Joiner.Interleaves.join_writeFitted {join : Joiner} (hjoin : join.Interleaves)
    (separator : String) (texts : List String) {sink : Sink} (hplain : sink.layout = .plain) :
    join separator (texts.map Sink.writeFitted) sink
      = sink.write (separator.intercalate texts) := by
  induction texts generalizing sink with
  | nil =>
      rw [List.map_nil, hjoin.nil]
      simp [Sink.write]
  | cons text rest ih =>
      have hfirst := Sink.writeFitted_of_plain hplain text
      cases rest with
      | nil => rwa [String.intercalate_singleton, List.map_singleton, hjoin.singleton]
      | cons next others =>
          have hhead : (sink.writeFitted text).write separator = sink.write (text ++ separator) := by
            rw [hfirst, Sink.write_write]
          calc
            join separator ((text :: next :: others).map Sink.writeFitted) sink
                = join separator ((next :: others).map Sink.writeFitted)
                    (sink.write (text ++ separator)) := by
              rw [← hhead]
              exact hjoin.cons_cons ..
            _ = (sink.write (text ++ separator)).write (separator.intercalate (next :: others)) :=
              ih hplain
            _ = sink.write (separator.intercalate (text :: next :: others)) := by
              rw [Sink.write_write, String.intercalate_cons_cons]

namespace CategorySet

open Text (Joiner Sink)

variable {join : Joiner}

theorem text_of_isEmpty {set : CategorySet} (hempty : set.isEmpty = true) :
    set.text join = emptyText := by
  refine Sink.render_eq_of_forall_write (fun sink => ?_) .plain
  rw [write, if_pos hempty]

/-- The requested layout reaches neither of the two ways in which a set is written. -/
theorem write_eq (hjoin : join.Interleaves) (set : CategorySet) (sink : Sink) :
    set.write join sink = sink.write
      (if set.isEmpty then emptyText else separator.intercalate (set.toList.map Category.name)) := by
  rw [write]
  split
  · rfl
  · rw [Sink.under, hjoin.join_writeFitted _ _ rfl, names_eq]
    rfl

theorem text_eq (hjoin : join.Interleaves) (set : CategorySet) :
    set.text join
      = if set.isEmpty then emptyText else separator.intercalate (set.toList.map Category.name) :=
  Sink.render_eq_of_forall_write (write_eq hjoin set) .plain

theorem text_of_not_isEmpty (hjoin : join.Interleaves) {set : CategorySet}
    (hempty : set.isEmpty ≠ true) :
    set.text join = separator.intercalate (set.toList.map Category.name) := by
  rw [text_eq hjoin, if_neg hempty]

/-- A set adds its text to a sink, whatever layout is requested there. -/
theorem write_eq_write_text (hjoin : join.Interleaves) (set : CategorySet) (sink : Sink) :
    set.write join sink = sink.write (set.text join) := by
  rw [write_eq hjoin, text_eq hjoin]

theorem writeTagged_eq (hjoin : join.Interleaves) (set : CategorySet) (sink : Sink) :
    set.writeTagged join sink = sink.write ("CharFlags(" ++ set.text join ++ ")") := by
  rw [writeTagged, Sink.under, write_eq_write_text hjoin, ← Sink.write_write, ← Sink.write_write]
  rfl

theorem taggedText_eq (hjoin : join.Interleaves) (set : CategorySet) :
    set.taggedText join = "CharFlags(" ++ set.text join ++ ")" :=
  Sink.render_eq_of_forall_write (writeTagged_eq hjoin set) .plain

/-! ### Cutting at the separator -/

theorem pieces_ne_nil (text : List Char) : pieces text ≠ [] := by
  fun_induction pieces text with
  | case1 | case2 | case3 | case4 => exact List.cons_ne_nil _ _

/-- Cutting loses nothing: the pieces of any text, joined again, are the text. -/
theorem intercalate_pieces (text : List Char) :
    separator.toList.intercalate (pieces text) = text := by
  fun_induction pieces text with
  | case1 => rfl
  | case2 rest ih =>
      obtain ⟨first, others, hpieces⟩ := List.exists_cons_of_ne_nil (pieces_ne_nil rest)
      rw [hpieces] at ih ⊢
      rw [List.intercalate_cons_cons, ih]
      rfl
  | case3 char rest _ hpieces ih =>
      -- every text has at least one piece
      exact absurd hpieces (pieces_ne_nil rest)
  | case4 char rest _ first others hpieces ih =>
      rw [hpieces] at ih
      rw [List.intercalate_cons_cons_left, ih]

theorem pieces_cons {char : Char} {rest first : List Char} {others : List (List Char)}
    (hblank : char ≠ ' ') (hrest : pieces rest = first :: others) :
    pieces (char :: rest) = (char :: first) :: others := by
  rw [pieces, hrest]
  intro tail hchar
  exact absurd hchar hblank

theorem pieces_of_no_blank {name : List Char} (hname : ' ' ∉ name) : pieces name = [name] := by
  induction name with
  | nil => rfl
  | cons char rest ih =>
      obtain ⟨hchar, hrest⟩ := not_or.1 (mt List.mem_cons.2 hname)
      exact pieces_cons (Ne.symm hchar) (ih hrest)

theorem pieces_append_separator {name : List Char} (hname : ' ' ∉ name) (rest : List Char) :
    pieces (name ++ separator.toList ++ rest) = name :: pieces rest := by
  induction name with
  | nil => rfl
  | cons char name ih =>
      obtain ⟨hchar, htail⟩ := not_or.1 (mt List.mem_cons.2 hname)
      exact pieces_cons (Ne.symm hchar) (ih htail)

theorem intercalate_namesIn (text : String) : separator.intercalate (namesIn text) = text := by
  have hmap : String.toList ∘ String.ofList = id := funext fun _ => String.toList_ofList
  rw [← String.toList_inj, String.toList_intercalate, namesIn, List.map_map, hmap, List.map_id,
    intercalate_pieces]

/-- The separator is found where it was put and nowhere else. -/
theorem namesIn_intercalate {names : List String} (hnames : names ≠ [])
    (hblank : ∀ name ∈ names, ' ' ∉ name.toList) :
    namesIn (separator.intercalate names) = names := by
  induction names with
  | nil => exact absurd rfl hnames
  | cons name rest ih =>
      have hname : ' ' ∉ name.toList := hblank name List.mem_cons_self
      cases rest with
      | nil =>
          rw [String.intercalate_singleton, namesIn, pieces_of_no_blank hname]
          simp
      | cons next others =>
          have htail := ih (List.cons_ne_nil next others)
            fun other hother => hblank other (List.mem_cons_of_mem name hother)
          rw [namesIn] at htail
          rw [String.intercalate_cons_cons, namesIn, String.toList_append, String.toList_append,
            pieces_append_separator hname, List.map_cons, htail, String.ofList_toList]

theorem blank_not_mem_name (category : Category) : ' ' ∉ category.name.toList := by
  cases category <;> decide

/-! ### Reading a set back -/

theorem namesIn_text (hjoin : join.Interleaves) {set : CategorySet} (hset : set.IsKnown)
    (hempty : set.isEmpty ≠ true) :
    namesIn (set.text join) = set.toList.map Category.name := by
  have hnames : set.toList.map Category.name ≠ [] :=
    fun hnil => hempty (hset.toList_eq_nil_iff.1 (List.map_eq_nil_iff.1 hnil))
  rw [text_of_not_isEmpty hjoin hempty]
  refine namesIn_intercalate hnames fun name hname => ?_
  obtain ⟨category, _, hcategory⟩ := List.mem_map.1 hname
  rw [← hcategory]
  exact blank_not_mem_name category

/-- A text without a separator is the text of a set only if it is a name. -/
theorem text_ne_of_not_name (hjoin : join.Interleaves) {set : CategorySet} (hset : set.IsKnown)
    (hempty : set.isEmpty ≠ true) {text : String} (hpieces : namesIn text = [text])
    (hname : ∀ category : Category, category.name ≠ text) : set.text join ≠ text := by
  intro htext
  have hnames := namesIn_text hjoin hset hempty
  rw [htext, hpieces] at hnames
  have hmem : text ∈ set.toList.map Category.name := hnames ▸ List.mem_singleton.2 rfl
  obtain ⟨category, _, hcategory⟩ := List.mem_map.1 hmem
  exact hname category hcategory

theorem text_eq_emptyText_iff (hjoin : join.Interleaves) {set : CategorySet}
    (hset : set.IsKnown) : set.text join = emptyText ↔ set.isEmpty = true := by
  refine ⟨fun htext => ?_, text_of_isEmpty⟩
  by_cases hempty : set.isEmpty = true
  · exact hempty
  · have hname : ∀ category : Category, category.name ≠ emptyText := by
      intro category
      cases category <;> decide
    exact absurd htext (text_ne_of_not_name hjoin hset hempty (by decide) hname)

theorem text_ne_empty (hjoin : join.Interleaves) {set : CategorySet} (hset : set.IsKnown) :
    set.text join ≠ "" := by
  by_cases hempty : set.isEmpty = true
  · rw [text_of_isEmpty hempty]
    decide
  · have hname : ∀ category : Category, category.name ≠ "" := by
      intro category
      cases category <;> decide
    exact text_ne_of_not_name hjoin hset hempty (by decide) hname

theorem text_inj (hjoin : join.Interleaves) {set other : CategorySet} (hset : set.IsKnown)
    (hother : other.IsKnown) : set.text join = other.text join ↔ set = other := by
  refine ⟨fun htext => ?_, fun heq => by rw [heq]⟩
  by_cases hempty : set.isEmpty = true
  · have hotherEmpty : other.isEmpty = true := by
      rw [← text_eq_emptyText_iff hjoin hother, ← htext, text_of_isEmpty hempty]
    rw [isEmpty_iff.1 hempty, isEmpty_iff.1 hotherEmpty]
  · have hotherEmpty : other.isEmpty ≠ true := fun hotherEmpty =>
      hempty ((text_eq_emptyText_iff hjoin hset).1 (htext.trans (text_of_isEmpty hotherEmpty)))
    have hnames := namesIn_text hjoin hset hempty
    rw [htext, namesIn_text hjoin hother hotherEmpty] at hnames
    have hlist := (List.map_inj_right fun _ _ => Category.name_inj.1).1 hnames
    exact (hset.toList_inj hother).1 hlist.symm

theorem taggedText_inj (hjoin : join.Interleaves) {set other : CategorySet} (hset : set.IsKnown)
    (hother : other.IsKnown) : set.taggedText join = other.taggedText join ↔ set = other := by
  rw [taggedText_eq hjoin, taggedText_eq hjoin, String.append_left_inj, String.append_right_inj]
  exact text_inj hjoin hset hother

theorem mem_namesIn_text (hjoin : join.Interleaves) {set : CategorySet} (hset : set.IsKnown)
    (hempty : set.isEmpty ≠ true) (category : Category) :
    category.name ∈ namesIn (set.text join) ↔ set.includes {category} = true := by
  rw [namesIn_text hjoin hset hempty, includes_singleton, ← mem_toList]
  refine ⟨fun hname => ?_, fun hmem => List.mem_map_of_mem hmem⟩
  obtain ⟨other, hother, heq⟩ := List.mem_map.1 hname
  rwa [← Category.name_inj.1 heq]

theorem ofNames_namesIn_text (hjoin : join.Interleaves) {set : CategorySet} (hset : set.IsKnown)
    (hempty : set.isEmpty ≠ true) : ofNames (namesIn (set.text join)) = set := by
  rw [namesIn_text hjoin hset hempty, ofNames_map_name, hset.ofList_toList]

/-- Every sublist of the names that is not empty is written for some set, with the separators. -/
theorem exists_text_eq_intercalate (hjoin : join.Interleaves) {names : List String}
    (hnames : names ≠ []) (hsub : names.Sublist (Category.all.map Category.name)) :
    ∃ set, Constructible set ∧ set.text join = separator.intercalate names := by
  obtain ⟨categories, hcategories, rfl⟩ := List.sublist_map_iff.1 hsub
  have hknown := isKnown_ofList categories
  have hlist : (ofList categories).toList = categories := toList_ofList hcategories
  have hempty : (ofList categories).isEmpty ≠ true := by
    intro hempty
    have hnil := hknown.toList_eq_nil_iff.2 hempty
    rw [hlist] at hnil
    exact hnames (by rw [hnil, List.map_nil])
  refine ⟨ofList categories, hknown.constructible, ?_⟩
  rw [text_of_not_isEmpty hjoin hempty, hlist]

theorem exists_text_eq_iff (hjoin : join.Interleaves) (text : String) :
    (∃ set, Constructible set ∧ set.text join = text)
      ↔ text = emptyText ∨ ∃ names : List String, names ≠ []
          ∧ names.Sublist (Category.all.map Category.name) ∧ text = separator.intercalate names := by
  refine ⟨fun hexists => ?_, fun htext => ?_⟩
  · obtain ⟨set, hset, htext⟩ := hexists
    rw [← htext]
    by_cases hempty : set.isEmpty = true
    · exact Or.inl (text_of_isEmpty hempty)
    · have hlist : set.toList ≠ [] := fun hnil => hempty (hset.isKnown.toList_eq_nil_iff.1 hnil)
      exact Or.inr ⟨set.toList.map Category.name, mt List.map_eq_nil_iff.1 hlist,
        set.toList_sublist.map Category.name, text_of_not_isEmpty hjoin hempty⟩
  · obtain hempty | ⟨names, hnames, hsub, hjoined⟩ := htext
    · rw [hempty]
      exact ⟨∅, Constructible.empty, text_of_isEmpty rfl⟩
    · rw [hjoined]
      exact exists_text_eq_intercalate hjoin hnames hsub

/-- What is written is exactly `NONE` and the sublists of the names, a set is determined by its text
in either form, and cutting the text gives back its members, lowest position first. -/
theorem text_reads_back {join : Joiner} (hjoin : join.Interleaves) :
    (∀ text : String, (∃ set, Constructible set ∧ set.text join = text)
        ↔ text = "NONE" ∨ ∃ names : List String, names ≠ []
            ∧ names.Sublist (Category.all.map Category.name) ∧ text = " | ".intercalate names)
      ∧ (∀ set other : CategorySet, Constructible set → Constructible other →
          (set.text join = other.text join ↔ set = other)
            ∧ (set.taggedText join = other.taggedText join ↔ set = other))
      ∧ (∀ text : String, " | ".intercalate (namesIn text) = text)
      ∧ ∀ set : CategorySet, Constructible set → set.isEmpty = false →
          namesIn (set.text join) = set.toList.map Category.name
            ∧ set.toList.Pairwise (fun first second => first.position < second.position)
            ∧ (∀ category : Category,
                category.name ∈ namesIn (set.text join) ↔ set.includes {category} = true)
            ∧ ofNames (namesIn (set.text join)) = set := by
  refine ⟨exists_text_eq_iff hjoin, fun set other hset hother => ?_, intercalate_namesIn,
    fun set hset hempty => ?_⟩
  · exact ⟨text_inj hjoin hset.isKnown hother.isKnown,
      taggedText_inj hjoin hset.isKnown hother.isKnown⟩
  · have hne : set.isEmpty ≠ true := Bool.eq_false_iff.1 hempty
    exact ⟨namesIn_text hjoin hset.isKnown hne, set.pairwise_position_toList,
      mem_namesIn_text hjoin hset.isKnown hne, ofNames_namesIn_text hjoin hset.isKnown hne⟩

/-- One name inside another is no name in the text: `DIGIT` is not read out of `HEX_DIGIT`. -/
theorem text_reads_back_hexDigit_wordStart :
    Joiner.Interleaves Sink.separated
      ∧ Constructible {.hexDigit, .wordStart}
      ∧ namesIn (text Sink.separated {.hexDigit, .wordStart}) = ["HEX_DIGIT", "WORD_START"]
      ∧ ¬"DIGIT" ∈ namesIn (text Sink.separated {.hexDigit, .wordStart})
      ∧ ofNames ["HEX_DIGIT", "WORD_START"] = {.hexDigit, .wordStart} := by
  have hset : Constructible {.hexDigit, .wordStart} := IsKnown.constructible (by decide)
  obtain ⟨_, _, _, hreads⟩ := text_reads_back Joiner.interleaves_separated
  obtain ⟨hnames, _, hmem, hread⟩ := hreads _ hset (by decide)
  have hwritten : namesIn (text Sink.separated {.hexDigit, .wordStart})
      = ["HEX_DIGIT", "WORD_START"] := hnames
  refine ⟨Joiner.interleaves_separated, hset, hwritten, fun hdigit => ?_, hwritten ▸ hread⟩
  exact absurd ((hmem .digit).1 hdigit) (by decide)

end CategorySet

end CharClass
