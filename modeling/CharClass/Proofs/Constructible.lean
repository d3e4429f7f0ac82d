import CharClass.Proofs.Text

/-!
# The words of constructible sets

The words of the sets that the operations lead to are exactly the words without an unknown bit. A
session on a variable is one way to lead to a set: each of its steps keeps a constructible variable
constructible, and so does any number of them.

The three ways to ask whether a set is empty look at different things, the stored word, the members
met on a walk, and the text. They agree because a constructible word has no bit that is not met.
-/

namespace CharClass.CategorySet

open Text (Joiner Sink)

theorem isKnown_iff_and_not {set : CategorySet} :
    set.IsKnown ↔ set.bits &&& ~~~0x1FFF#16 = 0#16 := by
  refine ⟨fun hset => ?_, fun hzero => ?_⟩
  · have hbits : set.bits &&& knownBits = set.bits := hset
    calc
      set.bits &&& ~~~0x1FFF#16 = set.bits &&& (knownBits &&& ~~~knownBits) := by
        rw [← BitVec.and_assoc, hbits]
        rfl
      _ = set.bits &&& 0#16 := by rw [BitVec.and_not_self, BitVec.ofNat_eq_ofNat]
      _ = 0#16 := BitVec.and_zero
  · have hall : knownBits ||| ~~~0x1FFF#16 = BitVec.allOnes 16 := by decide
    change set.bits &&& knownBits = set.bits
    calc
      set.bits &&& knownBits = set.bits &&& knownBits ||| set.bits &&& ~~~0x1FFF#16 := by
        rw [hzero, BitVec.or_zero]
      _ = set.bits &&& (knownBits ||| ~~~0x1FFF#16) := BitVec.and_or_distrib_left.symm
      _ = set.bits := by rw [hall, BitVec.and_allOnes]

theorem exists_constructible_iff (word : BitVec 16) :
    (∃ set, Constructible set ∧ set.bits = word) ↔ word &&& ~~~0x1FFF#16 = 0#16 := by
  refine ⟨fun hexists => ?_, fun hzero => ?_⟩
  · obtain ⟨set, hset, hword⟩ := hexists
    rw [← hword]
    exact isKnown_iff_and_not.1 hset.isKnown
  · have hknown : IsKnown ⟨word⟩ := isKnown_iff_and_not.2 hzero
    exact ⟨⟨word⟩, hknown.constructible, rfl⟩

/-! ### Sessions -/

theorem Constructible.apply {set : CategorySet} {update : Update} (hset : Constructible set)
    (hoperand : Constructible update.operand) : Constructible (update.apply set) := by
  cases update with
  | join spelling operand => exact hset.join spelling hoperand
  | meet spelling operand => exact hset.meet spelling hoperand
  | assign operand => exact hoperand

theorem Constructible.value_entry {set : CategorySet} {step : Session.Step}
    (hset : Constructible set)
    (hoperand : ∀ change, step = .update change → Constructible change.operand) :
    Constructible (step.entry set).value := by
  cases step with
  | update change => exact hset.apply (hoperand change rfl)
  | query question => exact hset

/-- No step of a session leaves the constructible sets. -/
theorem Constructible.value_run {initial : CategorySet} {steps : List Session.Step}
    (hinitial : Constructible initial)
    (hoperands : ∀ change, .update change ∈ steps → Constructible change.operand) :
    ∀ entry ∈ Session.run initial steps, Constructible entry.value := by
  induction steps generalizing initial with
  | nil =>
      intro entry hentry
      rw [List.mem_singleton.1 hentry]
      exact hinitial
  | cons step rest ih =>
      have hstep : Constructible (step.entry initial).value :=
        hinitial.value_entry fun change hchange => hoperands change (hchange ▸ List.mem_cons_self)
      have hrest := ih hstep fun change hchange =>
        hoperands change (List.mem_cons_of_mem step hchange)
      -- the record of the rest opens with the value of this step, but without its answer
      intro entry hentry
      obtain hfirst | htail := List.mem_cons.1 hentry
      · rw [hfirst]
        exact hinitial
      · obtain hsecond | hlater := List.mem_cons.1 htail
        · rw [hsecond]
          exact hstep
        · exact hrest entry (List.mem_cons_of_mem _ hlater)

/-! ### The words and the tests of emptiness -/

/-- The words that the operations lead to are those with known bits only, in every entry of every
session, and on such words the three tests of emptiness agree. -/
theorem constructible_words {join : Joiner} (hjoin : join.Interleaves) :
    (∀ word : BitVec 16,
        (∃ set, Constructible set ∧ set.bits = word) ↔ word &&& ~~~0x1FFF#16 = 0#16)
      ∧ (∀ (initial : CategorySet) (steps : List Session.Step), Constructible initial →
          (∀ change, .update change ∈ steps → Constructible change.operand) →
          ∀ entry ∈ Session.run initial steps, entry.value.bits &&& ~~~0x1FFF#16 = 0#16)
      ∧ ∀ set : CategorySet, Constructible set →
          (set.isEmpty = true ↔ (Cursor.start set).collect.1 = [])
            ∧ (set.isEmpty = true ↔ set.text join = "NONE")
            ∧ set.text join ≠ "" := by
  refine ⟨exists_constructible_iff, fun initial steps hinitial hoperands entry hentry => ?_,
    fun set hset => ?_⟩
  · exact isKnown_iff_and_not.1 (hinitial.value_run hoperands entry hentry).isKnown
  · rw [Cursor.collect_fst, Cursor.remaining_start, List.map_eq_nil_iff]
    exact ⟨hset.isKnown.toList_eq_nil_iff.symm, (text_eq_emptyText_iff hjoin hset.isKnown).symm,
      text_ne_empty hjoin hset.isKnown⟩

theorem constructible_words_session :
    Joiner.Interleaves Sink.separated
      ∧ (∀ entry ∈ Session.run (ofBits 0xE009#16)
          [.update (.join .inPlace {.word}), .query .isEmpty, .update (.meet .operator {.upper})],
          entry.value.bits &&& ~~~0x1FFF#16 = 0#16)
      ∧ Constructible (ofBits 0xE000#16)
      ∧ (ofBits 0xE000#16).isEmpty = true
      ∧ (Cursor.start (ofBits 0xE000#16)).collect.1 = []
      ∧ (ofBits 0xE000#16).text Sink.separated = "NONE" := by
  have hset : Constructible (ofBits 0xE000#16) := Constructible.ofBits _
  have hempty : (ofBits 0xE000#16).isEmpty = true := by decide
  obtain ⟨_, hsession, htests⟩ := constructible_words Joiner.interleaves_separated
  obtain ⟨hlist, htext, _⟩ := htests (ofBits 0xE000#16) hset
  refine ⟨Joiner.interleaves_separated,
    hsession _ _ (Constructible.ofBits _) fun change hchange => ?_, hset, hempty,
    hlist.1 hempty, htext.1 hempty⟩
  simp only [List.mem_cons, Session.Step.update.injEq, reduceCtorEq, List.not_mem_nil, or_false,
    false_or] at hchange
  obtain rfl | rfl := hchange
  · exact Constructible.singleton .word
  · exact Constructible.singleton .upper

end CharClass.CategorySet
