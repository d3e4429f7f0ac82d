import CharClass.CategorySet.Cursor
import Mathlib.Data.List.Induction

/-!
# Walks through a set

A walk takes steps on one cursor, each from where the step before it stopped. A step passes some of
the items that remain, always the foremost ones, and what it answers is read off these items and
nothing else. So the items passed on a walk, step by step, and those left behind it are the items of
the set in their order.

A step that asks for more items than remain passes them all. From then on nothing remains, and every
answer says so.
-/

namespace CharClass.Cursor

variable {cursor : Cursor}

/-- The items a step passes, which are those it skips, answers with, collects or counts, and what it
answers. -/
structure Visit where
  passed : List Item
  answer : Answer
deriving DecidableEq

/-- What a step does to the items that remain. -/
def Step.visit : Step → List Item → Visit
  | .next, remaining => ⟨remaining.take 1, .item remaining.head?⟩
  | .nth skipped, remaining => ⟨remaining.take (skipped + 1), .item remaining[skipped]?⟩
  | .collect, remaining => ⟨remaining, .items remaining⟩
  | .count, remaining => ⟨remaining, .count remaining.length⟩
  | .last, remaining => ⟨remaining, .item remaining.getLast?⟩

/-- The visits of a list of steps, each to the items that the steps before it have not passed. -/
def visits : List Step → List Item → List Visit
  | [], _ => []
  | step :: rest, remaining =>
      step.visit remaining :: visits rest (remaining.drop (step.visit remaining).passed.length)

/-- What a step answers where nothing remains. -/
def Step.answerAtEnd : Step → Answer
  | .next | .nth _ | .last => .item none
  | .collect => .items []
  | .count => .count 0

/-! ### One step -/

theorem nth_eq (skipped : Nat) (cursor : Cursor) :
    (cursor.nth skipped).1 = cursor.remaining[skipped]?
      ∧ (cursor.nth skipped).2.remaining = cursor.remaining.drop (skipped + 1) := by
  induction skipped generalizing cursor with
  | zero => exact ⟨by rw [nth, next_fst, List.head?_eq_getElem?],
      by rw [nth, remaining_next, List.drop_one]⟩
  | succ skipped ih =>
      have hfound := cursor.next_fst
      have hpassed := cursor.remaining_next
      rcases hnext : cursor.next with ⟨_ | found, passed⟩
      · -- nothing remains, so the search for an item to skip has already failed
        rw [hnext] at hfound hpassed
        have hnil : cursor.remaining = [] := List.head?_eq_none_iff.1 hfound.symm
        rw [hnil] at hpassed
        simpa [nth, hnext, hnil] using hpassed
      · rw [hnext] at hpassed
        obtain ⟨hitem, hleft⟩ := ih passed
        rw [hpassed] at hitem hleft
        simp [nth, hnext, hitem, hleft, List.getElem?_tail]

theorem count_fst (cursor : Cursor) : cursor.count.1 = cursor.remaining.length := by
  rw [count, fold_fst, List.foldl_add_const, Nat.zero_add, Nat.one_mul]

theorem last_fst (cursor : Cursor) : cursor.last.1 = cursor.remaining.getLast? := by
  rw [last, fold_fst]
  induction cursor.remaining using List.reverseRecOn with
  | nil => rfl
  | append_singleton items item _ =>
      rw [List.foldl_append, List.getLast?_concat]
      rfl

theorem step_fst (step : Step) (cursor : Cursor) :
    (cursor.step step).1 = (step.visit cursor.remaining).answer := by
  cases step with
  | next => exact congrArg Answer.item cursor.next_fst
  | nth skipped => exact congrArg Answer.item (nth_eq skipped cursor).1
  | collect => exact congrArg Answer.items cursor.collect_fst
  | count => exact congrArg Answer.count cursor.count_fst
  | last => exact congrArg Answer.item cursor.last_fst

/-- A step passes the foremost of the items that remain and leaves the others. -/
theorem passed_append_remaining_step (step : Step) (cursor : Cursor) :
    (step.visit cursor.remaining).passed ++ (cursor.step step).2.remaining = cursor.remaining := by
  cases step with
  | next =>
      change cursor.remaining.take 1 ++ cursor.next.2.remaining = cursor.remaining
      rw [remaining_next, ← List.drop_one, List.take_append_drop]
  | nth skipped =>
      change cursor.remaining.take (skipped + 1) ++ (cursor.nth skipped).2.remaining
        = cursor.remaining
      rw [(nth_eq skipped cursor).2, List.take_append_drop]
  | collect | count | last => exact List.append_nil cursor.remaining

theorem remaining_step (step : Step) (cursor : Cursor) :
    (cursor.step step).2.remaining
      = cursor.remaining.drop (step.visit cursor.remaining).passed.length := by
  have hsplit := passed_append_remaining_step step cursor
  calc
    (cursor.step step).2.remaining
        = ((step.visit cursor.remaining).passed ++ (cursor.step step).2.remaining).drop
            (step.visit cursor.remaining).passed.length := List.drop_left.symm
    _ = cursor.remaining.drop (step.visit cursor.remaining).passed.length := by rw [hsplit]

theorem step_of_remaining_eq_nil (step : Step) (hend : cursor.remaining = []) :
    (cursor.step step).1 = step.answerAtEnd ∧ (cursor.step step).2.remaining = [] := by
  have hsplit := passed_append_remaining_step step cursor
  rw [hend, List.append_eq_nil_iff] at hsplit
  refine ⟨?_, hsplit.2⟩
  rw [step_fst, hend]
  cases step <;> rfl

/-! ### Whole walks -/

theorem run_cons (step : Step) (rest : List Step) (cursor : Cursor) :
    cursor.run (step :: rest)
      = ((cursor.step step).1 :: ((cursor.step step).2.run rest).1,
          ((cursor.step step).2.run rest).2) := rfl

theorem run_append (steps later : List Step) (cursor : Cursor) :
    (cursor.run (steps ++ later)).1
      = (cursor.run steps).1 ++ ((cursor.run steps).2.run later).1 := by
  induction steps generalizing cursor with
  | nil => rfl
  | cons step rest ih => rw [List.cons_append, run_cons, run_cons, ih, List.cons_append]

theorem run_fst (steps : List Step) (cursor : Cursor) :
    (cursor.run steps).1 = (visits steps cursor.remaining).map Visit.answer := by
  induction steps generalizing cursor with
  | nil => rfl
  | cons step rest ih =>
      rw [run_cons, ih, step_fst, remaining_step, visits, List.map_cons]

theorem passed_append_remaining_run (steps : List Step) (cursor : Cursor) :
    ((visits steps cursor.remaining).map Visit.passed).flatten ++ (cursor.run steps).2.remaining
      = cursor.remaining := by
  induction steps generalizing cursor with
  | nil => rfl
  | cons step rest ih =>
      rw [visits, List.map_cons, List.flatten_cons, run_cons, ← remaining_step, List.append_assoc,
        ih, passed_append_remaining_step]

theorem run_of_remaining_eq_nil (steps : List Step) (hend : cursor.remaining = []) :
    (cursor.run steps).1 = steps.map Step.answerAtEnd := by
  induction steps generalizing cursor with
  | nil => rfl
  | cons step rest ih =>
      obtain ⟨hanswer, hstill⟩ := step_of_remaining_eq_nil step hend
      rw [run_cons, hanswer, ih hstill, List.map_cons]

/-- The answers on a walk are those of its visits to the items of the members. What the visits pass,
put together, and what is then left to collect is that list again, so no item is lost, met twice or
met out of order. Skipping some items finds the one behind them; where there are too few, it finds
nothing and leaves nothing. After the last item every step answers that nothing remains. -/
theorem walk_passes_members_in_order (set : CategorySet) :
    set.toList.map Category.item = allItems.filter (fun item => set.includes item.2)
      ∧ ∀ (steps : List Step) (answers : List Answer) (cursor : Cursor),
          (start set).run steps = (answers, cursor) →
            answers = (visits steps (set.toList.map Category.item)).map Visit.answer
              ∧ ((visits steps (set.toList.map Category.item)).map Visit.passed).flatten
                  ++ cursor.remaining
                = set.toList.map Category.item
              ∧ cursor.collect.1 = cursor.remaining
              ∧ (∀ skipped, (cursor.nth skipped).1 = cursor.remaining[skipped]?
                ∧ (cursor.remaining.length ≤ skipped → (cursor.nth skipped).2.remaining = []))
              ∧ (cursor.remaining = [] → ∀ later,
                ((start set).run (steps ++ later)).1 = answers ++ later.map Step.answerAtEnd) := by
  refine ⟨?_, fun steps answers cursor hrun => ?_⟩
  · exact (remaining_start set).symm
  · have hanswers := run_fst steps (start set)
    have hmembers := passed_append_remaining_run steps (start set)
    rw [hrun, remaining_start] at hanswers hmembers
    refine ⟨hanswers, hmembers, cursor.collect_fst, fun skipped => ?_, fun hend later => ?_⟩
    · obtain ⟨hitem, hleft⟩ := nth_eq skipped cursor
      refine ⟨hitem, fun hfew => ?_⟩
      rw [hleft, List.drop_eq_nil_iff]
      exact Nat.le_succ_of_le hfew
    · rw [run_append, hrun, run_of_remaining_eq_nil later hend]

/-- The first step skips `hexDigit`. The third one looks for a second item behind `blank`, the last
one, and so passes it without an answer. -/
theorem walk_passes_members_in_order_hexDigit_word_blank :
    (start {.hexDigit, .word, .blank}).run [.nth 1, .nth 1, .next]
        = ([.item (some ("WORD", {.word})), .item none, .item none],
            ⟨{.hexDigit, .word, .blank}, []⟩)
      ∧ (visits [.nth 1, .nth 1, .next]
            [("HEX_DIGIT", {.hexDigit}), ("WORD", {.word}), ("BLANK", {.blank})]).map Visit.passed
        = [[("HEX_DIGIT", {.hexDigit}), ("WORD", {.word})], [("BLANK", {.blank})], []]
      ∧ (start {.hexDigit, .word, .blank}).collect.1
        = [("HEX_DIGIT", {.hexDigit}), ("WORD", {.word}), ("BLANK", {.blank})]
      ∧ ((start {.hexDigit, .word, .blank}).nth 3).2.remaining = []
      ∧ ((start {.hexDigit, .word, .blank}).run ([.nth 1, .nth 1, .next] ++ [.count, .collect])).1
        = [.item (some ("WORD", {.word})), .item none, .item none, .count 0, .items []] := by
  have hrun : (start {.hexDigit, .word, .blank}).run [.nth 1, .nth 1, .next]
      = ([.item (some ("WORD", {.word})), .item none, .item none],
          ⟨{.hexDigit, .word, .blank}, []⟩) := rfl
  obtain ⟨_, hwalks⟩ := walk_passes_members_in_order {.hexDigit, .word, .blank}
  obtain ⟨_, _, hcollect, hnth, _⟩ := hwalks [] [] _ rfl
  obtain ⟨_, _, _, _, hlater⟩ := hwalks _ _ _ hrun
  exact ⟨hrun, by decide, hcollect, (hnth 3).2 (by decide), hlater rfl [.count, .collect]⟩

end CharClass.Cursor
