import CharClass.CategorySet.Lemmas
import CharClass.CategorySet.Session
import Mathlib.Data.List.Forall2

/-!
# Sessions under a mask

An observer who knows a set only inside a mask. Joins, meets and assignments act on each category by
itself, so what such an observer sees after an update depends on what was seen before it and on what
is seen of the operand, and on nothing outside the mask. A query about categories of the mask has an
answer that the observer can work out.

Two sessions that look alike under a mask at the start and at every operand therefore look alike all
along, whatever else they do. None of this asks for known words: the three bits that stand for nothing
are kept apart in the same way.
-/

namespace CharClass.CategorySet

variable {mask first second third : CategorySet}

/-- Two sets that are the same inside a mask. -/
def AgreeOn (mask first second : CategorySet) : Prop := first ∩ mask = second ∩ mask

instance (mask first second : CategorySet) : Decidable (AgreeOn mask first second) :=
  inferInstanceAs (Decidable (_ = _))

namespace AgreeOn

theorem refl (mask set : CategorySet) : AgreeOn mask set set := rfl

theorem trans (hfirst : AgreeOn mask first second) (hsecond : AgreeOn mask second third) :
    AgreeOn mask first third :=
  Eq.trans hfirst hsecond

variable {left right : CategorySet}

theorem union (hsets : AgreeOn mask first second) (hoperands : AgreeOn mask left right) :
    AgreeOn mask (first ∪ left) (second ∪ right) := by
  rw [AgreeOn, union_inter_distrib_right, union_inter_distrib_right]
  exact congrArg₂ (· ∪ ·) hsets hoperands

theorem inter (hsets : AgreeOn mask first second) (hoperands : AgreeOn mask left right) :
    AgreeOn mask (first ∩ left) (second ∩ right) := by
  rw [AgreeOn, inter_inter_distrib_right first, inter_inter_distrib_right second]
  exact congrArg₂ (· ∩ ·) hsets hoperands

/-- Inside the mask nothing is left to disagree about. -/
theorem inter_eq {inner : CategorySet} (hsets : AgreeOn mask first second)
    (hinner : mask.includes inner = true) : first ∩ inner = second ∩ inner := by
  rw [includes_iff_inter] at hinner
  calc
    first ∩ inner = (first ∩ mask) ∩ inner := by rw [inter_assoc, hinner]
    _ = (second ∩ mask) ∩ inner := by rw [show first ∩ mask = second ∩ mask from hsets]
    _ = second ∩ inner := by rw [inter_assoc, hinner]

end AgreeOn

/-! ### Queries -/

/-- A query that looks at the categories of a mask only. What a masked comparison expects is free. -/
inductive Query.Within (mask : CategorySet) : Query → Prop
  | includes {operand : CategorySet} (hoperand : mask.includes operand = true) :
      Within mask (.includes operand)
  | intersects {operand : CategorySet} (hoperand : mask.includes operand = true) :
      Within mask (.intersects operand)
  | matchesOn {inner : CategorySet} (hinner : mask.includes inner = true)
      (expected : CategorySet) : Within mask (.matchesOn inner expected)

theorem Query.Within.ask_eq {question : Query} (hquestion : question.Within mask)
    (hsets : AgreeOn mask first second) : question.ask first = question.ask second := by
  rw [Bool.eq_iff_iff]
  cases hquestion with
  | includes hoperand =>
      rw [ask, ask, includes_iff_inter, includes_iff_inter, hsets.inter_eq hoperand]
  | intersects hoperand =>
      rw [ask, ask, intersects_iff_inter, intersects_iff_inter, hsets.inter_eq hoperand]
  | matchesOn hinner expected =>
      rw [ask, ask, matchesOn_iff_inter, matchesOn_iff_inter, hsets.inter_eq hinner]

/-! ### Updates -/

/-- Updates of one kind whose operands are the same inside a mask. -/
inductive Update.AgreeOn (mask : CategorySet) : Update → Update → Prop
  | join (spelling other : Spelling) {left right : CategorySet}
      (hoperands : mask.AgreeOn left right) : AgreeOn mask (.join spelling left) (.join other right)
  | meet (spelling other : Spelling) {left right : CategorySet}
      (hoperands : mask.AgreeOn left right) : AgreeOn mask (.meet spelling left) (.meet other right)
  | assign {left right : CategorySet} (hoperands : mask.AgreeOn left right) :
      AgreeOn mask (.assign left) (.assign right)

theorem Update.AgreeOn.apply_agreeOn {change other : Update} (hchange : change.AgreeOn mask other)
    (hsets : mask.AgreeOn first second) : mask.AgreeOn (change.apply first) (other.apply second) := by
  cases hchange with
  | join spelling otherSpelling hoperands =>
      rw [apply_join, apply_join]
      exact hsets.union hoperands
  | meet spelling otherSpelling hoperands =>
      rw [apply_meet, apply_meet]
      exact hsets.inter hoperands
  | assign hoperands => exact hoperands

/-- An update that joins nothing inside a mask, or meets with everything inside it. -/
inductive Update.Spares (mask : CategorySet) : Update → Prop
  | join (spelling : Spelling) {operand : CategorySet}
      (houtside : operand.intersects mask = false) : Spares mask (.join spelling operand)
  | meet (spelling : Spelling) {operand : CategorySet} (hinside : operand.includes mask = true) :
      Spares mask (.meet spelling operand)

theorem Update.Spares.apply_agreeOn {change : Update} (hchange : change.Spares mask)
    (set : CategorySet) : mask.AgreeOn (change.apply set) set := by
  cases hchange with
  | @join spelling operand houtside =>
      have hnone : operand ∩ mask = ∅ := by
        rw [← Bool.not_eq_true, intersects_iff_inter, not_not] at houtside
        exact houtside
      rw [apply_join, CategorySet.AgreeOn, union_inter_distrib_right, hnone]
      exact CategorySet.ext BitVec.or_zero
  | @meet spelling operand hinside =>
      rw [includes_iff_inter] at hinside
      rw [apply_meet, CategorySet.AgreeOn, inter_assoc, hinside]

/-! ### Sessions -/

namespace Session

/-- Steps of one kind. Updates have operands that are the same inside the mask; queries may ask for
different things. -/
inductive Step.AgreeOn (mask : CategorySet) : Step → Step → Prop
  | update {change other : Update} (hchange : change.AgreeOn mask other) :
      AgreeOn mask (.update change) (.update other)
  | query (question other : Query) : AgreeOn mask (.query question) (.query other)

/-- The steps of a session, each with what is recorded after it. -/
def exchanges (initial : CategorySet) (steps : List Step) : List (Step × Entry) :=
  steps.zip (run initial steps).tail

theorem exchanges_cons (initial : CategorySet) (step : Step) (rest : List Step) :
    exchanges initial (step :: rest)
      = (step, step.entry initial) :: exchanges (step.entry initial).value rest := rfl

theorem map_snd_exchanges (initial : CategorySet) (steps : List Step) :
    (exchanges initial steps).map Prod.snd = (run initial steps).tail := by
  induction steps generalizing initial with
  | nil => rfl
  | cons step rest ih =>
      rw [exchanges_cons, List.map_cons, ih]
      rfl

/-- What an observer under a mask cannot tell apart: the values differ outside the mask only, and a
query asked on both sides about categories of the mask has the same answer on both. -/
structure AgreeOn (mask : CategorySet) (exchange other : Step × Entry) : Prop where
  value : mask.AgreeOn exchange.2.value other.2.value
  answer : ∀ question : Query, question.Within mask → exchange.1 = .query question →
    other.1 = .query question →
      ∃ answer, exchange.2.answer = some answer ∧ other.2.answer = some answer

theorem Step.AgreeOn.entry_agreeOn {step other : Step} (hstep : step.AgreeOn mask other)
    (hsets : mask.AgreeOn first second) :
    Session.AgreeOn mask (step, step.entry first) (other, other.entry second) := by
  cases hstep with
  | update hchange =>
      refine ⟨hchange.apply_agreeOn hsets, fun question _ hupdate => ?_⟩
      cases hupdate
  | query asked otherAsked =>
      refine ⟨hsets, fun question hwithin hasked hother => ?_⟩
      obtain rfl : asked = question := Step.query.inj hasked
      obtain rfl : otherAsked = asked := Step.query.inj hother
      exact ⟨_, rfl, congrArg some (hwithin.ask_eq hsets).symm⟩

theorem exchanges_agreeOn {steps others : List Step}
    (hsteps : List.Forall₂ (Step.AgreeOn mask) steps others) (hsets : mask.AgreeOn first second) :
    List.Forall₂ (AgreeOn mask) (exchanges first steps) (exchanges second others) := by
  induction hsteps generalizing first second with
  | nil => exact .nil
  | cons hstep _ ih =>
      have hentry := hstep.entry_agreeOn hsets
      rw [exchanges_cons, exchanges_cons]
      exact .cons hentry (ih hentry.value)

theorem run_agreeOn {steps others : List Step}
    (hsteps : List.Forall₂ (Step.AgreeOn mask) steps others) (hsets : mask.AgreeOn first second) :
    List.Forall₂ (fun entry other => mask.AgreeOn entry.value other.value) (run first steps)
      (run second others) := by
  have hvalues := (exchanges_agreeOn hsteps hsets).imp fun _ _ hexchange => hexchange.value
  have hentries : List.Forall₂ (fun entry other : Entry => mask.AgreeOn entry.value other.value)
      ((exchanges first steps).map Prod.snd) ((exchanges second others).map Prod.snd) :=
    List.forall₂_map_left_iff.2 (List.forall₂_map_right_iff.2 hvalues)
  rw [map_snd_exchanges, map_snd_exchanges] at hentries
  exact .cons hsets hentries

theorem Step.value_entry_agreeOn {step : Step}
    (hspare : ∀ change, step = .update change → change.Spares mask) (set : CategorySet) :
    mask.AgreeOn (step.entry set).value set := by
  cases step with
  | update change => exact (hspare change rfl).apply_agreeOn set
  | query question => exact CategorySet.AgreeOn.refl mask set

/-- Where every update spares the mask, each step still finds the mask as it was at the start. -/
theorem exists_entry_of_mem_exchanges {steps : List Step}
    (hspare : ∀ change, .update change ∈ steps → change.Spares mask) {initial : CategorySet}
    {exchange : Step × Entry} (hexchange : exchange ∈ exchanges initial steps) :
    ∃ found : CategorySet, mask.AgreeOn found initial ∧ exchange.1 ∈ steps
      ∧ exchange.2 = exchange.1.entry found := by
  -- what later steps find is not the start but agrees with it, so the start is generalized
  induction steps generalizing initial with
  | nil => exact absurd hexchange List.not_mem_nil
  | cons step rest ih =>
      rw [exchanges_cons] at hexchange
      rcases List.mem_cons.1 hexchange with rfl | hlater
      · exact ⟨initial, .refl mask initial, List.mem_cons_self, rfl⟩
      · have hstep : mask.AgreeOn (step.entry initial).value initial :=
          step.value_entry_agreeOn (fun change hchange => hspare change (by simp [hchange])) initial
        obtain ⟨found, hfound, hmem, hentry⟩ :=
          ih (fun change hchange => hspare change (List.mem_cons_of_mem step hchange)) hlater
        exact ⟨found, hfound.trans hstep, List.mem_cons_of_mem step hmem, hentry⟩

theorem unchanged_of_spares {steps : List Step}
    (hspare : ∀ change, .update change ∈ steps → change.Spares mask) {initial : CategorySet}
    {exchange : Step × Entry} (hexchange : exchange ∈ exchanges initial steps) :
    mask.AgreeOn exchange.2.value initial
      ∧ ∀ question : Query, question.Within mask →
          question.ask exchange.2.value = question.ask initial
            ∧ (exchange.1 = .query question →
                exchange.2.answer = some (question.ask initial)) := by
  obtain ⟨found, hfound, hmem, hentry⟩ := exists_entry_of_mem_exchanges hspare hexchange
  have hstep : mask.AgreeOn (exchange.1.entry found).value found :=
    exchange.1.value_entry_agreeOn (fun change hchange => hspare change (hchange ▸ hmem)) found
  have hvalue : mask.AgreeOn exchange.2.value initial := by
    rw [hentry]
    exact hstep.trans hfound
  refine ⟨hvalue, fun question hwithin => ⟨hwithin.ask_eq hvalue, fun hasked => ?_⟩⟩
  rw [hentry, hasked]
  exact congrArg some (hwithin.ask_eq hfound)

end Session

/-- Under a mask two sessions cannot be told apart if they start alike, take steps of one kind and
have operands that are alike: not by the values of their variables and not by the answers to queries
about the mask. So one session whose updates spare the mask never changes such an answer. -/
theorem sessions_agree_under_mask (mask : CategorySet) :
    (∀ (first second : CategorySet) (steps others : List Session.Step),
        mask.AgreeOn first second → List.Forall₂ (Session.Step.AgreeOn mask) steps others →
          List.Forall₂ (fun entry other => mask.AgreeOn entry.value other.value)
              (Session.run first steps) (Session.run second others)
            ∧ List.Forall₂ (Session.AgreeOn mask) (Session.exchanges first steps)
                (Session.exchanges second others))
      ∧ ∀ (initial : CategorySet) (steps : List Session.Step),
          (∀ change, .update change ∈ steps → change.Spares mask) →
            ∀ exchange ∈ Session.exchanges initial steps,
              mask.AgreeOn exchange.2.value initial
                ∧ ∀ question : Query, question.Within mask →
                    question.ask exchange.2.value = question.ask initial
                      ∧ (exchange.1 = .query question →
                          exchange.2.answer = some (question.ask initial)) := by
  refine ⟨fun first second steps others hsets hsteps => ?_, ?_⟩
  · exact ⟨Session.run_agreeOn hsteps hsets, Session.exchanges_agreeOn hsteps hsets⟩
  · intro initial steps hspare exchange hexchange
    exact Session.unchanged_of_spares hspare hexchange

/-- The sessions differ in every category but `alpha` and `digit`. -/
theorem sessions_agree_under_mask_alpha_digit :
    AgreeOn {.alpha, .digit} {.alpha, .blank} {.alpha, .control}
      ∧ List.Forall₂ (Session.AgreeOn {.alpha, .digit})
          (Session.exchanges {.alpha, .blank}
            [.update (.join .inPlace {.digit, .lower}), .query (.intersects {.digit})])
          (Session.exchanges {.alpha, .control}
            [.update (.join .operator {.digit, .upper}), .query (.intersects {.digit})])
      ∧ ∀ exchange ∈ Session.exchanges {.alpha, .blank}
            [.update (.join .inPlace {.lower}), .update (.meet .function {.alpha, .lower}),
              .query (.matchesOn {.alpha} {.alpha})],
          exchange.1 = .query (.matchesOn {.alpha} {.alpha}) → exchange.2.answer = some true := by
  have hsets : AgreeOn {.alpha, .digit} {.alpha, .blank} {.alpha, .control} := by decide
  have hjoin : Update.AgreeOn {.alpha, .digit} (.join .inPlace {.digit, .lower})
      (.join .operator {.digit, .upper}) := .join .inPlace .operator (by decide)
  have hspare : ∀ change, Session.Step.update change
      ∈ [.update (.join .inPlace {.lower}), .update (.meet .function {.alpha, .lower}),
          .query (.matchesOn {.alpha} {.alpha})] → change.Spares {.alpha} := by
    intro change hchange
    simp only [List.mem_cons, Session.Step.update.injEq, reduceCtorEq, List.not_mem_nil, or_false]
      at hchange
    rcases hchange with rfl | rfl
    · exact .join .inPlace (by decide)
    · exact .meet .function (by decide)
  obtain ⟨htwo, _⟩ := sessions_agree_under_mask {.alpha, .digit}
  obtain ⟨_, hone⟩ := sessions_agree_under_mask {.alpha}
  refine ⟨hsets, ?_, fun exchange hexchange hasked => ?_⟩
  · exact (htwo _ _ _ _ hsets (.cons (.update hjoin) (.cons (.query _ _) .nil))).2
  · have hwithin : Query.Within {.alpha} (.matchesOn {.alpha} {.alpha}) := .matchesOn (by decide) _
    obtain ⟨_, hqueries⟩ := hone _ _ hspare exchange hexchange
    obtain ⟨_, hanswer⟩ := hqueries _ hwithin
    exact hanswer hasked

end CharClass.CategorySet
