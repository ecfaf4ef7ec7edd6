import RadioOccupancy.Proofs.Session.Course

/-!
When a transition takes effect.

    deeds:  [report ...]  announce  change  announce  [energy ...]
                                    ^ takes effect

A transition takes effect when it writes to the record of its radio. It does so once at most, after its
report (`Transition.deeds_eq`): a report only moves the cursor, and energy only sets a busy entry. So an
attempt that an observer breaks off has written to the record what the whole transition would write, or
nothing (`Attempt.IsPart.record`).
-/

namespace RadioOccupancy

/-- The change writes to the record of the radio. -/
def Change.writesRecord : Change → Bool
  | .reported _ | .continued | .busy _ => false
  | .transmitting .. | .receiving .. | .switching .. | .closed _ | .stamped _ | .asleep _ | .awake _
  | .poweredOff _ | .poweredOn _ => true

/-- The step writes to the record of the radio. -/
def Step.writesRecord : Step → Bool
  | .change c => c.writesRecord
  | .announce _ | .log _ => false

/-- Some of the steps writes to the record of the radio. -/
def writeRecord (steps : List Step) : Bool :=
  steps.any Step.writesRecord

/-- The transition has written to the record of the radio. -/
def Attempt.tookEffect (a : Attempt) : Bool :=
  writeRecord a.done

namespace Transition

/-- What a transition writes to the record. -/
def update? : Transition → Option Change
  | .transmit now duration .. => some (.transmitting now duration)
  | .receive now duration _ => some (.receiving now duration)
  | .retune now duration _ => some (.switching now duration)
  | .completeReception now .. | .loseReception now .. | .abortReception now _ => some (.closed now)
  | .detectEnergy now .. => some (.stamped now)
  | .fallAsleep now _ => some (.asleep now)
  | .wakeUp now .. => some (.awake now)
  | .powerOff now _ => some (.poweredOff now)
  | .powerOn now .. => some (.poweredOn now)
  | .continueReception .. | .flush .. => none

end Transition

section Writing

variable (steps more : List Step)

@[simp]
theorem writeRecord_append : writeRecord (steps ++ more) = (writeRecord steps || writeRecord more) :=
  List.any_append

theorem writeRecord_deedsOf : writeRecord (deedsOf steps) = writeRecord steps := by
  rw [writeRecord, deedsOf, List.any_filter]
  refine List.any_congr rfl fun step => ?_
  cases step with
  | change | announce => exact Bool.true_and _
  | log => rfl

variable {steps more}

/-- What begins some steps writes no more than they do. -/
theorem writeRecord_of_isPrefix (h : steps <+: more) (hnone : writeRecord more = false) :
    writeRecord steps = false := by
  obtain ⟨rest, rfl⟩ := h
  rw [writeRecord_append, Bool.or_eq_false_iff] at hnone
  exact hnone.1

/-- Steps that do not write to the record leave it as it is. -/
theorem record_of_writeRecord (h : writeRecord steps = false) (core : Core) :
    (coreAfter steps core).record = core.record := by
  induction steps generalizing core with
  | nil => rfl
  | cons step rest ih =>
    rw [writeRecord, List.any_cons, Bool.or_eq_false_iff] at h
    obtain ⟨hstep, hrest⟩ := h
    cases step with
    | change c =>
      rw [coreAfter_change, ih hrest]
      cases c with
      | reported | continued | busy => rfl
      | _ => cases hstep
    | announce ns => exact ih hrest core
    | log m => exact ih hrest core

end Writing

/-- What begins two lists of steps in turn begins the first, or goes on into the second. -/
theorem prefix_append_cases {steps before after : List Step} (h : steps <+: before ++ after) :
    steps <+: before ∨ ∃ rest, steps = before ++ rest ∧ rest <+: after := by
  rcases List.prefix_or_prefix_of_prefix h (List.prefix_append before after) with hpre | ⟨rest, rfl⟩
  · exact Or.inl hpre
  · exact Or.inr ⟨rest, rfl, (List.prefix_append_right_inj before).1 h⟩

/-! ### What reports and energy do -/

/-- The deeds of a report move the cursor and tell of segments. -/
theorem Transition.mem_reportDeeds {x : Transition} {config : Config} {core : Core} {step : Step}
    (h : step ∈ x.reportDeeds config core) :
    (∃ t, step = .change (.reported t)) ∨ ∃ s : Segment, step = .announce [.trace s.event] := by
  have htell : ∀ s : Segment, step ∈ Report.tellSegment s →
      ∃ s : Segment, step = .announce [.trace s.event] := by
    intro s hs
    rw [Report.tellSegment] at hs
    split at hs
    · cases hs
    · exact ⟨s, List.mem_singleton.1 hs⟩
  have hprogress : ∀ segments, step ∈ Report.tellProgress segments →
      (∃ t, step = .change (.reported t)) ∨ ∃ s : Segment, step = .announce [.trace s.event] := by
    intro segments hs
    obtain ⟨s, -, hs⟩ := List.mem_flatMap.1 hs
    rcases List.mem_append.1 hs with hs | hs
    · exact Or.inr (htell s hs)
    · exact Or.inl ⟨_, List.mem_singleton.1 hs⟩
  have huntil : ∀ entry now, step ∈ core.reportDeeds entry now →
      (∃ t, step = .change (.reported t)) ∨ ∃ s : Segment, step = .announce [.trace s.event] := by
    intro entry now hs
    rw [Core.reportDeeds] at hs
    split at hs
    · cases hs
    · cases hp : core.record.powerState? with
      | some state =>
        rw [hp] at hs
        rcases List.mem_append.1 hs with hs | hs
        · exact Or.inr (htell _ hs)
        · exact Or.inl ⟨_, List.mem_singleton.1 hs⟩
      | none =>
        rw [hp] at hs
        rcases List.mem_append.1 hs with hs | hs
        · exact hprogress _ hs
        · rcases List.mem_append.1 hs with hs | hs
          · obtain ⟨s, -, hs⟩ := List.mem_flatMap.1 hs
            exact Or.inr (htell s hs)
          · exact Or.inl ⟨_, List.mem_singleton.1 hs⟩
  cases x with
  | transmit | receive | retune | fallAsleep | wakeUp | powerOff | powerOn | flush => exact huntil _ _ h
  | detectEnergy now duration on isPrimary =>
    cases isPrimary with
    | true => exact huntil _ _ h
    | false => cases h
  | completeReception | loseReception | abortReception => exact hprogress _ h
  | continueReception => cases h

/-- The deeds of recording energy set a busy entry and tell listeners of it. -/
theorem Core.mem_senseDeeds {core : Core} {config : Config} {now duration : Number} {on : Sensing}
    {isPrimary : Bool} {step : Step} (h : step ∈ core.senseDeeds config now duration on isPrimary) :
    (∃ entry, step = .change (.busy entry)) ∨
      ∃ remaining, step = .announce [.listeners ⟨.ccaBusyStart, [remaining]⟩] := by
  rw [Core.senseDeeds] at h
  split at h
  · rcases List.mem_append.1 h with h | h
    · split at h
      · exact Or.inl ⟨_, List.mem_singleton.1 h⟩
      · cases h
    · split at h
      · exact Or.inr ⟨_, List.mem_singleton.1 h⟩
      · cases h
  · cases h

namespace Transition

variable {config : Config} {core : Core}

theorem writeRecord_reportDeeds (x : Transition) : writeRecord (x.reportDeeds config core) = false := by
  rw [writeRecord, List.any_eq_false]
  intro step hstep
  rcases mem_reportDeeds hstep with ⟨t, rfl⟩ | ⟨s, rfl⟩ <;> exact Bool.false_ne_true

theorem writeRecord_senseDeeds (now duration : Number) (on : Sensing) (isPrimary : Bool) :
    writeRecord (core.senseDeeds config now duration on isPrimary) = false := by
  rw [writeRecord, List.any_eq_false]
  intro step hstep
  rcases Core.mem_senseDeeds hstep with ⟨entry, rfl⟩ | ⟨remaining, rfl⟩ <;> exact Bool.false_ne_true

/-- A transition writes to the record once at most. -/
theorem deeds_eq (x : Transition) (config : Config) (core : Core) :
    ∃ before after, x.deeds config core = before ++ x.update?.toList.map .change ++ after ∧
      writeRecord before = false ∧ writeRecord after = false := by
  have hreport : writeRecord (x.reportDeeds config core) = false := writeRecord_reportDeeds x
  have hsense : ∀ now duration on isPrimary,
      writeRecord (core.senseDeeds config now duration on isPrimary) = false :=
    writeRecord_senseDeeds
  suffices h : ∃ before after, x.enactDeeds config core =
      before ++ (x.update?.toList.map .change ++ after) ∧ writeRecord before = false ∧
        writeRecord after = false by
    obtain ⟨before, after, heq, hbefore, hafter⟩ := h
    refine ⟨x.reportDeeds config core ++ before, after, ?_, ?_, hafter⟩
    · rw [deeds, heq]
      simp
    · rw [writeRecord_append, hreport, hbefore]
      rfl
  cases x with
  | transmit | receive | retune | completeReception | loseReception | fallAsleep | powerOff =>
    exact ⟨[], [.announce _], rfl, rfl, rfl⟩
  | continueReception => exact ⟨[], [.change .continued], rfl, rfl, rfl⟩
  | abortReception now failure =>
    refine ⟨[], if failure then [.announce [.listeners ⟨.rxEndError, []⟩]] else [], rfl, rfl, ?_⟩
    cases failure <;> rfl
  | detectEnergy now duration on isPrimary =>
    exact ⟨core.senseDeeds config now duration on isPrimary, [], rfl, hsense .., rfl⟩
  | wakeUp now duration on isPrimary | powerOn now duration on isPrimary =>
    refine ⟨[], .announce _ ::
      if 0 < duration then core.senseDeeds config now duration on isPrimary else [], rfl, rfl, ?_⟩
    change writeRecord (if 0 < duration then _ else []) = false
    split
    · exact hsense now duration on isPrimary
    · rfl
  | flush => exact ⟨[], [], rfl, rfl, rfl⟩

/-- What it writes is what the record is afterwards. -/
theorem record_deeds {x : Transition} {c : Change} (h : x.update? = some c) :
    (coreAfter (x.deeds config core) core).record = c.applyToRecord core.record := by
  obtain ⟨before, after, heq, hbefore, hafter⟩ := x.deeds_eq config core
  rw [heq, h, coreAfter_append, coreAfter_append, record_of_writeRecord hafter]
  exact congrArg c.applyToRecord (record_of_writeRecord hbefore core)

end Transition

/-- An attempt that has not taken effect has left the record as it is. One that has was permitted, and has
written what its transition writes. -/
theorem Attempt.IsPart.record {a : Attempt} (h : a.IsPart) :
    (a.tookEffect = false ∧ a.coreAfter.record = a.tracker.core.record) ∨
      a.tookEffect = true ∧ a.transition.Permitted a.tracker.config a.tracker.core ∧
        ∃ c, a.transition.update? = some c ∧
          a.coreAfter.record = c.applyToRecord a.tracker.core.record := by
  cases htook : a.tookEffect with
  | false => exact Or.inl ⟨rfl, record_of_writeRecord htook _⟩
  | true =>
    rw [tookEffect, ← writeRecord_deedsOf] at htook
    have hdone : deedsOf a.done <+: deedsOf a.begun := (List.prefix_append a.done _).filter _
    rcases h.deeds with hnil | ⟨-, hp, hds⟩
    · rw [hnil] at hdone
      rw [List.prefix_nil.1 hdone] at htook
      cases htook
    · refine Or.inr ⟨rfl, hp, ?_⟩
      obtain ⟨before, after, heq, hbefore, hafter⟩ :=
        a.transition.deeds_eq a.tracker.config a.tracker.core
      rw [coreAfter, ← coreAfter_deedsOf]
      have hpre := hdone.trans hds
      rw [heq, List.append_assoc] at hpre
      rcases prefix_append_cases hpre with hpre | ⟨rest, hrest, hpre⟩
      · rw [writeRecord_of_isPrefix hpre hbefore] at htook
        cases htook
      · rw [hrest, writeRecord_append, hbefore, Bool.false_or] at htook
        cases hc : a.transition.update? with
        | none =>
          rw [hc] at hpre
          rw [writeRecord_of_isPrefix hpre hafter] at htook
          cases htook
        | some c =>
          rw [hc] at hpre
          rcases List.prefix_cons_iff.1 hpre with rfl | ⟨more, rfl, hmore⟩
          · cases htook
          · refine ⟨c, rfl, ?_⟩
            rw [hrest, coreAfter_append, coreAfter_change,
              record_of_writeRecord (writeRecord_of_isPrefix hmore hafter)]
            exact congrArg c.applyToRecord (record_of_writeRecord hbefore _)

end RadioOccupancy
