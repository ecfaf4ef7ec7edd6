import RadioOccupancy.Proofs.Hearing
import RadioOccupancy.Proofs.Idleness

/-!
How long a band has been clear of energy.

    bursts on a key    |-----|                .
    clear since              ^ last end
    answered                                  |--- time since busy ---|
                                              ^ a burst without duration    now

The time since a band was busy leads back to the last of the ends of the bursts on its key, those of bursts
without duration included. So no burst covers any of it. It is the whole time since the last burst that
lasted just if no burst without duration came later (`lastEnd_eq_iff_lasting`): one that did has made the band
look as if it had been busy until then (`Session.time_clear_from_flash`).
-/

namespace RadioOccupancy

namespace Burst

/-- When the last of some bursts ends, if there are any. -/
def lastEnd (bursts : List Burst) : WithBot ℚ :=
  (bursts.map stop).maximum

/-- Those bursts that last for some time. -/
def lasting (bursts : List Burst) : List Burst :=
  bursts.filter fun b => 0 < b.duration.value

variable {bursts : List Burst} {a b : Burst} {last : ℚ}

theorem lastEnd_eq_iff :
    lastEnd bursts = last ↔ (∃ b ∈ bursts, b.stop = last) ∧ ∀ b ∈ bursts, b.stop ≤ last := by
  rw [lastEnd, List.maximum_eq_coe_iff, List.mem_map, List.forall_mem_map]

/-- There is a last end if there are bursts. -/
theorem exists_lastEnd (h : b ∈ bursts) : ∃ last : ℚ, lastEnd bursts = last := by
  refine ⟨_, (WithBot.coe_unbot _ ?_).symm⟩
  rw [lastEnd, ne_eq, List.maximum_eq_bot]
  exact List.ne_nil_of_mem (List.mem_map_of_mem h)

/-- Bursts without duration do not matter for the last end just if none of them comes after all others have
ended. -/
theorem lastEnd_eq_iff_lasting (hbursts : ∀ b ∈ bursts, b.duration.isTime)
    (hlasting : lastEnd (lasting bursts) = last) :
    lastEnd bursts = last ↔ ∀ b ∈ bursts, b.duration.value = 0 → b.now.value ≤ last := by
  obtain ⟨⟨a, ha, hstop⟩, hle⟩ := lastEnd_eq_iff.1 hlasting
  rw [lastEnd_eq_iff, and_iff_right ⟨a, (List.mem_filter.1 ha).1, hstop⟩]
  refine forall₂_congr fun b hb => ?_
  rcases (Number.value_nonneg (hbursts b hb)).eq_or_lt with hzero | hpos
  · rw [stop, ← hzero, add_zero]
    simp
  · have hmem : b ∈ lasting bursts := List.mem_filter.2 ⟨hb, decide_eq_true hpos⟩
    simp [hle b hmem, hpos.ne']

/-- The last end of some bursts is that of them all, unless one without duration came later. -/
theorem lastEnd_lasting_le (hlasting : lastEnd (lasting bursts) = last) {all : ℚ}
    (hall : lastEnd bursts = all) : last ≤ all := by
  obtain ⟨⟨a, ha, rfl⟩, -⟩ := lastEnd_eq_iff.1 hlasting
  exact (lastEnd_eq_iff.1 hall).2 a (List.mem_filter.1 ha).1

/-- The time back to the last end of all bursts is that to the last end of those that last just if no burst
without duration came later. None of them comes after now. -/
theorem timeClear_eq_iff (hbursts : ∀ b ∈ bursts, b.duration.isTime)
    (hlasting : lastEnd (lasting bursts) = last) {all now : ℚ} (hall : lastEnd bursts = all)
    (hnow : ∀ b ∈ bursts, b.now.value ≤ now) :
    max 0 (now - all) = max 0 (now - last) ↔ ∀ b ∈ bursts, b.duration.value = 0 → b.now.value ≤ last := by
  rw [← lastEnd_eq_iff_lasting hbursts hlasting, hall, WithBot.coe_inj]
  refine ⟨fun heq => ?_, fun heq => by rw [heq]⟩
  by_contra hne
  have hlt : last < all := (lastEnd_lasting_le hlasting hall).lt_of_ne (Ne.symm hne)
  -- the last end is that of a burst without duration, so it is past
  obtain ⟨⟨b, hb, hstop⟩, -⟩ := lastEnd_eq_iff.1 hall
  have hzero : b.duration.value = 0 := by
    by_contra hpos
    have hmem : b ∈ lasting bursts :=
      List.mem_filter.2 ⟨hb, decide_eq_true ((Number.value_nonneg (hbursts b hb)).lt_of_ne (Ne.symm hpos))⟩
    exact absurd ((lastEnd_eq_iff.1 hlasting).2 b hmem) (not_le.2 (hstop ▸ hlt))
  rw [stop, hzero, add_zero] at hstop
  have hpast : all ≤ now := hstop ▸ hnow b hb
  rw [max_eq_right (sub_nonneg.2 hpast), max_eq_right (sub_nonneg.2 (hlt.le.trans hpast))] at heq
  exact hne (sub_right_inj.1 heq)

/-- No burst covers any of the time since the last of their ends. -/
theorem not_covers_of_lastEnd {all now τ : ℚ} (hall : lastEnd bursts = all) (hb : b ∈ bursts)
    (hτ : now - max 0 (now - all) ≤ τ) (hnow : τ < now) : ¬b.Covers τ := by
  rintro ⟨-, hlt⟩
  have hle := (lastEnd_eq_iff.1 hall).2 b hb
  rcases max_cases 0 (now - all) with ⟨h, -⟩ | ⟨h, -⟩ <;> rw [h] at hτ <;> linarith

end Burst

namespace Record

variable {r : Record} {table : BusyTable} {band : Band} {threshold now : Number} {e : BusyEntry}

/-- The time since a band was busy, where the difference is exact. -/
theorem timeSinceBusy_of_entry (hentry : table.get band threshold = .ok (some e))
    (hexact : now.DiffersExactly e.busyEnd) :
    ∃ delay, r.timeSinceBusy table band threshold now = .ok delay ∧ delay.isFinite ∧
      delay.value = max 0 (now.value - e.busyEnd.value) := by
  obtain ⟨hfin, hvalue⟩ := hexact
  refine ⟨Number.maximum 0 (now - e.busyEnd), by rw [timeSinceBusy, hentry]; rfl, ?_⟩
  rw [← hvalue]
  rcases Number.maximum_eq Number.isFinite_zero hfin with ⟨heq, hle⟩ | ⟨heq, hle⟩ <;>
    rw [Number.value_zero] at hle <;> rw [heq]
  · exact ⟨rfl, (max_eq_left hle).symm⟩
  · exact ⟨hfin, (max_eq_right hle).symm⟩

end Record

/-- The answer to the question for the time since a band was busy, where it may be asked. -/
theorem Query.outcome_timeSinceBusy {config : Config} {core : Core} {now : Number} {on : Sensing}
    (hnow : now.isTime) (hband : on.band.isValid) :
    (Planning.plan (Query.timeSinceBusy config now on) core).outcome =
      core.record.timeSinceBusy core.table on.band (on.thresholdIn config) now := by
  have hquery : Planning.Draws (Query.timeSinceBusy config now on) core _ core _ :=
    ((Planning.checks_time _ now core).1 hnow).bind
      (((Planning.checks_band _ on.band core).1 hband).bind
        (Planning.draws_core_bind (Planning.draws_check _ core)))
  exact hquery.plan.1

namespace Session

/-- After any run of a session in which no observer failed, the tracker tells how long a band has been clear.
It leads back to the last of the ends of the bursts on the key, if they have ended. It leads back to the last
end of those that lasted just if no burst without duration came after it. Transitions may have been requested
at any thresholds. -/
theorem Run.answers_time_clear {i : Nat} {s s' : Session} {calls : List Call} {config : Config}
    (hrun : Session.Run i s calls s') (hs : s.Starts i config)
    (hsum : ∀ c ∈ calls, c.transition.SumsExactly) {t : Tracker} (ht : s'.trackers[i]? = some t)
    {on : Sensing} (hband : on.band.isValid) (hon : (on.thresholdIn config).isFinite) {now : Number}
    (hnow : now.isTime) (hlate : t.core.record.lastChange ≤ now)
    (hexact : ∀ e ∈ t.core.entryOn config on, now.DiffersExactly e.busyEnd) :
    let bursts := Burst.onKey config.thresholdResolution (burstsOf config calls) on.band (on.stepIn config)
    (∃ b ∈ bursts, 0 < b.duration.value) →
    ∃ delay, (Planning.plan (Query.timeSinceBusy config now on) t.core).outcome = .ok delay ∧
      ∃ last all : ℚ, Burst.lastEnd (Burst.lasting bursts) = last ∧ Burst.lastEnd bursts = all ∧
        delay.value = max 0 (now.value - all) ∧
        (delay.value = max 0 (now.value - last) ↔
          ∀ b ∈ bursts, b.duration.value = 0 → b.now.value ≤ last) ∧
        (∀ b ∈ bursts, ∀ τ, now.value - delay.value ≤ τ → τ < now.value → ¬b.Covers τ) ∧
        (t.core.table.isBusyAt on.band (on.thresholdIn config) now = .ok true → delay.value = 0) := by
  rintro bursts ⟨b, hb, hpos⟩
  obtain ⟨t', ht', -, -, hhist⟩ := hrun.history hs
  obtain rfl : t' = t := Option.some.inj (ht'.symm.trans ht)
  have hnowf := Number.isFinite_of_isTime hnow
  have hlast : t'.core.record.lastChange.value ≤ now.value :=
    (Number.le_iff (Number.isFinite_of_isTime hhist.trials.keeps_coherent.1.lastChange) hnowf).1 hlate
  have hheard : ∀ b ∈ bursts, b.Exact ∧ b.now.value ≤ now.value := fun b hb =>
    ((hhist.heard hsum).1 b (List.mem_filter.1 hb).1).imp_right hlast.trans'
  have hduration : ∀ b ∈ bursts, b.duration.isTime := fun b hb => (hheard b hb).1.duration
  -- the entry adds the bursts up
  obtain ⟨e, hentry, hsums⟩ := (hhist.remembers_entryOn hs.resolution hsum hon).2.exists_of_mem hb
  have hsame : t'.core.table.resolution = config.thresholdResolution := hhist.resolution
  have hget : t'.core.table.get on.band (on.thresholdIn config) = .ok (some e) := by
    rw [Planning.get_entryOn (Sensing.isUsable_of_resolution (hsame ▸ hs.resolution) hon), hentry]
  obtain ⟨delay, hanswer, -, hdelay⟩ :=
    @Record.timeSinceBusy_of_entry t'.core.record _ _ _ _ _ hget (hexact e hentry)
  obtain ⟨last, hlasting⟩ := Burst.exists_lastEnd
    (List.mem_filter.2 ⟨hb, decide_eq_true hpos⟩ : b ∈ Burst.lasting bursts)
  have hall : Burst.lastEnd bursts = e.busyEnd.value := hsums.busyEnd
  refine ⟨delay, (Query.outcome_timeSinceBusy hnow hband).trans hanswer, last, e.busyEnd.value,
    hlasting, hall, hdelay, ?_, fun b hb τ hτ hlt => ?_, fun hbusy => ?_⟩
  · rw [hdelay]
    exact Burst.timeClear_eq_iff hduration hlasting hall fun b hb => (hheard b hb).2
  · rw [hdelay] at hτ
    exact Burst.not_covers_of_lastEnd hall hb hτ hlt
  · rw [BusyTable.isBusyAt, hget] at hbusy
    have hlt := of_decide_eq_true (Except.ok.inj hbusy)
    rw [Number.lt_iff hnowf hsums.sound.finite_end] at hlt
    rw [hdelay, max_eq_left (sub_nonpos.2 hlt.le)]

/-! ### A burst without duration -/

/-- Energy is detected from ten to fifteen, and at thirty for no time at all. At forty the tracker answers
that the band has been clear for ten units. -/
theorem run_of_flash :
    ∃ calls s t, Session.Run 0 (.first {}) calls s ∧ s.trackers[0]? = some t ∧
      (∀ c ∈ calls, c.transition.HasFiniteThreshold {} ∧ c.transition.SumsExactly) ∧
      t.core.record.lastChange = 30 ∧ (∀ e ∈ t.core.entryOn {} ⟨⟨0, 63⟩, none⟩, e.busyEnd = 30) ∧
      Burst.onKey (0.01 : Number) (burstsOf {} calls) ⟨0, 63⟩ (Sensing.stepIn ⟨⟨0, 63⟩, none⟩ {}) =
        [⟨⟨0, 63⟩, -82, 10, 5⟩, ⟨⟨0, 63⟩, -82, 30, 0⟩] ∧
      (Planning.plan (Query.timeSinceBusy {} 40 ⟨⟨0, 63⟩, none⟩) t.core).outcome.toOption = some 10 := by
  have hany : ((Session.requestAll 1 0 [.detectEnergy 10 5 ⟨⟨0, 63⟩, none⟩ true,
      .detectEnergy 30 0 ⟨⟨0, 63⟩, none⟩ true] [] (.first {})).any fun r =>
        (r.2.trackers[0]?.any fun t => decide (t.core.record.lastChange = 30 ∧
          (∀ e ∈ t.core.entryOn {} ⟨⟨0, 63⟩, none⟩, e.busyEnd = 30) ∧
          (Planning.plan (Query.timeSinceBusy {} 40 ⟨⟨0, 63⟩, none⟩) t.core).outcome.toOption = some 10)) &&
        decide (Burst.onKey (0.01 : Number) (burstsOf {} r.1) ⟨0, 63⟩ (Sensing.stepIn ⟨⟨0, 63⟩, none⟩ {}) =
          [⟨⟨0, 63⟩, -82, 10, 5⟩, ⟨⟨0, 63⟩, -82, 30, 0⟩])) = true := by
    decide +kernel
  obtain ⟨⟨calls, s⟩, hreq, hcalls⟩ := (Option.any_eq_true _ _).1 hany
  obtain ⟨hrun, hmap⟩ := Session.Run.nil.requestAll hreq
  rw [Bool.and_eq_true, Option.any_eq_true] at hcalls
  obtain ⟨⟨t, ht, htracker⟩, hbursts⟩ := hcalls
  obtain ⟨hlast, hend, hanswer⟩ := of_decide_eq_true htracker
  have hall : ∀ x ∈ calls.map Call.transition, x.HasFiniteThreshold {} ∧ x.SumsExactly := by
    rw [hmap, List.map_nil, List.nil_append, List.forall_mem_cons, List.forall_mem_singleton]
    refine ⟨⟨?_, ?_⟩, ?_, ?_⟩
    · rintro on ⟨⟩
      rfl
    · rintro d ⟨⟩
      decide +kernel
    · rintro on ⟨⟩
      rfl
    · rintro d ⟨⟩
      decide +kernel
  exact ⟨calls, s, t, hrun, ht, List.forall_mem_map.1 hall, hlast, hend, of_decide_eq_true hbursts, hanswer⟩

/-- What is asked of the arguments of a question at forty holds after that run. -/
theorem exact_of_flash {t : Tracker} (hlast : t.core.record.lastChange = 30)
    (hend : ∀ e ∈ t.core.entryOn {} ⟨⟨0, 63⟩, none⟩, e.busyEnd = 30) :
    t.core.record.lastChange ≤ 40 ∧
      ∀ e ∈ t.core.entryOn {} ⟨⟨0, 63⟩, none⟩, Number.DiffersExactly 40 e.busyEnd := by
  refine ⟨by rw [hlast]; decide +kernel, fun e he => ?_⟩
  rw [hend e he]
  decide +kernel

/-- The answer reaches back to the burst at thirty, and neither burst covers any of that time. -/
theorem Run.answers_time_clear_of_flash :
    ∃ calls s t delay, Session.Run 0 (.first {}) calls s ∧ s.trackers[0]? = some t ∧
      (Planning.plan (Query.timeSinceBusy {} 40 ⟨⟨0, 63⟩, none⟩) t.core).outcome = .ok delay ∧
        delay.value = 10 ∧
        ∀ b ∈ Burst.onKey (0.01 : Number) (burstsOf {} calls) ⟨0, 63⟩ (Sensing.stepIn ⟨⟨0, 63⟩, none⟩ {}),
          ∀ τ, 30 ≤ τ → τ < 40 → ¬b.Covers τ := by
  obtain ⟨calls, s, t, hrun, ht, hall, hlast, hend, hbursts, hten⟩ := run_of_flash
  obtain ⟨hlate, hexact⟩ := exact_of_flash hlast hend
  have hlasting : ∃ b ∈ Burst.onKey (0.01 : Number) (burstsOf {} calls) ⟨0, 63⟩
      (Sensing.stepIn ⟨⟨0, 63⟩, none⟩ {}), 0 < b.duration.value := by
    rw [hbursts]
    decide +kernel
  obtain ⟨delay, hanswer, -, -, -, -, -, -, hclear, -⟩ :=
    Run.answers_time_clear hrun starts_first (fun c hc => (hall c hc).2) ht
      (show (⟨⟨0, 63⟩, none⟩ : Sensing).band.isValid by decide) (by decide)
      (show (40 : Number).isTime by decide) hlate hexact hlasting
  rw [hanswer] at hten
  obtain rfl := Option.some.inj hten
  have hback : Number.value 40 - Number.value 10 = 30 := by decide +kernel
  refine ⟨calls, s, t, 10, hrun, ht, hanswer, by decide +kernel, fun b hb τ hle hlt => hclear b hb τ ?_ ?_⟩
  · rwa [hback]
  · exact hlt.trans_eq (by decide +kernel)

/-- It is not so that the time leads back to the last end of those bursts that lasted. The one at thirty has
no duration, and the tracker answers at forty that the band has been clear for ten units, not for
twenty-five. -/
theorem time_clear_from_flash :
    ¬∀ (calls : List Call) (s : Session) (t : Tracker),
      Session.Run 0 (.first {}) calls s → s.trackers[0]? = some t →
      (∀ c ∈ calls, c.transition.HasFiniteThreshold {} ∧ c.transition.SumsExactly) →
      ∀ (on : Sensing) (now : Number), on.band.isValid → (on.thresholdIn {}).isFinite → now.isTime →
        t.core.record.lastChange ≤ now → (∀ e ∈ t.core.entryOn {} on, now.DiffersExactly e.busyEnd) →
        ∀ last : ℚ,
          Burst.lastEnd (Burst.lasting (Burst.onKey 0.01 (burstsOf {} calls) on.band (on.stepIn {}))) = last →
          ∃ delay, (Planning.plan (Query.timeSinceBusy {} now on) t.core).outcome = .ok delay ∧
            delay.value = max 0 (now.value - last) := by
  intro hclaim
  obtain ⟨calls, s, t, hrun, ht, hall, hlast, hend, hbursts, hten⟩ := run_of_flash
  obtain ⟨hlate, hexact⟩ := exact_of_flash hlast hend
  obtain ⟨delay, hanswer, hdelay⟩ := hclaim calls s t hrun ht hall ⟨⟨0, 63⟩, none⟩ 40 (by decide) (by decide)
    (by decide) hlate hexact 15 (by
      rw [hbursts]
      decide +kernel)
  rw [hanswer] at hten
  obtain rfl := Option.some.inj hten
  exact absurd hdelay (by decide +kernel)

end Session

end RadioOccupancy
