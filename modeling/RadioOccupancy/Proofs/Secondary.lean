import RadioOccupancy.Proofs.Hearing
import RadioOccupancy.Proofs.Truth

/-!
What a report tells of energy that was recorded since the one before it.

    bursts on the key          |---|          |----|
    told              |--------idle-----------|busy|-idle-|
                    cursor                               now

Energy on a secondary band is recorded without a report. If the band falls clear and more energy is
detected, all of it by the next report, then the table has forgotten the first burst, and the report tells
that the band was idle then. This is the one case in which it does not tell of energy that was there
(`Session.Run.tells_busy_iff`).
-/

namespace RadioOccupancy

/-! ### What is told of one key -/

/-- A burst opens a run after an instant, so that the table forgets what was before. -/
def Burst.Reopened (bursts : List Burst) (τ : ℚ) : Prop :=
  ∃ before b after, bursts = before ++ b :: after ∧ b.Opens before ∧ τ < b.now.value

/-- The busy period covers an instant at which there was energy, unless a run was opened since. -/
theorem BusyTable.Remembers.covers_iff {entry : Option BusyEntry} {bursts : List Burst}
    (h : Remembers entry bursts) (hsorted : Burst.InOrder bursts) (τ : ℚ) :
    (∃ e ∈ entry, e.busyStart.value ≤ τ ∧ τ < e.busyEnd.value) ↔
      (∃ b ∈ bursts, b.Covers τ) ∧ ¬Burst.Reopened bursts τ := by
  cases entry with
  | none =>
    obtain rfl : bursts = [] := h
    simp
  | some e =>
    have h : e.Sums bursts := h
    obtain ⟨a, ha, hstart⟩ := h.busyStart
    obtain ⟨-, hle⟩ := List.maximum_eq_coe_iff.1 h.busyEnd
    have hbegun : e.busyStart.value ≤ τ ↔ ¬Burst.Reopened bursts τ := by
      rw [hstart, ha.le_iff hsorted]
      simp only [Burst.Reopened, not_exists, not_and, not_lt]
    simp only [Option.mem_some_iff, exists_eq_left', ← hbegun]
    constructor
    · rintro ⟨h₁, h₂⟩
      exact ⟨h.covered τ h₁ h₂, h₁⟩
    · rintro ⟨⟨b, hb, -, hlt⟩, h₁⟩
      exact ⟨h₁, hlt.trans_le (hle _ (List.mem_map_of_mem hb))⟩

/-- Where the radio does nothing by itself, a report shows its band. -/
theorem Core.Sound.state_segmentsUntil {core : Core} {now τ : Number} {s : Segment} (h : core.Sound)
    (hnow : now.isFinite) {entry : Option BusyEntry} (he : ∀ e ∈ entry, e.Sound)
    (hs : s ∈ core.segmentsUntil entry now) (hτ : τ.isFinite) (hstart : s.start.value ≤ τ.value)
    (hstop : τ.value < s.stop.value) (hown : core.record.ownState? τ = none) :
    (s.state = .ccaBusy ∧ ∃ e ∈ entry, e.busyStart.value ≤ τ.value ∧ τ.value < e.busyEnd.value) ∨
      (s.state = .idle ∧
        ¬∃ e ∈ entry, e.busyStart.value ≤ τ.value ∧ τ.value < e.busyEnd.value) := by
  rw [Core.segmentsUntil] at hs
  split at hs
  · simp at hs
  · cases hp : core.record.powerState? with
    | some state =>
      rw [Record.ownState?, hp] at hown
      cases hown
    | none =>
      rw [hp] at hs
      rcases List.mem_append.1 hs with hs | hs
      · rw [h.ownState?_ownSegments hnow hp hs hτ hstart hstop] at hown
        cases hown
      · rcases Report.state_bandSegments he (h.finite_ownReach hnow) hnow hs hstart hstop with
          hbusy | ⟨hstate, hclear⟩
        · exact Or.inl hbusy
        · refine Or.inr ⟨hstate, ?_⟩
          rintro ⟨e, hmem, h₁, h₂⟩
          rcases hclear e hmem with h' | h'
          · exact not_lt.2 h₁ h'
          · exact not_lt.2 h' h₂

/-- State changes that tile a time begin no earlier than it. -/
theorem Tiles.le_start {a b : ℚ} {changes : List (Number × Number × Radio.State)} (h : Tiles a changes b) :
    ∀ x ∈ changes, a ≤ x.1.value := by
  induction changes generalizing a with
  | nil => simp
  | cons x rest ih =>
    obtain ⟨-, rfl, -, hpos, h⟩ := h
    refine List.forall_mem_cons.2 ⟨le_rfl, fun y hy => ?_⟩
    exact le_trans (by linarith) (ih h y hy)

/-- Of the state changes that tile a time, one tells of each instant in it. -/
theorem Tiles.exists_unique {a b τ : ℚ} {changes : List (Number × Number × Radio.State)}
    (h : Tiles a changes b) (ha : a ≤ τ) (hb : τ < b) :
    ∃ x ∈ changes, (x.1.value ≤ τ ∧ τ < x.1.value + x.2.1.value) ∧
      ∀ y ∈ changes, y.1.value ≤ τ → τ < y.1.value + y.2.1.value → y = x := by
  induction changes generalizing a with
  | nil =>
    obtain rfl : a = b := h
    exact absurd hb (not_lt.2 ha)
  | cons x rest ih =>
    obtain ⟨-, rfl, -, -, h⟩ := h
    rcases lt_or_ge τ (x.1.value + x.2.1.value) with hτ | hτ
    · refine ⟨x, List.mem_cons_self, ⟨ha, hτ⟩, List.forall_mem_cons.2 ⟨fun _ _ => rfl, fun y hy hle _ => ?_⟩⟩
      exact absurd ((h.le_start y hy).trans hle) (not_le.2 hτ)
    · obtain ⟨z, hz, hcovers, hunique⟩ := ih h hτ
      refine ⟨z, List.mem_cons_of_mem _ hz, hcovers, List.forall_mem_cons.2 ⟨fun _ hlt => ?_, hunique⟩⟩
      exact absurd hlt (not_lt.2 hτ)

/-- After any run of a session in which no observer failed, consider a call that was accepted and reports
on a band, and an instant since the report before it at which the radio was on and awake and did nothing by
itself. One of the state changes of the call tells of it, that the band was busy or that it was idle. It
tells that it was busy just if there was energy on the key, and no run was opened on it between the instant
and the call. -/
theorem Session.Run.tells_busy_iff {i : Nat} {s s' : Session} {before after : List Call} {c : Call}
    {config : Config} (hrun : Session.Run i s (before ++ c :: after) s') (hs : s.Starts i config)
    (hthr : ∀ d ∈ before ++ c :: after, d.transition.HasFiniteThreshold config)
    (hsum : ∀ d ∈ before ++ c :: after, d.transition.SumsExactly)
    (hexact : ExactTimes (timesOf (before ++ c :: after))) (ha : c.Accepted) (hr : c.transition.Reports)
    {on : Sensing} (hon : on ∈ c.transition.sensing?) {τ : Number} (hτ : τ.isFinite)
    (hcursor : c.tracker.core.cursor.value ≤ τ.value) (hbefore : τ.value < c.transition.time.value)
    (hown : (stoodAt (.fresh config) before τ.value).record.ownState? τ = none) :
    ∃ x ∈ c.stateChanges, (x.1.value ≤ τ.value ∧ τ.value < x.1.value + x.2.1.value) ∧
      (∀ y ∈ c.stateChanges, y.1.value ≤ τ.value → τ.value < y.1.value + y.2.1.value → y = x) ∧
      (x.2.2 = .ccaBusy ∨ x.2.2 = .idle) ∧
      (x.2.2 = .ccaBusy ↔
        (∃ b ∈ Burst.onKey config.thresholdResolution (burstsOf config before) on.band (on.stepIn config),
          b.Covers τ.value) ∧
        ¬Burst.Reopened (Burst.onKey config.thresholdResolution (burstsOf config before) on.band
          (on.stepIn config)) τ.value) := by
  have hfresh := Core.sound_fresh hs.resolution
  obtain ⟨t, -, -, -, hhist⟩ := hrun.history hs
  have hends : ∀ d ∈ before ++ c :: after, d.transition.EndsLater := fun d hd => (hsum d hd).endsLater
  obtain ⟨hfits, hhist, -⟩ := hhist.fits hfresh hthr hends
  have hmem : ∀ d ∈ before, d ∈ before ++ c :: after := fun d hd => List.mem_append_left _ hd
  have hc : c ∈ before ++ c :: after := by simp
  have hthr' := fun d hd => hthr d (hmem d hd)
  have hnames : ∀ d ∈ before ++ c :: after, d.transition.Names (IsTimeOf (before ++ c :: after)) :=
    fun d hd => Call.names_times hd (hsum d hd)
  have hw := hhist.within hfresh (Core.within_fresh config _) hthr' (fun d hd => hends d (hmem d hd))
    fun d hd => hnames d (hmem d hd)
  -- one state change tells of the instant
  have htiles := hfits.tiles hw (hnames c hc) hexact.sub
  rw [hfits.cursor_after ha hr] at htiles
  obtain ⟨x, hx, hcovers, hunique⟩ := htiles.exists_unique hcursor hbefore
  refine ⟨x, hx, hcovers, hunique, ?_⟩
  obtain ⟨-, hp, s, hs', hstart, hstate, hstop⟩ := hfits.segment_of_change hw (hnames c hc) hexact.sub hx
  rw [← hstop, ← hstart] at hcovers
  -- the radio did nothing by itself then, as the tracker still remembers
  have hagrees : (stoodAt (.fresh config) before τ.value).Agrees config (fun _ => False) c.tracker.core :=
    hhist.agrees_stoodAt hfresh hthr' (fun d hd => hends d (hmem d hd)) rfl (fun _ h => h.elim) hcursor
  have hidle : c.tracker.core.record.ownState? τ = none := (hagrees.own τ).symm.trans hown
  obtain ⟨hsorted, hremembers⟩ := hhist.remembers_entryOn hs.resolution (fun d hd => hsum d (hmem d hd))
    (hthr c hc on hon)
  rw [← hremembers.covers_iff hsorted τ.value, ← hstate]
  rcases hfits.sound.state_segmentsUntil (Number.isFinite_of_isTime hp.time)
    (fun e he => hfits.sound.entries e (Core.Sound.mem_entryOn he))
    (Transition.mem_segmentsUntil hon hs') hτ hcovers.1 hcovers.2 hidle with
    ⟨hbusy, hin⟩ | ⟨hclear, hout⟩
  · exact ⟨Or.inl hbusy, fun _ => hin, fun _ => hbusy⟩
  · refine ⟨Or.inr hclear, fun hbusy => ?_, fun hin => absurd hin hout⟩
    rw [hclear] at hbusy
    cases hbusy

/-! ### Two bursts between two reports -/

/-- Energy is detected twice on a secondary band, and then the states are reported. The second burst is
told of. -/
theorem Session.run_of_two_bursts :
    ∃ a b c s, Session.Run 0 (.first {}) ([a, b] ++ [c]) s ∧
      [a, b, c].map Call.transition = [.detectEnergy 10 5 ⟨⟨0, 63⟩, none⟩ false,
        .detectEnergy 30 5 ⟨⟨0, 63⟩, none⟩ false, .flush 40 ⟨⟨0, 63⟩, none⟩] ∧
      c.Accepted ∧ c.tracker.core.cursor = 0 ∧
      c.stateChanges = [(0, 30, .idle), (30, 5, .ccaBusy), (35, 5, .idle)] ∧
      burstsOf {} [a, b] = [⟨⟨0, 63⟩, -82, 10, 5⟩, ⟨⟨0, 63⟩, -82, 30, 5⟩] ∧
      ∀ τ ∈ ([12, 32] : List Number),
        (stoodAt (.fresh {}) [a, b] τ.value).record.ownState? τ = none := by
  have hany : ((Session.requestAll 1 0 [.detectEnergy 10 5 ⟨⟨0, 63⟩, none⟩ false,
      .detectEnergy 30 5 ⟨⟨0, 63⟩, none⟩ false, .flush 40 ⟨⟨0, 63⟩, none⟩] [] (.first {})).any
        fun r => (r.1[2]?.any fun c => decide (c.Accepted ∧ c.tracker.core.cursor = 0 ∧
            c.stateChanges = [(0, 30, .idle), (30, 5, .ccaBusy), (35, 5, .idle)])) &&
          decide (burstsOf {} (r.1.take 2) = [⟨⟨0, 63⟩, -82, 10, 5⟩, ⟨⟨0, 63⟩, -82, 30, 5⟩]) &&
          decide (∀ τ ∈ ([12, 32] : List Number),
            (stoodAt (.fresh {}) (r.1.take 2) τ.value).record.ownState? τ = none)) = true := by
    decide +kernel
  obtain ⟨⟨calls, s⟩, hreq, hcalls⟩ := (Option.any_eq_true _ _).1 hany
  obtain ⟨hrun, hmap⟩ := Session.Run.nil.requestAll hreq
  obtain ⟨a, rest, rfl, -, hrest⟩ := List.map_eq_cons_iff.1 hmap
  obtain ⟨b, rest, rfl, -, hrest⟩ := List.map_eq_cons_iff.1 hrest
  obtain ⟨c, rest, rfl, -, hrest⟩ := List.map_eq_cons_iff.1 hrest
  obtain rfl := List.map_eq_nil_iff.1 hrest
  rw [Bool.and_eq_true, Bool.and_eq_true] at hcalls
  obtain ⟨⟨hlast, hbursts⟩, hown⟩ := hcalls
  obtain ⟨ha, hcursor, hchanges⟩ := of_decide_eq_true hlast
  exact ⟨a, b, c, s, hrun, hmap, ha, hcursor, hchanges, of_decide_eq_true hbursts, of_decide_eq_true hown⟩

/-- What is asked of the arguments of a run holds of these. -/
theorem Session.exact_of_two_bursts {a b c : Call}
    (h : [a, b, c].map Call.transition = [.detectEnergy 10 5 ⟨⟨0, 63⟩, none⟩ false,
      .detectEnergy 30 5 ⟨⟨0, 63⟩, none⟩ false, .flush 40 ⟨⟨0, 63⟩, none⟩]) :
    (∀ d ∈ [a, b] ++ [c], d.transition.HasFiniteThreshold {} ∧ d.transition.SumsExactly) ∧
      ExactTimes (timesOf ([a, b] ++ [c])) := by
  constructor
  · have hall : ∀ x ∈ [a, b, c].map Call.transition, x.HasFiniteThreshold {} ∧ x.SumsExactly := by
      rw [h, List.forall_mem_cons, List.forall_mem_cons, List.forall_mem_singleton]
      refine ⟨⟨?_, ?_⟩, ⟨?_, ?_⟩, ?_, ?_⟩
      · rintro on ⟨⟩
        rfl
      · rintro d ⟨⟩
        decide +kernel
      · rintro on ⟨⟩
        rfl
      · rintro d ⟨⟩
        decide +kernel
      · rintro on ⟨⟩
        rfl
      · rintro d ⟨⟩
    exact List.forall_mem_map.1 hall
  · have htimes : timesOf ([a, b] ++ [c]) = [0, 10, 10 + 5, 30, 30 + 5, 40] := by
      rw [timesOf, ← List.flatMap_map]
      exact congrArg (fun xs : List Transition => 0 :: xs.flatMap Transition.times) h
    rw [htimes, ExactTimes]
    decide +kernel

/-- The second burst was told of, as no run was opened after it. -/
theorem Session.Run.tells_busy_of_two_bursts :
    ∃ before c s, Session.Run 0 (.first {}) (before ++ [c]) s ∧ (30, 5, .ccaBusy) ∈ c.stateChanges ∧
      (∃ b ∈ Burst.onKey 0.01 (burstsOf {} before) ⟨0, 63⟩ (Sensing.stepIn ⟨⟨0, 63⟩, none⟩ {}),
        b.Covers (Number.value 32)) ∧
      ¬Burst.Reopened (Burst.onKey 0.01 (burstsOf {} before) ⟨0, 63⟩
        (Sensing.stepIn ⟨⟨0, 63⟩, none⟩ {})) (Number.value 32) := by
  obtain ⟨a, b, c, s, hrun, hmap, ha, hcursor, hchanges, -, hown⟩ := Session.run_of_two_bursts
  obtain ⟨hall, hexact⟩ := Session.exact_of_two_bursts hmap
  have hc : c.transition = .flush 40 ⟨⟨0, 63⟩, none⟩ := by
    simp only [List.map_cons, List.cons.injEq] at hmap
    exact hmap.2.2.1
  have hon : ⟨⟨0, 63⟩, none⟩ ∈ c.transition.sensing? := by rw [hc]; rfl
  have hmem : (30, 5, .ccaBusy) ∈ c.stateChanges := by simp [hchanges]
  obtain ⟨x, -, -, hunique, -, hbusy⟩ := tells_busy_iff hrun starts_first (fun d hd => (hall d hd).1)
    (fun d hd => (hall d hd).2) hexact ha (by rw [hc]; rfl) hon (show (32 : Number).isFinite by decide)
    (by rw [hcursor]; decide +kernel) (by rw [hc]; decide +kernel) (hown 32 (by simp))
  obtain rfl := hunique _ hmem (by decide +kernel) (by decide +kernel)
  exact ⟨[a, b], c, s, hrun, hmem, hbusy.1 rfl⟩

/-- It is not so that all energy on a key is told of which was recorded as that of a secondary band. The
first of the two bursts was there twelve units after the beginning, and it is not told of. -/
theorem Session.secondary_energy_untold :
    ¬∀ (before after : List Call) (c : Call) (s : Session),
      Session.Run 0 (.first {}) (before ++ c :: after) s →
      (∀ d ∈ before ++ c :: after, d.transition.HasFiniteThreshold {} ∧ d.transition.SumsExactly) →
      ExactTimes (timesOf (before ++ c :: after)) → c.Accepted → c.transition.Reports →
      ∀ on ∈ c.transition.sensing?,
        (∀ d ∈ before, (d.transition.burst? {}).isSome → d.transition.IsSecondaryOn {} on) →
        ∀ τ : Number, τ.isFinite → c.tracker.core.cursor.value ≤ τ.value →
          τ.value < c.transition.time.value →
          (stoodAt (.fresh {}) before τ.value).record.ownState? τ = none →
          (∃ b ∈ Burst.onKey 0.01 (burstsOf {} before) on.band (on.stepIn {}), b.Covers τ.value) →
            ∃ x ∈ c.stateChanges,
              x.1.value ≤ τ.value ∧ τ.value < x.1.value + x.2.1.value ∧ x.2.2 = .ccaBusy := by
  intro hclaim
  obtain ⟨a, b, c, s, hrun, hmap, hacc, hcursor, hchanges, hbursts, hown⟩ := Session.run_of_two_bursts
  obtain ⟨hall, hexact⟩ := Session.exact_of_two_bursts hmap
  simp only [List.map_cons, List.map_nil, List.cons.injEq, and_true] at hmap
  obtain ⟨ha, hb, hc⟩ := hmap
  have hsecondary : ∀ d ∈ [a, b], (d.transition.burst? {}).isSome →
      d.transition.IsSecondaryOn {} ⟨⟨0, 63⟩, none⟩ := by
    simp only [List.forall_mem_cons]
    refine ⟨fun _ => ?_, fun _ => ?_, by simp⟩
    · rw [ha]
      rfl
    · rw [hb]
      rfl
  obtain ⟨x, hx, hle, hlt, hbusy⟩ := hclaim [a, b] [] c s hrun hall hexact hacc (by rw [hc]; rfl)
    ⟨⟨0, 63⟩, none⟩ (by rw [hc]; rfl) hsecondary 12 (by decide) (by rw [hcursor]; decide +kernel)
    (by rw [hc]; decide +kernel) (hown 12 (by simp)) (by rw [hbursts]; decide +kernel)
  rw [hchanges] at hx
  have hlate : ¬Number.value 30 ≤ Number.value 12 := by decide +kernel
  simp only [List.mem_cons, List.not_mem_nil, or_false] at hx
  rcases hx with rfl | rfl | rfl
  · cases hbusy
  · exact hlate hle
  · cases hbusy

end RadioOccupancy
