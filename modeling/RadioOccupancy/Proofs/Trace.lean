import RadioOccupancy.Proofs.Session.History

/-!
The trace of state changes leaves no gap.

    0                   cursor
    |--IDLE--|--TX--|--RX--|

Each call reports segments that follow each other from the cursor to where it is afterwards, so the
trace of a whole run leads from zero to the cursor. Times are binary64 numbers and a state change is told
with its duration, so the differences of times have to be exact for that: `ExactTimes` is what is asked
of the times that a run is about.
-/

namespace RadioOccupancy

/-- State changes tile the time between two instants: each begins where the one before it ended, and
takes time. -/
def Tiles : ℚ → List (Number × Number × Radio.State) → ℚ → Prop
  | a, [], b => a = b
  | a, (start, duration, _) :: rest, b =>
    start.isFinite ∧ start.value = a ∧ duration.isFinite ∧ 0 < duration.value ∧
      Tiles (a + duration.value) rest b

theorem Tiles.append {a b c : ℚ} {xs ys : List (Number × Number × Radio.State)} (hx : Tiles a xs b)
    (hy : Tiles b ys c) : Tiles a (xs ++ ys) c := by
  induction xs generalizing a with
  | nil => exact (show a = b from hx) ▸ hy
  | cons x rest ih =>
    obtain ⟨hfin, hstart, hdur, hpos, hx⟩ := hx
    exact ⟨hfin, hstart, hdur, hpos, ih hx⟩

/-- The differences of times, larger less smaller, are exact. -/
def ExactTimes (times : List Number) : Prop :=
  ∀ a ∈ times, ∀ b ∈ times, a.isTime → b.isTime → a.value ≤ b.value →
    (b - a).isFinite ∧ (b - a).value = b.value - a.value

/-- The times that a transition is about. -/
def Transition.times (x : Transition) : List Number :=
  x.time :: (x.duration?.map fun d => x.time + d).toList

/-- The times that calls are about, the beginning included. -/
def timesOf (calls : List Call) : List Number :=
  0 :: calls.flatMap fun c => c.transition.times

/-- One of the times that calls are about. -/
def IsTimeOf (calls : List Call) (a : Number) : Prop :=
  a ∈ timesOf calls ∧ a.isTime

/-- The differences of the times that calls are about are exact. -/
theorem ExactTimes.sub {calls : List Call} (h : ExactTimes (timesOf calls)) (a b : Number)
    (ha : IsTimeOf calls a) (hb : IsTimeOf calls b) (hle : a.value ≤ b.value) :
    (b - a).isFinite ∧ (b - a).value = b.value - a.value :=
  h a ha.1 b hb.1 ha.2 hb.2 hle

namespace Report

/-- Segments that follow each other are told without a gap. Those in which no time passes are left
out. -/
theorem Follow.tiles_told {a b : ℚ} {segments : List Segment} (h : Follow a segments b)
    (hexact : ∀ s ∈ segments, s.start.value ≤ s.stop.value →
      (s.stop - s.start).isFinite ∧ (s.stop - s.start).value = s.stop.value - s.start.value) :
    Tiles a (told segments) b := by
  induction segments generalizing a with
  | nil => exact h
  | cons s rest ih =>
    obtain ⟨hstart, hstop, rfl, hle, h⟩ := h
    have ih := ih h fun u hu => hexact u (List.mem_cons_of_mem _ hu)
    obtain ⟨hfin, hdiff⟩ := hexact s List.mem_cons_self hle
    have hempty : s.isEmpty = true ↔ s.stop.value ≤ s.start.value := by
      rw [Segment.isEmpty, decide_eq_true_iff, Number.le_iff hstop hstart]
    by_cases he : s.isEmpty = true
    · have : told (s :: rest) = told rest := by simp [told, he]
      rw [this, le_antisymm hle (hempty.1 he)]
      exact ih
    · have : told (s :: rest) = (s.start, s.stop - s.start, s.state) :: told rest := by
        simp [told, he]
      rw [this]
      refine ⟨hstart, rfl, hfin, ?_, ?_⟩
      · rw [hdiff]
        exact sub_pos.2 (not_le.1 fun hle => he (hempty.2 hle))
      · rw [hdiff, add_sub_cancel]
        exact ih

end Report

namespace Call

variable {config : Config} {c : Call} {P : Number → Prop}

/-- The state changes of a call lead from the cursor before it to the cursor after it. -/
theorem Fits.tiles (h : c.Fits config) (hw : c.tracker.core.Within P) (hP : c.transition.Names P)
    (hexact : ∀ a b, P a → P b → a.value ≤ b.value →
      (b - a).isFinite ∧ (b - a).value = b.value - a.value) :
    Tiles c.tracker.core.cursor.value c.stateChanges c.coreAfter.cursor.value := by
  by_cases ha : c.Accepted
  · obtain ⟨hp, hcore, hchanges⟩ := h.of_accepted ha
    have hends : ∀ s ∈ c.transition.segments config c.tracker.core, P s.start ∧ P s.stop :=
      hw.segments h.sound hp.time (hP.time hp.time)
    rw [hcore, hchanges, Transition.cursor_after]
    exact (h.sound.follow_segments hp).tiles_told fun s hs =>
      hexact _ _ (hends s hs).1 (hends s hs).2
  · obtain ⟨hcore, hchanges⟩ := h.of_refused ha
    rw [hcore, hchanges]
    rfl

/-- An accepted call that reports moves the cursor to its time. -/
theorem Fits.cursor_after (h : c.Fits config) (ha : c.Accepted) (hr : c.transition.Reports) :
    c.coreAfter.cursor.value = c.transition.time.value := by
  obtain ⟨hp, hcore, -⟩ := h.of_accepted ha
  rw [hcore, Transition.cursor_after, h.sound.cursorAfter_value hp, if_pos hr]

end Call

/-- A call whose sum is exact names times that calls are about. -/
theorem Call.names_times {calls : List Call} {c : Call} (hc : c ∈ calls)
    (hsum : c.transition.SumsExactly) : c.transition.Names (IsTimeOf calls) := by
  have hmem : ∀ a ∈ c.transition.times, a ∈ timesOf calls := fun a ha =>
    List.mem_cons_of_mem _ (List.mem_flatMap.2 ⟨c, hc, ha⟩)
  refine ⟨fun ht => ⟨hmem _ List.mem_cons_self, ht⟩, fun d hd ht hdt => ?_⟩
  obtain ⟨hfin, heq⟩ := hsum d hd ht hdt
  refine ⟨hmem _ (List.mem_cons_of_mem _ ?_), Number.isTime_iff.2 ⟨hfin, ?_⟩⟩
  · rw [Option.mem_toList]
    exact Option.map_eq_some_iff.2 ⟨d, hd, rfl⟩
  · rw [heq]
    exact add_nonneg (Number.value_nonneg ht) (Number.value_nonneg hdt)

/-- A new tracker remembers nothing but the beginning. -/
theorem Core.within_fresh (config : Config) (calls : List Call) :
    (Core.fresh config).Within (IsTimeOf calls) := by
  have h : IsTimeOf calls 0 := ⟨List.mem_cons_self, Number.isTime_zero⟩
  exact ⟨h, Record.forall_activities.2 ⟨h, h, h⟩, by simp [fresh]⟩

namespace History

variable {config : Config} {start core : Core} {calls : List Call} {P : Number → Prop}

/-- No time is made up in a history. -/
theorem within (h : History config start calls core) (hstart : start.Sound) (hw : start.Within P)
    (hthr : ∀ c ∈ calls, c.transition.HasFiniteThreshold config)
    (hends : ∀ c ∈ calls, c.transition.EndsLater) (hP : ∀ c ∈ calls, c.transition.Names P) :
    core.Within P :=
  h.kept hstart hthr hends hw fun c hc hs hp hw => hw.after hs hp (hP c hc)

/-- The state changes of a history lead from the cursor before it to the cursor after it. -/
theorem tiles (h : History config start calls core) (hstart : start.Sound) (hw : start.Within P)
    (hthr : ∀ c ∈ calls, c.transition.HasFiniteThreshold config)
    (hends : ∀ c ∈ calls, c.transition.EndsLater) (hP : ∀ c ∈ calls, c.transition.Names P)
    (hexact : ∀ a b, P a → P b → a.value ≤ b.value →
      (b - a).isFinite ∧ (b - a).value = b.value - a.value) :
    Tiles start.cursor.value (calls.flatMap Call.stateChanges) core.cursor.value := by
  refine h.invariant (Q := fun calls core =>
    Tiles start.cursor.value (calls.flatMap Call.stateChanges) core.cursor.value) hstart hthr hends rfl
    fun before c hpre hfits hbefore htiles => ?_
  have hmem : ∀ d ∈ before, d ∈ calls := fun d hd => hpre.subset (List.mem_append_left _ hd)
  have hwithin : c.tracker.core.Within P := hbefore.within hstart hw (fun d hd => hthr d (hmem d hd))
    (fun d hd => hends d (hmem d hd)) fun d hd => hP d (hmem d hd)
  rw [List.flatMap_append, List.flatMap_singleton]
  exact htiles.append (hfits.tiles hwithin (hP c (hpre.subset (by simp))) hexact)

end History

/-- After any run of a session in which no observer failed, the state changes of a tracker have led from
zero to its cursor without a gap. They had led to the time of each transition that was accepted and
reports, when it had been carried out. -/
theorem Session.Run.trace_tiles {i : Nat} {s s' : Session} {calls : List Call} {config : Config}
    {t : Tracker} (hrun : Session.Run i s calls s') (hs : s.Starts i config)
    (ht : s'.trackers[i]? = some t) (hthr : ∀ c ∈ calls, c.transition.HasFiniteThreshold config)
    (hsum : ∀ c ∈ calls, c.transition.SumsExactly) (hexact : ExactTimes (timesOf calls)) :
    Tiles 0 (calls.flatMap Call.stateChanges) t.core.cursor.value ∧
      ∀ before c after, calls = before ++ c :: after → c.Accepted → c.transition.Reports →
        c.coreAfter.cursor.value = c.transition.time.value ∧
          Tiles 0 ((before ++ [c]).flatMap Call.stateChanges) c.transition.time.value := by
  have hstart := Core.sound_fresh hs.resolution
  obtain ⟨u, hu, hconfig, hfree, hhist⟩ := hrun.history hs
  obtain rfl := Option.some.inj (ht.symm.trans hu)
  have hends : ∀ c ∈ calls, c.transition.EndsLater := fun c hc => (hsum c hc).endsLater
  have hw := Core.within_fresh config calls
  have hnames : ∀ c ∈ calls, c.transition.Names (IsTimeOf calls) :=
    fun c hc => Call.names_times hc (hsum c hc)
  have hzero : (Core.fresh config).cursor.value = 0 := Number.value_zero
  rw [← hzero]
  refine ⟨hhist.tiles hstart hw hthr hends hnames hexact.sub, ?_⟩
  rintro before c after rfl ha hr
  obtain ⟨hfits, hbefore, -⟩ := hhist.fits hstart hthr hends
  have hcursor := hfits.cursor_after ha hr
  have hsub : ∀ d ∈ before ++ [c], d ∈ before ++ c :: after := fun d hd => by
    simp at hd ⊢
    tauto
  refine ⟨hcursor, hcursor ▸ ?_⟩
  exact (History.snoc hbefore hfits.configured hfits.free).tiles hstart hw
    (fun d hd => hthr d (hsub d hd)) (fun d hd => hends d (hsub d hd))
    (fun d hd => hnames d (hsub d hd)) hexact.sub

/-- A reception of fifty units is aborted after twenty. The state changes reach that far. -/
theorem Session.Run.trace_tiles_of_reception :
    ∃ calls s t, Session.Run 0 (.first {}) calls s ∧ s.trackers[0]? = some t ∧ t.core.cursor = 20 ∧
      Tiles 0 (calls.flatMap Call.stateChanges) (Number.value 20) := by
  have hany : ((Session.requestAll 1 0 [.receive 0 50 ⟨⟨0, 63⟩, none⟩, .abortReception 20 false] []
      (.first {})).any fun (_, s) => s.trackers[0]?.any fun t => t.core.cursor = 20) = true := by
    decide +kernel
  obtain ⟨⟨calls, s⟩, hreq, hs⟩ := (Option.any_eq_true _ _).1 hany
  obtain ⟨t, ht, hcursor⟩ := (Option.any_eq_true _ _).1 hs
  rw [decide_eq_true_iff] at hcursor
  obtain ⟨hrun, hmap⟩ := Session.Run.nil.requestAll hreq
  rw [List.map_nil, List.nil_append] at hmap
  have hall : ∀ x ∈ calls.map Call.transition, x.HasFiniteThreshold {} ∧ x.SumsExactly := by
    rw [hmap, List.forall_mem_cons, List.forall_mem_singleton]
    refine ⟨⟨?_, ?_⟩, ?_, ?_⟩
    · rintro on ⟨⟩
      rfl
    · rintro d ⟨⟩
      decide +kernel
    · rintro on ⟨⟩
    · rintro d ⟨⟩
  rw [List.forall_mem_map] at hall
  have htimes : timesOf calls = [0, 0, 0 + 50, 20] := by
    rw [timesOf, ← List.flatMap_map, hmap]
    rfl
  refine ⟨calls, s, t, hrun, ht, hcursor, hcursor ▸ (trace_tiles hrun starts_first ht
    (fun c hc => (hall c hc).1) (fun c hc => (hall c hc).2) ?_).1⟩
  rw [htimes, ExactTimes]
  decide +kernel

end RadioOccupancy
