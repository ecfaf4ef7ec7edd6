import RadioOccupancy.Proofs.BusyTable
import RadioOccupancy.Tracker.Report

/-!
The segments of a report leave no gap, and each shows the state that it should.

    cursor            reach            now
      |--own--|--own--|--idle|busy|idle-|

The radio's own activities come first, each from where the one before it ended; they reach now or the
end of the last of them, and the band is reported from there on. `Runs` says how activities run,
without the comparisons of the algorithm, and what follows about their segments is by induction on
it. `Follow` says that segments follow each other from one instant to another.
-/

namespace RadioOccupancy

/-- Both ends of an interval are finite, and it has begun by the instant. -/
structure Interval.BegunBy (i : Interval) (c : ℚ) : Prop where
  finite_start : i.start.isFinite
  finite_stop : i.stop.isFinite
  start_le : i.start.value ≤ c

namespace Interval.BegunBy

theorem mono {i : Interval} {c d : ℚ} (h : i.BegunBy c) (hcd : c ≤ d) : i.BegunBy d :=
  ⟨h.finite_start, h.finite_stop, h.start_le.trans hcd⟩

/-- An interval that has begun is running until it ends. -/
theorem isRunning_iff {i : Interval} {t : Number} (h : i.BegunBy t.value) (ht : t.isFinite) :
    i.isRunning t ↔ t.value < i.stop.value := by
  rw [isRunning, Bool.and_eq_true, decide_eq_true_iff, decide_eq_true_iff, Number.lt_iff ht h.finite_stop,
    Number.le_iff h.finite_start ht]
  exact and_iff_left h.start_le

end Interval.BegunBy

namespace Report

theorem reach_cons (t : Number) (s : Segment) (rest : List Segment) :
    reach t (s :: rest) = reach s.stop rest := by
  cases rest with
  | nil => rfl
  | cons u us =>
    rw [reach, reach, List.getLast?_cons_cons]
    cases h : (u :: us).getLast? with
    | none => simp at h
    | some v => rfl

/-! ### Segments that follow each other -/

/-- Segments follow each other from one instant to another. -/
def Follow : ℚ → List Segment → ℚ → Prop
  | a, [], b => a = b
  | a, s :: rest, b =>
    s.start.isFinite ∧ s.stop.isFinite ∧ s.start.value = a ∧ a ≤ s.stop.value ∧
      Follow s.stop.value rest b

theorem Follow.le {a b : ℚ} {segments : List Segment} (h : Follow a segments b) : a ≤ b := by
  induction segments generalizing a with
  | nil => exact le_of_eq h
  | cons s rest ih =>
    obtain ⟨-, -, -, hle, h⟩ := h
    exact hle.trans (ih h)

theorem Follow.append {a b c : ℚ} {ss us : List Segment} (hs : Follow a ss b) (hu : Follow b us c) :
    Follow a (ss ++ us) c := by
  induction ss generalizing a with
  | nil => exact (show a = b from hs) ▸ hu
  | cons s rest ih =>
    obtain ⟨h₁, h₂, h₃, h₄, hs⟩ := hs
    exact ⟨h₁, h₂, h₃, h₄, ih hs⟩

/-- Each of the segments lies between the two instants. -/
theorem Follow.mem {a b : ℚ} {segments : List Segment} (h : Follow a segments b) {s : Segment}
    (hs : s ∈ segments) :
    s.start.isFinite ∧ s.stop.isFinite ∧ a ≤ s.start.value ∧ s.stop.value ≤ b := by
  induction segments generalizing a with
  | nil => simp at hs
  | cons u rest ih =>
    obtain ⟨hstart, hstop, rfl, hle, h⟩ := h
    rcases List.mem_cons.1 hs with rfl | hs
    · exact ⟨hstart, hstop, le_refl _, h.le⟩
    · obtain ⟨h₁, h₂, h₃, h₄⟩ := ih h hs
      exact ⟨h₁, h₂, hle.trans h₃, h₄⟩

/-! ### The radio's own activities -/

/-- How the radio's own activities run from `t` up to `now`, those that mask others first. -/
inductive Runs (now : Number) : List Activity → Number → List Segment → Prop
  /-- nothing is left to report -/
  | reached {pending : List Activity} {t : Number} (h : now.value ≤ t.value) : Runs now pending t []
  /-- all activities have ended -/
  | ended {pending : List Activity} {t : Number}
      (h : ∀ a ∈ pending, a.interval.stop.value ≤ t.value) : Runs now pending t []
  /-- the first activity that has not ended runs until it ends, or until now -/
  | runs {before after : List Activity} {a : Activity} {t stop : Number} {rest : List Segment}
      (hbefore : ∀ b ∈ before, b.interval.stop.value ≤ t.value)
      (ht : t.value < stop.value)
      (hstop : stop = a.interval.stop ∧ a.interval.stop.value ≤ now.value ∨
        stop = now ∧ now.value ≤ a.interval.stop.value)
      (hrest : Runs now (before ++ after) stop rest) :
      Runs now (before ++ a :: after) t (⟨t, stop, a.state⟩ :: rest)

theorem firstRunning?_some {t : Number} {pending others : List Activity} {a : Activity}
    (h : firstRunning? t pending = some (a, others)) :
    ∃ before after, pending = before ++ a :: after ∧ others = before ++ after ∧
      a.interval.isRunning t ∧ ∀ b ∈ before, ¬b.interval.isRunning t := by
  induction pending generalizing others with
  | nil => simp [firstRunning?] at h
  | cons b rest ih =>
    rw [firstRunning?] at h
    split at h
    · next hb =>
      obtain ⟨rfl, rfl⟩ := by simpa using h
      exact ⟨[], rest, rfl, rfl, hb, by simp⟩
    · next hb =>
      obtain ⟨⟨c, cs⟩, hc, hcs⟩ := Option.map_eq_some_iff.1 h
      obtain ⟨rfl, rfl⟩ := by simpa using hcs
      obtain ⟨before, after, rfl, rfl, hrun, hbefore⟩ := ih hc
      exact ⟨b :: before, after, rfl, rfl, hrun, by simpa [hb] using hbefore⟩

theorem firstRunning?_none {t : Number} {pending : List Activity}
    (h : firstRunning? t pending = none) : ∀ a ∈ pending, ¬a.interval.isRunning t := by
  induction pending with
  | nil => simp
  | cons b rest ih =>
    rw [firstRunning?] at h
    split at h
    · simp at h
    · next hb => simpa [hb] using ih (Option.map_eq_none_iff.1 h)

/-- The segments of activities that have begun are how these run. -/
theorem runs_ownSegments {now : Number} (hnow : now.isFinite) (pending : List Activity) (t : Number)
    (ht : t.isFinite) (h : ∀ a ∈ pending, a.interval.BegunBy t.value) :
    Runs now pending t (ownSegments now pending t) := by
  fun_induction ownSegments now pending t with
  | case1 pending t hlt a others hfirst stop ih =>
    obtain ⟨before, after, rfl, rfl, hrun, hbefore⟩ := firstRunning?_some hfirst
    have ha := h a (by simp)
    rw [ha.isRunning_iff ht] at hrun
    rw [Number.lt_iff ht hnow] at hlt
    have hmin : stop = a.interval.stop ∧ _ ∨ stop = now ∧ _ :=
      Number.minimum_eq ha.finite_stop hnow
    have hstop : stop.isFinite ∧ t.value < stop.value := by
      rcases hmin with ⟨he, -⟩ | ⟨he, -⟩ <;> rw [he]
      · exact ⟨ha.finite_stop, hrun⟩
      · exact ⟨hnow, hlt⟩
    refine .runs (fun b hb => ?_) hstop.2 hmin (ih hstop.1 fun b hb => ?_)
    · have := hbefore b hb
      rw [(h b (by simp [hb])).isRunning_iff ht] at this
      exact not_lt.1 this
    · exact (h b (by simp at hb ⊢; tauto)).mono hstop.2.le
  | case2 pending t hlt hfirst =>
    refine .ended fun a ha => ?_
    have := firstRunning?_none hfirst a ha
    rw [(h a ha).isRunning_iff ht] at this
    exact not_lt.1 this
  | case3 pending t hlt =>
    rw [Number.lt_iff ht hnow] at hlt
    exact .reached (not_lt.1 hlt)

namespace Runs

variable {now t : Number} {pending : List Activity} {segments : List Segment}

/-- Whatever holds of the instant from which activities run, of now, and of their ends, holds of all
ends of their segments and of how far these reach. -/
theorem forall_ends (P : Number → Prop) (h : Runs now pending t segments) (ht : P t) (hnow : P now)
    (hp : ∀ a ∈ pending, P a.interval.stop) :
    P (reach t segments) ∧ ∀ s ∈ segments, P s.start ∧ P s.stop := by
  induction h with
  | reached => exact ⟨ht, by simp⟩
  | ended => exact ⟨ht, by simp⟩
  | @runs before after a t stop rest hbefore hlt hstop hrest ih =>
    have hs : P stop := by
      rcases hstop with ⟨rfl, -⟩ | ⟨rfl, -⟩
      · exact hp a (by simp)
      · exact hnow
    obtain ⟨hreach, hmem⟩ := ih hs fun b hb => hp b (by simp at hb ⊢; tauto)
    rw [reach_cons]
    exact ⟨hreach, List.forall_mem_cons.2 ⟨⟨ht, hs⟩, hmem⟩⟩

/-- The segments follow each other as far as they reach. -/
theorem follow (h : Runs now pending t segments) (ht : t.isFinite) (hnow : now.isFinite)
    (hp : ∀ a ∈ pending, a.interval.stop.isFinite) :
    Follow t.value segments (reach t segments).value := by
  have hfin := (h.forall_ends (fun x => x.isFinite) ht hnow hp).2
  induction h with
  | reached => rfl
  | ended => rfl
  | @runs before after a t stop rest hbefore hlt hstop hrest ih =>
    obtain ⟨⟨-, hs⟩, hrest⟩ := List.forall_mem_cons.1 hfin
    rw [reach_cons]
    exact ⟨ht, hs, rfl, hlt.le, ih hs (fun b hb => hp b (by simp at hb ⊢; tauto)) hrest⟩

/-- The segments do not reach beyond now. -/
theorem reach_le (h : Runs now pending t segments) (ht : t.value ≤ now.value) :
    (reach t segments).value ≤ now.value := by
  induction h with
  | reached => exact ht
  | ended => exact ht
  | runs hbefore hlt hstop hrest ih =>
    rw [reach_cons]
    rcases hstop with ⟨rfl, hle⟩ | ⟨rfl, -⟩
    · exact ih hle
    · exact ih le_rfl

/-- The segments start out from `t`. -/
theorem le_reach (h : Runs now pending t segments) : t.value ≤ (reach t segments).value := by
  induction h with
  | reached => rfl
  | ended => rfl
  | runs hbefore hlt hstop hrest ih =>
    rw [reach_cons]
    exact hlt.le.trans ih

/-- The segments reach now, unless all activities have ended where they stop. -/
theorem reach_or_ended (h : Runs now pending t segments) :
    now.value ≤ (reach t segments).value ∨
      ∀ a ∈ pending, a.interval.stop.value ≤ (reach t segments).value := by
  induction h with
  | reached h => exact Or.inl h
  | ended h => exact Or.inr h
  | @runs before after a t stop rest hbefore hlt hstop hrest ih =>
    rw [reach_cons]
    have hle := hrest.le_reach
    rcases hstop with ⟨rfl, -⟩ | ⟨rfl, -⟩
    · refine ih.imp id fun hall b hb => ?_
      rcases List.mem_append.1 hb with hb | hb
      · exact hall b (List.mem_append_left _ hb)
      · rcases List.mem_cons.1 hb with rfl | hb
        · exact hle
        · exact hall b (List.mem_append_right _ hb)
    · exact Or.inl hle

/-- Nothing runs on after now. -/
theorem eq_nil (h : Runs now pending t segments) (ht : now.value ≤ t.value) : segments = [] := by
  cases h with
  | reached => rfl
  | ended => rfl
  | runs hbefore hlt hstop hrest =>
    rcases hstop with ⟨rfl, hle⟩ | ⟨rfl, -⟩
    · exact absurd (hlt.trans_le hle) (not_lt.2 ht)
    · exact absurd hlt (not_lt.2 ht)

/-- No segment begins before `t`. -/
theorem le_start (h : Runs now pending t segments) {s : Segment} (hs : s ∈ segments) :
    t.value ≤ s.start.value := by
  induction h with
  | reached => simp at hs
  | ended => simp at hs
  | runs hbefore hlt hstop hrest ih =>
    rcases List.mem_cons.1 hs with rfl | hs
    · exact le_rfl
    · exact hlt.le.trans (ih hs)

/-- At each instant of a segment, its state is that of the first activity that has not ended. -/
theorem state (h : Runs now pending t segments) (hp : ∀ a ∈ pending, a.interval.stop.isFinite)
    {s : Segment} (hs : s ∈ segments) {τ : Number} (hτ : τ.isFinite) (hstart : s.start.value ≤ τ.value)
    (hstop : τ.value < s.stop.value) :
    (pending.find? fun a => τ < a.interval.stop).map Activity.state = some s.state := by
  induction h with
  | reached => simp at hs
  | ended => simp at hs
  | @runs before after a t stop rest hbefore hlt hend hrest ih =>
    have hle : t.value ≤ τ.value := ((runs hbefore hlt hend hrest).le_start hs).trans hstart
    rcases List.mem_cons.1 hs with rfl | hs'
    · -- what masks `a` has ended by `t`
      have hnone : before.find? (fun a => τ < a.interval.stop) = none := by
        rw [List.find?_eq_none]
        intro b hb
        rw [decide_eq_true_iff, Number.lt_iff hτ (hp b (by simp [hb]))]
        exact not_lt.2 ((hbefore b hb).trans hle)
      have ha : τ < a.interval.stop := by
        rw [Number.lt_iff hτ (hp a (by simp))]
        rcases hend with ⟨rfl, -⟩ | ⟨rfl, hle⟩
        · exact hstop
        · exact hstop.trans_le hle
      simp [List.find?_append, hnone, ha]
    · -- `a` has ended too, or nothing would be left to run
      have ha : ¬τ < a.interval.stop := by
        rw [Number.lt_iff hτ (hp a (by simp))]
        rcases hend with ⟨rfl, -⟩ | ⟨rfl, -⟩
        · exact not_lt.2 ((hrest.le_start hs').trans hstart)
        · rw [hrest.eq_nil le_rfl] at hs'
          simp at hs'
      rw [← ih (fun b hb => hp b (by simp at hb ⊢; tauto)) hs']
      simp [List.find?_append, ha]

end Runs

/-! ### The band -/

variable {entry : Option BusyEntry} {t now : Number}

/-- The three segments of a band on which energy was detected between `t` and now. -/
theorem bandSegments_busy {e : BusyEntry} (he : e.Sound) (ht : t.isFinite) (hnow : now.isFinite)
    (hend : t.value < e.busyEnd.value) (hstart : e.busyStart.value < now.value) :
    ∃ busyStart busyEnd : Number,
      bandSegments (some e) t now =
        [⟨t, busyStart, .idle⟩, ⟨busyStart, busyEnd, .ccaBusy⟩, ⟨busyEnd, now, .idle⟩] ∧
      (busyStart = t ∨ busyStart = e.busyStart) ∧ (busyEnd = e.busyEnd ∨ busyEnd = now) ∧
      busyStart.value = max t.value e.busyStart.value ∧
      busyEnd.value = min e.busyEnd.value now.value := by
  refine ⟨t.maximum e.busyStart, e.busyEnd.minimum now, ?_, ?_⟩
  · have hc : (t < e.busyEnd && e.busyStart < now) = true := by
      rw [Bool.and_eq_true, decide_eq_true_iff, decide_eq_true_iff, Number.lt_iff ht he.finite_end,
        Number.lt_iff he.finite_start hnow]
      exact ⟨hend, hstart⟩
    rw [bandSegments, if_pos hc]
  · rcases Number.maximum_eq ht he.finite_start with ⟨hmax, hm⟩ | ⟨hmax, hm⟩ <;>
      rcases Number.minimum_eq he.finite_end hnow with ⟨hmin, hm'⟩ | ⟨hmin, hm'⟩ <;>
        rw [hmax, hmin] <;> simp [hm, hm']

/-- The one segment of a band on which no energy was detected between `t` and now. -/
theorem bandSegments_clear (he : ∀ e ∈ entry, e.Sound) (ht : t.isFinite) (hnow : now.isFinite)
    (h : ∀ e ∈ entry, e.busyEnd.value ≤ t.value ∨ now.value ≤ e.busyStart.value) :
    bandSegments entry t now = [⟨t, now, .idle⟩] := by
  cases entry with
  | none => rfl
  | some e =>
    have he := he e rfl
    have hc : ¬(t < e.busyEnd && e.busyStart < now) = true := by
      rw [Bool.and_eq_true, decide_eq_true_iff, decide_eq_true_iff, Number.lt_iff ht he.finite_end,
        Number.lt_iff he.finite_start hnow]
      rintro ⟨h₁, h₂⟩
      rcases h e rfl with h | h
      · exact not_lt.2 h h₁
      · exact not_lt.2 h h₂
    rw [bandSegments, if_neg hc]

/-- Energy is detected on the band between `t` and now, or it is not. -/
theorem busy_or_clear (entry : Option BusyEntry) (t now : Number) :
    (∃ e, entry = some e ∧ t.value < e.busyEnd.value ∧ e.busyStart.value < now.value) ∨
      ∀ e ∈ entry, e.busyEnd.value ≤ t.value ∨ now.value ≤ e.busyStart.value := by
  cases entry with
  | none => exact Or.inr (by simp)
  | some e =>
    rcases lt_or_ge t.value e.busyEnd.value with h | h
    · rcases lt_or_ge e.busyStart.value now.value with h' | h'
      · exact Or.inl ⟨e, rfl, h, h'⟩
      · exact Or.inr (by simpa using Or.inr h')
    · exact Or.inr (by simpa using Or.inl h)

/-- The segments of a band follow each other up to now. -/
theorem follow_bandSegments (he : ∀ e ∈ entry, e.Sound) (ht : t.isFinite) (hnow : now.isFinite)
    (hle : t.value ≤ now.value) : Follow t.value (bandSegments entry t now) now.value := by
  rcases busy_or_clear entry t now with ⟨e, rfl, hend, hstart⟩ | hclear
  · have he := he e rfl
    obtain ⟨b, c, heq, hb, hc, hbv, hcv⟩ := bandSegments_busy he ht hnow hend hstart
    have hbf : b.isFinite := by
      rcases hb with rfl | rfl
      · exact ht
      · exact he.finite_start
    have hcf : c.isFinite := by
      rcases hc with rfl | rfl
      · exact he.finite_end
      · exact hnow
    have hbc : b.value ≤ c.value := by
      rw [hbv, hcv]
      exact le_min (max_le hend.le he.start_le_end) (max_le hle hstart.le)
    rw [heq]
    exact ⟨ht, hbf, rfl, hbv ▸ le_max_left _ _, hbf, hcf, rfl, hbc, hcf, hnow, rfl,
      hcv ▸ min_le_right _ _, rfl⟩
  · rw [bandSegments_clear he ht hnow hclear]
    exact ⟨ht, hnow, rfl, hle, rfl⟩

/-- Whatever holds of `t`, of now and of the ends of the busy period, holds of all ends of the
segments. -/
theorem forall_ends_bandSegments (P : Number → Prop) (he : ∀ e ∈ entry, e.Sound) (ht : t.isFinite)
    (hnow : now.isFinite) (hPt : P t) (hPnow : P now)
    (hPe : ∀ e ∈ entry, P e.busyStart ∧ P e.busyEnd) :
    ∀ s ∈ bandSegments entry t now, P s.start ∧ P s.stop := by
  rcases busy_or_clear entry t now with ⟨e, rfl, hend, hstart⟩ | hclear
  · obtain ⟨b, c, heq, hb, hc, -, -⟩ := bandSegments_busy (he e rfl) ht hnow hend hstart
    have hb : P b := by
      rcases hb with rfl | rfl
      · exact hPt
      · exact (hPe e rfl).1
    have hc : P c := by
      rcases hc with rfl | rfl
      · exact (hPe e rfl).2
      · exact hPnow
    rw [heq]
    simp [hPt, hPnow, hb, hc]
  · rw [bandSegments_clear he ht hnow hclear]
    simp [hPt, hPnow]

/-- At each instant of a segment, its state is busy just if the busy period covers the instant. -/
theorem state_bandSegments (he : ∀ e ∈ entry, e.Sound) (ht : t.isFinite) (hnow : now.isFinite)
    {s : Segment} (hs : s ∈ bandSegments entry t now) {τ : ℚ}
    (hstart : s.start.value ≤ τ) (hstop : τ < s.stop.value) :
    (s.state = .ccaBusy ∧ ∃ e ∈ entry, e.busyStart.value ≤ τ ∧ τ < e.busyEnd.value) ∨
      (s.state = .idle ∧ ∀ e ∈ entry, τ < e.busyStart.value ∨ e.busyEnd.value ≤ τ) := by
  rcases busy_or_clear entry t now with ⟨e, rfl, hend, hbegin⟩ | hclear
  · obtain ⟨b, c, heq, -, -, hbv, hcv⟩ := bandSegments_busy (he e rfl) ht hnow hend hbegin
    rw [heq] at hs
    have hfirst : b.value = t.value ∨ b.value = e.busyStart.value := hbv ▸ max_choice _ _
    have hlast : c.value = e.busyEnd.value ∨ c.value = now.value := hcv ▸ min_choice _ _
    rcases List.mem_cons.1 hs with rfl | hs
    · refine Or.inr ⟨rfl, fun e' he' => Or.inl ?_⟩
      obtain rfl := Option.mem_some_iff.1 he'
      dsimp only at hstart hstop
      rcases hfirst with h | h <;> rw [h] at hstop
      · exact absurd hstart (not_le.2 hstop)
      · exact hstop
    rcases List.mem_cons.1 hs with rfl | hs
    · dsimp only at hstart hstop
      rw [hbv] at hstart
      rw [hcv] at hstop
      exact Or.inl ⟨rfl, e, rfl, (le_max_right _ _).trans hstart, hstop.trans_le (min_le_left _ _)⟩
    · obtain rfl := List.mem_singleton.1 hs
      refine Or.inr ⟨rfl, fun e' he' => Or.inr ?_⟩
      obtain rfl := Option.mem_some_iff.1 he'
      dsimp only at hstart hstop
      rcases hlast with h | h <;> rw [h] at hstart
      · exact hstart
      · exact absurd hstart (not_le.2 hstop)
  · rw [bandSegments_clear he ht hnow hclear] at hs
    obtain rfl := List.mem_singleton.1 hs
    refine Or.inr ⟨rfl, fun e he' => ?_⟩
    rcases hclear e he' with h | h
    · exact Or.inr (h.trans hstart)
    · exact Or.inl (hstop.trans_le h)

end Report

end RadioOccupancy
