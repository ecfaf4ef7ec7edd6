import RadioOccupancy.Proofs.Ledger

/-!
What attempts have told, and where they leave the cursor.

    cursor |-- settled --|-- pending --|
                         ^ cursor after the attempt

An attempt begins to tell of some of the segments of its transition, and of those all subscribers have been
told but for the last. They follow each other from the cursor that the attempt finds, and the cursor that it
leaves is where one of them ends (`Attempt.IsPart.toldIn_eq`). So attempts in turn tell of time in its order,
but for what is pending when one of them is broken off (`Trials.told_from`).
-/

namespace RadioOccupancy

namespace Attempt
open Report

/-- The segments that the attempt has begun to tell of in some of its steps. -/
def toldIn (a : Attempt) (steps : List Step) : List Segment :=
  (timed (a.transition.segments a.tracker.config a.tracker.core)).take (stateChangesOf steps).length

/-- The segments that all subscribers have been told of. -/
def told (a : Attempt) : List Segment :=
  a.toldIn a.done

/-- The segments that some subscriber may have been told of. -/
def begunToTell (a : Attempt) : List Segment :=
  a.toldIn a.begun

variable {a : Attempt}

/-- What an attempt has told of reaches up to the cursor and goes on from there. -/
theorem IsPart.toldIn_eq (ha : a.IsPart) (h : a.tracker.core.Coherent) (hd : a.tracker.core.Dated)
    {steps : List Step} (hpre : steps <+: a.begun) :
    ∃ settled pending, a.toldIn steps = settled ++ pending ∧
      stateChangesOf steps = (settled ++ pending).map Segment.told ∧
      Follow a.tracker.core.cursor.value settled
        (RadioOccupancy.coreAfter steps a.tracker.core).cursor.value ∧
      ∃ b, Follow (RadioOccupancy.coreAfter steps a.tracker.core).cursor.value pending b := by
  have hpre : deedsOf steps <+: deedsOf a.begun := hpre.filter _
  rw [Attempt.toldIn, ← stateChangesOf_deedsOf, ← coreAfter_deedsOf]
  rcases ha.deeds with hnil | ⟨-, hp, hds⟩
  · rw [hnil] at hpre
    rw [List.prefix_nil.1 hpre]
    exact ⟨[], [], rfl, rfl, rfl, _, rfl⟩
  · obtain ⟨settled, pending, hl⟩ := Transition.ledger hp h hd (hpre.trans hds)
    have htake := List.prefix_iff_eq_take.1 hl.inOrder
    rw [← List.length_map Segment.told, ← hl.told] at htake
    exact ⟨settled, pending, htake.symm, hl.told, hl.reaches, hl.goesOn⟩

/-- Time passes in each segment that is told. -/
theorem lt_of_mem_toldIn (ha : a.IsPart) (h : a.tracker.core.Coherent) (hd : a.tracker.core.Dated)
    {steps : List Step} (hpre : steps <+: a.begun) {s : Segment} (hs : s ∈ a.toldIn steps) :
    s.start.isFinite ∧ s.stop.isFinite ∧ a.tracker.core.cursor.value ≤ s.start.value ∧
      s.start.value < s.stop.value := by
  obtain ⟨settled, pending, htold, -, hsettled, b, hpending⟩ := ha.toldIn_eq h hd hpre
  have hempty : s.isEmpty = false := by
    simpa using (List.mem_filter.1 (List.mem_of_mem_take hs)).2
  rw [htold] at hs
  obtain ⟨hstart, hstop, hle, -⟩ := (hsettled.append hpending).mem hs
  rw [Segment.isEmpty, decide_eq_false_iff_not, Number.le_iff hstop hstart, not_le] at hempty
  exact ⟨hstart, hstop, hle, hempty⟩

/-- Who has not begun to tell of anything has told of nothing. -/
theorem told_of_begunToTell (h : a.begunToTell = []) : a.told = [] := by
  have hle : (stateChangesOf a.done).length ≤ (stateChangesOf a.begun).length := by
    rw [begun, stateChangesOf_append, List.length_append]
    exact Nat.le_add_right _ _
  rw [begunToTell, toldIn] at h
  rw [told, toldIn, ← min_eq_left hle, ← List.take_take, h, List.take_nil]

/-- What a tracker remembers is coherent and dated after an attempt if it was before. -/
theorem IsPart.ordered (ha : a.IsPart) (h : a.tracker.core.Coherent ∧ a.tracker.core.Dated) :
    a.coreAfter.Coherent ∧ a.coreAfter.Dated :=
  ha.holds (P := fun core => core.Coherent ∧ core.Dated) h
    (fun hp => (h.1.throughout_deeds hp).and (Transition.dated_throughout hp h.2)) (List.prefix_append _ _)

/-- The cursor is not moved back. -/
theorem IsPart.cursor_le (ha : a.IsPart) (h : a.tracker.core.Coherent) (hd : a.tracker.core.Dated) :
    a.tracker.core.cursor.value ≤ a.coreAfter.cursor.value := by
  obtain ⟨settled, pending, -, -, hsettled, -⟩ := ha.toldIn_eq h hd (List.prefix_append a.done _)
  exact hsettled.le

end Attempt

/-! ### Attempts in turn -/

namespace Trials

variable {config : Config} {start core : Core} {attempts : List Attempt}

/-- What a tracker remembers stays coherent and dated. -/
theorem ordered (h : Trials config start attempts core) (hstart : start.Coherent ∧ start.Dated) :
    (core.Coherent ∧ core.Dated) ∧
      ∀ a ∈ attempts, a.tracker.core.Coherent ∧ a.tracker.core.Dated := by
  obtain ⟨hend, hall⟩ := h.kept (P := fun core => core.Coherent ∧ core.Dated) hstart
    fun core x h hp => (h.1.throughout_deeds hp).and (Transition.dated_throughout hp h.2)
  exact ⟨hend, fun a ha => hall a ha [] List.nil_prefix⟩

/-- Each attempt is one part of a plan. -/
theorem isPart (h : Trials config start attempts core) : ∀ a ∈ attempts, a.IsPart := by
  induction h with
  | nil => simp
  | snoc h hconfig hpart ih =>
    rw [List.forall_mem_append, List.forall_mem_singleton]
    exact ⟨ih, hpart⟩

/-- Nothing is told of the time before the cursor at the beginning, and the first segment of which an attempt
begins to tell begins there. -/
theorem told_from (h : Trials config start attempts core) (hstart : start.Coherent ∧ start.Dated) :
    start.cursor.value ≤ core.cursor.value ∧
      (∀ b ∈ attempts, ∀ u ∈ b.begunToTell, start.cursor.value ≤ u.start.value) ∧
      ((∃ b ∈ attempts, b.begunToTell ≠ []) →
        ∃ b ∈ attempts, ∃ u ∈ b.begunToTell, u.start.value = start.cursor.value) := by
  induction attempts generalizing start with
  | nil =>
    rw [h.of_nil]
    exact ⟨le_rfl, by simp, by simp⟩
  | cons a rest ih =>
    obtain ⟨rfl, -, ha, hrest⟩ := h.of_cons
    obtain ⟨hc, hd⟩ := hstart
    obtain ⟨hle, hmem, hfirst⟩ := ih hrest (ha.ordered ⟨hc, hd⟩)
    obtain ⟨settled, pending, htold, -, hsettled, -⟩ := ha.toldIn_eq hc hd (List.prefix_append a.done _)
    have hcursor : a.tracker.core.cursor.value ≤ a.coreAfter.cursor.value := hsettled.le
    refine ⟨hcursor.trans hle, ?_, ?_⟩
    · rw [List.forall_mem_cons]
      exact ⟨fun u hu => (Attempt.lt_of_mem_toldIn ha hc hd List.prefix_rfl hu).2.2.1,
        fun b hb u hu => hcursor.trans (hmem b hb u hu)⟩
    · rintro ⟨b, hb, hne⟩
      by_cases hnone : a.begunToTell = []
      · -- it has told nothing either, so it leaves the cursor where it was
        have hnil := htold.symm.trans (Attempt.told_of_begunToTell hnone)
        obtain ⟨rfl, -⟩ := List.append_eq_nil_iff.1 hnil
        have hsame : a.tracker.core.cursor.value = a.coreAfter.cursor.value := hsettled
        have hb : b ∈ rest := (List.mem_cons.1 hb).resolve_left fun heq => hne (heq ▸ hnone)
        rw [hsame]
        obtain ⟨b, hb, u, hu⟩ := hfirst ⟨b, hb, hne⟩
        exact ⟨b, List.mem_cons_of_mem _ hb, u, hu⟩
      · obtain ⟨settled', pending', htold', -, hsettled', c, hpending'⟩ := ha.toldIn_eq hc hd List.prefix_rfl
        have hfollow := hsettled'.append hpending'
        rw [← htold'] at hfollow
        obtain ⟨u, hu, hstart, -⟩ := hfollow.begins hnone
          fun s hs => (Attempt.lt_of_mem_toldIn ha hc hd List.prefix_rfl hs).2.2.2
        exact ⟨a, List.mem_cons_self, u, hu, hstart⟩

end Trials

end RadioOccupancy
