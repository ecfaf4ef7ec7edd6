import RadioOccupancy.Proofs.Exact
import RadioOccupancy.Proofs.Trace
import RadioOccupancy.Statistics

/-!
What totals come to, event by event.

    events:   idle 30    tx     tx    busy 5    idle 10   rxOk
    time:     idle 30                 busy 5    idle 40
    sent:                1      2
    received:                                             1

Every total is a sum over the events of one kind, in their order. Times are added as binary64 numbers, so they
are those of the exact sums only where these can be written: `ExactSums` is what is asked of the state
changes. The exact times are additive over disjoint sets of states (`timeIn_or`), and this is what makes the
times per state add up to the total (`Statistics.sum_states`) and what is left without the idle ones a share
of it (`Statistics.occupancy_eq`).
-/

namespace RadioOccupancy

/-- The state change that an event tells of, with its start and its duration. -/
def TraceEvent.stateChange? : TraceEvent → Option (Number × Number × Radio.State)
  | .stateChange start duration state => some (start, duration, state)
  | .tx .. | .rxOk .. | .rxError .. => none

/-- How long the radio was in some of the states, state change by state change. -/
def durationsIn (p : Radio.State → Bool) (changes : List (Number × Number × Radio.State)) : List Number :=
  (changes.filter fun c => p c.2.2).map fun c => c.2.1

/-- How long it was in some of the states altogether. -/
def timeIn (p : Radio.State → Bool) (changes : List (Number × Number × Radio.State)) : ℚ :=
  ((durationsIn p changes).map Number.value).sum

/-- Whichever states are asked about, the time in them is added up exactly. -/
def ExactSums (changes : List (Number × Number × Radio.State)) : Prop :=
  ∀ states ∈ Radio.State.all.sublists,
    ((durationsIn (· ∈ states) changes).foldl (· + ·) 0).isFinite ∧
      ((durationsIn (· ∈ states) changes).foldl (· + ·) 0).value = timeIn (· ∈ states) changes

/-! ### The time in some of the states -/

section Times

variable {changes : List (Number × Number × Radio.State)} {p q : Radio.State → Bool} {a b : ℚ}

theorem timeIn_cons (p : Radio.State → Bool) (start duration : Number) (state : Radio.State)
    (changes : List (Number × Number × Radio.State)) :
    timeIn p ((start, duration, state) :: changes) =
      (if p state then duration.value else 0) + timeIn p changes := by
  rw [timeIn, timeIn, durationsIn, durationsIn, List.filter_cons]
  dsimp only
  split
  · rfl
  · exact (zero_add _).symm

/-- The times in disjoint sets of states add up. -/
theorem timeIn_or (h : ∀ s, p s = true → q s = false) (changes : List (Number × Number × Radio.State)) :
    timeIn (fun s => p s || q s) changes = timeIn p changes + timeIn q changes := by
  induction changes with
  | nil => exact (add_zero 0).symm
  | cons c rest ih =>
    obtain ⟨start, duration, state⟩ := c
    rw [timeIn_cons, timeIn_cons, timeIn_cons, ih]
    cases hp : p state with
    | true => simp [h state hp, add_assoc]
    | false => cases q state <;> simp [add_left_comm]

/-- The sum is exact for any set of states. -/
theorem ExactSums.sum (h : ExactSums changes) (p : Radio.State → Bool) :
    ((durationsIn p changes).foldl (· + ·) 0).isFinite ∧
      ((durationsIn p changes).foldl (· + ·) 0).value = timeIn p changes := by
  have hall : ∀ s, s ∈ Radio.State.all := by
    intro s
    cases s <;> decide
  have hp : (fun s => decide (s ∈ Radio.State.all.filter p)) = p := by
    funext s
    simp [List.mem_filter, hall s]
  rw [← hp]
  exact h _ (List.mem_sublists.2 List.filter_sublist)

theorem Tiles.timeIn_nonneg (h : Tiles a changes b) (p : Radio.State → Bool) : 0 ≤ timeIn p changes := by
  induction changes generalizing a with
  | nil => exact le_rfl
  | cons c rest ih =>
    obtain ⟨start, duration, state⟩ := c
    obtain ⟨-, -, -, hpos, h⟩ := h
    rw [timeIn_cons]
    refine add_nonneg ?_ (ih h)
    split
    · exact hpos.le
    · exact le_rfl

/-- In all states together the radio was for the time that the state changes tile. -/
theorem Tiles.timeIn_eq (h : Tiles a changes b) : timeIn (fun _ => true) changes = b - a := by
  induction changes generalizing a with
  | nil => exact (sub_eq_zero.2 (show a = b from h).symm).symm
  | cons c rest ih =>
    obtain ⟨start, duration, state⟩ := c
    obtain ⟨-, -, -, -, h⟩ := h
    rw [timeIn_cons, ih h, if_pos rfl]
    ring

theorem Tiles.lt (h : Tiles a changes b) (hne : changes ≠ []) : a < b := by
  cases changes with
  | nil => exact absurd rfl hne
  | cons c rest =>
    obtain ⟨start, duration, state⟩ := c
    obtain ⟨-, -, -, hpos, h⟩ := h
    have := h.timeIn_eq
    have := h.timeIn_nonneg fun _ => true
    linarith

end Times

/-- A share is not moved by bringing it into the range of shares. -/
theorem Number.clamp_eq {x : Number} (hfin : x.isFinite) (hlow : 0 ≤ x.value) (hhigh : x.value ≤ 1) :
    ∃ q, clamp x 0 1 = .ok q ∧ q.isFinite ∧ q.value = x.value := by
  have hone : (1 : Number).isFinite ∧ (1 : Number).value = 1 := by
    decide +kernel
  have hmax : (x.maximum 0).isFinite ∧ (x.maximum 0).value = x.value := by
    rcases maximum_eq hfin isFinite_zero with ⟨heq, -⟩ | ⟨heq, hle⟩ <;> rw [heq]
    · exact ⟨hfin, rfl⟩
    · exact ⟨isFinite_zero, value_zero.trans (le_antisymm hlow (value_zero ▸ hle))⟩
  refine ⟨(x.maximum 0).minimum 1, rfl, ?_⟩
  rcases minimum_eq hmax.1 hone.1 with ⟨heq, -⟩ | ⟨heq, hle⟩ <;> rw [heq]
  · exact hmax
  · rw [hone.2, hmax.2] at hle
    exact ⟨hone.1, hone.2.trans (le_antisymm hle hhigh)⟩

namespace Statistics

/-! ### Totals of events -/

section Totals

variable (events : List TraceEvent) (totals : Statistics)

theorem totalTime_foldl : (events.foldl add totals).totalTime =
    (durationsIn (fun _ => true) (events.filterMap TraceEvent.stateChange?)).foldl (· + ·)
      totals.totalTime := by
  induction events generalizing totals with
  | nil => rfl
  | cons e rest ih => cases e <;> exact ih _

theorem timePerState_foldl (p : Radio.State) : (events.foldl add totals).timePerState.get p =
    (durationsIn (· = p) (events.filterMap TraceEvent.stateChange?)).foldl (· + ·)
      (totals.timePerState.get p) := by
  induction events generalizing totals with
  | nil => rfl
  | cons e rest ih =>
    cases e with
    | stateChange start duration state =>
      refine (ih _).trans ?_
      rw [List.filterMap_cons]
      change _ = (durationsIn (· = p) ((start, duration, state) :: _)).foldl _ _
      rw [durationsIn, durationsIn, List.filter_cons, add, PerState.get_modify]
      by_cases h : state = p
      · simp [h]
      · simp [h, Ne.symm h]
    | tx | rxOk | rxError => exact ih _

theorem segmentsPerState_foldl (p : Radio.State) : (events.foldl add totals).segmentsPerState.get p =
    totals.segmentsPerState.get p +
      (events.filterMap TraceEvent.stateChange?).countP fun c => c.2.2 = p := by
  induction events generalizing totals with
  | nil => rfl
  | cons e rest ih =>
    cases e with
    | stateChange start duration state =>
      refine (ih _).trans ?_
      rw [List.filterMap_cons]
      change _ = _ + List.countP _ ((start, duration, state) :: _)
      rw [List.countP_cons, add, PerState.get_modify]
      by_cases h : state = p
      · simp [h]
        omega
      · simp [h, Ne.symm h]
    | tx | rxOk | rxError => exact ih _

/-- Packets are counted. -/
theorem packets_foldl :
    (events.foldl add totals).sent = totals.sent + (events.countP fun e => e.kind = .tx) ∧
      (events.foldl add totals).received = totals.received + (events.countP fun e => e.kind = .rxOk) ∧
      (events.foldl add totals).lost = totals.lost + (events.countP fun e => e.kind = .rxError) := by
  induction events generalizing totals with
  | nil => exact ⟨rfl, rfl, rfl⟩
  | cons e rest ih =>
    obtain ⟨hsent, hreceived, hlost⟩ := ih (totals.add e)
    rw [List.foldl_cons, hsent, hreceived, hlost]
    cases e <;> simp [add, TraceEvent.kind] <;> omega

end Totals

/-! ### Totals that add up -/

/-- The totals of events. -/
def of (events : List TraceEvent) : Statistics :=
  events.foldl add {}

/-- Each state change is counted for one state. -/
theorem sum_segments (events : List TraceEvent) :
    (Radio.State.all.map (of events).segmentsPerState.get).sum =
      (events.filterMap TraceEvent.stateChange?).length := by
  have hcount : ∀ p, (of events).segmentsPerState.get p =
      (events.filterMap TraceEvent.stateChange?).countP fun c => c.2.2 = p := by
    intro p
    have hzero : ({} : Statistics).segmentsPerState.get p = 0 := by
      cases p <;> rfl
    rw [of, segmentsPerState_foldl, hzero, Nat.zero_add]
  rw [List.map_congr_left fun p _ => hcount p]
  induction events.filterMap TraceEvent.stateChange? with
  | nil => rfl
  | cons c rest ih =>
    obtain ⟨start, duration, state⟩ := c
    simp only [Radio.State.all, List.map_cons, List.map_nil, List.sum_cons, List.sum_nil,
      List.countP_cons, List.length_cons] at ih ⊢
    cases state <;> simp <;> omega

section Adding

variable {events : List TraceEvent} {b : ℚ}
  (hexact : ExactSums (events.filterMap TraceEvent.stateChange?))
include hexact

theorem totalTime_eq : (of events).totalTime.isFinite ∧
    (of events).totalTime.value = timeIn (fun _ => true) (events.filterMap TraceEvent.stateChange?) := by
  rw [of, totalTime_foldl]
  exact hexact.sum _

theorem timePerState_eq (p : Radio.State) : ((of events).timePerState.get p).isFinite ∧
    ((of events).timePerState.get p).value =
      timeIn (· = p) (events.filterMap TraceEvent.stateChange?) := by
  have hzero : ({} : Statistics).timePerState.get p = 0 := by
    cases p <;> rfl
  rw [of, timePerState_foldl, hzero]
  exact hexact.sum _

variable (htiles : Tiles 0 (events.filterMap TraceEvent.stateChange?) b)
include htiles

/-- State by state the times are added up exactly. -/
theorem sum_foldl (done rest : List Radio.State) (hnodup : (done ++ rest).Nodup) {sofar : Number}
    (hfin : sofar.isFinite)
    (hsofar : sofar.value = timeIn (· ∈ done) (events.filterMap TraceEvent.stateChange?)) :
    ((rest.map (of events).timePerState.get).foldl (· + ·) sofar).isFinite ∧
      ((rest.map (of events).timePerState.get).foldl (· + ·) sofar).value =
        timeIn (· ∈ done ++ rest) (events.filterMap TraceEvent.stateChange?) := by
  induction rest generalizing done sofar with
  | nil =>
    rw [List.append_nil]
    exact ⟨hfin, hsofar⟩
  | cons p rest ih =>
    have hp : p ∉ done := fun hmem =>
      (List.nodup_append.1 hnodup).2.2 p hmem p List.mem_cons_self rfl
    have hboth : timeIn (· ∈ done ++ [p]) (events.filterMap TraceEvent.stateChange?) =
        timeIn (· ∈ done) (events.filterMap TraceEvent.stateChange?) +
          timeIn (· = p) (events.filterMap TraceEvent.stateChange?) := by
      rw [← timeIn_or]
      · congr 1
        funext s
        simp
      · rintro s hs
        rw [decide_eq_true_iff] at hs
        rw [decide_eq_false_iff_not]
        rintro rfl
        exact hp hs
    obtain ⟨hown, hvalue⟩ := timePerState_eq hexact p
    obtain ⟨hsum, hexactly⟩ := hexact.sum (· ∈ done ++ [p])
    obtain ⟨hfin', hadded⟩ := Number.add_of_value
      (Number.isTime_iff.2 ⟨hfin, hsofar ▸ htiles.timeIn_nonneg _⟩)
      (Number.isTime_iff.2 ⟨hown, hvalue ▸ htiles.timeIn_nonneg _⟩) hsum
      (by rw [hexactly, hboth, hsofar, hvalue])
    have hnodup' : ((done ++ [p]) ++ rest).Nodup := by
      rwa [List.append_assoc]
    have := ih (done ++ [p]) hnodup' hfin' (hadded.trans hexactly)
    rwa [List.append_assoc] at this

/-- The times per state add up to the total. -/
theorem sum_states :
    ((Radio.State.all.map (of events).timePerState.get).foldl (· + ·) 0).isFinite ∧
      ((Radio.State.all.map (of events).timePerState.get).foldl (· + ·) 0).value =
        timeIn (fun _ => true) (events.filterMap TraceEvent.stateChange?) := by
  have hall : (fun s => decide (s ∈ [] ++ Radio.State.all)) = fun _ => true := by
    funext s
    cases s <;> decide
  have hnone : timeIn (· ∈ []) (events.filterMap TraceEvent.stateChange?) = 0 := by
    simp [timeIn, durationsIn]
  have := sum_foldl hexact htiles [] Radio.State.all (by decide) Number.isFinite_zero
    (Number.value_zero.trans hnone.symm)
  rwa [hall] at this

/-- Where something was reported, the occupancy is the share of the time in which the radio was not idle. -/
theorem occupancy_eq (hne : events.filterMap TraceEvent.stateChange? ≠ []) :
    ∃ busy q : Number, busy.isFinite ∧
      busy.value = timeIn (· ≠ .idle) (events.filterMap TraceEvent.stateChange?) ∧
        (of events).occupancy = .ok q ∧ q.isFinite ∧ q.value = (busy / (of events).totalTime).value ∧
          0 ≤ q.value ∧ q.value ≤ 1 := by
  obtain ⟨hfin, htotal⟩ := totalTime_eq hexact
  obtain ⟨hfinIdle, hidle⟩ := timePerState_eq hexact .idle
  obtain ⟨hsum, hexactly⟩ := hexact.sum (· ≠ .idle)
  have hsplit : timeIn (fun _ => true) (events.filterMap TraceEvent.stateChange?) =
      timeIn (· = .idle) (events.filterMap TraceEvent.stateChange?) +
        timeIn (· ≠ .idle) (events.filterMap TraceEvent.stateChange?) := by
    rw [← timeIn_or]
    · congr 1
      funext s
      cases s <;> rfl
    · rintro s hs
      simpa using hs
  have hpos : 0 < (of events).totalTime.value := by
    rw [htotal, htiles.timeIn_eq, sub_zero]
    exact htiles.lt hne
  have hbusy := htiles.timeIn_nonneg (· ≠ .idle)
  have hrest := htiles.timeIn_nonneg (· = .idle)
  obtain ⟨hfinBusy, hvalue⟩ := Number.sub_of_value (a := (of events).totalTime)
    (Number.isTime_iff.2 ⟨hfin, hpos.le⟩) (Number.isTime_iff.2 ⟨hfinIdle, hidle ▸ hrest⟩)
    (by rw [htotal, hidle, hsplit]; linarith) hsum (by rw [hexactly, htotal, hidle, hsplit]; ring)
  rw [hexactly] at hvalue
  obtain ⟨hshare, hlow, hhigh⟩ := Number.div_of_le (Number.isTime_iff.2 ⟨hfinBusy, hvalue ▸ hbusy⟩)
    (Number.isTime_iff.2 ⟨hfin, hpos.le⟩) hpos (by rw [hvalue, htotal, hsplit]; linarith)
  obtain ⟨q, hclamp, hq, hsame⟩ := Number.clamp_eq hshare hlow hhigh
  refine ⟨_, q, hfinBusy, hvalue, ?_, hq, hsame, hsame ▸ hlow, hsame ▸ hhigh⟩
  rw [occupancy, if_neg]
  · exact hclamp
  · rw [Number.beq_iff_compare, Number.compare_unpack hfin Number.isFinite_zero, Option.some.injEq,
      compare_eq_iff_eq, Number.value_zero]
    exact hpos.ne'

end Adding

/-- Where nothing was reported, the occupancy is zero. -/
theorem occupancy_of_nil {events : List TraceEvent}
    (h : events.filterMap TraceEvent.stateChange? = []) : (of events).occupancy = .ok 0 := by
  have hzero : (of events).totalTime = 0 := by
    rw [of, totalTime_foldl, h]
    rfl
  rw [occupancy, hzero]
  rfl

end Statistics

end RadioOccupancy
