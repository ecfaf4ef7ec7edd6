import RadioOccupancy.Proofs.Order
import RadioOccupancy.Proofs.Segments
import RadioOccupancy.Radio.BandState

/-!
The radio's own activities, reported turn by turn.

    switching        |------|
    tx           |--------------|
    rx        |-------------------------|
                     t      t'  t''  now
    turns            |switch|-tx|-rx-|

In each turn all activities are looked through from the one that masks the others, and the first that is
running is reported until it ends, or until now; the next turn begins there. An activity that has been
reported is over by the next turn, so each has one turn at most, and the turns come to an end however the
activities lie (`turns_iff`).

If all activities have begun, each instant of the turns shows the first that has not ended (`Turns.state`),
those that mask others come first (`Turns.sublist`), and the turns end now or where the last activity does
(`Turns.end_eq`). Numbers are only compared here, so no end needs to be finite; `Runs` is about values, and
all its ends are.
-/

namespace RadioOccupancy

theorem Interval.isRunning_iff_lt {i : Interval} {t : Number} (h : i.start ≤ t) :
    i.isRunning t ↔ t < i.stop := by
  rw [isRunning, Bool.and_eq_true, decide_eq_true_iff, decide_eq_true_iff]
  exact and_iff_left h

theorem Interval.lt_of_isRunning {i : Interval} {t : Number} (h : i.isRunning t) : t < i.stop := by
  rw [isRunning, Bool.and_eq_true, decide_eq_true_iff] at h
  exact h.1

namespace Report

variable {now t u : Number} {activities : List Activity} {s : Segment} {segments : List Segment}

/-- What a turn at `t` reports: the first of all activities that is running, until it ends or until now. -/
def turn? (now : Number) (activities : List Activity) (t : Number) : Option Segment :=
  if t < now then
    (activities.find? (·.interval.isRunning t)).map fun a => ⟨t, a.interval.stop.minimum now, a.state⟩
  else none

/-- The turns from `t` on report segments and come to an end at `u`. -/
inductive Turns (now : Number) (activities : List Activity) : Number → List Segment → Number → Prop
  /-- now is reached, or nothing is running -/
  | ends {t : Number} (h : turn? now activities t = none) : Turns now activities t [] t
  /-- a segment is reported, and the next turn begins where it ends -/
  | turns {t u : Number} {s : Segment} {rest : List Segment} (h : turn? now activities t = some s)
      (hrest : Turns now activities s.stop rest u) : Turns now activities t (s :: rest) u

/-! ### One turn -/

theorem turn?_now : turn? now activities now = none :=
  if_neg (Number.lt_irrefl now)

theorem turn?_of_find? {a : Activity} (hlt : t < now)
    (ha : activities.find? (·.interval.isRunning t) = some a) :
    turn? now activities t = some ⟨t, a.interval.stop.minimum now, a.state⟩ := by
  rw [turn?, if_pos hlt, ha, Option.map_some]

/-- The segment is the turn of an activity at `t`: it takes some time, and goes on until the activity ends or
until now. -/
structure IsTurnOf (a : Activity) (now t : Number) (s : Segment) : Prop where
  running : a.interval.isRunning t
  state : s.state = a.state
  start : s.start = t
  lt : t < s.stop
  le_now : s.stop ≤ now
  le_stop : s.stop ≤ a.interval.stop
  stop : s.stop = a.interval.stop ∨ s.stop = now

theorem isTurnOf {a : Activity} (hlt : t < now) (hrun : a.interval.isRunning t) :
    IsTurnOf a now t ⟨t, a.interval.stop.minimum now, a.state⟩ := by
  have ha := Interval.lt_of_isRunning hrun
  have hstop := (Number.lt_iff_rank.1 ha).2.1
  have hnow := (Number.lt_iff_rank.1 hlt).2.1
  rcases Number.minimum_cases hstop hnow with ⟨heq, hle⟩ | ⟨heq, hle⟩ <;> rw [heq]
  · exact ⟨hrun, rfl, rfl, ha, hle, Number.le_refl_of_not_isNaN hstop, Or.inl rfl⟩
  · exact ⟨hrun, rfl, rfl, hlt, Number.le_refl_of_not_isNaN hnow, hle, Or.inr rfl⟩

/-- The first activity that is running has the turn. -/
theorem exists_isTurnOf (h : turn? now activities t = some s) :
    ∃ before a after, activities = before ++ a :: after ∧ (∀ b ∈ before, ¬b.interval.isRunning t) ∧
      IsTurnOf a now t s := by
  rw [turn?] at h
  split at h
  · next hlt =>
    obtain ⟨a, ha, rfl⟩ := Option.map_eq_some_iff.1 h
    obtain ⟨hrun, before, after, rfl, hbefore⟩ := List.find?_eq_some_iff_append.1 ha
    exact ⟨before, a, after, rfl, by simpa using hbefore, isTurnOf hlt hrun⟩
  · cases h

/-- An activity is over where its turn has come to an end before now. -/
theorem IsTurnOf.not_lt {a : Activity} (h : IsTurnOf a now t s) {v : Number} (hv : s.stop ≤ v)
    (hnow : v < now) : ¬v < a.interval.stop := by
  intro hlt
  rcases h.stop with heq | heq <;> rw [heq] at hv
  · exact Number.not_le_of_lt hlt hv
  · exact Number.not_le_of_lt hnow hv

/-- Activities that are over have no turn. -/
theorem turn?_append {ended pending : List Activity} (hended : ∀ b ∈ ended, ¬t < b.interval.stop) :
    turn? now (ended ++ pending) t = turn? now pending t := by
  have hnone : ended.find? (·.interval.isRunning t) = none :=
    List.find?_eq_none.2 fun b hb hrun => hended b hb (Interval.lt_of_isRunning hrun)
  rw [turn?, turn?, List.find?_append, hnone, Option.none_or]

theorem turn?_eq_none (hlt : t < now) (h : turn? now activities t = none) :
    ∀ a ∈ activities, ¬a.interval.isRunning t := by
  rw [turn?, if_pos hlt, Option.map_eq_none_iff, List.find?_eq_none] at h
  exact h

/-! ### The turns that activities lead to -/

theorem find?_of_firstRunning? {pending others : List Activity} {a : Activity}
    (h : firstRunning? t pending = some (a, others)) : pending.find? (·.interval.isRunning t) = some a := by
  obtain ⟨before, after, rfl, -, hrun, hbefore⟩ := firstRunning?_some h
  exact List.find?_eq_some_iff_append.2 ⟨hrun, before, after, rfl, by simpa using hbefore⟩

/-- The segments of activities are those of the turns. An activity that has been reported is over in all turns
that follow, so it need not be looked at again. -/
theorem turns_ownSegments_of_find? (pending : List Activity) (t : Number)
    (hsame : ∀ v, t ≤ v → v < now →
      activities.find? (·.interval.isRunning v) = pending.find? (·.interval.isRunning v)) :
    Turns now activities t (ownSegments now pending t) (reach t (ownSegments now pending t)) := by
  fun_induction ownSegments now pending t with
  | case1 pending t hlt a others hfirst stop ih =>
    have htt := Number.le_refl_of_not_isNaN (Number.lt_iff_rank.1 hlt).1
    have hfind := find?_of_firstRunning? hfirst
    obtain ⟨before, after, rfl, rfl, hrun, -⟩ := firstRunning?_some hfirst
    have hturn := isTurnOf hlt hrun
    rw [reach_cons]
    refine .turns (turn?_of_find? hlt ((hsame t htt hlt).trans hfind)) (ih fun v hv hvnow => ?_)
    have ha : a.interval.isRunning v = false :=
      Bool.eq_false_iff.2 fun hrun => hturn.not_lt hv hvnow (Interval.lt_of_isRunning hrun)
    rw [hsame v (Number.le_trans (Number.le_of_lt hturn.lt) hv) hvnow, List.find?_append, List.find?_append,
      List.find?_cons, ha]
  | case2 pending t hlt hfirst =>
    have htt := Number.le_refl_of_not_isNaN (Number.lt_iff_rank.1 hlt).1
    refine .ends ?_
    rw [turn?, if_pos hlt, hsame t htt hlt, List.find?_eq_none.2 (firstRunning?_none hfirst), Option.map_none]
  | case3 pending t hlt => exact .ends (if_neg hlt)

theorem Turns.unique {others : List Segment} {v : Number} (h : Turns now activities t segments u)
    (h' : Turns now activities t others v) : others = segments ∧ v = u := by
  induction h generalizing others v with
  | ends h =>
    cases h' with
    | ends => exact ⟨rfl, rfl⟩
    | turns hs => simp [h] at hs
  | turns h hrest ih =>
    cases h' with
    | ends hn => simp [h] at hn
    | turns hs hrest' =>
      obtain rfl := Option.some.inj (h.symm.trans hs)
      obtain ⟨rfl, rfl⟩ := ih hrest'
      exact ⟨rfl, rfl⟩

/-- However activities lie, their turns come to an end, and they report the segments of the activities. -/
theorem turns_iff : Turns now activities t segments u ↔
    segments = ownSegments now activities t ∧ u = reach t (ownSegments now activities t) := by
  have h : Turns now activities t _ _ := turns_ownSegments_of_find? activities t fun _ _ _ => rfl
  exact ⟨fun h' => h.unique h', by rintro ⟨rfl, rfl⟩; exact h⟩

/-- Each activity has one turn at most. -/
theorem length_ownSegments_le (now : Number) (pending : List Activity) (t : Number) :
    (ownSegments now pending t).length ≤ pending.length := by
  fun_induction ownSegments now pending t with
  | case1 pending t hlt a others hfirst stop ih => exact ih.trans_lt (length_of_firstRunning? hfirst)
  | case2 => exact Nat.zero_le _
  | case3 => exact Nat.zero_le _

/-! ### What the turns report -/

/-- Segments follow each other without a gap from one instant to another, and time passes in each. -/
def Joined : Number → List Segment → Number → Prop
  | t, [], u => t = u
  | t, s :: rest, u => s.start = t ∧ s.start < s.stop ∧ Joined s.stop rest u

namespace Turns

theorem joined (h : Turns now activities t segments u) : Joined t segments u := by
  induction h with
  | ends => rfl
  | turns h hrest ih =>
    obtain ⟨_, _, _, -, -, hturn⟩ := exists_isTurnOf h
    exact ⟨hturn.start, hturn.start ▸ hturn.lt, ih⟩

theorem last (h : Turns now activities t segments u) : turn? now activities u = none := by
  induction h with
  | ends h => exact h
  | turns h hrest ih => exact ih

/-- From now on there are no turns. -/
theorem eq_nil (h : Turns now activities now segments u) : segments = [] := by
  cases h with
  | ends => rfl
  | turns h => simp [turn?_now] at h

theorem le_now (h : Turns now activities t segments u) (ht : t ≤ now) : u ≤ now := by
  induction h with
  | ends => exact ht
  | turns h hrest ih =>
    obtain ⟨_, _, _, -, -, hturn⟩ := exists_isTurnOf h
    exact ih hturn.le_now

theorem le_end (h : Turns now activities t segments u) (ht : t.isNaN = false) : t ≤ u := by
  induction h with
  | ends => exact Number.le_refl_of_not_isNaN ht
  | turns h hrest ih =>
    obtain ⟨_, _, _, -, -, hturn⟩ := exists_isTurnOf h
    exact Number.le_trans (Number.le_of_lt hturn.lt) (ih (Number.lt_iff_rank.1 hturn.lt).2.1)

/-- The turns do not go beyond what is neither before their beginning nor before the end of an activity. -/
theorem end_le {m : Number} (h : Turns now activities t segments u) (ht : t ≤ m)
    (hm : ∀ a ∈ activities, a.interval.stop.isNaN = false → a.interval.stop ≤ m) : u ≤ m := by
  induction h with
  | ends => exact ht
  | turns h hrest ih =>
    obtain ⟨before, a, after, rfl, -, hturn⟩ := exists_isTurnOf h
    exact ih (Number.le_trans hturn.le_stop (hm a (by simp) (Number.le_iff_rank.1 hturn.le_stop).2.1))

/-- Where the turns end before now, all activities that had begun have ended. -/
theorem ended (h : Turns now activities t segments u) (hbegun : ∀ a ∈ activities, a.interval.start ≤ t)
    (hu : u < now) : ∀ a ∈ activities, ¬u < a.interval.stop := by
  intro a ha hlt
  have hstart := hbegun a ha
  have htu := h.le_end (Number.le_iff_rank.1 hstart).2.1
  exact turn?_eq_none hu h.last a ha ((Interval.isRunning_iff_lt (Number.le_trans hstart htu)).2 hlt)

/-- At each instant of a segment, its state is that of the first activity that has not ended. -/
theorem state (h : Turns now activities t segments u) (hbegun : ∀ a ∈ activities, a.interval.start ≤ t)
    (hs : s ∈ segments) {τ : Number} (hstart : s.start ≤ τ) (hstop : τ < s.stop) :
    (activities.find? fun a => τ < a.interval.stop).map Activity.state = some s.state := by
  induction h with
  | ends => simp at hs
  | @turns t u s' rest h hrest ih =>
    obtain ⟨before, a, after, rfl, hbefore, hturn⟩ := exists_isTurnOf h
    rcases List.mem_cons.1 hs with rfl | hs
    · have hnone : before.find? (fun a => τ < a.interval.stop) = none := by
        refine List.find?_eq_none.2 fun b hb hτ => hbefore b hb ?_
        rw [Interval.isRunning_iff_lt (hbegun b (by simp [hb]))]
        exact Number.lt_of_le_of_lt (hturn.start ▸ hstart) (of_decide_eq_true hτ)
      have ha : τ < a.interval.stop := Number.lt_of_lt_of_le hstop hturn.le_stop
      simp [List.find?_append, hnone, ha, hturn.state]
    · exact ih (fun b hb => Number.le_trans (hbegun b hb) (Number.le_of_lt hturn.lt)) hs

/-- The states that are reported are those of the activities that have not ended, in their order and each once
at most. -/
theorem sublist_of_ended {ended pending : List Activity} (h : Turns now activities t segments u)
    (heq : activities = ended ++ pending) (hended : ∀ b ∈ ended, ¬t < b.interval.stop)
    (hbegun : ∀ a ∈ pending, a.interval.start ≤ t) :
    (segments.map Segment.state).Sublist (pending.map Activity.state) := by
  induction h generalizing ended pending with
  | ends => exact List.nil_sublist _
  | @turns t u s rest h hrest ih =>
    subst heq
    rw [turn?_append hended] at h
    obtain ⟨before, a, after, rfl, hbefore, hturn⟩ := exists_isTurnOf h
    have hended : ∀ b ∈ ended ++ before, ¬t < b.interval.stop := by
      refine List.forall_mem_append.2 ⟨hended, fun b hb hlt => hbefore b hb ?_⟩
      exact (Interval.isRunning_iff_lt (hbegun b (by simp [hb]))).2 hlt
    rw [List.map_cons, List.map_append, List.map_cons, hturn.state]
    refine List.sublist_append_of_sublist_right (List.Sublist.cons_cons _ ?_)
    rcases hturn.stop with heq | heq
    · -- all activities up to `a` are over when its turn ends
      refine ih (show ended ++ (before ++ a :: after) =
        ended ++ before ++ [a] ++ after by simp) ?_ fun b hb =>
        Number.le_trans (hbegun b (by simp [hb])) (Number.le_of_lt hturn.lt)
      rw [List.forall_mem_append, List.forall_mem_singleton, heq]
      exact ⟨fun b hb hlt => hended b hb (Number.lt_of_le_of_lt (heq ▸ Number.le_of_lt hturn.lt) hlt),
        Number.lt_irrefl _⟩
    · rw [heq] at hrest
      rw [hrest.eq_nil]
      exact List.nil_sublist _

theorem sublist (h : Turns now activities t segments u) (hbegun : ∀ a ∈ activities, a.interval.start ≤ t) :
    (segments.map Segment.state).Sublist (activities.map Activity.state) :=
  h.sublist_of_ended (List.nil_append activities).symm (by simp) hbegun

end Turns

/-- Each instant between the two ends lies in a segment. -/
theorem Joined.exists_mem (h : Joined t segments u) {τ : Number} (hstart : t ≤ τ) (hstop : τ < u) :
    ∃ s ∈ segments, s.start ≤ τ ∧ τ < s.stop := by
  induction segments generalizing t with
  | nil =>
    obtain rfl : t = u := h
    exact absurd hstart (Number.not_le_of_lt hstop)
  | cons s rest ih =>
    obtain ⟨rfl, hlt, hrest⟩ := h
    by_cases hs : τ < s.stop
    · exact ⟨s, List.mem_cons_self, hstart, hs⟩
    · have hle := Number.le_of_not_lt (Number.lt_iff_rank.1 hlt).2.1 (Number.lt_iff_rank.1 hstop).1 hs
      obtain ⟨s', hs', hcovers⟩ := ih hrest hle
      exact ⟨s', List.mem_cons_of_mem _ hs', hcovers⟩

end Report

/-! ### The turns of a radio -/

namespace Record

theorem mem_ends {r : Record} {e : Number} : e ∈ r.ends ↔ ∃ a ∈ r.activities, a.interval.stop = e := by
  rw [show r.ends = r.activities.map (·.interval.stop) from rfl, List.mem_map]

/-- All of the radio's own activities have begun by the instant. -/
def HasBegun (r : Record) (t : Number) : Prop :=
  ∀ a ∈ r.activities, a.interval.start ≤ t

/-- The latest of an instant and the ends of the radio's own activities. An end that is undefined does not
count. -/
def ownEnd (r : Record) (t : Number) : Number :=
  (r.ends.filter fun e => !e.isNaN).foldl Number.maximum t

theorem ownEnd_of_defined {r : Record} (h : ∀ e ∈ r.ends, e.isNaN = false) (t : Number) :
    r.ownEnd t = ((t.maximum r.switching.stop).maximum r.tx.stop).maximum r.rx.stop := by
  rw [ownEnd, List.filter_eq_self.2 (by simpa using h)]
  rfl

end Record

namespace Report

/-- Segments are all that the radio did by itself from `t` up to now, where all its own activities have begun
by `t`. Where they end is said in numbers, for which the sign of a zero does not count. -/
structure Complete (r : Record) (now t : Number) (segments : List Segment) (u : Number) : Prop where
  /-- there is no gap -/
  joined : Joined t segments u
  covered : ∀ τ, t ≤ τ → τ < u → ∃ s ∈ segments, s.start ≤ τ ∧ τ < s.stop
  /-- activities that mask others come first, and none comes twice -/
  inOrder : (segments.map Segment.state).Sublist [.switching, .tx, .rx]
  state : ∀ s ∈ segments, ∀ τ, s.start ≤ τ → τ < s.stop → r.activity? τ = some s.state
  /-- the segments reach now, or the end of the last activity if that is earlier -/
  reaches : u == now.minimum (r.ownEnd t)
  reaches_of_defined : (∀ e ∈ r.ends, e.isNaN = false) →
    u == now.minimum (((t.maximum r.switching.stop).maximum r.tx.stop).maximum r.rx.stop)

namespace Turns

variable {r : Record}

/-- The turns end now, or where the last activity does. -/
theorem end_eq (h : Turns now r.activities t segments u) (ht : t ≤ now) (hbegun : r.HasBegun t) :
    u == now.minimum (r.ownEnd t) := by
  have htt := (Number.le_iff_rank.1 ht).1
  have hnow := (Number.le_iff_rank.1 ht).2.1
  obtain ⟨hstart, hends⟩ := Number.le_foldl_maximum (l := r.ends.filter fun e => !e.isNaN) htt (by simp)
  have hend : (r.ownEnd t).isNaN = false := (Number.le_iff_rank.1 hstart).2.1
  have hu := h.le_now ht
  have htu := h.le_end htt
  refine Number.beq_of_le_of_le (Number.le_minimum hu (h.end_le hstart fun a ha hdef => ?_)) ?_
  · exact hends _ (List.mem_filter.2 ⟨Record.mem_ends.2 ⟨a, ha, rfl⟩, by simpa using hdef⟩)
  · by_cases hlt : u < now
    · refine Number.le_trans (Number.minimum_le_right hnow hend) (Number.foldl_maximum_le htu fun e he => ?_)
      obtain ⟨hmem, hdef⟩ := List.mem_filter.1 he
      obtain ⟨a, ha, rfl⟩ := Record.mem_ends.1 hmem
      exact Number.le_of_not_lt (by simpa using hdef) (Number.lt_iff_rank.1 hlt).1 (h.ended hbegun hlt a ha)
    · exact Number.le_trans (Number.minimum_le_left hnow hend)
        (Number.le_of_not_lt hnow (Number.le_iff_rank.1 hu).1 hlt)

theorem complete (h : Turns now r.activities t segments u) (ht : t ≤ now) (hbegun : r.HasBegun t) :
    Complete r now t segments u where
  joined := h.joined
  covered _ := h.joined.exists_mem
  inOrder := h.sublist hbegun
  state _ hs _ := h.state hbegun hs
  reaches := h.end_eq ht hbegun
  reaches_of_defined hdef := r.ownEnd_of_defined hdef t ▸ h.end_eq ht hbegun

end Turns

end Report

end RadioOccupancy
