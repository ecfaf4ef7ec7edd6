import Mathlib.Data.List.Induction
import RadioOccupancy.Proofs.Session.Frame
import RadioOccupancy.Proofs.Whole

/-!
Which entries a log keeps.

    enabled since the last clearing     e₀  e₁  e₂  e₃  e₄  e₅  e₆
                                        |--------|----------------|
                                         dropped   kept: no more than there is room for

A log is the end of what was enabled when it was logged (`Log.Follows`), and how long it is follows from each
change (`Log.length_apply`). So an entry is kept just if at each moment since it was logged there was room for
it behind those that were newer: what was dropped once does not come back (`Log.lt_length_run_iff`). Requests
to a log of a session make such changes (`Log.logs_performLog`).
-/

namespace RadioOccupancy

namespace Log

/-- What can be done to a log. -/
inductive Change where
  | write (timestamp : Int) (m : Message)
  | setLevel (level : Severity)
  | setCapacity (size : Number)
  | clear

/-- The log after the change. A size that is no capacity changes nothing. -/
def apply (l : Log) : Change → Log
  | .write timestamp m => (l.write timestamp m).2
  | .setLevel level => { l with level }
  | .setCapacity size => (l.setCapacity? size).getD l
  | .clear => l.clear

/-- What changes make of a new log. -/
def run (cs : List Change) : Log :=
  cs.foldl apply {}

/-- All that has been enabled when it was logged. -/
structure History where
  level : Severity := .info
  /-- the entries since the last clearing, oldest first -/
  entries : List Entry := []

/-- The history after the change; it does not know of capacities. -/
def History.add (h : History) : Change → History
  | .write timestamp m =>
    if h.level.rank ≤ m.level.rank then { h with entries := h.entries ++ [⟨m, timestamp⟩] } else h
  | .setLevel level => { h with level }
  | .setCapacity _ => h
  | .clear => { h with entries := [] }

/-- The history that changes make. -/
def historyOf (cs : List Change) : History :=
  cs.foldl History.add {}

/-- Nothing has been cleared since the changes `before`. -/
def Since (before cs : List Change) : Prop :=
  ∃ later, cs = before ++ later ∧ .clear ∉ later

variable {l : Log} {h : History} {c : Change} {cs before : List Change} {size : Number} {n m : Nat}

theorem run_snoc (cs : List Change) (c : Change) : run (cs ++ [c]) = (run cs).apply c :=
  List.foldl_concat ..

theorem historyOf_snoc (cs : List Change) (c : Change) : historyOf (cs ++ [c]) = (historyOf cs).add c :=
  List.foldl_concat ..

theorem since_snoc : Since before (cs ++ [c]) ↔ before = cs ++ [c] ∨ c ≠ .clear ∧ Since before cs := by
  constructor
  · rintro ⟨later, hsplit, hlater⟩
    rcases List.eq_nil_or_concat later with rfl | ⟨rest, last, rfl⟩
    · exact .inl (by rw [hsplit, List.append_nil])
    · rw [List.concat_eq_append, ← List.append_assoc] at hsplit
      obtain ⟨rfl, hlast⟩ := List.append_inj' hsplit rfl
      obtain rfl := List.singleton_inj.1 hlast
      rw [List.concat_eq_append, List.mem_append, not_or, List.mem_singleton] at hlater
      exact .inr ⟨Ne.symm hlater.2, rest, rfl, hlater.1⟩
  · rintro (rfl | ⟨hc, later, rfl, hlater⟩)
    · exact ⟨[], (List.append_nil _).symm, List.not_mem_nil⟩
    · refine ⟨later ++ [c], List.append_assoc .., ?_⟩
      rw [List.mem_append, not_or, List.mem_singleton]
      exact ⟨hlater, hc.symm⟩

/-! ### One change -/

theorem length_trimmed (l : Log) : l.trimmed.entries.length = min l.entries.length l.capacity := by
  rw [trimmed, List.length_drop]
  omega

/-- A capacity is a positive whole number. -/
theorem capacityOf?_eq_some_iff : capacityOf? size = some m ↔ size.Whole m ∧ 1 ≤ m := by
  rw [capacityOf?]
  constructor
  · intro h
    cases hsize : size.toInt? with
    | none =>
      rw [hsize] at h
      cases h
    | some z =>
      rw [hsize] at h
      dsimp only at h
      split_ifs at h with hz
      obtain rfl := Option.some.inj h
      rw [← Int.toNat_of_nonneg (zero_le_one.trans hz)] at hsize
      exact ⟨Number.whole_of_toInt? hsize, by omega⟩
  · rintro ⟨hwhole, hm⟩
    rw [hwhole.toInt?]
    dsimp only
    rw [if_pos (by omega), Int.toNat_natCast]

theorem setCapacity?_of_whole (l : Log) (hwhole : size.Whole m) (hm : 1 ≤ m) :
    l.setCapacity? size = some { l with capacity := m }.trimmed := by
  rw [setCapacity?, capacityOf?_eq_some_iff.2 ⟨hwhole, hm⟩]
  rfl

theorem setCapacity?_of_not_whole (l : Log) (h : ¬∃ m, size.Whole m ∧ 1 ≤ m) :
    l.setCapacity? size = none := by
  rw [setCapacity?, Option.map_eq_none_iff, Option.eq_none_iff_forall_ne_some]
  exact fun m hm => h ⟨m, capacityOf?_eq_some_iff.1 hm⟩

theorem apply_write_of_enabled {msg : Message} (he : l.enabled msg.level) (timestamp : Int) :
    l.apply (.write timestamp msg) = trimmed { l with entries := l.entries ++ [⟨msg, timestamp⟩] } := by
  rw [apply, write, if_pos he]

theorem apply_write_of_not_enabled {msg : Message} (he : ¬l.enabled msg.level) (timestamp : Int) :
    l.apply (.write timestamp msg) = l := by
  rw [apply, write, if_neg he]

/-- The log is the end of a history, and not too long. -/
structure Follows (l : Log) (h : History) : Prop where
  level : l.level = h.level
  suffix : l.entries <:+ h.entries
  length_le : l.entries.length ≤ l.capacity

theorem Follows.enabled_iff (hf : l.Follows h) (level : Severity) :
    l.enabled level ↔ h.level.rank ≤ level.rank := by
  rw [enabled, hf.level, decide_eq_true_iff]

/-- One more change, seen by the log and by the history. -/
theorem Follows.apply (hf : l.Follows h) (c : Change) : (l.apply c).Follows (h.add c) := by
  cases c with
  | write timestamp msg =>
    rw [History.add]
    by_cases he : l.enabled msg.level
    · rw [apply_write_of_enabled he, if_pos ((hf.enabled_iff _).1 he)]
      obtain ⟨dropped, hdropped⟩ := hf.suffix
      refine ⟨hf.level, (List.drop_suffix ..).trans ⟨dropped, ?_⟩, ?_⟩
      · dsimp only
        rw [← hdropped, List.append_assoc]
      · rw [length_trimmed]
        exact min_le_right ..
    · rw [apply_write_of_not_enabled he, if_neg fun hle => he ((hf.enabled_iff _).2 hle)]
      exact hf
  | setLevel level => exact ⟨rfl, hf.suffix, hf.length_le⟩
  | setCapacity size =>
    rw [Log.apply, History.add]
    by_cases hsize : ∃ m, size.Whole m ∧ 1 ≤ m
    · obtain ⟨m, hwhole, hm⟩ := hsize
      rw [setCapacity?_of_whole l hwhole hm]
      refine ⟨hf.level, (List.drop_suffix ..).trans hf.suffix, ?_⟩
      rw [Option.getD_some, length_trimmed]
      exact min_le_right ..
    · rw [setCapacity?_of_not_whole l hsize]
      exact hf
  | clear => exact ⟨hf.level, List.nil_suffix, Nat.zero_le _⟩

/-- If nothing is cleared, a log has as many entries more as were added to its history, as long as there is
room for them. -/
theorem length_apply (hf : l.Follows h) (hc : c ≠ .clear) :
    ∃ added, (h.add c).entries.length = h.entries.length + added ∧
      (l.apply c).entries.length = min (l.entries.length + added) (l.apply c).capacity := by
  have hle := hf.length_le
  cases c with
  | write timestamp msg =>
    rw [History.add]
    by_cases he : l.enabled msg.level
    · rw [apply_write_of_enabled he, if_pos ((hf.enabled_iff _).1 he)]
      refine ⟨1, List.length_append .., ?_⟩
      rw [length_trimmed, List.length_append, List.length_singleton]
      rfl
    · rw [apply_write_of_not_enabled he, if_neg fun hle => he ((hf.enabled_iff _).2 hle)]
      exact ⟨0, rfl, (min_eq_left hle).symm⟩
  | setLevel level => exact ⟨0, rfl, (min_eq_left hle).symm⟩
  | setCapacity size =>
    rw [Log.apply, History.add]
    refine ⟨0, rfl, ?_⟩
    by_cases hsize : ∃ m, size.Whole m ∧ 1 ≤ m
    · obtain ⟨m, hwhole, hm⟩ := hsize
      rw [setCapacity?_of_whole l hwhole hm, Option.getD_some, length_trimmed]
      rfl
    · rw [setCapacity?_of_not_whole l hsize]
      exact (min_eq_left hle).symm
  | clear => exact absurd rfl hc

/-! ### All changes -/

theorem follows_run (cs : List Change) : (run cs).Follows (historyOf cs) := by
  induction cs using List.reverseRecOn with
  | nil => exact ⟨rfl, List.suffix_rfl, Nat.zero_le _⟩
  | append_singleton cs c ih =>
    rw [run_snoc, historyOf_snoc]
    exact ih.apply c

/-- A history gets no shorter unless it is cleared. -/
theorem length_historyOf_le (h : Since before cs) :
    (historyOf before).entries.length ≤ (historyOf cs).entries.length := by
  induction cs using List.reverseRecOn with
  | nil =>
    obtain ⟨later, hsplit, -⟩ := h
    rw [(List.append_eq_nil_iff.1 hsplit.symm).1]
  | append_singleton cs c ih =>
    obtain rfl | ⟨hc, hbefore⟩ := since_snoc.1 h
    · exact le_rfl
    · obtain ⟨added, hadded, -⟩ := length_apply (follows_run cs) hc
      rw [historyOf_snoc, hadded]
      exact (ih hbefore).trans (Nat.le_add_right ..)

/-- The entry with `n` newer ones is kept just if it was logged since the last clearing, and at no moment
since there were as many newer ones as there was room for. -/
theorem lt_length_run_iff (cs : List Change) (n : Nat) :
    n < (run cs).entries.length ↔ n < (historyOf cs).entries.length ∧ ∀ before, Since before cs →
      n + (historyOf before).entries.length < (run before).capacity + (historyOf cs).entries.length := by
  induction cs using List.reverseRecOn generalizing n with
  | nil => exact iff_of_false (Nat.not_lt_zero n) fun h => Nat.not_lt_zero n h.1
  | append_singleton cs c ih =>
    by_cases hc : c = .clear
    · subst hc
      rw [run_snoc, historyOf_snoc]
      exact iff_of_false (Nat.not_lt_zero n) fun h => Nat.not_lt_zero n h.1
    · obtain ⟨added, hadded, hlength⟩ := length_apply (follows_run cs) hc
      rw [← run_snoc] at hlength
      rw [← historyOf_snoc] at hadded
      have hsplit : (∀ before, Since before (cs ++ [c]) → n + (historyOf before).entries.length <
            (run before).capacity + (historyOf (cs ++ [c])).entries.length) ↔
          n < (run (cs ++ [c])).capacity ∧ ∀ before, Since before cs → n + (historyOf before).entries.length <
            (run before).capacity + ((historyOf cs).entries.length + added) := by
        constructor
        · intro h
          refine ⟨Nat.lt_of_add_lt_add_right (h _ (since_snoc.2 (.inl rfl))), fun before hbefore => ?_⟩
          rw [← hadded]
          exact h before (since_snoc.2 (.inr ⟨hc, hbefore⟩))
        · rintro ⟨hnow, hthen⟩ before hbefore
          obtain rfl | ⟨-, hbefore⟩ := since_snoc.1 hbefore
          · exact Nat.add_lt_add_right hnow _
          · rw [hadded]
            exact hthen before hbefore
      rw [hsplit, hlength, hadded, lt_min_iff, and_left_comm, and_comm]
      refine and_congr_right fun _ => ?_
      obtain hnew | ⟨k, rfl⟩ := (Nat.lt_or_ge n added).imp_right Nat.exists_eq_add_of_le'
      · -- an entry that was not there before is newer than all that were dropped
        refine iff_of_true (by omega) ⟨by omega, fun before hbefore => ?_⟩
        have := length_historyOf_le hbefore
        omega
      · rw [Nat.add_lt_add_iff_right, ih, Nat.add_lt_add_iff_right]
        refine and_congr_right fun _ => forall₂_congr fun before _ => ?_
        rw [Nat.add_right_comm, ← Nat.add_assoc, Nat.add_lt_add_iff_right]

/-- Whatever is done to a log, it is the end of what was enabled when it was logged and has not been cleared
since. It never has more entries than there is room for, gets one more for each that is enabled while there is
room, and keeps the latest when there is less room. What was enabled and is not there has had as many newer
entries as there was room for at some moment, so more room brings nothing back. What is not enabled and what
is no capacity makes no difference. -/
theorem entries_run (cs : List Change) :
    let l := run cs
    let entries := (historyOf cs).entries
    l.level = (historyOf cs).level ∧ l.entries <:+ entries ∧ l.entries.length ≤ l.capacity ∧
      (∀ n : Nat, n < l.entries.length ↔ n < entries.length ∧ ∀ before : List Change, Since before cs →
        n + (historyOf before).entries.length < (run before).capacity + entries.length) ∧
      (∀ (timestamp : Int) (m : Message),
        (l.enabled m.level → (l.apply (.write timestamp m)).capacity = l.capacity ∧
          (l.apply (.write timestamp m)).entries.length = min (l.entries.length + 1) l.capacity) ∧
        (¬l.enabled m.level → l.apply (.write timestamp m) = l)) ∧
      (∀ (size : Number) (m : Nat), size.Whole m → 1 ≤ m → ∃ l' : Log, l.setCapacity? size = some l' ∧
        l.apply (.setCapacity size) = l' ∧ l'.capacity = m ∧ l'.entries <:+ l.entries ∧
        l'.entries.length = min l.entries.length m) ∧
      (∀ size : Number, (¬∃ m, size.Whole m ∧ 1 ≤ m) → l.setCapacity? size = none ∧
        l.apply (.setCapacity size) = l) ∧
      (∀ level : Severity, l.apply (.setLevel level) = { l with level }) ∧
      l.apply .clear = { l with entries := [] } := by
  intro l entries
  have hf := follows_run cs
  refine ⟨hf.level, hf.suffix, hf.length_le, lt_length_run_iff cs, fun timestamp m => ⟨?_, ?_⟩, ?_,
    ?_, ?_, ?_⟩
  · intro he
    rw [apply_write_of_enabled he]
    refine ⟨rfl, ?_⟩
    rw [length_trimmed, List.length_append, List.length_singleton]
  · intro he
    rw [apply_write_of_not_enabled he]
  · intro size m hwhole hm
    have hset := setCapacity?_of_whole l hwhole hm
    refine ⟨_, hset, ?_, rfl, List.drop_suffix .., length_trimmed _⟩
    rw [apply, hset, Option.getD_some]
  · intro size hsize
    have hset := setCapacity?_of_not_whole l hsize
    refine ⟨hset, ?_⟩
    rw [apply, hset, Option.getD_none]
  · intro level
    rw [apply]
  · rw [apply, clear]

/-! ### Requests -/

section Requests
open Act

variable {s : Session} {index : Nat} {name : Option String}

/-- The changes that a request makes. -/
def changesOf (clock : Int) : LogRequest → List Change
  | .setLevel level => [.setLevel level]
  | .setCapacity size => [.setCapacity size]
  | .clear => [.clear]
  | .log m => [.write clock m]
  | .fill count stem => (List.range' 0 count).map fun i => .write clock ⟨.info, stem ++ toString i, none⟩
  | .getLevel | .isEnabled _ | .entries | .entriesAt _ | .summary => []

theorem ran_logAt (hl : s.logs[index]? = some l) : (logAt index).ran s = (.ok l, s) := by
  have hget : (get : Act Session).ran s = (.ok s, s) := rfl
  rw [logAt, ran_bind, hget, onward, hl]
  rfl

theorem ran_setLog (index : Nat) (l : Log) (s : Session) :
    (setLog index l).ran s = (.ok (), { s with logs := s.logs.setIfInBounds index l }) :=
  rfl

theorem setIfInBounds_self {logs : Array Log} (hl : logs[index]? = some l) :
    logs.setIfInBounds index l = logs := by
  refine Array.ext_getElem? fun i => ?_
  rw [Array.getElem?_setIfInBounds]
  split_ifs with hi hlt
  · rw [← hi, hl]
  · rw [← hi, Array.getElem?_eq_none (Nat.le_of_not_lt hlt)]
  · rfl

theorem logs_fillLog (hl : s.logs[index]? = some l) (stem : String) (count next : Nat) :
    ((fillLog index stem count next).ran s).2.logs = s.logs.setIfInBounds index
      (((List.range' next count).map fun i =>
        .write s.clock ⟨.info, stem ++ toString i, none⟩).foldl apply l) := by
  induction count generalizing s l next with
  | zero =>
    rw [List.range'_zero, List.map_nil, List.foldl_nil, setIfInBounds_self hl]
    rfl
  | succ count ih =>
    have hget : (get : Act Session).ran s = (.ok s, s) := rfl
    have hnext : (s.logs.setIfInBounds index
        (l.apply (.write s.clock ⟨.info, stem ++ toString next, none⟩)))[index]? =
        some (l.apply (.write s.clock ⟨.info, stem ++ toString next, none⟩)) :=
      Array.getElem?_setIfInBounds_self_of_lt (Array.getElem?_eq_some_iff.1 hl).1
    rw [List.range'_succ, List.map_cons, List.foldl_cons, fillLog, ran_bind, ran_logAt hl, onward, ran_bind,
      hget, onward, ran_bind, ran_setLog, onward]
    rw [apply] at hnext ⊢
    exact (ih hnext (next + 1)).trans (Array.setIfInBounds_setIfInBounds ..)

/-- A request to a log makes changes of that log, and leaves the others as they are. -/
theorem logs_performLog (hname : (logNamed name).ran s = (.ok index, s)) (hl : s.logs[index]? = some l)
    (r : LogRequest) : ((performLog name r).ran s).2.logs =
      s.logs.setIfInBounds index ((changesOf s.clock r).foldl apply l) := by
  rw [performLog, ran_bind, hname, onward, ran_bind, ran_logAt hl, onward]
  cases r with
  | setLevel | clear => rfl
  | setCapacity size =>
    rw [changesOf, List.foldl_cons, List.foldl_nil, apply]
    dsimp only
    cases hset : l.setCapacity? size with
    | some l' => rfl
    | none => exact (setIfInBounds_self hl).symm
  | log m =>
    rw [ran_bind, ran_write_eq hl, onward, written_eq]
    rfl
  | fill count stem =>
    rw [ran_bind, changesOf, ← logs_fillLog hl stem count 0]
    rcases (fillLog index stem count 0).ran s with ⟨_ | _, s'⟩ <;> rfl
  | getLevel | isEnabled | entries | entriesAt | summary => exact (setIfInBounds_self hl).symm

end Requests

end Log

end RadioOccupancy
