import Mathlib.Data.List.MinMax
import RadioOccupancy.Proofs.BusyTable

/-!
What a busy table makes of the bursts of energy that it is told of.

    bursts on a key    |---|   |-----|              |-----|
                                  |-----|              |----|
    entry                                           |-------|
                                            busyStart       busyEnd

An entry ends where the last burst on its key ends, and begins where the key was last found clear. So it
covers the last run of overlapping bursts, and those before it are forgotten. `BusyEntry.Sums` says this of
one key; a burst after others keeps it (`BusyTable.sums_beside`), and so does a list of them
(`BusyTable.remembers_heard`).
-/

namespace RadioOccupancy

/-- Energy on a band at a threshold, for a duration from an instant. -/
structure Burst where
  band : Band
  threshold : Number
  now : Number
  duration : Number
deriving DecidableEq, Repr

namespace Burst

/-- When the energy ends. -/
def stop (b : Burst) : ℚ :=
  b.now.value + b.duration.value

/-- There is energy at an instant. -/
def Covers (b : Burst) (τ : ℚ) : Prop :=
  b.now.value ≤ τ ∧ τ < b.stop

instance (b : Burst) (τ : ℚ) : Decidable (b.Covers τ) :=
  inferInstanceAs (Decidable (_ ∧ _))

/-- The threshold in steps of a resolution. -/
def step (resolution : Number) (b : Burst) : Number :=
  Number.roundHalfUp (b.threshold / resolution)

/-- The energy is on this band and at this step. -/
def isOn (resolution : Number) (band : Band) (step : Number) (b : Burst) : Bool :=
  b.band.sameKey band && (b.step resolution).same step

/-- Those of the bursts that are on a key. -/
def onKey (resolution : Number) (bursts : List Burst) (band : Band) (step : Number) : List Burst :=
  bursts.filter fun b => b.isOn resolution band step

/-- The arguments are such as a table can add up: the sum of the instant and the duration is exact. -/
structure Exact (b : Burst) : Prop where
  threshold : b.threshold.isFinite
  now : b.now.isFinite
  duration : b.duration.isTime
  sum : (b.now + b.duration).isFinite ∧ (b.now + b.duration).value = b.stop

/-- Each burst, and of those after it the ones on other keys. -/
def firsts (resolution : Number) : List Burst → List Burst
  | [] => []
  | b :: rest =>
    b :: (firsts resolution rest).filter fun c => !c.isOn resolution b.band (b.step resolution)

/-- After the bursts on a key, another one finds the key clear and ends later than all of them. -/
def Opens (before : List Burst) (b : Burst) : Prop :=
  ∀ a ∈ before, a.stop ≤ b.now.value ∧ a.stop < b.stop

instance (before : List Burst) (b : Burst) : Decidable (b.Opens before) :=
  inferInstanceAs (Decidable (∀ a ∈ before, _))

/-- The bursts come in the order of their time. -/
def InOrder (bursts : List Burst) : Prop :=
  bursts.Pairwise fun a b => a.now.value ≤ b.now.value

/-- The burst opens the last run of bursts on a key: no burst after it finds the key clear and ends later
than all before. -/
def OpensLast (bursts : List Burst) (b : Burst) : Prop :=
  ∃ before after, bursts = before ++ b :: after ∧ b.Opens before ∧
    ∀ l c r, after = l ++ c :: r → ¬c.Opens (before ++ b :: l)

section Runs

variable {bursts : List Burst} {a b : Burst} {τ : ℚ}

/-- Whether a burst opens a run can be seen from the latest end before it. -/
theorem opens_iff {last : ℚ} (h : (bursts.map stop).maximum = last) :
    b.Opens bursts ↔ last ≤ b.now.value ∧ last < b.stop := by
  obtain ⟨hmem, hle⟩ := List.maximum_eq_coe_iff.1 h
  obtain ⟨a, ha, hlast⟩ := List.mem_map.1 hmem
  refine ⟨fun hopens => hlast ▸ hopens a ha, fun ⟨hclear, hlater⟩ c hc => ?_⟩
  have hc := hle _ (List.mem_map_of_mem hc)
  exact ⟨hc.trans hclear, hc.trans_lt hlater⟩

theorem opensLast_of_opens (h : b.Opens bursts) : b.OpensLast (bursts ++ [b]) :=
  ⟨bursts, [], rfl, h, by simp⟩

theorem OpensLast.mem (h : b.OpensLast bursts) : b ∈ bursts := by
  obtain ⟨before, after, rfl, -⟩ := h
  simp

/-- The first burst of all opens a run. -/
theorem opensLast_first (b : Burst) : b.OpensLast [b] :=
  @opensLast_of_opens [] b (by simp [Opens])

theorem OpensLast.snoc (h : a.OpensLast bursts) (hb : ¬b.Opens bursts) :
    a.OpensLast (bursts ++ [b]) := by
  obtain ⟨before, after, rfl, ha, hlast⟩ := h
  refine ⟨before, after ++ [b], by simp, ha, fun l c r heq => ?_⟩
  rcases List.eq_nil_or_concat r with rfl | ⟨r, d, rfl⟩
  · obtain ⟨rfl, hc⟩ := List.append_inj' heq rfl
    obtain rfl := List.singleton_inj.1 hc
    exact hb
  · rw [List.concat_eq_append, ← List.cons_append, ← List.append_assoc] at heq
    exact hlast l c r (List.append_inj' heq rfl).1

/-- If the bursts come in the order of their time, those that open runs begin by an instant just if the one
does that opens the last run. -/
theorem OpensLast.le_iff (h : a.OpensLast bursts) (hsorted : InOrder bursts) :
    a.now.value ≤ τ ↔ ∀ l c r, bursts = l ++ c :: r → c.Opens l → c.now.value ≤ τ := by
  obtain ⟨before, after, rfl, ha, hlast⟩ := h
  refine ⟨fun hle l c r heq hc => ?_, fun hall => hall before a after rfl ha⟩
  rcases List.append_eq_append_iff.1 heq with ⟨m, rfl, hm⟩ | ⟨m, rfl, hm⟩
  · cases m with
    | nil =>
      obtain ⟨rfl, -⟩ := List.cons_eq_cons.1 hm
      exact hle
    | cons d m =>
      obtain ⟨rfl, rfl⟩ := List.cons_eq_cons.1 hm
      exact absurd hc (hlast m c r rfl)
  · -- what comes before the last run begins before it
    cases m with
    | nil =>
      obtain ⟨rfl, -⟩ := List.cons_eq_cons.1 hm
      exact hle
    | cons d m =>
      obtain ⟨rfl, -⟩ := List.cons_eq_cons.1 hm
      exact ((List.pairwise_append.1 hsorted).2.2 c (by simp) a List.mem_cons_self).trans hle

/-- If the bursts come in order, none of them reaches into the last run from before. -/
theorem OpensLast.apart (h : a.OpensLast bursts) (hsorted : InOrder bursts) :
    ∀ b ∈ bursts, b.stop ≤ a.now.value ∨ a.now.value ≤ b.now.value := by
  obtain ⟨before, after, rfl, ha, -⟩ := h
  have hafter := (List.pairwise_cons.1 (List.pairwise_append.1 hsorted).2.1).1
  intro b hb
  rcases List.mem_append.1 hb with hb | hb
  · exact Or.inl (ha b hb).1
  · rcases List.mem_cons.1 hb with rfl | hb
    · exact Or.inr le_rfl
    · exact Or.inr (hafter b hb)

/-- If the bursts come in order, an instant at which one begins within the last run is one that others
are in the middle of. -/
theorem OpensLast.overlaps (h : a.OpensLast bursts) (hsorted : InOrder bursts) (hτ : a.now.value < τ)
    {l r : List Burst} (heq : bursts = l ++ b :: r) (hb : b.now.value = τ) (hstop : τ < b.stop) :
    ∃ c ∈ bursts, c.now.value < τ ∧ τ < c.stop := by
  -- along the bursts that begin at `τ`, back to one before them
  induction hn : l.length using Nat.strong_induction_on generalizing l b r with
  | _ n ih =>
    have hnot : ¬b.Opens l := fun ho => by
      have := (h.le_iff hsorted).1 le_rfl l b r heq ho
      exact not_lt.2 (hb ▸ this) hτ
    simp only [Opens, not_forall, not_and_or, not_le, not_lt] at hnot
    obtain ⟨c, hc, hlater⟩ := hnot
    have hmem : c ∈ bursts := by
      rw [heq]
      exact List.mem_append_left _ hc
    have hcstop : τ < c.stop := by
      rcases hlater with hlater | hlater
      · exact hb ▸ hlater
      · exact hstop.trans_le hlater
    have hle : c.now.value ≤ τ := by
      have hpair := hsorted
      rw [InOrder, heq, List.pairwise_append] at hpair
      exact hb ▸ hpair.2.2 c hc b List.mem_cons_self
    rcases hle.lt_or_eq with hlt | hceq
    · exact ⟨c, hmem, hlt, hcstop⟩
    · obtain ⟨l₁, l₂, rfl⟩ := List.append_of_mem hc
      refine ih l₁.length ?_ (l := l₁) (b := c) (r := l₂ ++ b :: r) ?_ hceq hcstop rfl
      · rw [← hn]
        simp
      · simpa using heq

end Runs

/-! ### The first bursts on their keys -/

/-- A burst after others is the first on its key if none of those is on it. -/
theorem firsts_snoc (r : Number) (bursts : List Burst) (b : Burst) :
    firsts r (bursts ++ [b]) =
      firsts r bursts ++ if bursts.any fun a => a.isOn r b.band (b.step r) then [] else [b] := by
  induction bursts with
  | nil => rfl
  | cons a bursts ih =>
    have hsymm : b.isOn r a.band (a.step r) = a.isOn r b.band (b.step r) := by
      rw [Bool.eq_iff_iff, isOn, isOn, Bool.and_eq_true, Bool.and_eq_true, Band.sameKey_iff, Band.sameKey_iff,
        Number.same_iff_key, Number.same_iff_key]
      simp only [eq_comm]
    rw [List.cons_append, firsts, ih, firsts, List.filter_append, List.any_cons, List.cons_append]
    cases hon : a.isOn r b.band (b.step r) with
    | true =>
      split <;> simp [hsymm, hon]
    | false =>
      rw [Bool.false_or]
      split <;> simp [hsymm, hon]

end Burst

/-- The entry adds up the bursts on its key. -/
structure BusyEntry.Sums (e : BusyEntry) (bursts : List Burst) : Prop where
  sound : e.Sound
  busyEnd : (bursts.map Burst.stop).maximum = e.busyEnd.value
  busyStart : ∃ b : Burst, b.OpensLast bursts ∧ e.busyStart = b.now
  covered : ∀ τ, e.busyStart.value ≤ τ → τ < e.busyEnd.value → ∃ b ∈ bursts, b.Covers τ

namespace BusyTable

/-! ### One key -/

/-- What a table keeps of the bursts on a key: no entry if there were none, and else one that adds them
up. -/
def Remembers (entry : Option BusyEntry) (bursts : List Burst) : Prop :=
  match entry with
  | none => bursts = []
  | some e => e.Sums bursts

/-- Where there was a burst there is an entry. -/
theorem Remembers.exists_of_mem {entry : Option BusyEntry} {bursts : List Burst} {b : Burst}
    (h : Remembers entry bursts) (hb : b ∈ bursts) : ∃ e, entry = some e ∧ e.Sums bursts := by
  cases entry with
  | none =>
    obtain rfl : bursts = [] := h
    cases hb
  | some e => exact ⟨e, rfl, h⟩

/-- The first burst on a key. -/
theorem sums_first {b : Burst} (hb : b.Exact) (band : Band) (step : Number) :
    (BusyEntry.mk band step b.now (b.now + b.duration)).Sums [b] := by
  have hle : b.now.value ≤ b.stop := by
    linarith [Number.value_nonneg hb.duration, show b.stop = _ + _ from rfl]
  refine ⟨⟨hb.now, hb.sum.1, hb.sum.2.symm ▸ hle⟩, ?_, ⟨b, b.opensLast_first, rfl⟩, ?_⟩
  · rw [List.map_singleton, List.maximum_singleton, hb.sum.2]
  · intro τ hstart hstop
    exact ⟨b, List.mem_singleton_self b, hstart, hb.sum.2 ▸ hstop⟩

section Snoc

variable {e : BusyEntry} {bursts : List Burst} {b : Burst}

theorem maximum_stop_snoc (h : e.Sums bursts) (b : Burst) :
    ((bursts ++ [b]).map Burst.stop).maximum = max (e.busyEnd.value : WithBot ℚ) b.stop := by
  rw [List.map_append, List.map_singleton, List.maximum_concat, h.busyEnd]

/-- A burst that ends no later than the entry is added up already. -/
theorem sums_kept (h : e.Sums bursts) (hle : b.stop ≤ e.busyEnd.value) : e.Sums (bursts ++ [b]) := by
  obtain ⟨a, ha, hstart⟩ := h.busyStart
  refine ⟨h.sound, ?_, ⟨a, ha.snoc fun ho => ?_, hstart⟩, fun τ h₁ h₂ => ?_⟩
  · rw [maximum_stop_snoc h]
    exact max_eq_left (WithBot.coe_le_coe.2 hle)
  · exact not_lt.2 hle ((Burst.opens_iff h.busyEnd).1 ho).2
  · obtain ⟨c, hc, hcovers⟩ := h.covered τ h₁ h₂
    exact ⟨c, List.mem_append_left _ hc, hcovers⟩

theorem maximum_stop_later (h : e.Sums bursts) (hb : b.Exact) (hlater : e.busyEnd.value < b.stop) :
    ((bursts ++ [b]).map Burst.stop).maximum = (b.now + b.duration).value := by
  rw [maximum_stop_snoc h, hb.sum.2]
  exact max_eq_right (WithBot.coe_le_coe.2 hlater.le)

/-- A burst that begins while the entry is busy prolongs its run. -/
theorem sums_prolonged (h : e.Sums bursts) (hb : b.Exact) (hlater : e.busyEnd.value < b.stop)
    (hbusy : b.now.value < e.busyEnd.value) (band : Band) (step : Number) :
    (BusyEntry.mk band step e.busyStart (b.now + b.duration)).Sums (bursts ++ [b]) := by
  obtain ⟨a, ha, hstart⟩ := h.busyStart
  refine ⟨⟨h.sound.finite_start, hb.sum.1, ?_⟩, maximum_stop_later h hb hlater,
    ⟨a, ha.snoc fun ho => ?_, hstart⟩, fun τ h₁ h₂ => ?_⟩
  · rw [hb.sum.2]
    exact h.sound.start_le_end.trans hlater.le
  · exact not_lt.2 ((Burst.opens_iff h.busyEnd).1 ho).1 hbusy
  · rcases lt_or_ge τ e.busyEnd.value with hτ | hτ
    · obtain ⟨c, hc, hcovers⟩ := h.covered τ h₁ hτ
      exact ⟨c, List.mem_append_left _ hc, hcovers⟩
    · exact ⟨b, by simp, hbusy.le.trans hτ, hb.sum.2 ▸ h₂⟩

/-- A burst that finds the entry clear opens a run. -/
theorem sums_opened (h : e.Sums bursts) (hb : b.Exact) (hlater : e.busyEnd.value < b.stop)
    (hclear : e.busyEnd.value ≤ b.now.value) (band : Band) (step : Number) :
    (BusyEntry.mk band step b.now (b.now + b.duration)).Sums (bursts ++ [b]) := by
  have hopens := (Burst.opens_iff h.busyEnd).2 ⟨hclear, hlater⟩
  refine ⟨(sums_first hb band step).sound, maximum_stop_later h hb hlater,
    ⟨b, Burst.opensLast_of_opens hopens, rfl⟩, fun τ h₁ h₂ => ?_⟩
  exact ⟨b, by simp, h₁, hb.sum.2 ▸ h₂⟩

/-- One more burst is added up. -/
theorem sums_beside {entry : Option BusyEntry} (h : Remembers entry bursts) (hb : b.Exact) (band : Band)
    (step : Number) : (detectionBeside entry band step b.now b.duration).entry.Sums (bursts ++ [b]) := by
  cases entry with
  | none =>
    obtain rfl : bursts = [] := h
    exact sums_first hb band step
  | some e =>
    have h : e.Sums bursts := h
    have hend := Number.le_iff hb.sum.1 h.sound.finite_end
    rw [hb.sum.2] at hend
    rw [detectionBeside.eq_def]
    dsimp only
    split
    · next hle => exact sums_kept h (hend.1 hle)
    · next hlater =>
      rw [hend, not_le] at hlater
      by_cases hbusy : b.now < e.busyEnd
      · rw [decide_eq_true hbusy, if_pos rfl]
        exact sums_prolonged h hb hlater ((Number.lt_iff hb.now h.sound.finite_end).1 hbusy) band step
      · rw [decide_eq_false hbusy, if_neg Bool.false_ne_true]
        rw [Number.lt_iff hb.now h.sound.finite_end, not_lt] at hbusy
        exact sums_opened h hb hlater hbusy band step

end Snoc

/-! ### All keys -/

/-- The table after bursts. -/
def heard (t : BusyTable) (bursts : List Burst) : BusyTable :=
  bursts.foldl (fun t b => t.detected b.band (b.step t.resolution) b.now b.duration) t

theorem heard_snoc (t : BusyTable) (bursts : List Burst) (b : Burst) :
    t.heard (bursts ++ [b]) =
      (t.heard bursts).detected b.band (b.step (t.heard bursts).resolution) b.now b.duration := by
  rw [heard, List.foldl_append]
  rfl

@[simp]
theorem resolution_heard (t : BusyTable) (bursts : List Burst) :
    (t.heard bursts).resolution = t.resolution := by
  induction bursts using List.reverseRecOn with
  | nil => rfl
  | append_singleton bursts b ih => rw [heard_snoc, resolution_detected, ih]

/-- A new table keeps of each key what it has heard on it. -/
theorem remembers_heard {r : Number} {bursts : List Burst} (h : ∀ b ∈ bursts, b.Exact) (band : Band)
    (step : Number) :
    Remembers ((heard ⟨r, []⟩ bursts).find? band step) (Burst.onKey r bursts band step) := by
  induction bursts using List.reverseRecOn with
  | nil => rfl
  | append_singleton bursts b ih =>
    obtain ⟨hbursts, hb⟩ := List.forall_mem_append.1 h
    have ih := ih hbursts
    rw [heard_snoc, resolution_heard, find?_detected, Burst.onKey, List.filter_append,
      List.filter_singleton]
    by_cases hkey : (b.band.sameKey band && (b.step r).same step) = true
    · have hon : b.isOn r band step = true := hkey
      rw [← find?_congr _ hkey] at ih
      rw [if_pos hkey, hon, cond_true]
      exact sums_beside ih (hb b (by simp)) _ _
    · have hon : b.isOn r band step = false := Bool.eq_false_iff.2 hkey
      rw [if_neg hkey, hon, cond_false, List.append_nil]
      exact ih

/-! ### One entry for each key -/

/-- No two entries are for one key. -/
def Distinct (entries : List BusyEntry) : Prop :=
  entries.Pairwise fun e e' => ¬e'.isFor e.band e.step

theorem Distinct.putIn {entries : List BusyEntry} (h : Distinct entries) (entry : BusyEntry) :
    Distinct (putIn entry entries) := by
  induction entries with
  | nil => exact List.pairwise_singleton _ _
  | cons e rest ih =>
    obtain ⟨he, hrest⟩ := List.pairwise_cons.1 h
    rw [BusyTable.putIn]
    split
    · next hfor =>
      refine List.pairwise_cons.2 ⟨fun e' he' hkey => he e' he' ?_, hrest⟩
      rw [BusyEntry.isFor_iff] at hfor hkey ⊢
      exact ⟨⟨hkey.1.1.trans hfor.1.1.symm, hkey.1.2.trans hfor.1.2.symm⟩, hkey.2.trans hfor.2.symm⟩
    · next hfor =>
      refine List.pairwise_cons.2 ⟨fun e' he' => ?_, ih hrest⟩
      rcases mem_putIn he' with rfl | he'
      · rw [BusyEntry.isFor_iff] at hfor ⊢
        exact fun hkey => hfor ⟨⟨hkey.1.1.symm, hkey.1.2.symm⟩, hkey.2.symm⟩
      · exact he e' he'

theorem distinct_heard (r : Number) (bursts : List Burst) :
    Distinct (heard ⟨r, []⟩ bursts).entries := by
  induction bursts using List.reverseRecOn with
  | nil => exact List.Pairwise.nil
  | append_singleton bursts b ih =>
    rw [heard_snoc, detected]
    split
    · exact ih.putIn _
    · exact ih

/-- Where no two entries are for one key, each is found by its own. -/
theorem Distinct.find? {t : BusyTable} (h : Distinct t.entries) {e : BusyEntry} (he : e ∈ t.entries) :
    t.find? e.band e.step = some e := by
  have hself : ∀ e : BusyEntry, e.isFor e.band e.step := fun e => by simp [BusyEntry.isFor_iff]
  obtain ⟨before, after, heq⟩ := List.append_of_mem he
  rw [Distinct, heq, List.pairwise_append] at h
  rw [BusyTable.find?, heq, List.find?_append, List.find?_eq_none.2 fun e' he' hkey => ?_]
  · simp [hself e]
  · refine h.2.2 e' he' e List.mem_cons_self ?_
    rw [BusyEntry.isFor_iff] at hkey ⊢
    exact ⟨⟨hkey.1.1.symm, hkey.1.2.symm⟩, hkey.2.symm⟩

/-- An entry whose key has none yet is put at the end. -/
theorem putIn_of_none {entry : BusyEntry} {entries : List BusyEntry}
    (h : entries.find? (fun e => e.isFor entry.band entry.step) = none) :
    putIn entry entries = entries ++ [entry] := by
  induction entries with
  | nil => rfl
  | cons e rest ih =>
    rw [List.find?_cons] at h
    split at h
    · cases h
    · next hfor => rw [putIn, if_neg (by simp [hfor]), ih h, List.cons_append]

/-- An entry whose key has one already takes its place. -/
theorem forall₂_putIn {R : BusyEntry → Burst → Prop} {entry : BusyEntry} {entries : List BusyEntry}
    {bursts : List Burst} (h : List.Forall₂ R entries bursts)
    (hR : ∀ e b, e.isFor entry.band entry.step → R e b → R entry b)
    (hfound : (entries.find? fun e => e.isFor entry.band entry.step).isSome) :
    List.Forall₂ R (putIn entry entries) bursts := by
  induction h with
  | nil => cases hfound
  | @cons e b rest bursts he hrest ih =>
    rw [List.find?_cons] at hfound
    rw [putIn]
    split
    · next hfor => exact .cons (hR e b hfor he) hrest
    · next hfor =>
      rw [Bool.not_eq_true] at hfor
      rw [hfor] at hfound
      exact .cons he (ih hfound)

/-- The entries are for the keys on which there were bursts, in the order of the first ones. -/
theorem forall₂_heard {r : Number} {bursts : List Burst} (h : ∀ b ∈ bursts, b.Exact) :
    List.Forall₂ (fun e b => e.isFor b.band (b.step r)) (heard ⟨r, []⟩ bursts).entries
      (Burst.firsts r bursts) := by
  induction bursts using List.reverseRecOn with
  | nil => exact .nil
  | append_singleton bursts b ih =>
    obtain ⟨hbursts, -⟩ := List.forall_mem_append.1 h
    have ih := ih hbursts
    have hremembers := remembers_heard (r := r) hbursts b.band (b.step r)
    rw [heard_snoc, resolution_heard, Burst.firsts_snoc]
    change List.Forall₂ _ (detected _ _ (b.step r) _ _).entries _
    have hfor := isFor_beside (heard ⟨r, []⟩ bursts) b.band (b.step r) b.now b.duration
    rw [detected]
    cases hfind : (heard ⟨r, []⟩ bursts).find? b.band (b.step r) with
    | none =>
      rw [hfind] at hremembers hfor
      have hnone : bursts.any (fun a => a.isOn r b.band (b.step r)) = false := by
        rw [List.any_eq_false]
        exact List.filter_eq_nil_iff.1 hremembers
      rw [hnone, if_neg Bool.false_ne_true]
      change List.Forall₂ _ (putIn ⟨b.band, b.step r, b.now, b.now + b.duration⟩ _) _
      rw [putIn_of_none (by exact hfind)]
      exact List.rel_append ih (.cons hfor .nil)
    | some e =>
      rw [hfind] at hremembers hfor
      have hremembers : e.Sums _ := hremembers
      obtain ⟨a, hlast, -⟩ := hremembers.busyStart
      obtain ⟨ha, hon⟩ := List.mem_filter.1 hlast.mem
      rw [List.any_eq_true.2 ⟨a, ha, hon⟩, if_pos rfl, List.append_nil]
      split
      · refine forall₂_putIn ih (fun e' c hkey hc => ?_) ?_
        · rwa [← BusyEntry.isFor_congr hkey]
        · exact Option.isSome_iff_exists.2 ⟨e, (find?_congr _ hfor).trans hfind⟩
      · exact ih

/-- Records bursts one after another. -/
def detectAll (t : BusyTable) : List Burst → Except Refusal BusyTable
  | [] => return t
  | b :: rest => do
    let (_, t) ← t.detect b.band b.threshold b.now b.duration
    t.detectAll rest

theorem detectAll_eq {t : BusyTable} {bursts : List Burst}
    (ht : ¬(!t.resolution.isFinite || t.resolution ≤ 0) = true)
    (h : ∀ b ∈ bursts, b.threshold.isFinite) : t.detectAll bursts = .ok (t.heard bursts) := by
  induction bursts generalizing t with
  | nil => rfl
  | cons b bursts ih =>
    obtain ⟨hb, hbursts⟩ := List.forall_mem_cons.1 h
    have hstep : Threshold.step b.threshold t.resolution = .ok (b.step t.resolution) := by
      rw [Threshold.step, hb, if_neg (by simp), if_neg ht, Burst.step]
    have hdetect : t.detect b.band b.threshold b.now b.duration =
        .ok (detectionBeside (t.find? b.band (b.step t.resolution)) b.band (b.step t.resolution) b.now
          b.duration, t.detected b.band (b.step t.resolution) b.now b.duration) := by
      rw [detect, detection, hstep]
      rfl
    rw [detectAll, hdetect]
    exact ih (by rwa [resolution_detected]) hbursts

end BusyTable

/-- The busy period is the last run of the bursts on its key. It begins with the last of them that found the
key clear and ended later than those before. There was energy at all its instants, it is held together by
bursts that overlap, and no burst from before reaches into it. -/
structure BusyEntry.IsLastRun (e : BusyEntry) (bursts : List Burst) : Prop where
  opened : ∃ b : Burst, b.OpensLast bursts ∧ e.busyStart = b.now
  start_le_end : e.busyStart ≤ e.busyEnd
  covered : ∀ τ, e.busyStart.value ≤ τ → τ < e.busyEnd.value → ∃ b ∈ bursts, b.Covers τ
  unbroken : ∀ τ, e.busyStart.value < τ → τ < e.busyEnd.value →
    ∃ b ∈ bursts, b.now.value < τ ∧ τ < b.stop
  apart : ∀ b ∈ bursts, b.stop ≤ e.busyStart.value ∨ e.busyStart.value ≤ b.now.value

theorem BusyEntry.Sums.isLastRun {e : BusyEntry} {bursts : List Burst} (h : e.Sums bursts)
    (hsorted : Burst.InOrder bursts) : e.IsLastRun bursts := by
  obtain ⟨a, ha, hstart⟩ := h.busyStart
  refine ⟨⟨a, ha, hstart⟩, (Number.le_iff h.sound.finite_start h.sound.finite_end).2 h.sound.start_le_end,
    h.covered, fun τ h₁ h₂ => ?_, hstart ▸ ha.apart hsorted⟩
  obtain ⟨b, hb, hle, hlt⟩ := h.covered τ h₁.le h₂
  rcases hle.lt_or_eq with hlt' | heq
  · exact ⟨b, hb, hlt', hlt⟩
  · obtain ⟨l, r, hsplit⟩ := List.append_of_mem hb
    exact ha.overlaps hsorted (hstart ▸ h₁) hsplit heq hlt

/-- After all bursts on a key have begun, it is busy while one of them lasts. -/
theorem BusyEntry.Sums.lt_busyEnd_iff {e : BusyEntry} {bursts : List Burst} (h : e.Sums bursts) {τ : ℚ}
    (hτ : ∀ b ∈ bursts, b.now.value ≤ τ) : τ < e.busyEnd.value ↔ ∃ b ∈ bursts, b.Covers τ := by
  obtain ⟨hmem, hle⟩ := List.maximum_eq_coe_iff.1 h.busyEnd
  constructor
  · intro hlt
    obtain ⟨b, hb, hstop⟩ := List.mem_map.1 hmem
    exact ⟨b, hb, hτ b hb, hstop ▸ hlt⟩
  · rintro ⟨b, hb, -, hlt⟩
    exact hlt.trans_le (hle _ (List.mem_map_of_mem hb))

/-- What a table makes of bursts. It has one entry for each key on which there were some, in the order of the
first of them. The entry ends where the last of them ends. If they came in order it is their last run, and at
any time after they have begun the key is busy just while one of them lasts. -/
structure BusyTable.AddsUp (t : BusyTable) (bursts : List Burst) : Prop where
  distinct : Distinct t.entries
  keys : List.Forall₂ (fun e b => e.isFor b.band (b.step t.resolution)) t.entries
    (Burst.firsts t.resolution bursts)
  busyEnd : ∀ e ∈ t.entries,
    ((Burst.onKey t.resolution bursts e.band e.step).map Burst.stop).maximum = e.busyEnd.value
  lastRun : ∀ e ∈ t.entries, Burst.InOrder (Burst.onKey t.resolution bursts e.band e.step) →
    e.IsLastRun (Burst.onKey t.resolution bursts e.band e.step)
  busy : ∀ band step threshold now, Threshold.step threshold t.resolution = .ok step → now.isFinite →
    (∀ b ∈ Burst.onKey t.resolution bursts band step, b.now.value ≤ now.value) →
      ∃ busy, t.isBusyAt band threshold now = .ok busy ∧
        (busy = true ↔ ∃ b ∈ Burst.onKey t.resolution bursts band step, b.Covers now.value)

theorem BusyTable.addsUp_heard (resolution : Number) {bursts : List Burst} (h : ∀ b ∈ bursts, b.Exact) :
    (heard ⟨resolution, []⟩ bursts).AddsUp bursts := by
  have hdistinct := distinct_heard resolution bursts
  have hsums : ∀ e ∈ (heard ⟨resolution, []⟩ bursts).entries,
      e.Sums (Burst.onKey resolution bursts e.band e.step) := by
    intro e he
    have hremembers := remembers_heard (r := resolution) h e.band e.step
    rwa [hdistinct.find? he] at hremembers
  constructor
  case distinct => exact hdistinct
  case keys =>
    rw [resolution_heard]
    exact forall₂_heard h
  case busyEnd =>
    rw [resolution_heard]
    exact fun e he => (hsums e he).busyEnd
  case lastRun =>
    rw [resolution_heard]
    exact fun e he => (hsums e he).isLastRun
  case busy =>
    rw [resolution_heard]
    intro band step threshold now hstep hnow hown
    have hremembers := remembers_heard (r := resolution) h band step
    rw [isBusyAt, get, resolution_heard, hstep]
    refine ⟨_, rfl, ?_⟩
    cases hfind : (heard ⟨resolution, []⟩ bursts).find? band step with
    | none =>
      rw [hfind] at hremembers
      rw [show Burst.onKey _ _ _ _ = [] from hremembers]
      simp
    | some e =>
      rw [hfind] at hremembers
      have hremembers : e.Sums _ := hremembers
      rw [Option.any_some, decide_eq_true_iff, Number.lt_iff hnow hremembers.sound.finite_end,
        hremembers.lt_busyEnd_iff hown]

/-- A new table takes all bursts whose thresholds are finite and whose ends are exact, and adds them up. -/
theorem BusyTable.detectAll_addsUp {resolution : Number} {t₀ : BusyTable}
    (h : create resolution = .ok t₀) {bursts : List Burst} (hbursts : ∀ b ∈ bursts, b.Exact) :
    ∃ t, t₀.detectAll bursts = .ok t ∧ t.resolution = resolution ∧ t.AddsUp bursts := by
  have husable : ¬(!resolution.isFinite || resolution ≤ 0) = true := fun hbad => by
    rw [create, Threshold.step, if_neg (by decide), if_pos hbad] at h
    cases h
  obtain rfl : ⟨resolution, []⟩ = t₀ := by
    rw [create, Threshold.step, if_neg (by decide), if_neg husable] at h
    exact Except.ok.inj h
  exact ⟨_, detectAll_eq husable fun b hb => (hbursts b hb).threshold, resolution_heard _ _,
    addsUp_heard resolution hbursts⟩

/-- Two bursts that overlap, one on another band, and one after the first two have ended. -/
def fourBursts : List Burst :=
  [⟨⟨0, 63⟩, -82, 0, 10⟩, ⟨⟨0, 31⟩, -82, 2, 40⟩, ⟨⟨0, 63⟩, -82, 5, 8⟩, ⟨⟨0, 63⟩, -82, 20, 5⟩]

/-- Of the bursts on the first band the entry keeps the one after the others have ended. -/
theorem BusyTable.addsUp_fourBursts :
    create 0.01 = .ok ⟨0.01, []⟩ ∧
      ∃ t, detectAll ⟨0.01, []⟩ fourBursts = .ok t ∧ t.AddsUp fourBursts ∧
        t.entries = [⟨⟨0, 63⟩, -8200, 20, 25⟩, ⟨⟨0, 31⟩, -8200, 2, 42⟩] := by
  have hcreate : create 0.01 = .ok ⟨0.01, []⟩ := by
    rw [create, Threshold.step, if_neg (by decide), if_neg (by decide +kernel)]
    rfl
  have hexact : ∀ b ∈ fourBursts, b.Exact := by
    simp only [fourBursts, List.forall_mem_cons]
    refine ⟨⟨?_, ?_, ?_, ?_⟩, ⟨?_, ?_, ?_, ?_⟩, ⟨?_, ?_, ?_, ?_⟩, ⟨?_, ?_, ?_, ?_⟩, by simp⟩ <;>
      decide +kernel
  have hentries : (detectAll ⟨0.01, []⟩ fourBursts).toOption =
      some ⟨0.01, [⟨⟨0, 63⟩, -8200, 20, 25⟩, ⟨⟨0, 31⟩, -8200, 2, 42⟩]⟩ := by
    decide +kernel
  obtain ⟨t, ht, -, hadds⟩ := detectAll_addsUp hcreate hexact
  rw [ht] at hentries
  obtain rfl := Option.some.inj hentries
  exact ⟨hcreate, _, ht, hadds, rfl⟩

end RadioOccupancy
