import RadioOccupancy.Proofs.Session.Along

/-!
Relations between sessions that do not mind what happens elsewhere.

    may change                       Forgiving   Tolerant   Mindful   Lenient
    clock, scripts, names, events        x           x         x         x
    listener registries                              x         x         x
    collectors, other trackers,
      observers of the tracker                                 x         x
    a tracker is created                                     asked       x

All of them can be chained, and mind if a log gets lost. `Mindful` and `Lenient` ones are about the tracker at
one index: what it keeps (`KeepsAt`) is what it remembers, its configuration, its log and how many of its
announcements are under way. A `Mindful` relation may also mind that a tracker is created, so that has to be
shown for it.
-/

namespace RadioOccupancy

/-! ### What a tracker keeps -/

/-- Nothing about the tracker has changed but its observers, and whether it has been disposed of. -/
structure Tracker.Keeps (t t' : Tracker) : Prop where
  core : t'.core = t.core
  config : t'.config = t.config
  log : t'.log = t.log
  announcing : t'.announcing = t.announcing

theorem Tracker.Keeps.refl (t : Tracker) : t.Keeps t :=
  ⟨rfl, rfl, rfl, rfl⟩

theorem Tracker.Keeps.trans {t t' t'' : Tracker} (h : t.Keeps t') (h' : t'.Keeps t'') : t.Keeps t'' :=
  ⟨h'.core.trans h.core, h'.config.trans h.config, h'.log.trans h.log,
    h'.announcing.trans h.announcing⟩

/-- How many announcements of the tracker at an index are under way. -/
def Session.announcing (s : Session) (i : Nat) : Nat :=
  (s.trackers[i]?.map Tracker.announcing).getD 0

/-- A new tracker has done nothing. -/
theorem Tracker.eq_of_create {config : Config} {log : Nat} {t : Tracker}
    (h : Tracker.create config log = .ok t) : ∃ table, t = { config, log, core := { table } } := by
  rw [create] at h
  cases htable : BusyTable.create config.thresholdResolution with
  | error r =>
    rw [htable] at h
    cases h
  | ok table =>
    rw [htable] at h
    exact ⟨table, (Except.ok.inj h).symm⟩

/-- The tracker at the index keeps all but its observers. -/
def KeepsAt (i : Nat) (s s' : Session) : Prop :=
  ∀ t, s.trackers[i]? = some t → ∃ t', s'.trackers[i]? = some t' ∧ t.Keeps t'

namespace KeepsAt

variable {i : Nat}

/-- Other parts of a session do not matter. -/
theorem of_trackers {s s' : Session} (h : s'.trackers = s.trackers) : KeepsAt i s s' :=
  fun t ht => ⟨t, by rw [h, ht], .refl t⟩

/-- Nor do new trackers. -/
theorem of_push {s s' : Session} {t : Tracker} (h : s'.trackers = s.trackers.push t) :
    KeepsAt i s s' := by
  intro u hu
  refine ⟨u, ?_, .refl u⟩
  have hlt : i < s.trackers.size := (Array.getElem?_eq_some_iff.1 hu).1
  rw [h, Array.getElem?_push_lt hlt, ← hu, Array.getElem?_eq_getElem hlt]

/-- A tracker may get and lose observers. -/
theorem modifyTracker {f : Tracker → Tracker} (hf : ∀ t : Tracker, t.Keeps (f t)) (j : Nat)
    (s : Session) :
    KeepsAt i s (s.modifyTracker j f) := by
  intro t ht
  rw [Session.modifyTracker, Array.getElem?_modify, ht]
  split
  · exact ⟨f t, rfl, hf t⟩
  · exact ⟨t, rfl, .refl t⟩

/-- Other trackers do not matter. -/
theorem modifyTracker_ne {j : Nat} (h : j ≠ i) (f : Tracker → Tracker) (s : Session) :
    KeepsAt i s (s.modifyTracker j f) := by
  intro t ht
  rw [Session.modifyTracker, Array.getElem?_modify, if_neg h]
  exact ⟨t, ht, .refl t⟩

/-- Then it announces what it did. -/
theorem announcing {s s' : Session} (h : KeepsAt i s s')
    (hnew : s.trackers[i]? = none → s'.announcing i = 0) : s'.announcing i = s.announcing i := by
  cases hs : s.trackers[i]? with
  | some t =>
    obtain ⟨t', ht', hk⟩ := h t hs
    rw [Session.announcing, Session.announcing, hs, ht']
    exact hk.announcing
  | none =>
    rw [hnew hs, Session.announcing, hs]
    rfl

/-- A change of a tracker makes no new one. -/
theorem announcing_modifyTracker {s : Session} {j : Nat} {f : Tracker → Tracker}
    (h : KeepsAt i s (s.modifyTracker j f)) : (s.modifyTracker j f).announcing i = s.announcing i := by
  refine h.announcing fun hnone => ?_
  rw [Session.announcing, Session.modifyTracker, Array.getElem?_modify, hnone]
  split <;> rfl

/-- A new tracker is announcing nothing. -/
theorem announcing_of_push {s s' : Session} {t : Tracker} (h : s'.trackers = s.trackers.push t)
    (hidle : t.announcing = 0) : s'.announcing i = s.announcing i := by
  refine (of_push h).announcing fun hnone => ?_
  rw [Session.announcing, h, Array.getElem?_push]
  split
  · exact hidle
  · rw [hnone]
    rfl

end KeepsAt

/-! ### Relations that do not mind what happens elsewhere -/

/-- A relation that can be chained and does not mind what happens outside of trackers, collectors and listener
registries, as long as no log gets lost. -/
class Forgiving (R : Session → Session → Prop) : Prop where
  chains : Chains R
  of_alike : ∀ {s s'}, s'.trackers = s.trackers → s'.collectors = s.collectors →
    s'.registries = s.registries → s.logs.size ≤ s'.logs.size → R s s'

instance : Forgiving fun s s' => s'.registries = s.registries where
  chains := { refl := fun _ => rfl, trans := fun h h' => h'.trans h }
  of_alike _ _ h _ := h

/-- A relation that can be chained and does not mind what happens outside of trackers and collectors, as long
as no log gets lost. -/
class Tolerant (R : Session → Session → Prop) : Prop where
  chains : Chains R
  of_same : ∀ {s s'}, s'.trackers = s.trackers → s'.collectors = s.collectors →
    s.logs.size ≤ s'.logs.size → R s s'

instance : Tolerant fun s s' => s'.trackers = s.trackers where
  chains := { refl := fun _ => rfl, trans := fun h h' => h'.trans h }
  of_same h _ _ := h

/-- Tolerant relations do not mind what happens to listener registries either. -/
instance {R : Session → Session → Prop} [Tolerant R] : Forgiving R where
  chains := Tolerant.chains
  of_alike ht hc _ hlogs := Tolerant.of_same ht hc hlogs

/-- A relation that can be chained and does not mind what happens elsewhere than in what the tracker at
an index keeps, as long as no log gets lost and no tracker begins with an announcement. -/
class Lenient (i : outParam Nat) (R : Session → Session → Prop) : Prop where
  chains : Chains R
  of_keeps : ∀ {s s'}, KeepsAt i s s' → s'.announcing i = s.announcing i →
    s.logs.size ≤ s'.logs.size → R s s'

instance (i : Nat) : Lenient i (KeepsAt i) where
  chains :=
    { refl := fun _ t ht => ⟨t, ht, .refl t⟩
      trans := fun h h' t ht => by
        obtain ⟨t', ht', hk⟩ := h t ht
        obtain ⟨t'', ht'', hk'⟩ := h' t' ht'
        exact ⟨t'', ht'', hk.trans hk'⟩ }
  of_keeps h _ _ := h

/-- A relation that can be chained, holds where a tracker is created, and does not mind what happens elsewhere
than in what the tracker at an index keeps, as long as there are as many trackers as before and no log gets
lost. -/
class Mindful (i : outParam Nat) (R : Session → Session → Prop) : Prop where
  chains : Chains R
  of_keeps : ∀ {s s'}, KeepsAt i s s' → s'.trackers.size = s.trackers.size →
    s'.announcing i = s.announcing i → s.logs.size ≤ s'.logs.size → R s s'
  of_create : ∀ {s s' config log t}, Tracker.create config log = .ok t →
    s'.trackers = s.trackers.push t → s'.logs = s.logs → R s s'

/-- Lenient relations do not mind that trackers are created. -/
instance {i : Nat} {R : Session → Session → Prop} [Lenient i R] : Mindful i R where
  chains := Lenient.chains
  of_keeps h _ := Lenient.of_keeps h
  of_create hcreate ht hlogs := by
    obtain ⟨table, rfl⟩ := Tracker.eq_of_create hcreate
    exact Lenient.of_keeps (.of_push ht) (KeepsAt.announcing_of_push ht rfl)
      (Nat.le_of_eq (congrArg Array.size hlogs.symm))

/-- Such a relation holds where trackers stay as they are, and no log gets lost. -/
theorem Mindful.of_trackers {i : Nat} {R : Session → Session → Prop} [Mindful i R] {s s' : Session}
    (h : s'.trackers = s.trackers) (hlogs : s.logs.size ≤ s'.logs.size) : R s s' :=
  of_keeps (.of_trackers h) (congrArg Array.size h) (by rw [Session.announcing, Session.announcing, h]) hlogs

theorem Mindful.of_modifyTracker {i : Nat} {R : Session → Session → Prop} [Mindful i R] {s : Session}
    {j : Nat} {f : Tracker → Tracker} (h : KeepsAt i s (s.modifyTracker j f)) :
    R s (s.modifyTracker j f) :=
  of_keeps h (Array.size_modify ..) h.announcing_modifyTracker (Nat.le_refl _)

instance {i : Nat} {R : Session → Session → Prop} [Mindful i R] : Tolerant R where
  chains := Mindful.chains
  of_same h _ hlogs := Mindful.of_trackers h hlogs

end RadioOccupancy
