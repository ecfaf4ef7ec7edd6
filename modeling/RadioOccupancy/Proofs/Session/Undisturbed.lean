import RadioOccupancy.Proofs.Session.Runs
import RadioOccupancy.Proofs.Subscriptions

/-!
What leaves the totals of a collector alone.

A collector that is attached to a tracker hears of what the tracker emits. Four kinds of request meddle with
that from outside: to emit an event of the tracker without a transition, to dispose of the tracker, to attach
or detach the collector, and to reset it (`Request.disturbs`). Observers that make none of these and do not
fail respond as told by `Act.respondUndisturbed`, where such a request is refused and a failure is passed
over.

Everything else that is requested of a session leaves the totals as they are but for the transitions of the
tracker. Like what a tracker remembers, this is said by relations (`Discreet`) that hold across all that such
observers do if they hold across the transitions of the tracker (`Act.along_respondUndisturbed`). It follows
that they leave the totals alone while the tracker is announcing something (`Act.hushed_respond`).
-/

namespace RadioOccupancy

namespace Session

/-- The entries of a collector at a tracker. -/
def entriesAt (s : Session) (i k : Nat) : List Subscription :=
  (s.trackers[i]?.map fun t => t.subscriptions.entriesOf (.collector k)).getD []

/-- The totals of a collector. -/
def totals? (s : Session) (k : Nat) : Option Statistics :=
  s.collectors[k]?.map Collector.totals

/-- The collector hears of no other tracker, and its entries cannot be taken for those of others. -/
structure Attends (i k : Nat) (s : Session) : Prop where
  sound : ∀ (j : Nat) (t : Tracker), s.trackers[j]? = some t → t.subscriptions.Sound
  alone : ∀ j : Nat, j ≠ i → s.entriesAt j k = []

theorem entriesAt_eq {s : Session} {j : Nat} {t : Tracker} (h : s.trackers[j]? = some t) (k : Nat) :
    s.entriesAt j k = t.subscriptions.entriesOf (.collector k) := by
  rw [entriesAt, h]
  rfl

/-- The collector stays with its entries, and adds events to its totals. -/
structure Tallies (i k : Nat) (events : List TraceEvent) (s s' : Session) : Prop where
  attends : s'.Attends i k
  entries : s'.entriesAt i k = s.entriesAt i k
  totals : ∀ a, s.totals? k = some a → s'.totals? k = some (events.foldl Statistics.add a)

namespace Tallies

variable {i k : Nat} {events more : List TraceEvent} {s s₁ s' : Session}

theorem refl (hs : s.Attends i k) : Tallies i k [] s s :=
  ⟨hs, rfl, fun _ h => h⟩

theorem trans (h : Tallies i k events s s₁) (h' : Tallies i k more s₁ s') :
    Tallies i k (events ++ more) s s' where
  attends := h'.attends
  entries := h'.entries.trans h.entries
  totals a ha := by
    rw [List.foldl_append]
    exact h'.totals _ (h.totals a ha)

theorem of_same (hs : s.Attends i k) (ht : s'.trackers = s.trackers) (hc : s'.collectors = s.collectors) :
    Tallies i k [] s s' := by
  have hentries : ∀ j, s'.entriesAt j k = s.entriesAt j k := fun j => by rw [entriesAt, ht, entriesAt]
  refine ⟨⟨fun j t h => hs.sound j t (ht ▸ h), fun j hj => (hentries j).trans (hs.alone j hj)⟩,
    hentries i, ?_⟩
  rw [totals?, totals?, hc]
  exact fun a ha => ha

/-- A tracker is changed whose entries of the collector stay. -/
theorem modifyTracker {j : Nat} {f : Tracker → Tracker} (hs : s.Attends i k)
    (hf : ∀ t, s.trackers[j]? = some t → t.subscriptions.Sound → (f t).subscriptions.Sound ∧
      (f t).subscriptions.entriesOf (.collector k) = t.subscriptions.entriesOf (.collector k)) :
    Tallies i k [] s (s.modifyTracker j f) := by
  have hget : ∀ n, (s.modifyTracker j f).trackers[n]? =
      if j = n then s.trackers[n]?.map f else s.trackers[n]? := fun n => by
    rw [Session.modifyTracker, Array.getElem?_modify]
  have hentries : ∀ n, (s.modifyTracker j f).entriesAt n k = s.entriesAt n k := by
    intro n
    rw [entriesAt, hget, entriesAt]
    split
    · next h =>
      subst h
      cases ht : s.trackers[j]? with
      | none => rfl
      | some t => exact (hf t ht (hs.sound j t ht)).2
    · rfl
  refine ⟨⟨fun n t h => ?_, fun n hn => (hentries n).trans (hs.alone n hn)⟩, hentries i, fun _ h => h⟩
  rw [hget] at h
  split at h
  · next hn =>
    subst hn
    obtain ⟨u, hu, rfl⟩ := Option.map_eq_some_iff.1 h
    exact (hf u hu (hs.sound j u hu)).1
  · exact hs.sound n t h

/-- A new tracker has no entries. -/
theorem push {t : Tracker} (hs : s.Attends i k) (ht : s'.trackers = s.trackers.push t)
    (hempty : t.subscriptions = {}) (hc : s'.collectors = s.collectors) : Tallies i k [] s s' := by
  have hget : ∀ n, s'.trackers[n]? = if n = s.trackers.size then some t else s.trackers[n]? :=
    fun n => by rw [ht, Array.getElem?_push]
  have hentries : ∀ n, s'.entriesAt n k = s.entriesAt n k := by
    intro n
    rw [entriesAt, hget, entriesAt]
    split
    · next h =>
      rw [h, Array.getElem?_eq_none (Nat.le_refl _), Option.map_some, hempty]
      rfl
    · rfl
  refine ⟨⟨fun n u h => ?_, fun n hn => (hentries n).trans (hs.alone n hn)⟩, hentries i, ?_⟩
  · rw [hget] at h
    split at h
    · obtain rfl := Option.some.inj h
      rw [hempty]
      exact Subscriptions.sound_empty
    · exact hs.sound n u h
  · rw [totals?, totals?, hc]
    exact fun a ha => ha

/-- Other collectors do not matter. -/
theorem modifyCollector {m : Nat} (hs : s.Attends i k) (h : m ≠ k) (f : Collector → Collector) :
    Tallies i k [] s (s.modifyCollector m f) := by
  refine ⟨⟨hs.sound, hs.alone⟩, rfl, fun a ha => ?_⟩
  rw [totals?, Session.modifyCollector, Array.getElem?_modify, if_neg h]
  exact ha

theorem pushCollector {c : Collector} (hs : s.Attends i k) (ht : s'.trackers = s.trackers)
    (hc : s'.collectors = s.collectors.push c) : Tallies i k [] s s' := by
  obtain ⟨hattends, hentries, -⟩ : Tallies i k [] s { s' with collectors := s.collectors } :=
    of_same hs ht rfl
  refine ⟨⟨hattends.sound, hattends.alone⟩, hentries, fun a ha => ?_⟩
  obtain ⟨d, hd, rfl⟩ := Option.map_eq_some_iff.1 ha
  have hlt : k < s.collectors.size := (Array.getElem?_eq_some_iff.1 hd).1
  rw [totals?, hc, Array.getElem?_push_lt hlt, ← Array.getElem?_eq_getElem hlt, hd]
  rfl

/-- The collector adds an event. -/
theorem add_event (hs : s.Attends i k) (event : TraceEvent) :
    Tallies i k [event] s (s.modifyCollector k fun c => { c with totals := c.totals.add event }) := by
  refine ⟨⟨hs.sound, hs.alone⟩, rfl, fun a ha => ?_⟩
  obtain ⟨c, hc, rfl⟩ := Option.map_eq_some_iff.1 ha
  rw [totals?, Session.modifyCollector, Array.getElem?_modify, if_pos rfl, hc]
  rfl

end Tallies

end Session

/-! ### Relations about the totals of a collector -/

instance (i k : Nat) : Tolerant fun s s' => s.Attends i k → s.Tallies i k [] s' where
  chains := { refl := fun _ hs => .refl hs, trans := fun h h' hs => (h hs).trans (h' (h hs).attends) }
  of_same ht hc _ hs := .of_same hs ht hc

/-- A relation that can be chained and holds where a tracker keeps all but its observers, and a collector that
attends to it its entries and its totals. -/
class Discreet (i k : outParam Nat) (R : Session → Session → Prop) : Prop where
  chains : Chains R
  of_not : ∀ {s s'}, ¬s.Attends i k → R s s'
  of_tallies : ∀ {s s'}, s.Attends i k → KeepsAt i s s' → s'.announcing i = s.announcing i →
    s.logs.size ≤ s'.logs.size → s.Tallies i k [] s' → R s s'

instance {i k : Nat} {R : Session → Session → Prop} [Discreet i k R] : Tolerant R where
  chains := Discreet.chains
  of_same {s s'} ht hc hlogs := by
    by_cases hs : s.Attends i k
    · exact Discreet.of_tallies hs (.of_trackers ht) (by rw [Session.announcing, ht, Session.announcing])
        hlogs (.of_same hs ht hc)
    · exact Discreet.of_not hs

/-! ### Observers that do not meddle -/

/-- What the tracker emits, and to whom, is no longer its own affair. -/
def TrackerRequest.meddles : TrackerRequest → Bool
  | .emit _ | .dispose => true
  | _ => false

/-- The collector is attached, detached or reset. -/
def CollectorRequest.meddles : CollectorRequest → Bool
  | .attach _ | .detach | .reset => true
  | _ => false

/-- The request meddles with what the collector hears of the tracker, or with its totals. -/
def Request.disturbs (i k : Nat) (s : Session) : Request → Bool
  | .tracker name r => r.meddles && s.trackerNames.get? name == some i
  | .collector name r => r.meddles && s.collectorNames.get? name == some k
  | _ => false

namespace Act

/-- Carries out a request that disturbs nothing. -/
def performUndisturbed (i k : Nat) (respond : Respond) (r : Request) : Act Value := do
  if r.disturbs i k (← get) then throw (.thrown "disturbs") else perform respond r

/-- The response of an observer whose requests disturb nothing, and that does not fail. -/
def respondUndisturbed (i k : Nat) : Nat → Respond
  | 0, _ => return ()
  | depth + 1, call => do
    see (.called call)
    let _ ← attempt (runScript (performUndisturbed i k (respondUndisturbed i k depth))
      ((← get).scriptFor call.id call.occasion))

/-- What holds across requests that disturb nothing, if it does across what observers do meanwhile, holds
across all that observers do. -/
theorem along_respondUndisturbed_of {i k : Nat} {R : Session → Session → Prop} [Tolerant R]
    (ht : ∀ depth, (∀ c, (respondUndisturbed i k depth c).Along R) →
      ∀ r, (performUndisturbed i k (respondUndisturbed i k depth) r).Along R) :
    ∀ depth c, (respondUndisturbed i k depth c).Along R
  | 0, _ => along_pure _
  | depth + 1, _ =>
    (along_see _).then fun _ => along_get.then fun _ =>
      (Along.attempt (along_runScript (ht depth (along_respondUndisturbed_of ht depth)) _)).then fun _ =>
        along_pure _

/-- While a tracker is announcing something, they leave what it remembers as it is. -/
theorem sparing_respondUndisturbed (i k depth : Nat) (c : ObserverCall) :
    (respondUndisturbed i k depth c).Along (Spares i) := by
  refine along_respondUndisturbed_of (fun depth hr r => along_get.then fun s => ?_) depth c
  exact Along.ite (along_throw _) (along_perform hr (takes_spares i _) r)

/-! ### Actions that leave the totals alone -/

section Discreet
open Discreet

variable {i k : Nat} {R : Session → Session → Prop} [hR : Discreet i k R]
include hR

/-- A change of a tracker that concerns neither what it keeps nor the entries of the collector. -/
theorem alongAt_modifyTracker {s : Session} {j : Nat} {f : Tracker → Tracker}
    (hkeeps : KeepsAt i s (s.modifyTracker j f))
    (hf : s.Attends i k → ∀ t, s.trackers[j]? = some t → t.subscriptions.Sound →
      (f t).subscriptions.Sound ∧
        (f t).subscriptions.entriesOf (.collector k) = t.subscriptions.entriesOf (.collector k)) :
    (modifyTracker j f).AlongAt R s := by
  by_cases hs : s.Attends i k
  · exact of_tallies hs hkeeps hkeeps.announcing_modifyTracker (Nat.le_refl _) (.modifyTracker hs (hf hs))
  · exact of_not hs

theorem along_resubscribe {f : Tracker → Tracker} (hkeeps : ∀ t : Tracker, t.Keeps (f t))
    (hf : ∀ t : Tracker, t.subscriptions.Sound → (f t).subscriptions.Sound ∧
      (f t).subscriptions.entriesOf (.collector k) = t.subscriptions.entriesOf (.collector k)) (j : Nat) :
    (modifyTracker j f).Along R :=
  fun s => alongAt_modifyTracker (.modifyTracker hkeeps j s) fun _ t _ => hf t

/-- Another tracker notes something about itself. -/
theorem along_noteElsewhere {j : Nat} (hj : j ≠ i) (f : Tracker → Tracker)
    (hf : ∀ t, (f t).subscriptions = t.subscriptions ∧ (f t).log = t.log) :
    (modifyTracker j f).Along R :=
  fun s => alongAt_modifyTracker (.modifyTracker_ne hj f s) fun _ t _ ht => by
    rw [(hf t).1]
    exact ⟨ht, rfl⟩

theorem along_modifyOtherCollector {m : Nat} (hm : m ≠ k) (f : Collector → Collector) :
    (modifyCollector m f).Along R := by
  intro s
  by_cases hs : s.Attends i k
  · exact of_tallies hs (.of_trackers rfl) rfl (Nat.le_refl _) (.modifyCollector hs hm f)
  · exact of_not hs

variable {respond : Respond}

/-- Another tracker calls subscribers. -/
theorem along_callSubscribersElsewhere (hr : ∀ c, (respond c).Along R) {index : Nat} (hindex : index ≠ i)
    (event : TraceEvent) : ∀ entries : List Subscription, (∀ e ∈ entries, e.subscriber ≠ .collector k) →
      (callSubscribers respond index event entries).Along R
  | [], _ => along_pure _
  | e :: rest, h => by
    obtain ⟨he, hrest⟩ := List.forall_mem_cons.1 h
    have ih := along_callSubscribersElsewhere hr hindex event rest hrest
    have hcall : (callSubscriber respond event e.subscriber).Along R := by
      cases hwho : e.subscriber with
      | observer id => exact hr _
      | collector m => exact along_modifyOtherCollector (fun hm => he (hwho.trans (by rw [hm]))) _
    intro s
    refine AlongAt.then (along_tracker index s) fun t ht => ?_
    obtain ⟨ht, hsame⟩ := getElem?_of_ran_tracker ht
    rw [hsame]
    cases hclaim : t.subscriptions.claim e with
    | none => exact ih s
    | some subscriptions =>
      refine AlongAt.then (alongAt_modifyTracker (.modifyTracker_ne hindex _ s) fun hs u hu hsound => ?_)
        fun _ _ => hcall.then (fun _ => ih) _
      obtain rfl := Option.some.inj (ht.symm.trans hu)
      refine ⟨hsound.claim hclaim, Subscriptions.entriesOf_claim hclaim fun _ => ?_⟩
      rw [← Session.entriesAt_eq ht, hs.alone index hindex]
      simp

/-- Another tracker emits an event. -/
theorem along_emitElsewhere (hr : ∀ c, (respond c).Along R) {index : Nat} (hindex : index ≠ i)
    (event : TraceEvent) : (emit respond index event).Along R := by
  intro s
  by_cases hs : s.Attends i k
  · refine AlongAt.then (along_tracker index s) fun t ht => ?_
    obtain ⟨ht, hsame⟩ := getElem?_of_ran_tracker ht
    rw [hsame]
    refine Along.then (along_callSubscribersElsewhere hr hindex event _ fun e he hwho => ?_)
      (fun _ => along_pure _) s
    have hmem : e ∈ s.entriesAt index k := by
      rw [Session.entriesAt_eq ht, Subscriptions.mem_entriesOf]
      exact ⟨List.mem_of_mem_filter he, hwho⟩
    rw [hs.alone index hindex] at hmem
    cases hmem
  · exact of_not hs

/-- The steps of a plan of another tracker. -/
theorem along_carryOutStepsElsewhere (hr : ∀ c, (respond c).Along R) {index : Nat} (hindex : index ≠ i)
    (steps : List Step) : (carryOutSteps respond index steps).Along R :=
  along_carryOutSteps_of hr (along_emitElsewhere hr hindex) (along_noteElsewhere hindex) steps

/-! ### Requests that disturb nothing -/

theorem alongAt_performOnTracker (hr : ∀ c, (respond c).Along R) (ht : Takes i R respond) {s : Session}
    {index : Nat} {r : TrackerRequest} (hquiet : r.meddles = true → index ≠ i) :
    (performOnTracker respond index r).AlongAt R s := by
  refine AlongAt.then (along_tracker index s) fun t hran => ?_
  obtain ⟨hs, hsame⟩ := getElem?_of_ran_tracker hran
  rw [hsame]
  cases r with
  | transition x =>
    have hcarry : (carryOut respond index (t.plan x)).AlongAt R s := by
      by_cases hi : index = i
      · exact hi ▸ ht t x s (hi ▸ hs)
      · exact (along_carryOutStepsElsewhere hr hi _).then (fun _ => along_ofExcept _) s
    exact hcarry.then fun _ _ => along_pure _ _
  | create | listenerCount | subscriberCount | view => exact along_pure _ _
  | register | unregister | setOkCallback | setErrorCallback =>
    refine Along.then (along_resubscribe ?_ ?_ index) (fun _ => along_pure _) _
    · exact fun _ => ⟨rfl, rfl, rfl, rfl⟩
    · exact fun _ h => ⟨h, rfl⟩
  | subscribe kind id once =>
    refine Along.then (along_resubscribe ?_ ?_ index) (fun _ => along_pure _) _
    · exact fun _ => ⟨rfl, rfl, rfl, rfl⟩
    · exact fun _ h => ⟨h.add _ _ _, Subscriptions.entriesOf_add_of_ne _ _ _ (by rintro ⟨⟩)⟩
  | unsubscribe kind id =>
    refine Along.then (along_resubscribe ?_ ?_ index) (fun _ => along_pure _) _
    · exact fun _ => ⟨rfl, rfl, rfl, rfl⟩
    · exact fun _ h => ⟨h.remove _ _, Subscriptions.entriesOf_remove_of_ne h _ (by rintro ⟨⟩)⟩
  | emit event => exact (along_emitElsewhere hr (hquiet rfl) event).then (fun _ => along_pure _) s
  | ask => exact along_askTracker _ _ _ _ _
  | dispose =>
    refine Along.ite (Along.then ?_ fun _ => (along_write _ _).then fun _ => along_pure _) (along_pure _) s
    refine fun s => alongAt_modifyTracker (.modifyTracker_ne (hquiet rfl) _ s) fun hattends u hu _ => ?_
    refine ⟨Subscriptions.sound_clear _, ?_⟩
    rw [← Session.entriesAt_eq hu, hattends.alone index (hquiet rfl)]
    rfl

theorem along_createTrackerBeside (name : String) (preset : Option String) (overrides : Overrides) :
    (createTracker name preset overrides).Along R := by
  refine along_createTracker_of name preset overrides fun s s' config log t _ hcreate ht hc _ hlogs => ?_
  obtain ⟨table, rfl⟩ := Tracker.eq_of_create hcreate
  by_cases hs : s.Attends i k
  · exact of_tallies hs (.of_push ht) (KeepsAt.announcing_of_push ht rfl)
      (Nat.le_of_eq (congrArg Array.size hlogs.symm)) (.push hs ht rfl hc)
  · exact of_not hs

theorem alongAt_performTracker (hr : ∀ c, (respond c).Along R) (ht : Takes i R respond) {s : Session}
    {name : String} {r : TrackerRequest} (hquiet : (Request.tracker name r).disturbs i k s = false) :
    (performTracker respond name r).AlongAt R s := by
  refine alongAt_performTracker_of (fun _ _ => along_createTrackerBeside _ _ _ s) fun index hindex => ?_
  refine alongAt_performOnTracker hr ht fun hmeddles hi => ?_
  rw [Request.disturbs, hmeddles, hindex, hi] at hquiet
  simp at hquiet

/-- Another collector is detached. -/
theorem along_detachOther {m : Nat} (hm : m ≠ k) : (detach m).Along R := by
  refine along_detach_of (along_modifyOtherCollector hm) fun kind j => along_resubscribe ?_ ?_ j
  · exact fun _ => ⟨rfl, rfl, rfl, rfl⟩
  · exact fun _ h => ⟨h.remove _ _, Subscriptions.entriesOf_remove_of_ne h _ fun heq =>
      hm (Subscriber.collector.inj heq)⟩

/-- Another collector is attached. -/
theorem along_attachOther {m : Nat} (hm : m ≠ k) (tracker : Nat) : (attach m tracker).Along R := by
  refine along_attach_of (along_detachOther hm) (along_modifyOtherCollector hm)
    (fun kind j => along_resubscribe ?_ ?_ j) tracker
  · exact fun _ => ⟨rfl, rfl, rfl, rfl⟩
  · exact fun _ h => ⟨h.add _ _ _, Subscriptions.entriesOf_add_of_ne _ _ _ fun heq =>
      hm (Subscriber.collector.inj heq)⟩

theorem alongAt_performCollector {s : Session} {name : String} {r : CollectorRequest}
    (hquiet : (Request.collector name r).disturbs i k s = false) : (performCollector name r).AlongAt R s := by
  have hother : r.meddles = true → ∀ m, s.collectorNames.get? name = some m → m ≠ k := by
    rintro hmeddles m hm rfl
    rw [Request.disturbs, hmeddles, hm] at hquiet
    simp at hquiet
  refine alongAt_performCollector_of (fun s s' c ht hc _ hlogs => ?_) ?_ ?_ ?_
  · by_cases hs : s.Attends i k
    · exact of_tallies hs (.of_trackers ht) (by rw [Session.announcing, Session.announcing, ht])
        (Nat.le_of_eq (congrArg Array.size hlogs.symm)) (.pushCollector hs ht hc)
    · exact of_not hs
  · rintro t m j rfl hm
    exact along_attachOther (hother rfl m hm) j
  · rintro m rfl hm
    exact along_detachOther (hother rfl m hm)
  · rintro m rfl hm
    exact along_modifyOtherCollector (hother rfl m hm) _

/-- What holds across what observers do and across the transitions of the tracker, holds across each request
that disturbs nothing. -/
theorem along_performUndisturbed (hr : ∀ c, (respond c).Along R) (ht : Takes i R respond) (r : Request) :
    (performUndisturbed i k respond r).Along R := by
  intro s
  refine AlongAt.then (along_get s) fun s' hs' => ?_
  obtain rfl := Except.ok.inj hs'
  cases hquiet : r.disturbs i k s with
  | true => exact along_throw _ s
  | false =>
    refine alongAt_perform_of (fun name q _ => along_performRegistry hr name q s) (fun name q h => ?_)
      fun name q h => ?_
    · exact alongAt_performTracker hr ht (h ▸ hquiet)
    · exact alongAt_performCollector (h ▸ hquiet)

/-- So it holds across all that observers do that disturb nothing. -/
theorem along_respondUndisturbed
    (ht : ∀ depth, (∀ c, (respondUndisturbed i k depth c).Along R) →
      Takes i R (respondUndisturbed i k depth)) :
    ∀ depth c, (respondUndisturbed i k depth c).Along R :=
  along_respondUndisturbed_of fun depth hr r => along_performUndisturbed hr (ht depth hr) r

end Discreet

end Act

/-! ### What is left alone while a tracker is announcing something -/

/-- If the tracker is announcing something, the collector that attends to it keeps its totals. -/
def Hushed (i k : Nat) (s s' : Session) : Prop :=
  s.Attends i k → s.announcing i ≠ 0 → s'.announcing i = s.announcing i ∧ s.Tallies i k [] s'

instance (i k : Nat) : Discreet i k (Hushed i k) where
  chains :=
    { refl := fun _ hs _ => ⟨rfl, .refl hs⟩
      trans := fun h h' hs hne => by
        obtain ⟨hann, htallies⟩ := h hs hne
        obtain ⟨hann', htallies'⟩ := h' htallies.attends (hann ▸ hne)
        exact ⟨hann'.trans hann, htallies.trans htallies'⟩ }
  of_not hs hs' := absurd hs' hs
  of_tallies _ _ hann _ htallies _ _ := ⟨hann, htallies⟩

namespace Act

/-- A tracker that is announcing something takes no transition. -/
theorem takes_hushed (i k : Nat) (respond : Respond) : Takes i (Hushed i k) respond := by
  intro t x s ht hs hne
  have hbusy : t.announcing ≠ 0 := by
    rw [Session.announcing, ht] at hne
    exact hne
  have hcarry : (carryOut respond i (t.plan x)).Along (Hushed i k) :=
    along_carryOut (t.logs_of_announcing hbusy x)
  exact hcarry s hs hne

/-- Whatever observers do while a tracker is announcing something, if they disturb nothing, the collector
keeps its totals. -/
theorem hushed_respond (i k depth : Nat) (c : ObserverCall) :
    (respondUndisturbed i k depth c).Along (Hushed i k) :=
  along_respondUndisturbed (fun _ _ => takes_hushed i k _) depth c

end Act

end RadioOccupancy
