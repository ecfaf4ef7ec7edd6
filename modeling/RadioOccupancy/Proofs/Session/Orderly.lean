import RadioOccupancy.Proofs.Influence
import RadioOccupancy.Proofs.Session.Undisturbed

/-!
Where collectors have entries.

    collectors:   0 attached to 1     1 attached to none
    tracker 0:    mac
    tracker 1:    mac   stateChange 0   tx 0   rxOk 0   rxError 0

A collector has entries at the tracker that it is attached to and nowhere else, and there it has one for each
kind of event at most (`Session.Orderly`). So detaching it removes all of them, although each removal is of
the latest entry only. This is so in every session that requests lead to (`Session.orderly_after`), whatever
observers do meanwhile and whether they fail.
-/

namespace RadioOccupancy

namespace Session

/-- Each tracker has its log, its entries are told apart by their serials, and collectors have entries only
where they are attached, one for each kind of event at most. -/
structure Orderly (s : Session) : Prop where
  logs : ∀ (j : Nat) (t : Tracker), s.trackers[j]? = some t → t.log < s.logs.size
  sound : ∀ (j : Nat) (t : Tracker), s.trackers[j]? = some t → t.subscriptions.Sound
  single : ∀ (j k : Nat) (kind : TraceKind), ((s.entriesAt j k).filter fun e => e.kind = kind).length ≤ 1
  attached : ∀ j k : Nat, s.entriesAt j k ≠ [] → ∃ c, s.collectors[k]? = some c ∧ c.tracker = some j

theorem modifyTracker_id (s : Session) (j : Nat) : s.modifyTracker j (fun t => t) = s := by
  have hsame : s.trackers.modify j (fun t => t) = s.trackers := by
    refine Array.ext_getElem? fun n => ?_
    rw [Array.getElem?_modify]
    split
    · exact Option.map_id' ..
    · rfl
  exact congrArg (fun trackers => { s with trackers }) hsame

theorem modifyTracker_modifyTracker (s : Session) (j : Nat) (f g : Tracker → Tracker) :
    (s.modifyTracker j f).modifyTracker j g = s.modifyTracker j fun t => g (f t) := by
  have hsame : (s.trackers.modify j f).modify j g = s.trackers.modify j fun t => g (f t) := by
    refine Array.ext_getElem? fun n => ?_
    rw [Array.getElem?_modify, Array.getElem?_modify, Array.getElem?_modify]
    split
    · exact Option.map_map ..
    · rfl
  exact congrArg (fun trackers => { s with trackers }) hsame

theorem entriesAt_modifyTracker {s : Session} {j : Nat} {t : Tracker} (ht : s.trackers[j]? = some t)
    (f : Tracker → Tracker) (k : Nat) :
    (s.modifyTracker j f).entriesAt j k = (f t).subscriptions.entriesOf (.collector k) :=
  entriesAt_eq (Act.getElem?_modifyTracker ht f) k

theorem entriesAt_modifyTracker_of_ne (s : Session) {j n : Nat} (h : j ≠ n) (f : Tracker → Tracker)
    (k : Nat) : (s.modifyTracker j f).entriesAt n k = s.entriesAt n k := by
  rw [entriesAt, modifyTracker, Array.getElem?_modify, if_neg h]
  rfl

namespace Orderly

variable {s s' : Session}

theorem empty : ({} : Session).Orderly :=
  ⟨fun _ _ h => by simp at h, fun _ _ h => by simp at h, fun _ _ _ => Nat.zero_le _,
    fun _ _ h => absurd rfl h⟩

/-- A collector that is attached to none has no entries. -/
theorem unheard (h : s.Orderly) {k : Nat} {c : Collector} (hc : s.collectors[k]? = some c)
    (hfree : c.tracker = none) (j : Nat) : s.entriesAt j k = [] := by
  by_contra hne
  obtain ⟨d, hd, htracker⟩ := h.attached j k hne
  obtain rfl := Option.some.inj (hc.symm.trans hd)
  rw [hfree] at htracker
  cases htracker

/-- A collector that is attached has entries at its tracker only. -/
theorem attends (h : s.Orderly) {i k : Nat} {c : Collector} (hc : s.collectors[k]? = some c)
    (hi : c.tracker = some i) : s.Attends i k := by
  refine ⟨h.sound, fun j hj => ?_⟩
  by_contra hne
  obtain ⟨d, hd, htracker⟩ := h.attached j k hne
  obtain rfl := Option.some.inj (hc.symm.trans hd)
  exact hj (Option.some.inj (htracker.symm.trans hi))

theorem hasLog (h : s.Orderly) {i : Nat} {t : Tracker} (ht : s.trackers[i]? = some t) : s.HasLog i :=
  ⟨t, ht, h.logs i t ht⟩

/-- It stays so where trackers lose entries at most, and collectors stay attached to the trackers that they
are attached to. -/
theorem of_less (h : s.Orderly)
    (htrackers : ∀ (j : Nat) (t' : Tracker), s'.trackers[j]? = some t' →
      t'.log < s'.logs.size ∧ t'.subscriptions.Sound)
    (hless : ∀ j k : Nat, (s'.entriesAt j k).Sublist (s.entriesAt j k))
    (hcollectors : ∀ (j k : Nat) (c : Collector), s.collectors[k]? = some c → c.tracker = some j →
      s'.entriesAt j k ≠ [] → ∃ c', s'.collectors[k]? = some c' ∧ c'.tracker = some j) : s'.Orderly where
  logs j t ht := (htrackers j t ht).1
  sound j t ht := (htrackers j t ht).2
  single j k kind := Nat.le_trans ((hless j k).filter _).length_le (h.single j k kind)
  attached j k hne := by
    obtain ⟨c, hc, hj⟩ := h.attached j k fun hnil => hne (List.sublist_nil.1 (hnil ▸ hless j k))
    exact hcollectors j k c hc hj hne

theorem of_same (h : s.Orderly) (ht : s'.trackers = s.trackers) (hc : s'.collectors = s.collectors)
    (hlogs : s.logs.size ≤ s'.logs.size) : s'.Orderly := by
  refine h.of_less (fun j t hj => ?_) (fun j k => ?_) fun j k c hk hj _ => ⟨c, hc ▸ hk, hj⟩
  · rw [ht] at hj
    exact ⟨Nat.lt_of_lt_of_le (h.logs j t hj) hlogs, h.sound j t hj⟩
  · rw [entriesAt, ht]
    exact List.Sublist.refl _

/-- A tracker loses entries at most. -/
theorem modifyTracker (h : s.Orderly) {j : Nat} {f : Tracker → Tracker}
    (hf : ∀ t, s.trackers[j]? = some t → (f t).log = t.log ∧ (f t).subscriptions.Sound ∧
      ∀ k, ((f t).subscriptions.entriesOf (.collector k)).Sublist
        (t.subscriptions.entriesOf (.collector k))) : (s.modifyTracker j f).Orderly := by
  refine h.of_less (fun n t' hn => ?_) (fun n k => ?_) fun n k c hk hn _ => ⟨c, hk, hn⟩
  · rw [Session.modifyTracker, Array.getElem?_modify] at hn
    split at hn
    · next heq =>
      subst heq
      obtain ⟨t, ht, rfl⟩ := Option.map_eq_some_iff.1 hn
      obtain ⟨hlog, hsound, -⟩ := hf t ht
      exact ⟨hlog.symm ▸ h.logs _ t ht, hsound⟩
    · exact ⟨h.logs n t' hn, h.sound n t' hn⟩
  · by_cases heq : j = n
    · subst heq
      cases ht : s.trackers[j]? with
      | none => simp [entriesAt, Session.modifyTracker, Array.getElem?_modify, ht]
      | some t =>
        rw [entriesAt_eq ht, entriesAt_modifyTracker ht]
        exact (hf t ht).2.2 k
    · rw [entriesAt_modifyTracker_of_ne s heq]

theorem resubscribe (h : s.Orderly) {j : Nat} {f : Subscriptions → Subscriptions}
    (hsound : ∀ subs, subs.Sound → (f subs).Sound)
    (hless : ∀ subs who, ((f subs).entriesOf who).Sublist (subs.entriesOf who)) :
    (s.modifyTracker j fun t => { t with subscriptions := f t.subscriptions }).Orderly :=
  h.modifyTracker fun t ht => ⟨rfl, hsound _ (h.sound j t ht), fun _ => hless _ _⟩

/-- A collector that has entries stays attached. -/
theorem modifyCollector (h : s.Orderly) (m : Nat) {f : Collector → Collector}
    (hf : ∀ (j : Nat) (c : Collector), s.collectors[m]? = some c → c.tracker = some j →
      s.entriesAt j m ≠ [] → (f c).tracker = some j) : (s.modifyCollector m f).Orderly := by
  refine h.of_less (fun j t hj => ⟨h.logs j t hj, h.sound j t hj⟩) (fun _ _ => List.Sublist.refl _)
    fun j k c hk hj hne => ?_
  rw [Session.modifyCollector, Array.getElem?_modify]
  split
  · next heq =>
    subst heq
    rw [hk]
    exact ⟨f c, rfl, hf j c hk hj hne⟩
  · exact ⟨c, hk, hj⟩

/-- A new tracker has no entries yet. -/
theorem pushTracker (h : s.Orderly) {t : Tracker} (ht : s'.trackers = s.trackers.push t)
    (hc : s'.collectors = s.collectors) (hlogs : s'.logs = s.logs) (hlog : t.log < s.logs.size)
    (hnone : t.subscriptions = {}) : s'.Orderly := by
  refine h.of_less (fun j u hj => ?_) (fun j k => ?_) fun j k c hk hj _ => ⟨c, hc ▸ hk, hj⟩
  · rw [ht, Array.getElem?_push] at hj
    rw [hlogs]
    split at hj
    · obtain rfl := Option.some.inj hj
      exact ⟨hlog, hnone ▸ Subscriptions.sound_empty⟩
    · exact ⟨h.logs j u hj, h.sound j u hj⟩
  · rw [entriesAt, ht, Array.getElem?_push]
    split
    · rw [Option.map_some, hnone]
      exact List.nil_sublist _
    · exact List.Sublist.refl _

/-- A new collector has none either. -/
theorem pushCollector (h : s.Orderly) {d : Collector} (ht : s'.trackers = s.trackers)
    (hc : s'.collectors = s.collectors.push d) (hlogs : s'.logs = s.logs) : s'.Orderly := by
  refine h.of_less (fun j t hj => ?_) (fun j k => ?_) fun j k c hk hj _ => ⟨c, ?_, hj⟩
  · rw [ht] at hj
    rw [hlogs]
    exact ⟨h.logs j t hj, h.sound j t hj⟩
  · rw [entriesAt, ht]
    exact List.Sublist.refl _
  · have hlt : k < s.collectors.size := (Array.getElem?_eq_some_iff.1 hk).1
    rw [hc, Array.getElem?_push_lt hlt, ← Array.getElem?_eq_getElem hlt, hk]

/-- Removing the latest entry for each kind of event leaves none. -/
theorem entriesAt_removeAll (h : s.Orderly) (j k : Nat) :
    (s.modifyTracker j fun t =>
      { t with subscriptions := t.subscriptions.removeAll (.collector k) TraceKind.all }).entriesAt j k =
        [] := by
  cases ht : s.trackers[j]? with
  | none => simp [entriesAt, Session.modifyTracker, Array.getElem?_modify, ht]
  | some t =>
    have hsingle : ∀ kind,
        ((t.subscriptions.entriesOf (.collector k)).filter fun e => e.kind = kind).length ≤ 1 :=
      entriesAt_eq ht k ▸ h.single j k
    rw [entriesAt_modifyTracker ht]
    dsimp only
    exact Subscriptions.entriesOf_removeAll hsingle

/-- A collector that is detached loses its entries. -/
theorem removeAll (h : s.Orderly) {j k : Nat} {c : Collector} (hc : s.collectors[k]? = some c)
    (hj : c.tracker = some j) :
    ((s.modifyTracker j fun t =>
      { t with subscriptions := t.subscriptions.removeAll (.collector k) TraceKind.all }).modifyCollector k
        fun c => { c with tracker := none }).Orderly := by
  have hless := h.resubscribe (j := j) (f := fun subs => subs.removeAll (.collector k) TraceKind.all)
    (fun _ hs => hs.removeAll _ _) fun _ _ => Subscriptions.entriesOf_removeAll_sublist ..
  refine hless.modifyCollector k fun n d hd hn hne => absurd ?_ hne
  obtain rfl := Option.some.inj (hc.symm.trans hd)
  obtain rfl := Option.some.inj (hj.symm.trans hn)
  exact h.entriesAt_removeAll j k

end Orderly

/-- The collector has one entry for each kind of event, which lasts. -/
def Subscribed (i k : Nat) (s : Session) : Prop :=
  ∀ kind, ∃ e, (s.entriesAt i k).filter (fun e => e.kind = kind) = [e] ∧ e.once = false

/-- The session after a collector has subscribed to everything at a tracker. -/
def subscribing (s : Session) (i k : Nat) : Session :=
  (s.modifyCollector k fun c => { c with tracker := some i }).modifyTracker i fun t =>
    { t with subscriptions := t.subscriptions.addAll (.collector k) TraceKind.all }

theorem entriesAt_subscribing {s : Session} {i : Nat} {t : Tracker} (ht : s.trackers[i]? = some t)
    (k m : Nat) : (s.subscribing i k).entriesAt i m =
      (t.subscriptions.addAll (.collector k) TraceKind.all).entriesOf (.collector m) := by
  have ht' : (s.modifyCollector k fun c => { c with tracker := some i }).trackers[i]? = some t := ht
  rw [subscribing, entriesAt_modifyTracker ht']

/-- A collector that was attached to none has one entry for each kind of event afterwards, which lasts. -/
theorem Orderly.subscribed_subscribing {s : Session} (h : s.Orderly) {i k : Nat} {c : Collector} {t : Tracker}
    (hc : s.collectors[k]? = some c) (hfree : c.tracker = none) (ht : s.trackers[i]? = some t) :
    (s.subscribing i k).Subscribed i k := by
  intro kind
  have hentries : ((s.subscribing i k).entriesAt i k).map (fun e => (e.kind, e.once)) =
      TraceKind.all.map (·, false) := by
    rw [entriesAt_subscribing ht, Subscriptions.entriesOf_addAll, ← entriesAt_eq ht,
      h.unheard hc hfree]
    rfl
  have hfilter := List.filter_map (f := fun e : Subscription => (e.kind, e.once))
    (p := fun x => decide (x.1 = kind)) (l := (s.subscribing i k).entriesAt i k)
  rw [hentries] at hfilter
  have hmap : (((s.subscribing i k).entriesAt i k).filter fun e => e.kind = kind).map
      (fun e => (e.kind, e.once)) = [(kind, false)] := by
    refine hfilter.symm.trans ?_
    cases kind <;> rfl
  obtain ⟨e, he, heq⟩ := List.map_eq_singleton_iff.1 hmap
  exact ⟨e, he, (Prod.mk.inj heq).2⟩

/-- Nobody else has other entries than before. -/
theorem entriesAt_subscribing_of_ne (s : Session) {i j k m : Nat} (h : j = i → m ≠ k) :
    (s.subscribing i k).entriesAt j m = s.entriesAt j m := by
  by_cases hj : i = j
  · subst hj
    have hm : Subscriber.collector k ≠ .collector m := by
      rintro ⟨⟩
      exact h rfl rfl
    cases ht : s.trackers[i]? with
    | none => simp [entriesAt, subscribing, modifyTracker, modifyCollector, Array.getElem?_modify, ht]
    | some t =>
      rw [entriesAt_subscribing ht, entriesAt_eq ht]
      exact Subscriptions.entriesOf_addAll_of_ne _ _ hm
  · rw [subscribing, entriesAt_modifyTracker_of_ne _ hj]
    rfl

theorem getElem?_subscribing {s : Session} {k : Nat} {c : Collector} (hc : s.collectors[k]? = some c)
    (i : Nat) : (s.subscribing i k).collectors[k]? = some { c with tracker := some i } := by
  change (s.collectors.modify k _)[k]? = _
  rw [Array.getElem?_modify, if_pos rfl, hc]
  rfl

theorem Orderly.subscribing {s : Session} (h : s.Orderly) {k : Nat} {c : Collector}
    (hc : s.collectors[k]? = some c) (hfree : c.tracker = none) (i : Nat) :
    (s.subscribing i k).Orderly := by
  have htrackers : ∀ (j : Nat) (t' : Tracker), (s.subscribing i k).trackers[j]? = some t' →
      t'.log < s.logs.size ∧ t'.subscriptions.Sound := by
    intro j t' ht'
    change (s.trackers.modify i _)[j]? = some t' at ht'
    rw [Array.getElem?_modify] at ht'
    split at ht'
    · obtain ⟨t, ht, rfl⟩ := Option.map_eq_some_iff.1 ht'
      exact ⟨h.logs j t ht, (h.sound j t ht).addAll _ _⟩
    · exact ⟨h.logs j t' ht', h.sound j t' ht'⟩
  refine ⟨fun j t ht => (htrackers j t ht).1, fun j t ht => (htrackers j t ht).2, fun j m kind => ?_,
    fun j m hne => ?_⟩
  · by_cases hown : j = i ∧ m = k
    · obtain ⟨rfl, rfl⟩ := hown
      cases ht : s.trackers[j]? with
      | none =>
        have hnone : (s.subscribing j m).entriesAt j m = [] := by
          simp [entriesAt, Session.subscribing, Session.modifyTracker, Session.modifyCollector,
            Array.getElem?_modify, ht]
        rw [hnone]
        exact Nat.zero_le _
      | some t =>
        obtain ⟨e, he, -⟩ := h.subscribed_subscribing hc hfree ht kind
        rw [he]
        exact Nat.le_refl _
    · rw [entriesAt_subscribing_of_ne s fun hj hm => hown ⟨hj, hm⟩]
      exact h.single j m kind
  · by_cases hm : m = k
    · subst hm
      by_cases hj : j = i
      · exact ⟨_, getElem?_subscribing hc i, congrArg some hj.symm⟩
      · rw [entriesAt_subscribing_of_ne s fun h => absurd h hj] at hne
        exact absurd (h.unheard hc hfree j) hne
    · rw [entriesAt_subscribing_of_ne s fun _ => hm] at hne
      obtain ⟨d, hd, hj⟩ := h.attached j m hne
      refine ⟨d, ?_, hj⟩
      change (s.collectors.modify k _)[m]? = _
      rw [Array.getElem?_modify, if_neg (Ne.symm hm)]
      exact hd

end Session

/-- If a session is orderly before, it is afterwards. -/
def KeepsOrder (s s' : Session) : Prop :=
  s.Orderly → s'.Orderly

instance : Tolerant KeepsOrder where
  chains := { refl := fun _ h => h, trans := fun h h' hs => h' (h hs) }
  of_same ht hc hlogs h := h.of_same ht hc hlogs

namespace Act

/-! ### What trackers and collectors do to the entries -/

section Orderly

variable {respond : Respond}

/-- A tracker loses entries of collectors at most. -/
theorem keepsOrder_resubscribe {f : Tracker → Tracker}
    (hf : ∀ t, (f t).log = t.log ∧ (t.subscriptions.Sound → (f t).subscriptions.Sound) ∧
      ∀ k, ((f t).subscriptions.entriesOf (.collector k)).Sublist
        (t.subscriptions.entriesOf (.collector k))) (j : Nat) :
    (modifyTracker j f).Along KeepsOrder := by
  intro s h
  refine h.modifyTracker fun t ht => ?_
  obtain ⟨hlog, hsound, hless⟩ := hf t
  exact ⟨hlog, hsound (h.sound j t ht), hless⟩

/-- A tracker changes something else than its entries. -/
theorem keepsOrder_note {f : Tracker → Tracker}
    (hf : ∀ t, (f t).subscriptions = t.subscriptions ∧ (f t).log = t.log) (j : Nat) :
    (modifyTracker j f).Along KeepsOrder := by
  refine keepsOrder_resubscribe (fun t => ⟨(hf t).2, ?_⟩) j
  rw [(hf t).1]
  exact ⟨id, fun _ => List.Sublist.refl _⟩

theorem keepsOrder_modifyCollector (m : Nat) {f : Collector → Collector}
    (hf : ∀ c, (f c).tracker = c.tracker) : (modifyCollector m f).Along KeepsOrder :=
  fun _ h => h.modifyCollector m fun _ c _ hj _ => (hf c).trans hj

/-- A subscriber has its turn. -/
theorem keepsOrder_claim {s : Session} {index : Nat} {t : Tracker} {e : Subscription}
    {subscriptions : Subscriptions} (ht : s.trackers[index]? = some t)
    (hclaim : t.subscriptions.claim e = some subscriptions) :
    KeepsOrder s (s.modifyTracker index fun t => { t with subscriptions }) := by
  refine fun h => h.modifyTracker fun u hu => ?_
  obtain rfl := Option.some.inj (ht.symm.trans hu)
  exact ⟨rfl, (h.sound index t ht).claim hclaim, fun k => Subscriptions.entriesOf_claim_sublist hclaim _⟩

theorem keepsOrder_callSubscribers (hr : ∀ c, (respond c).Along KeepsOrder) (index : Nat)
    (event : TraceEvent) : ∀ entries, (callSubscribers respond index event entries).Along KeepsOrder
  | [] => along_pure _
  | e :: rest => by
    have ih := keepsOrder_callSubscribers hr index event rest
    have hcall : (callSubscriber respond event e.subscriber).Along KeepsOrder := by
      cases e.subscriber with
      | observer id => exact hr _
      | collector m =>
        refine keepsOrder_modifyCollector m ?_
        exact fun _ => rfl
    intro s
    refine AlongAt.then (along_tracker index s) fun t ht => ?_
    obtain ⟨ht, hsame⟩ := getElem?_of_ran_tracker ht
    rw [hsame]
    cases hclaim : t.subscriptions.claim e with
    | none => exact ih s
    | some subscriptions =>
      exact AlongAt.then (keepsOrder_claim ht hclaim) fun _ _ => hcall.then (fun _ => ih) _

theorem keepsOrder_emit (hr : ∀ c, (respond c).Along KeepsOrder) (index : Nat) (event : TraceEvent) :
    (emit respond index event).Along KeepsOrder :=
  (along_tracker index).then fun _ =>
    (keepsOrder_callSubscribers hr index event _).then fun _ => along_pure _

theorem keepsOrder_performOnTracker (hr : ∀ c, (respond c).Along KeepsOrder) (index : Nat)
    (r : TrackerRequest) : (performOnTracker respond index r).Along KeepsOrder := by
  refine (along_tracker index).then fun t => ?_
  cases r with
  | transition x =>
    have hsteps := along_carryOutSteps_of hr (keepsOrder_emit hr index)
      (fun f hf => keepsOrder_note hf index) (t.plan x).steps
    exact (hsteps.then fun _ => along_ofExcept _).then fun _ => along_pure _
  | create | listenerCount | subscriberCount | view => exact along_pure _
  | register | unregister | setOkCallback | setErrorCallback =>
    refine Along.then (keepsOrder_note ?_ index) fun _ => along_pure _
    exact fun _ => ⟨rfl, rfl⟩
  | subscribe kind id once =>
    refine Along.then (keepsOrder_resubscribe ?_ index) fun _ => along_pure _
    refine fun t => ⟨rfl, fun h => h.add _ _ _, fun k => ?_⟩
    rw [Subscriptions.entriesOf_add_of_ne _ _ _ (by rintro ⟨⟩)]
  | unsubscribe kind id =>
    refine Along.then (keepsOrder_resubscribe ?_ index) fun _ => along_pure _
    exact fun t => ⟨rfl, fun h => h.remove _ _, fun k => Subscriptions.entriesOf_remove_sublist ..⟩
  | emit event => exact (keepsOrder_emit hr index event).then fun _ => along_pure _
  | ask => exact along_askTracker _ _ _ _
  | dispose =>
    refine Along.ite (Along.then (keepsOrder_resubscribe ?_ index) fun _ =>
      (along_write _ _).then fun _ => along_pure _) (along_pure _)
    exact fun t => ⟨rfl, fun _ => Subscriptions.sound_clear _, fun k => List.nil_sublist _⟩

/-! ### Attaching and detaching -/

/-- The entries of a tracker are changed for one kind of event after the other. -/
theorem foldl_modifyTracker (j : Nat) (f : TraceKind → Subscriptions → Subscriptions)
    (kinds : List TraceKind) (s : Session) :
    kinds.foldl (fun s kind => s.modifyTracker j fun t =>
      { t with subscriptions := f kind t.subscriptions }) s =
    s.modifyTracker j fun t =>
      { t with subscriptions := kinds.foldl (fun subs kind => f kind subs) t.subscriptions } := by
  induction kinds generalizing s with
  | nil => exact (Session.modifyTracker_id s j).symm
  | cons kind rest ih =>
    refine (ih _).trans ?_
    rw [Session.modifyTracker_modifyTracker]
    rfl

/-- A collector that is attached to none has nothing to end. -/
theorem ran_detach_of_none {s : Session} {k : Nat} {c : Collector} (hc : s.collectors[k]? = some c)
    (hfree : c.tracker = none) : (detach k).ran s = (.ok (), s) := by
  rw [detach, ran_bind, ran_collector hc, onward, hfree]
  rfl

/-- Detaching a collector removes an entry for each kind of event. -/
theorem ran_detach_of_some {s : Session} {k j : Nat} {c : Collector} (hc : s.collectors[k]? = some c)
    (hj : c.tracker = some j) :
    (detach k).ran s = (.ok (), (s.modifyTracker j fun t =>
      { t with subscriptions := t.subscriptions.removeAll (.collector k) TraceKind.all }).modifyCollector k
        fun c => { c with tracker := none }) := by
  have hall := foldl_modifyTracker j (fun kind subs => subs.remove kind (.collector k)) TraceKind.all s
  rw [detach, ran_bind, ran_collector hc, onward, hj]
  exact congrArg
    (fun s : Session => (Except.ok (), s.modifyCollector k fun c => { c with tracker := none })) hall

/-- A collector that is there gets detached, and keeps its totals. -/
theorem detach_cases {k : Nat} {s : Session} (hs : s.Orderly) :
    (s.collectors[k]? = none ∧ ∃ e, (detach k).ran s = (.error e, s)) ∨
      ∃ c s₁, s.collectors[k]? = some c ∧ (detach k).ran s = (.ok (), s₁) ∧ s₁.Orderly ∧
        s₁.collectors[k]? = some { c with tracker := none } := by
  cases hc : s.collectors[k]? with
  | none =>
    refine .inl ⟨rfl, .unknownName (toString k), ?_⟩
    have hget : (get : Act Session).ran s = (.ok s, s) := rfl
    have hlook : (collector k).ran s = (.error (.unknownName (toString k)), s) := by
      rw [collector, ran_bind, hget, onward, hc]
      rfl
    rw [detach, ran_bind, hlook, onward]
  | some c =>
    right
    cases hj : c.tracker with
    | none => exact ⟨c, s, rfl, ran_detach_of_none hc hj, hs, hj ▸ hc⟩
    | some j =>
      refine ⟨c, _, rfl, ran_detach_of_some hc hj, hs.removeAll hc hj, ?_⟩
      rw [Session.modifyCollector, Array.getElem?_modify, if_pos rfl]
      exact congrArg (Option.map _) hc

/-- What is left of attaching a collector that has been detached is a message. -/
theorem ran_attach {k i : Nat} {s s₁ : Session} (h : (detach k).ran s = (.ok (), s₁)) :
    (attach k i).ran s =
      (do write (← collector k).log Collector.attachedMessage : Act Unit).ran (s₁.subscribing i k) := by
  have hall : TraceKind.all.foldl (fun s kind => s.modifyTracker i fun t =>
      { t with subscriptions := t.subscriptions.add kind (.collector k) false })
      (s₁.modifyCollector k fun c => { c with tracker := some i }) = s₁.subscribing i k :=
    foldl_modifyTracker i (fun kind subs => subs.add kind (.collector k) false) TraceKind.all _
  rw [attach, ran_bind, h, ← hall]
  rfl

theorem along_writeOfCollector {R : Session → Session → Prop} [Tolerant R] (k : Nat) (m : Log.Message) :
    (do write (← collector k).log m : Act Unit).Along R :=
  (along_collector k).then fun _ => along_write _ m

theorem keepsOrder_detach (k : Nat) : (detach k).Along KeepsOrder := by
  intro s hs
  obtain ⟨-, e, hran⟩ | ⟨c, s₁, -, hran, hs₁, -⟩ := detach_cases (k := k) hs
  · rw [hran]
    exact hs
  · rw [hran]
    exact hs₁

theorem keepsOrder_attach (k i : Nat) : (attach k i).Along KeepsOrder := by
  intro s hs
  obtain ⟨-, e, hran⟩ | ⟨c, s₁, -, hran, hs₁, hc⟩ := detach_cases (k := k) hs
  · rw [attach, ran_bind, hran]
    exact hs
  · rw [ran_attach hran]
    exact along_writeOfCollector (R := KeepsOrder) k _ _ (hs₁.subscribing hc rfl i)

/-- A request leaves a session orderly if observers do. -/
theorem keepsOrder_perform (hr : ∀ c, (respond c).Along KeepsOrder) (r : Request) :
    (perform respond r).Along KeepsOrder := by
  refine fun s => alongAt_perform_of (fun name q _ => along_performRegistry hr name q s) (fun name q _ => ?_)
    fun name q _ => ?_
  · refine alongAt_performTracker_of (fun _ _ => ?_) fun index _ => keepsOrder_performOnTracker hr index q s
    refine along_createTracker_of _ _ _ (fun _ _ _ _ _ hlog hcreate ht hc _ hlogs h => ?_) s
    obtain ⟨table, rfl⟩ := Tracker.eq_of_create hcreate
    exact h.pushTracker ht hc hlogs hlog rfl
  · refine alongAt_performCollector_of (fun _ _ _ ht hc _ hlogs h => h.pushCollector ht hc hlogs)
      (fun _ m j _ _ => keepsOrder_attach m j) (fun m _ _ => keepsOrder_detach m) fun m _ _ => ?_
    exact keepsOrder_modifyCollector m fun _ => rfl

end Orderly

/-- Whatever observers do leaves a session orderly. -/
theorem keepsOrder_respond (depth : Nat) (c : ObserverCall) : (respond depth c).Along KeepsOrder :=
  along_respond_of (fun _ => keepsOrder_perform) depth c

end Act

/-- Every session that requests lead to is orderly. -/
theorem Session.orderly_after (rs : List Request) : (({} : Session).after rs).Orderly := by
  have hall : ∀ {s : Session}, s.Orderly → (s.after rs).Orderly := by
    induction rs with
    | nil => exact fun h => h
    | cons r rest ih =>
      have hstep := along_stepBy (Act.keepsOrder_perform (Act.keepsOrder_respond nestingLimit))
      exact fun {s} h => ih (hstep s r h)
  exact hall .empty

end RadioOccupancy
