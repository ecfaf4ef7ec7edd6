import Mathlib.Data.List.Induction
import RadioOccupancy.Proofs.Session.Faithful
import RadioOccupancy.Proofs.Session.Passive
import RadioOccupancy.Proofs.Session.Progress

/-!
Listeners are told in the order in which they were registered.

    register a   register b   register a   unregister a   register a   notify
    a            a b          a b          b              b a          b, a

A listener is registered once however often it registers, and has the place of its most recent registration
while it was not there (`ListenerSet.mem_ofChanges_iff`, `ListenerSet.pairwise_ofChanges`). What changes are
made of a set by requests from outside and by listeners that are being told something is read off a run of the
machine (`Machine.Records`). The list that a notice goes by is the one that was there when it began, so what
listeners change meanwhile makes no difference to it (`Act.callsInTurn_callListeners`).
-/

namespace RadioOccupancy

namespace ListenerSet

/-! ### What becomes of a set of listeners -/

/-- A change of a set of listeners. -/
inductive Change where
  | register (id : ObserverId)
  | unregister (id : ObserverId)
  | clear
deriving DecidableEq, Repr

/-- The set after the change. -/
def Change.apply (s : ListenerSet) : Change → ListenerSet
  | .register id => s.register id
  | .unregister id => s.unregister id
  | .clear => {}

/-- The listener is not there after the change. -/
def Change.Removes (id : ObserverId) : Change → Prop
  | .register _ => False
  | .unregister other => other = id
  | .clear => True

/-- What changes make of an empty set. -/
def ofChanges (cs : List Change) : ListenerSet :=
  cs.foldl Change.apply {}

/-- The listener has been registered, and not been removed since. -/
def Holds (cs : List Change) (id : ObserverId) : Prop :=
  ∃ before after, cs = before ++ .register id :: after ∧ ∀ c ∈ after, ¬c.Removes id

/-- The listener was not there after the changes `before`, and has been registered then. Since that, it has
not been removed. -/
def AddedAfter (cs : List Change) (id : ObserverId) (before : List Change) : Prop :=
  ∃ after, cs = before ++ .register id :: after ∧ ¬Holds before id ∧ ∀ c ∈ after, ¬c.Removes id

section Changes

variable {cs before : List Change} {c : Change} {id : ObserverId}

/-- A change in a history that goes on by one is the last one, or was there before. -/
theorem split_snoc {x : Change} {after : List Change} (h : cs ++ [c] = before ++ x :: after) :
    (after = [] ∧ c = x ∧ before = cs) ∨ ∃ rest, after = rest ++ [c] ∧ cs = before ++ x :: rest := by
  rcases List.eq_nil_or_concat after with rfl | ⟨rest, last, rfl⟩
  · obtain ⟨rfl, hlast⟩ := List.append_inj' h rfl
    exact .inl ⟨rfl, List.singleton_inj.1 hlast, rfl⟩
  · have hsnoc : cs ++ [c] = (before ++ x :: rest) ++ [last] := by simpa using h
    obtain ⟨rfl, hlast⟩ := List.append_inj' hsnoc rfl
    obtain rfl := List.singleton_inj.1 hlast
    exact .inr ⟨rest, List.concat_eq_append, rfl⟩

theorem forall_mem_snoc {P : Change → Prop} : (∀ d ∈ cs ++ [c], P d) ↔ (∀ d ∈ cs, P d) ∧ P c := by
  rw [List.forall_mem_append, List.forall_mem_singleton]

theorem not_holds_nil : ¬Holds [] id := by
  rintro ⟨before, after, h, -⟩
  exact absurd h.symm (by simp)

theorem holds_snoc : Holds (cs ++ [c]) id ↔ c = .register id ∨ Holds cs id ∧ ¬c.Removes id := by
  constructor
  · rintro ⟨before, after, h, hafter⟩
    rcases split_snoc h with ⟨-, hc, -⟩ | ⟨rest, rfl, hcs⟩
    · exact .inl hc
    · rw [forall_mem_snoc] at hafter
      exact .inr ⟨⟨before, rest, hcs, hafter.1⟩, hafter.2⟩
  · rintro (rfl | ⟨⟨before, after, rfl, hafter⟩, hc⟩)
    · exact ⟨cs, [], rfl, by rintro _ ⟨⟩⟩
    · exact ⟨before, after ++ [c], by simp, forall_mem_snoc.2 ⟨hafter, hc⟩⟩

theorem addedAfter_snoc : AddedAfter (cs ++ [c]) id before ↔
    (c = .register id ∧ before = cs ∧ ¬Holds cs id) ∨ AddedAfter cs id before ∧ ¬c.Removes id := by
  constructor
  · rintro ⟨after, h, hnot, hafter⟩
    rcases split_snoc h with ⟨-, hc, rfl⟩ | ⟨rest, rfl, hcs⟩
    · exact .inl ⟨hc, rfl, hnot⟩
    · rw [forall_mem_snoc] at hafter
      exact .inr ⟨⟨rest, hcs, hnot, hafter.1⟩, hafter.2⟩
  · rintro (⟨rfl, rfl, hnot⟩ | ⟨⟨after, rfl, hnot, hafter⟩, hc⟩)
    · exact ⟨[], rfl, hnot, by rintro _ ⟨⟩⟩
    · exact ⟨after ++ [c], by simp, hnot, forall_mem_snoc.2 ⟨hafter, hc⟩⟩

/-- So there is a registration that added a listener that is there. -/
theorem holds_iff_addedAfter : Holds cs id ↔ ∃ before, AddedAfter cs id before := by
  constructor
  · induction cs using List.reverseRecOn with
    | nil => exact fun h => absurd h not_holds_nil
    | append_singleton cs c ih =>
      intro h
      by_cases hcs : Holds cs id
      · obtain ⟨before, hbefore⟩ := ih hcs
        refine ⟨before, addedAfter_snoc.2 (.inr ⟨hbefore, ?_⟩)⟩
        rcases holds_snoc.1 h with rfl | ⟨-, hc⟩
        · exact not_false
        · exact hc
      · rcases holds_snoc.1 h with hc | ⟨hheld, -⟩
        · exact ⟨cs, addedAfter_snoc.2 (.inl ⟨hc, rfl, hcs⟩)⟩
        · exact absurd hheld hcs
  · rintro ⟨before, after, hcs, -, hafter⟩
    exact ⟨before, after, hcs, hafter⟩

theorem length_of_addedAfter (h : AddedAfter cs id before) : before.length < cs.length := by
  obtain ⟨after, rfl, -, -⟩ := h
  rw [List.length_append, List.length_cons]
  omega

theorem members_register (s : ListenerSet) (id : ObserverId) :
    (s.register id).members = if id ∈ s.members then s.members else s.members ++ [id] := by
  have hhas : s.has id ↔ id ∈ s.members := List.contains_iff_mem
  rw [register]
  split <;> next h => rw [hhas] at h; simp only [h, if_true, if_false]

theorem mem_apply {s : ListenerSet} :
    id ∈ (c.apply s).members ↔ c = .register id ∨ id ∈ s.members ∧ ¬c.Removes id := by
  cases c with
  | register other =>
    rw [Change.apply, members_register]
    split
    · next h =>
      refine ⟨fun hid => .inr ⟨hid, not_false⟩, ?_⟩
      rintro (hc | ⟨hid, -⟩)
      · exact Change.register.inj hc ▸ h
      · exact hid
    · rw [List.mem_append, List.mem_singleton, or_comm, Change.register.injEq, eq_comm]
      exact or_congr_right (and_iff_left not_false).symm
  | unregister other =>
    refine (s.nodup.mem_erase_iff).trans ?_
    rw [and_comm, ne_comm]
    exact (or_iff_right nofun).symm
  | clear =>
    refine ⟨fun h => absurd h List.not_mem_nil, ?_⟩
    rintro (⟨⟨⟩⟩ | ⟨-, hnot⟩)
    exact absurd trivial hnot

theorem ofChanges_snoc (cs : List Change) (c : Change) : ofChanges (cs ++ [c]) = c.apply (ofChanges cs) := by
  rw [ofChanges, List.foldl_append]
  rfl

theorem mem_ofChanges : id ∈ (ofChanges cs).members ↔ Holds cs id := by
  induction cs using List.reverseRecOn with
  | nil => exact ⟨fun h => absurd h List.not_mem_nil, fun h => absurd h not_holds_nil⟩
  | append_singleton cs c ih => rw [ofChanges_snoc, mem_apply, holds_snoc, ih]

theorem mem_ofChanges_iff : id ∈ (ofChanges cs).members ↔ ∃ before, AddedAfter cs id before :=
  mem_ofChanges.trans holds_iff_addedAfter

/-- One of them was added before the other. -/
def Precedes (cs : List Change) (a b : ObserverId) : Prop :=
  ∀ before before', AddedAfter cs a before → AddedAfter cs b before' → before.length < before'.length

/-- What does not add a listener again leaves the order as it is. -/
theorem precedes_snoc {a b : ObserverId} (h : Precedes cs a b) (ha : c = .register a → Holds cs a)
    (hb : c = .register b → Holds cs b) : Precedes (cs ++ [c]) a b := by
  intro before before' hbefore hbefore'
  rcases addedAfter_snoc.1 hbefore with ⟨hc, -, hnot⟩ | ⟨hbefore, -⟩
  · exact absurd (ha hc) hnot
  · rcases addedAfter_snoc.1 hbefore' with ⟨hc, -, hnot⟩ | ⟨hbefore', -⟩
    · exact absurd (hb hc) hnot
    · exact h before before' hbefore hbefore'

/-- A listener that is added comes after all others. -/
theorem precedes_added {a : ObserverId} (hnot : ¬Holds cs id) (ha : a ≠ id) :
    Precedes (cs ++ [.register id]) a id := by
  intro before before' hbefore hbefore'
  rcases addedAfter_snoc.1 hbefore with ⟨hc, -, -⟩ | ⟨hbefore, -⟩
  · exact absurd (Change.register.inj hc).symm ha
  · rcases addedAfter_snoc.1 hbefore' with ⟨-, rfl, -⟩ | ⟨hbefore', -⟩
    · exact length_of_addedAfter hbefore
    · exact absurd (holds_iff_addedAfter.2 ⟨_, hbefore'⟩) hnot

/-- Listeners are there in the order in which they were added. -/
theorem pairwise_ofChanges (cs : List Change) : (ofChanges cs).members.Pairwise (Precedes cs) := by
  induction cs using List.reverseRecOn with
  | nil => exact .nil
  | append_singleton cs c ih =>
    rw [ofChanges_snoc]
    cases c with
    | register id =>
      rw [Change.apply, members_register]
      split
      · next hid =>
        have hheld : Holds cs id := mem_ofChanges.1 hid
        refine ih.imp fun h => precedes_snoc h ?_ ?_ <;>
          · intro hc
            exact Change.register.inj hc ▸ hheld
      · next hid =>
        have hnot : ¬Holds cs id := fun h => hid (mem_ofChanges.2 h)
        have hne {a : ObserverId} (ha : a ∈ (ofChanges cs).members) : a ≠ id := by
          rintro rfl
          exact hid ha
        rw [List.pairwise_append]
        refine ⟨ih.imp_of_mem fun ha hb h => precedes_snoc h ?_ ?_, List.pairwise_singleton .., ?_⟩
        · exact fun hc => absurd (Change.register.inj hc).symm (hne ha)
        · exact fun hc => absurd (Change.register.inj hc).symm (hne hb)
        · intro a ha b hb
          rw [List.mem_singleton.1 hb]
          exact precedes_added hnot (hne ha)
    | unregister id =>
      refine (ih.sublist (List.erase_sublist ..)).imp fun h => ?_
      exact precedes_snoc h (by rintro ⟨⟩) (by rintro ⟨⟩)
    | clear => exact .nil

end Changes

end ListenerSet

/-! ### What requests make of it -/

/-- Where listeners are registered: with a registry that has a name, or with a tracker. -/
inductive Registry where
  | named (name : String)
  | ofTracker (index : Nat)
deriving DecidableEq, Repr

/-- The listeners that are registered there. Nobody is registered where there is no registry. -/
def Session.listenersAt (s : Session) : Registry → ListenerSet
  | .named name => (s.registries.get? name).getD {}
  | .ofTracker index => (s.trackers[index]?.map Tracker.listeners).getD {}

/-- The change that a request to a registry makes. A registry that is created is empty, and the other changes
are made if it is there. -/
def RegistryRequest.change? (present : Bool) : RegistryRequest → Option ListenerSet.Change
  | .create => some .clear
  | .register id => if present then some (.register id) else none
  | .unregister id => if present then some (.unregister id) else none
  | .clear => if present then some .clear else none
  | .has _ | .size | .notify _ => none

/-- The change that a request to a tracker makes of its listeners. -/
def TrackerRequest.change? (t : Tracker) : TrackerRequest → Option ListenerSet.Change
  | .register id => some (.register id)
  | .unregister id => some (.unregister id)
  | .dispose => if t.disposed then none else some .clear
  | _ => none

/-- The change that a request makes of the listeners of a registry. -/
def Session.changeOf? (s : Session) : Registry → Request → Option ListenerSet.Change
  | .named name, .registry other q =>
    if other = name then q.change? (s.registries.get? name).isSome else none
  | .ofTracker index, .tracker name q =>
    if s.trackerNames.get? name = some index then s.trackers[index]?.bind q.change? else none
  | _, _ => none

/-- The listeners of the registry are the same. -/
def KeepsListeners (p : Registry) (s s' : Session) : Prop :=
  s'.listenersAt p = s.listenersAt p

theorem KeepsListeners.of_same {p : Registry} {s s' : Session} (ht : s'.trackers = s.trackers)
    (hr : s'.registries = s.registries) : KeepsListeners p s s' := by
  cases p with
  | named name => rw [KeepsListeners, Session.listenersAt, hr]; rfl
  | ofTracker index => rw [KeepsListeners, Session.listenersAt, ht]; rfl

instance (p : Registry) : Forgiving (KeepsListeners p) where
  chains := { refl := fun _ => rfl, trans := fun h h' => h'.trans h }
  of_alike ht _ hr _ := .of_same ht hr

namespace Act

variable {p : Registry} {s : Session}

theorem keepsListeners_modifyTracker {index : Nat} {f : Tracker → Tracker}
    (hf : p = .ofTracker index → ∀ t, (f t).listeners = t.listeners) :
    (modifyTracker index f).Along (KeepsListeners p) := by
  intro s
  cases p with
  | named name => rfl
  | ofTracker i =>
    change ((s.trackers.modify index f)[i]?.map Tracker.listeners).getD {} = _
    rw [Session.listenersAt, Array.getElem?_modify]
    split
    · next hi =>
      subst hi
      cases s.trackers[index]? with
      | none => rfl
      | some t => exact hf rfl t
    · rfl

theorem keepsListeners_modifyCollector (k : Nat) (f : Collector → Collector) :
    (modifyCollector k f).Along (KeepsListeners p) :=
  fun _ => .of_same rfl rfl

theorem bears_keepsListeners (task : Task) : Bears (KeepsListeners p) task where
  claim {s _ _ _ subscriptions} _ _ :=
    keepsListeners_modifyTracker (f := fun t => { t with subscriptions }) (fun _ _ => rfl) s
  count k _ := keepsListeners_modifyCollector k _
  change _ _ c :=
    keepsListeners_modifyTracker (f := fun t => { t with core := c.apply t.core }) fun _ _ => rfl
  mark _ _ f :=
    keepsListeners_modifyTracker (f := fun t => { t with announcing := f t.announcing }) fun _ _ => rfl

theorem keepsListeners_detach (k : Nat) : (detach k).Along (KeepsListeners p) := by
  refine along_detach_of (keepsListeners_modifyCollector k) fun kind j => keepsListeners_modifyTracker ?_
  exact fun _ _ => rfl

theorem keepsListeners_attach (k j : Nat) : (attach k j).Along (KeepsListeners p) := by
  refine along_attach_of (keepsListeners_detach k) (keepsListeners_modifyCollector k)
    (fun kind j => keepsListeners_modifyTracker ?_) j
  exact fun _ _ => rfl

/-- A new tracker has no listeners, and before that there were none. -/
theorem keepsListeners_push {s s' : Session} {t : Tracker} (ht : s'.trackers = s.trackers.push t)
    (hr : s'.registries = s.registries) (hnone : t.listeners = {}) : KeepsListeners p s s' := by
  cases p with
  | named name => rw [KeepsListeners, Session.listenersAt, hr]; rfl
  | ofTracker index =>
    rw [KeepsListeners, Session.listenersAt, ht, Session.listenersAt, Array.getElem?_push]
    split
    · next hindex =>
      rw [Array.getElem?_eq_none_iff.2 (Nat.le_of_eq hindex.symm)]
      exact hnone
    · rfl

/-- A request to a tracker leaves other listeners as they are, and those of the tracker if it is not about
them. -/
theorem keepsListeners_performOnTracker {index : Nat} {name : String} {q : TrackerRequest}
    (hcalls : (Request.tracker name q).callsObservers = false)
    (h : p = .ofTracker index → s.trackers[index]?.bind q.change? = none) :
    (performOnTracker silent index q).AlongAt (KeepsListeners p) s := by
  refine AlongAt.then (along_tracker index s) fun t ht => ?_
  obtain ⟨ht, hsame⟩ := getElem?_of_ran_tracker ht
  rw [hsame]
  rw [ht, Option.bind_some] at h
  cases q with
  | transition | emit => cases hcalls
  | create | listenerCount | subscriberCount | view => exact along_pure _ s
  | register | unregister =>
    refine Along.then (keepsListeners_modifyTracker fun hp => ?_) (fun _ => along_pure _) s
    cases h hp
  | setOkCallback | setErrorCallback | subscribe | unsubscribe =>
    refine Along.then (keepsListeners_modifyTracker fun _ _ => ?_) (fun _ => along_pure _) s
    rfl
  | ask => exact along_askTracker _ _ _ _ s
  | dispose =>
    cases hd : t.disposed with
    | true => exact along_pure _ s
    | false =>
      refine Along.then (keepsListeners_modifyTracker fun hp => ?_)
        (fun _ => (along_write _ _).then fun _ => along_pure _) s
      have hchange := h hp
      rw [TrackerRequest.change?, hd] at hchange
      cases hchange

/-- The change that it makes of the listeners of the tracker. -/
theorem listenersAt_performOnTracker {index : Nat} {t : Tracker} {q : TrackerRequest} {c : ListenerSet.Change}
    (ht : s.trackers[index]? = some t) (hq : q.change? t = some c) :
    ((performOnTracker silent index q).ran s).2.listenersAt (.ofTracker index) = c.apply t.listeners := by
  have hmodified (f : Tracker → Tracker) :
      ((s.modifyTracker index f).trackers[index]?.map Tracker.listeners).getD {} = (f t).listeners := by
    rw [getElem?_modifyTracker ht]
    rfl
  cases q with
  | register id | unregister id =>
    obtain rfl := Option.some.inj hq
    rw [performOnTracker, ran_bind, ran_tracker ht]
    exact hmodified _
  | dispose =>
    rw [TrackerRequest.change?] at hq
    split at hq
    · cases hq
    · next hd =>
      obtain rfl := Option.some.inj hq
      rw [Session.listenersAt, trackers_of_dispose silent ht, if_neg hd]
      exact hmodified _
  | _ => cases hq

/-- What a request makes of the registry that has the name. Others stay as they are. -/
theorem registries_performRegistry {name : String} {q : RegistryRequest}
    (hcalls : (Request.registry name q).callsObservers = false) :
    ((performRegistry silent name q).ran s).2.registries =
      match q.change? (s.registries.get? name).isSome with
      | some c => s.registries.set name (c.apply (s.listenersAt (.named name)))
      | none => s.registries := by
  have hget : (get : Act Session).ran s = (.ok s, s) := rfl
  rw [Session.listenersAt]
  cases hset : s.registries.get? name with
  | none =>
    have hnamed : (named s.registries name).ran s = (.error (.unknownName name), s) := by
      rw [named, hset]
      rfl
    cases q with
    | create => rfl
    | notify => cases hcalls
    | register | unregister | has | size | clear =>
      rw [performRegistry]
      simp only [ran_bind, hget, onward, hnamed]
      rfl
  | some set =>
    have hnamed := ran_named (s := s) hset
    cases q with
    | create => rfl
    | notify => cases hcalls
    | register | unregister | has | size | clear =>
      rw [performRegistry]
      simp only [ran_bind, hget, onward, hnamed]
      rfl

theorem listenersAt_of_registries {s' : Session} {name other : String} {set : ListenerSet}
    (h : s'.registries = s.registries.set name set) :
    s'.listenersAt (.named other) = if other = name then set else s.listenersAt (.named other) := by
  rw [Session.listenersAt, h, Named.get?_set]
  split <;> rfl

/-- A request that makes no change of the listeners of a registry leaves them as they are. -/
theorem keepsListeners_perform {r : Request} (hcalls : r.callsObservers = false)
    (h : s.changeOf? p r = none) : (perform silent r).AlongAt (KeepsListeners p) s := by
  refine alongAt_perform_of (fun name q hq => ?_) (fun name q hq => ?_) fun name q _ => ?_
  · subst hq
    cases p with
    | named other =>
      have hregistries := registries_performRegistry (s := s) hcalls
      rw [Session.changeOf?] at h
      split at hregistries
      · next c hc =>
        refine (listenersAt_of_registries hregistries).trans (if_neg ?_)
        rintro rfl
        rw [if_pos rfl, hc] at h
        cases h
      · exact congrArg (fun entries : Named ListenerSet => (entries.get? other).getD {}) hregistries
    | ofTracker index =>
      have htrackers : ((performRegistry silent name q).ran s).2.trackers = s.trackers :=
        along_performRegistry (R := fun s s' => s'.trackers = s.trackers) (fun _ => along_pure ()) name q s
      exact congrArg (fun ts : Array Tracker => (ts[index]?.map Tracker.listeners).getD {}) htrackers
  · subst hq
    refine alongAt_performTracker_of (fun preset overrides => ?_) fun index hindex => ?_
    · refine along_createTracker_of _ _ _ (fun s s' config log t _ hcreate ht _ hr _ => ?_) s
      obtain ⟨table, rfl⟩ := Tracker.eq_of_create hcreate
      exact keepsListeners_push ht hr rfl
    · refine keepsListeners_performOnTracker hcalls ?_
      rintro rfl
      rwa [Session.changeOf?, if_pos hindex] at h
  · exact alongAt_performCollector_of (fun _ _ _ ht _ hr _ => .of_same ht hr)
      (fun _ k j _ _ => keepsListeners_attach k j) (fun k _ _ => keepsListeners_detach k)
      fun k _ _ => keepsListeners_modifyCollector k _

/-- A request that makes a change of them makes that one. -/
theorem listenersAt_perform {r : Request} {c : ListenerSet.Change} (hcalls : r.callsObservers = false)
    (h : s.changeOf? p r = some c) :
    ((perform silent r).ran s).2.listenersAt p = c.apply (s.listenersAt p) := by
  rw [Session.changeOf?.eq_def] at h
  split at h
  · next name other q =>
    split at h
    · next hname =>
      subst hname
      have hregistries := registries_performRegistry (s := s) hcalls
      rw [h] at hregistries
      exact (listenersAt_of_registries hregistries).trans (if_pos rfl)
    · cases h
  · next index name q =>
    split at h
    · next hname =>
      obtain ⟨t, ht, hchange⟩ := Option.bind_eq_some_iff.1 h
      have hlisteners : s.listenersAt (.ofTracker index) = t.listeners := by
        rw [Session.listenersAt, ht]
        rfl
      have hq : ∀ preset overrides, q ≠ .create preset overrides := by
        rintro _ _ rfl
        cases hchange
      rw [ran_performTracker hq hname, listenersAt_performOnTracker ht hchange, hlisteners]
    · cases h
  · cases h

end Act

/-- A request that calls observers makes no change by itself. -/
theorem Session.changeOf?_of_callsObservers {r : Request} (h : r.callsObservers = true) (p : Registry)
    (s : Session) : s.changeOf? p r = none := by
  cases r with
  | tracker name q =>
    cases p with
    | named other => rfl
    | ofTracker index =>
      rw [changeOf?]
      cases q with
      | transition | emit => cases s.trackers[index]? <;> exact ite_self none
      | _ => cases h
  | registry name q =>
    cases p with
    | named other =>
      rw [changeOf?]
      cases q with
      | notify => exact ite_self none
      | _ => cases h
    | ofTracker index => rfl
  | _ => cases h

namespace Machine

/-- The machine got into the state, and the changes are those that requests made of the listeners of a
registry on the way. -/
inductive Records (p : Registry) : List ListenerSet.Change → Machine → Prop
  | start : Records p [] {}
  | next {cs : List ListenerSet.Change} {r : Option Request} {m m' : Machine} (h : Records p cs m)
      (hnext : Next r m m') : Records p (cs ++ (r.bind (m.session.changeOf? p)).toList) m'

variable {p : Registry} {m m' : Machine}

/-- However the machine got into a state, there is a record of the changes. -/
theorem Reachable.records (hm : m.Reachable) (p : Registry) : ∃ cs, Records p cs m := by
  obtain ⟨rs, hruns⟩ := hm
  induction hruns with
  | nil => exact ⟨[], .start⟩
  | snoc _ hnext ih =>
    obtain ⟨cs, h⟩ := ih
    exact ⟨_, h.next hnext⟩

/-- Listeners are registered and removed by requests alone. -/
theorem Next.listenersAt {r : Option Request} (hnext : Next r m m') (p : Registry) :
    m'.session.listenersAt p = (r.bind (m.session.changeOf? p)).elim (m.session.listenersAt p)
      (·.apply (m.session.listenersAt p)) := by
  have hkept (h : ∀ q ∈ r, q.callsObservers = true) : m'.session.listenersAt p = m.session.listenersAt p :=
    along_next (R := KeepsListeners p) hnext (fun task _ => Act.bears_keepsListeners task)
      fun q hq hcalls => absurd ((h q hq).symm.trans hcalls) (by decide)
  cases r with
  | none => exact hkept (by rintro _ ⟨⟩)
  | some q =>
    rw [Option.bind_some]
    cases hcalls : q.callsObservers with
    | true =>
      rw [Session.changeOf?_of_callsObservers hcalls]
      exact hkept (by rintro _ ⟨⟩; exact hcalls)
    | false =>
      obtain ⟨events, hm'⟩ := hnext.session_eq hcalls
      have hchange : ({ m.session with events } : Session).changeOf? p q = m.session.changeOf? p q := rfl
      rw [hm']
      cases hc : m.session.changeOf? p q with
      | none => exact Act.keepsListeners_perform hcalls (hchange.trans hc)
      | some c => exact Act.listenersAt_perform hcalls (hchange.trans hc)

/-- So the listeners are those that the changes on record make. -/
theorem Records.listenersAt_eq {cs : List ListenerSet.Change} (h : Records p cs m) :
    m.session.listenersAt p = .ofChanges cs := by
  induction h with
  | start => cases p <;> rfl
  | @next cs r m m' _ hnext ih =>
    rw [hnext.listenersAt p, ih]
    cases r.bind (m.session.changeOf? p) with
    | none => exact congrArg _ (List.append_nil cs).symm
    | some c => exact (ListenerSet.ofChanges_snoc cs c).symm

end Machine

/-! ### Who is told -/

/-- Listeners are called in turn from the session on: the first `k` of them return, and then there is either
none left, or the next one fails. So it ends. -/
def Act.CallsInTurn (respond : Respond) (call : ListenerCall) (members : List ObserverId) (s : Session)
    (ended : Except Fault Unit × Session) : Prop :=
  ∃ (k : Nat) (σ : Nat → Session), σ 0 = s ∧
    (∀ j id, j < k → members[j]? = some id → (respond (.listener id call)).ran (σ j) = (.ok (), σ (j + 1))) ∧
    (k = members.length ∧ ended = (.ok (), σ k) ∨ ∃ id e s', members[k]? = some id ∧
      (respond (.listener id call)).ran (σ k) = (.error e, s') ∧ ended = (.error e, s'))

theorem Act.callsInTurn_callListeners (respond : Respond) (call : ListenerCall) (members : List ObserverId)
    (s : Session) : CallsInTurn respond call members s ((callListeners respond call members).ran s) := by
  induction members generalizing s with
  | nil => exact ⟨0, fun _ => s, rfl, fun _ _ hj => absurd hj (Nat.not_lt_zero _), .inl ⟨rfl, rfl⟩⟩
  | cons id rest ih =>
    rw [callListeners, ran_bind]
    rcases hran : (respond (.listener id call)).ran s with ⟨e | ⟨⟩, s'⟩
    · exact ⟨0, fun _ => s, rfl, fun _ _ hj => absurd hj (Nat.not_lt_zero _),
        .inr ⟨id, e, s', rfl, hran, rfl⟩⟩
    · obtain ⟨k, σ, rfl, hturns, hend⟩ := ih s'
      refine ⟨k + 1, fun j => j.casesOn s σ, rfl, fun j id' hj hid' => ?_, ?_⟩
      · cases j with
        | zero =>
          obtain rfl := Option.some.inj hid'
          exact hran
        | succ j => exact hturns j id' (Nat.lt_of_succ_lt_succ hj) hid'
      · rcases hend with ⟨hk, hend⟩ | hend
        · exact .inl ⟨congrArg (· + 1) hk, hend⟩
        · exact .inr hend

namespace Machine

variable {p : Registry} {m : Machine}

/-- Whatever is requested of registries, from outside or by listeners that are being told something, a
listener is registered once, and it is there just if some registration has added it since it was last away.
Listeners are there in the order in which they were added. And whatever they do meanwhile, those that are
there when something is to be told are called in this order, up to the first that fails. -/
theorem Records.told_in_order {cs : List ListenerSet.Change} (h : Records p cs m) :
    (m.session.listenersAt p).members.Nodup ∧
    (∀ id, id ∈ (m.session.listenersAt p).members ↔ ∃ before, ListenerSet.AddedAfter cs id before) ∧
    (m.session.listenersAt p).members.Pairwise (ListenerSet.Precedes cs) ∧
    (∀ (respond : Act.Respond) (call : ListenerCall) (name : String) (set : ListenerSet), p = .named name →
      m.session.registries.get? name = some set → ∃ ended,
        Act.CallsInTurn respond call (m.session.listenersAt p).members m.session ended ∧
        (Act.perform respond (.registry name (.notify call))).ran m.session =
          (ended.1.map fun _ => .nothing, ended.2)) ∧
    ∀ (respond : Act.Respond) (call : ListenerCall) (index : Nat) (t before : Tracker), p = .ofTracker index →
      m.session.trackers[index]? = some t →
        Act.CallsInTurn respond call (m.session.listenersAt p).members m.session
          ((Act.giveNotice respond index before (.listeners call)).ran m.session) := by
  refine ⟨(m.session.listenersAt p).nodup, fun id => ?_, ?_, ?_, ?_⟩
  · rw [h.listenersAt_eq]
    exact ListenerSet.mem_ofChanges_iff
  · rw [h.listenersAt_eq]
    exact ListenerSet.pairwise_ofChanges cs
  · rintro respond call name set rfl hset
    have hmembers : m.session.listenersAt (.named name) = set := by
      rw [Session.listenersAt, hset]
      rfl
    have hget : (get : Act Session).ran m.session = (.ok m.session, m.session) := rfl
    rw [hmembers]
    refine ⟨_, Act.callsInTurn_callListeners respond call set.members m.session, ?_⟩
    rw [Act.perform, Act.performRegistry, Act.ran_bind, hget, Act.onward, Act.ran_bind, Act.ran_named hset,
      Act.onward, Act.ran_bind]
    rcases (Act.callListeners respond call set.members).ran m.session with ⟨e | ⟨⟩, s'⟩ <;> rfl
  · rintro respond call index t before rfl ht
    have hmembers : m.session.listenersAt (.ofTracker index) = t.listeners := by
      rw [Session.listenersAt, ht]
      rfl
    rw [hmembers, Act.giveNotice, Act.ran_bind, Act.ran_tracker ht, Act.onward]
    exact Act.callsInTurn_callListeners respond call t.listeners.members m.session

/-- A listener that is told something leaves and registers again, and then it comes after the one that was
registered when it left. A third one that it registers comes last. -/
theorem told_in_order_of_leaving : ∃ cs m, Records (.named "main") cs m ∧
    (m.session.listenersAt (.named "main")).members = ["b", "a", "c"] ∧ ListenerSet.Precedes cs "b" "a" ∧
      ListenerSet.Precedes cs "a" "c" ∧ ∃ ended,
        Act.CallsInTurn (Act.respond Session.nestingLimit) ⟨.sleep, []⟩ ["b", "a", "c"] m.session ended := by
  let rs : List Request :=
    [.registry "main" .create, .registry "main" (.register "a"), .registry "main" (.register "b"),
      .script "a" "onSleep" [⟨.registry "main" (.unregister "a"), true⟩,
        ⟨.registry "main" (.register "a"), true⟩, ⟨.registry "main" (.register "c"), true⟩],
      .registry "main" (.notify ⟨.sleep, []⟩)]
  have hset : ((({} : Session).after rs).registries.get? "main").isSome = true := by decide
  have hmembers : ((({} : Session).after rs).listenersAt (.named "main")).members = ["b", "a", "c"] := by
    decide
  obtain ⟨set, hset⟩ := Option.isSome_iff_exists.1 hset
  obtain ⟨cs, h⟩ := (reachable_after rs).records (.named "main")
  obtain ⟨-, -, horder, htold, -⟩ := h.told_in_order
  obtain ⟨ended, hturns, -⟩ := htold (Act.respond Session.nestingLimit) ⟨.sleep, []⟩ "main" set rfl hset
  rw [hmembers] at horder hturns
  rw [List.pairwise_cons, List.pairwise_cons] at horder
  exact ⟨cs, _, h, hmembers, horder.1 "a" (by simp), horder.2.1 "c" (by simp), ended, hturns⟩

end Machine

end RadioOccupancy
