import RadioOccupancy.Proofs.Deeds
import RadioOccupancy.Proofs.Session.Runs

/-!
What observers are told while steps are carried out to their end.

    carried out:  note  event  log  note  call  call  event  call
    told:               event             call  call  event  call

Observers are told of things in two ways: one of them is called, or an event is emitted to those that
have subscribed to it by then. `Tells` says what is told between two sessions, each thing in the session
that the one before left. Nothing comes between but that the tracker notes something about itself, or that
something is logged, so what is not among the things told is not told at all. The lemmas follow how steps
are put together, and say what is told by an announcement that listeners, subscribers and a callback hear
of in turn (`tells_announce`).
-/

namespace RadioOccupancy

/-- One thing that observers are told. -/
inductive Telling where
  /-- one of them is called -/
  | call (c : ObserverCall)
  /-- an event is emitted to its subscribers -/
  | event (e : TraceEvent)

namespace Act

/-- The things that are told between two sessions. No observer fails. -/
inductive Tells (respond : Respond) (i : Nat) : List Telling → Session → Session → Prop
  | nil (s : Session) : Tells respond i [] s s
  | call {c : ObserverCall} {rest : List Telling} {s s₁ s' : Session}
      (h : (respond c).ran s = (.ok (), s₁)) (hrest : Tells respond i rest s₁ s') :
      Tells respond i (.call c :: rest) s s'
  | event {e : TraceEvent} {heard : Bool} {rest : List Telling} {s s₁ s' : Session}
      (h : (emit respond i e).ran s = (.ok heard, s₁)) (hrest : Tells respond i rest s₁ s') :
      Tells respond i (.event e :: rest) s s'
  /-- the tracker notes what it remembers or what it is doing -/
  | note (f : Tracker → Tracker) {rest : List Telling} {s s' : Session}
      (hf : ∀ t, f t = { t with core := (f t).core, announcing := (f t).announcing })
      (hrest : Tells respond i rest (s.modifyTracker i f) s') : Tells respond i rest s s'
  | log {index : Nat} {m : Log.Message} {rest : List Telling} {s s₁ s' : Session}
      (h : (write index m).ran s = (.ok (), s₁)) (hrest : Tells respond i rest s₁ s') :
      Tells respond i rest s s'

variable {respond : Respond} {i : Nat} {s s₁ s' : Session} {told more : List Telling}

theorem Tells.append (h : Tells respond i told s s₁) (h' : Tells respond i more s₁ s') :
    Tells respond i (told ++ more) s s' := by
  induction h with
  | nil => exact h'
  | call h _ ih => exact .call h (ih h')
  | event h _ ih => exact .event h (ih h')
  | note f hf _ ih => exact .note f hf (ih h')
  | log h _ ih => exact .log h (ih h')

theorem giveNotices_append (before : Tracker) (ns ms : List Notice) :
    giveNotices respond i before (ns ++ ms) =
      (do giveNotices respond i before ns; giveNotices respond i before ms) := by
  induction ns with
  | nil => simp [giveNotices]
  | cons n rest ih => simp [giveNotices, ih]

/-! ### What notices tell -/

/-- Each listener is called. -/
theorem tells_callListeners {call : ListenerCall} {members : List ObserverId}
    (h : (callListeners respond call members).ran s = (.ok (), s')) :
    Tells respond i (members.map fun id => .call (.listener id call)) s s' := by
  induction members generalizing s with
  | nil =>
    obtain ⟨-, rfl⟩ := Prod.mk.inj h
    exact .nil _
  | cons id rest ih =>
    obtain ⟨⟨⟩, s₁, hcall, hrest⟩ := ok_of_bind h
    exact .call hcall (ih hrest)

/-- Each event is emitted. -/
theorem tells_events {before : Tracker} {events : List TraceEvent}
    (h : (giveNotices respond i before (events.map .trace)).ran s = (.ok (), s')) :
    Tells respond i (events.map .event) s s' := by
  induction events generalizing s with
  | nil =>
    obtain ⟨-, rfl⟩ := Prod.mk.inj h
    exact .nil _
  | cons e rest ih =>
    obtain ⟨⟨⟩, s₁, hevent, hrest⟩ := ok_of_bind h
    obtain ⟨heard, s₂, hemit, hend⟩ := ok_of_bind hevent
    obtain ⟨-, rfl⟩ := Prod.mk.inj hend
    exact .event hemit (ih hrest)

/-- The callback is called that the tracker held before, if it held one. -/
theorem tells_deliver {before : Tracker} {d : Delivery}
    (h : (giveNotices respond i before [.deliver d]).ran s = (.ok (), s')) :
    Tells respond i ((before.callbackFor d).toList.map fun id => .call (.delivery id d)) s s' := by
  obtain ⟨⟨⟩, s₁, hcall, hend⟩ := ok_of_bind h
  obtain ⟨-, rfl⟩ := Prod.mk.inj hend
  rw [giveNotice] at hcall
  cases hid : before.callbackFor d with
  | none =>
    rw [hid] at hcall
    obtain ⟨-, rfl⟩ := Prod.mk.inj hcall
    exact .nil _
  | some id =>
    rw [hid] at hcall
    exact .call hcall (.nil _)

/-- What an announcement tells is what its notices tell. -/
theorem Tells.announce {ns : List Notice} {t : Tracker} (ht : s.trackers[i]? = some t)
    (h : (Act.announce respond i ns).ran s = (.ok (), s'))
    (hns : ∀ s₁ s₂ u, s₁.trackers[i]? = some u → u.listeners = t.listeners →
      (giveNotices respond i t ns).ran s₁ = (.ok (), s₂) → Tells respond i told s₁ s₂) :
    Tells respond i told s s' := by
  have h₁ := getElem?_modifyTracker ht fun t => { t with announcing := t.announcing + 1 }
  rw [ran_announce ns ht] at h
  obtain ⟨hok, rfl⟩ := Prod.mk.inj h
  have htold := hns _ _ _ h₁ rfl (Prod.ext hok rfl)
  refine .note (fun t => { t with announcing := t.announcing + 1 }) (fun _ => rfl) ?_
  rw [← List.append_nil told]
  exact htold.append
    (.note (fun t => { t with announcing := t.announcing - 1 }) (fun _ => rfl) (.nil _))

/-- An announcement that listeners hear of first, then the subscribers of some events, and then a
callback. -/
theorem tells_announce {call : ListenerCall} {events : List TraceEvent} {d : Delivery} {t : Tracker}
    (ht : s.trackers[i]? = some t)
    (h : (announce respond i ([.listeners call] ++ events.map .trace ++ [.deliver d])).ran s =
      (.ok (), s')) :
    Tells respond i (t.listeners.members.map (fun id => .call (.listener id call)) ++
      events.map .event ++ (t.callbackFor d).toList.map fun id => .call (.delivery id d)) s s' := by
  refine .announce ht h fun s₁ s₄ u hu hsame hnotices => ?_
  rw [giveNotices_append, giveNotices_append] at hnotices
  obtain ⟨⟨⟩, s₃, hfirst, hdeliver⟩ := ok_of_bind hnotices
  obtain ⟨⟨⟩, s₂, hlisteners, hevents⟩ := ok_of_bind hfirst
  obtain ⟨⟨⟩, s₂', hcalls, hend⟩ := ok_of_bind hlisteners
  obtain ⟨-, rfl⟩ := Prod.mk.inj hend
  rw [giveNotice, ran_bind, ran_tracker hu, onward, hsame] at hcalls
  exact ((tells_callListeners hcalls).append (tells_events hevents)).append (tells_deliver hdeliver)

/-- Steps of which only subscribers hear tell the events of their notices. -/
theorem tells_steps {steps : List Step} {events : List TraceEvent} {t : Tracker}
    (hr : ∀ c, (respond c).Along (Spares i)) (ht : s.trackers[i]? = some t)
    (hns : noticesOf steps = events.map .trace)
    (h : (carryOutSteps respond i steps).ran s = (.ok (), s')) :
    Tells respond i (events.map .event) s s' := by
  induction steps generalizing s t events with
  | nil =>
    obtain ⟨-, rfl⟩ := Prod.mk.inj h
    rw [List.map_eq_nil_iff.1 hns.symm]
    exact .nil _
  | cons step rest ih =>
    obtain ⟨⟨⟩, s₁, hstep, hrest⟩ := ok_of_bind h
    obtain ⟨t₁, ht₁, -⟩ := keeps_carryOutStep hr step ht
    rw [hstep] at ht₁
    rw [show step :: rest = [step] ++ rest from rfl, noticesOf_append] at hns
    obtain ⟨first, later, rfl, hfirst, hlater⟩ := List.append_eq_map_iff.1 hns
    rw [List.map_append]
    refine Tells.append ?_ (ih ht₁ hlater.symm hrest)
    cases step with
    | change c =>
      obtain ⟨-, rfl⟩ := Prod.mk.inj hstep
      rw [List.map_eq_nil_iff.1 hfirst]
      exact .note (fun t => { t with core := c.apply t.core }) (fun _ => rfl) (.nil _)
    | announce ns =>
      rw [noticesOf_announce] at hfirst
      subst hfirst
      exact .announce ht hstep fun _ _ _ _ _ hnotices => tells_events hnotices
    | log m =>
      rw [List.map_eq_nil_iff.1 hfirst]
      rw [carryOutStep, ran_bind, ran_tracker ht] at hstep
      exact .log hstep (.nil _)

/-- Log messages tell nothing, and change no tracker. -/
theorem tells_logs {steps : List Step} (hlogs : deedsOf steps = [])
    (h : (carryOutSteps respond i steps).ran s = (.ok (), s')) :
    Tells respond i [] s s' ∧ s'.trackers = s.trackers := by
  induction steps generalizing s with
  | nil =>
    obtain ⟨-, rfl⟩ := Prod.mk.inj h
    exact ⟨.nil _, rfl⟩
  | cons step rest ih =>
    cases step with
    | change | announce => cases hlogs
    | log m =>
      obtain ⟨⟨⟩, s₁, hstep, hrest⟩ := ok_of_bind h
      obtain ⟨t, s₂, ht, hwrite⟩ := ok_of_bind hstep
      have hlook := (getElem?_of_ran_tracker (congrArg Prod.fst ht)).2
      rw [ht] at hlook
      obtain rfl : s₂ = s := hlook
      obtain ⟨htells, hsame⟩ := ih hlogs hrest
      have hkept := trackers_of_write t.log m s₂
      rw [hwrite] at hkept
      exact ⟨.log hwrite htells, hsame.trans hkept⟩

end Act

end RadioOccupancy
