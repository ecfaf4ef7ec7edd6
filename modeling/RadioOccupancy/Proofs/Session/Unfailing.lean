import RadioOccupancy.Proofs.Influence
import RadioOccupancy.Proofs.Session.Undisturbed

/-!
A transition is carried out to its end unless an observer fails.

Apart from observers there are two things that a tracker needs for that: itself, and the log that it writes
to. Both are still there after anything that may happen in a session, so if they are there at the beginning
and the observers do not fail, nothing does (`Act.unfailing_carryOutSteps`).
-/

namespace RadioOccupancy

namespace Act

variable {α β : Type} {i k : Nat} {respond : Respond}

/-- An action does not fail where the tracker and its log are there, and leaves them there. -/
def Unfailing (i : Nat) (x : Act α) : Prop :=
  ∀ s, s.HasLog i → ∃ a s', x.ran s = (.ok a, s') ∧ s'.HasLog i

theorem Unfailing.then {x : Act α} {f : α → Act β} (hx : x.Unfailing i) (hf : ∀ a, (f a).Unfailing i) :
    (x >>= f).Unfailing i := by
  intro s hs
  obtain ⟨a, s₁, hran, hs₁⟩ := hx s hs
  rw [ran_bind, hran]
  exact hf a s₁ hs₁

theorem unfailing_pure (a : α) : (pure a : Act α).Unfailing i :=
  fun s hs => ⟨a, s, rfl, hs⟩

theorem unfailing_modify {f : Session → Session} (h : ∀ s, s.HasLog i → (f s).HasLog i) :
    (modify f : Act Unit).Unfailing i :=
  fun s hs => ⟨(), f s, rfl, h s hs⟩

theorem unfailing_tracker (i : Nat) : (tracker i).Unfailing i := by
  rintro s ⟨t, ht, hlog⟩
  exact ⟨t, s, ran_tracker ht, t, ht, hlog⟩

theorem unfailing_modifyTracker {f : Tracker → Tracker} (hf : ∀ t, (f t).log = t.log) :
    (modifyTracker i f).Unfailing i :=
  unfailing_modify (along_modifyTracker_log hf)

/-- A tracker writes to its log. -/
theorem unfailing_log (i : Nat) (m : Log.Message) : Unfailing i (do write (← tracker i).log m) := by
  rintro s ⟨t, ht, hlog⟩
  obtain ⟨s', hran, htrackers, hsize⟩ := ran_write hlog m
  rw [ran_bind, ran_tracker ht]
  exact ⟨(), s', hran, t, htrackers ▸ ht, hsize ▸ hlog⟩

/-! ### Carrying out a plan -/

section Carrying

variable (hr : ∀ c, (respond c).Unfailing i)
include hr

theorem unfailing_callListeners (call : ListenerCall) :
    ∀ members, (callListeners respond call members).Unfailing i
  | [] => unfailing_pure _
  | _ :: rest => (hr _).then fun _ => unfailing_callListeners call rest

theorem unfailing_callSubscribers (event : TraceEvent) :
    ∀ entries, (callSubscribers respond i event entries).Unfailing i
  | [] => unfailing_pure _
  | e :: rest => by
    have ih := unfailing_callSubscribers event rest
    have hcall : (callSubscriber respond event e.subscriber).Unfailing i := by
      cases e.subscriber with
      | observer id => exact hr _
      | collector m => exact unfailing_modify fun _ hs => hs
    refine (unfailing_tracker i).then fun t => ?_
    cases t.subscriptions.claim e with
    | none => exact ih
    | some subscriptions =>
      refine Unfailing.then (unfailing_modifyTracker ?_) fun _ => hcall.then fun _ => ih
      exact fun _ => rfl

theorem unfailing_giveNotice (before : Tracker) (n : Notice) :
    (giveNotice respond i before n).Unfailing i := by
  cases n with
  | listeners call => exact (unfailing_tracker i).then fun t => unfailing_callListeners hr call _
  | trace event =>
    refine Unfailing.then ?_ fun _ => unfailing_pure _
    exact (unfailing_tracker i).then fun t =>
      (unfailing_callSubscribers hr event _).then fun _ => unfailing_pure _
  | deliver delivery =>
    rw [giveNotice]
    split
    · exact hr _
    · exact unfailing_pure _

theorem unfailing_giveNotices (before : Tracker) :
    ∀ ns, (giveNotices respond i before ns).Unfailing i
  | [] => unfailing_pure _
  | n :: rest => (unfailing_giveNotice hr before n).then fun _ => unfailing_giveNotices before rest

theorem unfailing_carryOutStep (step : Step) : (carryOutStep respond i step).Unfailing i := by
  cases step with
  | change c =>
    refine unfailing_modifyTracker ?_
    exact fun _ => rfl
  | announce ns =>
    rintro s ⟨t, ht, hlog⟩
    have hnote (f : Tracker → Tracker) (hf : ∀ t, (f t).log = t.log) {s : Session} (hs : s.HasLog i) :
        (s.modifyTracker i f).HasLog i := along_modifyTracker_log hf s hs
    have hmarked := hnote (fun t => { t with announcing := t.announcing + 1 }) (fun _ => rfl) ⟨t, ht, hlog⟩
    obtain ⟨⟨⟩, s₁, htold, hs₁⟩ := unfailing_giveNotices hr t ns _ hmarked
    rw [carryOutStep, ran_announce ns ht]
    dsimp only
    rw [htold]
    exact ⟨(), _, rfl, hnote (fun t => { t with announcing := t.announcing - 1 }) (fun _ => rfl) hs₁⟩
  | log m => exact unfailing_log i m

theorem unfailing_carryOutSteps : ∀ steps, (carryOutSteps respond i steps).Unfailing i
  | [] => unfailing_pure _
  | step :: rest => (unfailing_carryOutStep hr step).then fun _ => unfailing_carryOutSteps rest

end Carrying

/-! ### Observers that do not fail -/

theorem unfailing_respondUndisturbed (i k depth : Nat) (c : ObserverCall) :
    (respondUndisturbed i k depth c).Unfailing i := by
  have hkept : (respondUndisturbed i k depth c).Along (KeepsLog i) :=
    along_respondUndisturbed_of (fun depth hr r => along_get.then fun s =>
      Along.ite (along_throw _) (along_perform hr (takes_keepsLog hr) r)) depth c
  intro s hs
  refine ⟨(), _, Prod.ext ?_ rfl, hkept s hs⟩
  cases depth <;> rfl

end Act

end RadioOccupancy
