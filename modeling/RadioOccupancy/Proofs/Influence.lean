import RadioOccupancy.Proofs.Session.Runs

/-!
Observers cannot influence the radio.

    observed:    change  announce { listeners, subscribers, callbacks, and all that they request }  change
    unobserved:  change  announce { }                                                              change

A transition is run twice: once with whatever observers its tracker has, and once with none. A plan is drawn
up before observers hear of anything, and does not depend on them. While they are being told, the tracker
keeps what it remembers, whatever they request (`Act.keeps_carryOutSteps`). With no observers there is nobody
to be told (`Act.carryOut_unobserved`). So both runs come to the same, unless an observer fails.

All that a run needs besides is the log that the tracker writes to. No request takes that away
(`Session.HasLog.steps`).
-/

namespace RadioOccupancy

namespace Tracker

/-- The tracker without its observers. -/
def unobserved (t : Tracker) : Tracker :=
  { t with listeners := {}, okCallback := none, errorCallback := none, subscriptions := {} }

/-- Nobody observes the tracker. -/
def IsUnobserved (t : Tracker) : Prop :=
  t.unobserved = t

theorem isUnobserved_unobserved (t : Tracker) : t.unobserved.IsUnobserved := rfl

/-- What a tracker sets out to do does not depend on who observes it. -/
theorem plan_unobserved (t : Tracker) (x : Transition) : t.unobserved.plan x = t.plan x := rfl

namespace IsUnobserved

variable {t : Tracker}

theorem listeners (h : t.IsUnobserved) : t.listeners.members = [] := by
  rw [← h]
  rfl

theorem subscribers (h : t.IsUnobserved) (kind : TraceKind) : t.subscriptions.ofKind kind = [] := by
  rw [← h]
  rfl

theorem callbackFor (h : t.IsUnobserved) (d : Delivery) : t.callbackFor d = none := by
  rw [← h]
  cases d <;> rfl

/-- It stays so when the tracker notes something about itself. -/
theorem note (h : t.IsUnobserved) (core : Core) (announcing : Nat) :
    ({ t with core, announcing } : Tracker).IsUnobserved := by
  rw [← h]
  rfl

end IsUnobserved

end Tracker

/-! ### The log of a tracker -/

/-- A tracker is there, with the log that it writes to. -/
def Session.HasLog (s : Session) (i : Nat) : Prop :=
  ∃ t, s.trackers[i]? = some t ∧ t.log < s.logs.size

/-- If a tracker has its log before, it has it afterwards. -/
def KeepsLog (i : Nat) (s s' : Session) : Prop :=
  s.HasLog i → s'.HasLog i

instance (i : Nat) : Lenient i (KeepsLog i) where
  chains := { refl := fun _ h => h, trans := fun h h' hs => h' (h hs) }
  of_keeps := by
    rintro s s' hkeeps - hle ⟨t, ht, hlt⟩
    obtain ⟨t', ht', hk⟩ := hkeeps t ht
    exact ⟨t', ht', hk.log ▸ Nat.lt_of_lt_of_le hlt hle⟩

namespace Act

variable {i : Nat} {respond : Respond}

/-- A change of a tracker that leaves it its log. -/
theorem along_modifyTracker_log {f : Tracker → Tracker} (hf : ∀ t, (f t).log = t.log) :
    (modifyTracker i f).Along (KeepsLog i) := by
  rintro s ⟨t, ht, hlt⟩
  exact ⟨f t, getElem?_modifyTracker ht f, (hf t).symm ▸ hlt⟩

/-- A transition leaves its tracker the log, if observers do. -/
theorem takes_keepsLog (hr : ∀ c, (respond c).Along (KeepsLog i)) : Takes i (KeepsLog i) respond := by
  intro t x s _
  have hsteps := along_carryOutSteps_of hr (along_emit hr i)
    (fun f hf => along_modifyTracker_log fun t => (hf t).2) (t.plan x).steps
  exact hsteps.then (fun _ => along_ofExcept _) s

end Act

/-- Whatever is requested of a session, a tracker keeps its log. -/
theorem Session.HasLog.steps {s : Session} {i : Nat} (h : s.HasLog i) (rs : List Request) :
    (s.after rs).HasLog i :=
  along_steps (R := KeepsLog i) (fun _ hr => Act.takes_keepsLog hr) s rs h

/-! ### A run with no observers -/

/-- The log after messages were written to it. -/
def Log.writeAll (l : Log) (timestamp : Int) (ms : List Log.Message) : Log :=
  ms.foldl (fun l m => (l.write timestamp m).2) l

theorem Log.writeAll_append (l : Log) (timestamp : Int) (ms more : List Log.Message) :
    l.writeAll timestamp (ms ++ more) = (l.writeAll timestamp ms).writeAll timestamp more :=
  List.foldl_append

theorem messagesOf_append (steps more : List Step) :
    messagesOf (steps ++ more) = messagesOf steps ++ messagesOf more :=
  List.filterMap_append

namespace Act

variable {i : Nat} {respond : Respond} {s : Session} {t : Tracker}

/-- Notices of which nobody hears change nothing. -/
theorem giveNotices_unobserved {before : Tracker} (hbefore : before.IsUnobserved)
    (ht : s.trackers[i]? = some t) (h : t.IsUnobserved) (ns : List Notice) :
    (giveNotices respond i before ns).ran s = (.ok (), s) := by
  induction ns with
  | nil => rfl
  | cons n rest ih =>
    have hn : (giveNotice respond i before n).ran s = (.ok (), s) := by
      cases n with
      | listeners call =>
        rw [giveNotice, ran_bind, ran_tracker ht, onward, h.listeners]
        rfl
      | trace event =>
        have hemit : (emit respond i event).ran s = (.ok false, s) := by
          rw [emit, ran_bind, ran_tracker ht, onward, h.subscribers]
          rfl
        rw [giveNotice, ran_bind, hemit]
        rfl
      | deliver d =>
        rw [giveNotice, hbefore.callbackFor]
        rfl
    rw [giveNotices, ran_bind, hn]
    exact ih

/-- With no observers a plan is carried out to its end, and the log has its messages, in turn. -/
theorem carryOut_unobserved_logs {l : Log} (ht : s.trackers[i]? = some t) (h : t.IsUnobserved)
    (hl : s.logs[t.log]? = some l) (steps : List Step) :
    ∃ s' t', (carryOutSteps respond i steps).ran s = (.ok (), s') ∧ s'.trackers[i]? = some t' ∧
      t'.core = coreAfter steps t.core ∧ s'.logs[t.log]? = some (l.writeAll s.clock (messagesOf steps)) := by
  induction steps generalizing s t l with
  | nil => exact ⟨s, t, rfl, ht, rfl, hl⟩
  | cons step rest ih =>
    obtain ⟨s₁, core, announcing, hstep, ht₁, hcore, hclock, hl₁⟩ : ∃ s₁ core announcing,
        (carryOutStep respond i step).ran s = (.ok (), s₁) ∧
          s₁.trackers[i]? = some { t with core, announcing } ∧ core = coreAfter [step] t.core ∧
            s₁.clock = s.clock ∧ s₁.logs[t.log]? = some (l.writeAll s.clock (messagesOf [step])) := by
      cases step with
      | change c => exact ⟨_, _, _, rfl, getElem?_modifyTracker ht _, rfl, rfl, hl⟩
      | announce ns =>
        have ht₁ := getElem?_modifyTracker ht fun t => { t with announcing := t.announcing + 1 }
        have ht₂ := getElem?_modifyTracker ht₁ fun t => { t with announcing := t.announcing - 1 }
        refine ⟨_, t.core, t.announcing + 1 - 1, ?_, ht₂, rfl, rfl, hl⟩
        rw [carryOutStep, ran_announce ns ht, giveNotices_unobserved h ht₁ (h.note _ _)]
      | log m =>
        refine ⟨written t.log l m s, t.core, t.announcing, ?_, ?_, rfl, ?_, ?_⟩
        · rw [carryOutStep, ran_bind, ran_tracker ht]
          exact ran_write_eq hl m
        · rw [written_eq]
          exact ht
        · rw [written_eq]
        · rw [written_eq]
          exact Array.getElem?_setIfInBounds_self_of_lt (Array.getElem?_eq_some_iff.1 hl).1
    obtain ⟨s', t', hrest, ht', hcore', hl'⟩ := ih ht₁ (h.note _ _) hl₁
    refine ⟨s', t', ?_, ht', ?_, ?_⟩
    · rw [carryOutSteps, ran_bind, hstep]
      exact hrest
    · rw [hcore', show step :: rest = [step] ++ rest from rfl, coreAfter_append]
      exact congrArg (RadioOccupancy.coreAfter rest) hcore
    · rw [hl', hclock, ← Log.writeAll_append, ← messagesOf_append]
      rfl

/-- With no observers a plan is carried out to its end. -/
theorem carryOut_unobserved (ht : s.trackers[i]? = some t) (h : t.IsUnobserved)
    (hlog : t.log < s.logs.size) (steps : List Step) :
    ∃ s' t', (carryOutSteps respond i steps).ran s = (.ok (), s') ∧ s'.trackers[i]? = some t' ∧
      t'.core = coreAfter steps t.core := by
  obtain ⟨s', t', hran, ht', hcore, -⟩ := carryOut_unobserved_logs ht h (Array.getElem?_eq_getElem hlog) steps
  exact ⟨s', t', hran, ht', hcore⟩

end Act

/-- Whatever was requested of a session before, and whatever the observers of a tracker request while they are
told of a transition: if none of them fails, the transition ends in the same way as it does with no
observers, and the tracker remembers the same afterwards. -/
theorem Session.HasLog.uninfluenced {s : Session} {i : Nat} (h : s.HasLog i) (rs : List Request) :
    ∃ t, (s.after rs).trackers[i]? = some t ∧ ∀ depth respond x s₁,
      (Act.carryOutSteps (Act.respond depth) i (t.plan x).steps).ran (s.after rs) = (.ok (), s₁) →
        ∃ result s₂ u v,
          (Act.performOnTracker (Act.respond depth) i (.transition x)).ran (s.after rs) =
            (result, s₁) ∧
          (Act.performOnTracker respond i (.transition x)).ran
            ((s.after rs).modifyTracker i Tracker.unobserved) = (result, s₂) ∧
          s₁.trackers[i]? = some u ∧ s₂.trackers[i]? = some v ∧ u.core = v.core := by
  obtain ⟨t, ht, hlog⟩ := h.steps rs
  refine ⟨t, ht, fun depth respond x s₁ hcall => ?_⟩
  obtain ⟨u, hu, hk⟩ := Act.keeps_carryOutSteps (Act.sparing_respond depth) ht hcall
  have ht' := Act.getElem?_modifyTracker ht Tracker.unobserved
  obtain ⟨s₂, v, (hcall' : (Act.carryOutSteps respond i _).ran _ = _), hv, hcore⟩ :=
    Act.carryOut_unobserved ht' t.isUnobserved_unobserved hlog (t.unobserved.plan x).steps
  have hresult := Act.ran_transition ht' hcall'
  rw [t.plan_unobserved x] at hcore hresult
  exact ⟨_, s₂, u, v, Act.ran_transition ht hcall, hresult, hu, hv, hk.core.trans hcore.symm⟩

/-- A listener that hears of a reception tries to power off the radio, and disposes of its tracker. The
reception begins all the same, as it does if nobody listens. -/
theorem Session.uninfluenced_by_disposal :
    ∃ s s₁ s₂ u v result,
      (Act.performOnTracker (Act.respond 2) 0 (.transition (.receive 0 50 ⟨⟨0, 63⟩, none⟩))).ran s =
          (result, s₁) ∧
        (Act.performOnTracker (Act.respond 2) 0 (.transition (.receive 0 50 ⟨⟨0, 63⟩, none⟩))).ran
          (s.modifyTracker 0 Tracker.unobserved) = (result, s₂) ∧
        s₁.trackers[0]? = some u ∧ s₂.trackers[0]? = some v ∧
          (u.disposed = true ∧ u.core.record.receiving = true) ∧ u.core = v.core := by
  let rs : List Request := [.tracker "radio" (.register "mac"),
    .script "mac" "onRxStart"
      [⟨.tracker "radio" (.transition (.powerOff 0 ⟨⟨0, 63⟩, none⟩)), false⟩,
        ⟨.tracker "radio" .dispose, false⟩]]
  let x : Transition := .receive 0 50 ⟨⟨0, 63⟩, none⟩
  let s := (firstUnder "radio").after rs
  have hlog : (firstUnder "radio").HasLog 0 := ⟨.first {}, rfl, Nat.zero_lt_one⟩
  obtain ⟨t, ht, hall⟩ := hlog.uninfluenced rs
  have hany : (s.trackers[0]?.any fun t =>
      let (result, s₁) := (Act.carryOutSteps (Act.respond 2) 0 (t.plan x).steps).ran s
      result.isOk && s₁.trackers[0]?.any fun u => u.disposed && u.core.record.receiving) = true := by
    decide
  rw [ht, Option.any_some, Bool.and_eq_true] at hany
  obtain ⟨hok, hu⟩ := hany
  obtain ⟨result, s₂, u, v, hobserved, hunobserved, hu₁, hv, hcore⟩ :=
    hall 2 (Act.respond 2) x _ (Act.ok_of_isOk hok)
  rw [hu₁, Option.any_some, Bool.and_eq_true] at hu
  exact ⟨s, _, s₂, u, v, result, hobserved, hunobserved, hu₁, hv, hu, hcore⟩

end RadioOccupancy
