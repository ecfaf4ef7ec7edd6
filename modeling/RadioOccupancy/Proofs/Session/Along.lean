import RadioOccupancy.Session.Run

/-!
How actions end, and relations that hold across them.

    before        x                       f a                       after
      s    ---------------->  s'   ---------------->  s''
           R s s'                  R s' s''
      s    ---------------------------------------->  s''
           R s s''

A relation that holds between each session and itself and can be chained holds across an action if it holds
across each of its parts. `Act.Along` is that, and the lemmas on it follow the ways in which actions are put
together. `Act.AlongAt` is the same for one session that an action begins in, where it matters what has been
looked at before. How the actions end that only look something up or write to a log is stated as equations.
-/

namespace RadioOccupancy

/-- A relation that holds between each session and itself, and can be chained. -/
structure Chains (R : Session → Session → Prop) : Prop where
  refl : ∀ s, R s s
  trans : ∀ {s s' s''}, R s s' → R s' s'' → R s s''

namespace Act

variable {α β : Type} {R : Session → Session → Prop}

/-- Carries out an action in a session: how it ends, and the session afterwards. -/
def ran (x : Act α) (s : Session) : Except Fault α × Session :=
  x.run.run s

/-- The relation holds across the action when it begins in the session. -/
def AlongAt (R : Session → Session → Prop) (s : Session) (x : Act α) : Prop :=
  R s (x.ran s).2

/-- The relation holds across the action. -/
def Along (R : Session → Session → Prop) (x : Act α) : Prop :=
  ∀ s, x.AlongAt R s

/-- How it goes on with a second action, unless the first failed. -/
def onward (f : α → Act β) : Except Fault α × Session → Except Fault β × Session
  | (.ok a, s) => (f a).ran s
  | (.error e, s) => (.error e, s)

/-- The second action goes on where the first ended. -/
theorem ran_bind (x : Act α) (f : α → Act β) (s : Session) : (x >>= f).ran s = onward f (x.ran s) := by
  change ((ExceptT.bindCont f (x.ran s).1).run (x.ran s).2) = _
  rcases x.ran s with ⟨_ | _, _⟩ <;> rfl

theorem ran_ofExcept (r : Except Fault α) (s : Session) : (ofExcept r).ran s = (r, s) := by
  cases r <;> rfl

/-- An action that comes to its end has two parts that do. -/
theorem ok_of_bind {x : Act α} {f : α → Act β} {b : β} {s s' : Session}
    (h : (x >>= f).ran s = (.ok b, s')) :
    ∃ a s₁, x.ran s = (.ok a, s₁) ∧ (f a).ran s₁ = (.ok b, s') := by
  rw [ran_bind] at h
  rcases hx : x.ran s with ⟨e | a, s₁⟩ <;> rw [hx] at h
  · cases h
  · exact ⟨a, s₁, rfl, h⟩

theorem eq_ok_of_isOk {ε : Type} {r : Except ε Unit} (h : r.isOk = true) : r = .ok () := by
  cases r with
  | ok => rfl
  | error => cases h

theorem ok_of_isOk {x : Act Unit} {s : Session} (h : (x.ran s).1.isOk = true) :
    x.ran s = (.ok (), (x.ran s).2) :=
  Prod.ext (eq_ok_of_isOk h) rfl

theorem AlongAt.bind (hR : Chains R) {s : Session} {x : Act α} {f : α → Act β} (hx : x.AlongAt R s)
    (hf : ∀ a, (x.ran s).1 = .ok a → (f a).AlongAt R (x.ran s).2) : (x >>= f).AlongAt R s := by
  unfold AlongAt at hx ⊢
  rw [ran_bind]
  rcases hran : x.ran s with ⟨e | a, s'⟩
  · rwa [hran] at hx
  · rw [hran] at hx hf
    exact hR.trans hx (hf a rfl)

namespace Along

theorem bind (hR : Chains R) {x : Act α} {f : α → Act β} (hx : x.Along R)
    (hf : ∀ a, (f a).Along R) : (x >>= f).Along R :=
  fun s => (hx s).bind hR fun a _ => hf a _

theorem pure (hR : Chains R) (a : α) : (Pure.pure a : Act α).Along R :=
  hR.refl

theorem throw (hR : Chains R) (e : Fault) : (throw e : Act α).Along R :=
  hR.refl

theorem get (hR : Chains R) : (get : Act Session).Along R :=
  hR.refl

theorem modify {f : Session → Session} (h : ∀ s, R s (f s)) : (modify f : Act Unit).Along R :=
  h

theorem ite {c : Prop} [Decidable c] {x y : Act α} (hx : x.Along R) (hy : y.Along R) :
    (if c then x else y).Along R := by
  split
  · exact hx
  · exact hy

theorem ofExcept (hR : Chains R) (r : Except Fault α) : (ofExcept r).Along R := by
  cases r with
  | ok a => exact pure hR a
  | error e => exact throw hR e

theorem named (hR : Chains R) (entries : Named α) (name : String) : (named entries name).Along R := by
  unfold Act.named
  split
  · exact pure hR _
  · exact throw hR _

theorem tracker (hR : Chains R) (index : Nat) : (tracker index).Along R := by
  refine (get hR).bind hR fun s => ?_
  split
  · exact pure hR _
  · exact throw hR _

theorem attempt {x : Act α} (hx : x.Along R) : (attempt x).Along R := by
  intro s
  have h := hx s
  unfold AlongAt ran at h ⊢
  exact h

theorem ensuring (hR : Chains R) {x : Act α} {f : Session → Session} (hx : x.Along R)
    (hf : ∀ s, R s (f s)) : (ensuring x f).Along R := by
  intro s
  exact hR.trans (hx s) (hf _)

end Along

/-! ### Looking at a tracker -/

section Looking

variable {i : Nat}

theorem ran_tracker {s : Session} {t : Tracker} (h : s.trackers[i]? = some t) :
    (tracker i).ran s = (.ok t, s) := by
  have hget : (get : Act Session).ran s = (.ok s, s) := rfl
  rw [tracker, ran_bind, hget, onward, h]
  rfl

theorem ran_tracker_none {s : Session} (h : s.trackers[i]? = none) :
    (tracker i).ran s = (.error (Fault.unknownName (toString i)), s) := by
  have hget : (get : Act Session).ran s = (.ok s, s) := rfl
  rw [tracker, ran_bind, hget, onward, h]
  rfl

theorem ran_collector {s : Session} {c : Collector} (h : s.collectors[i]? = some c) :
    (collector i).ran s = (.ok c, s) := by
  have hget : (get : Act Session).ran s = (.ok s, s) := rfl
  rw [collector, ran_bind, hget, onward, h]
  rfl

/-- After a change of a tracker, it is there changed. -/
theorem getElem?_modifyTracker {s : Session} {t : Tracker} (h : s.trackers[i]? = some t)
    (f : Tracker → Tracker) : (s.modifyTracker i f).trackers[i]? = some (f t) := by
  rw [Session.modifyTracker, Array.getElem?_modify, if_pos rfl, h]
  rfl

/-- A tracker that is looked at is there. -/
theorem getElem?_of_ran_tracker {index : Nat} {s : Session} {t : Tracker}
    (h : ((tracker index).ran s).1 = .ok t) :
    s.trackers[index]? = some t ∧ ((tracker index).ran s).2 = s := by
  cases hs : s.trackers[index]? with
  | some u =>
    rw [ran_tracker hs] at h ⊢
    obtain rfl := Except.ok.inj h
    exact ⟨rfl, rfl⟩
  | none =>
    rw [ran_tracker_none hs] at h
    cases h

theorem ran_named {α : Type} {entries : Named α} {name : String} {s : Session} {a : α}
    (h : entries.get? name = some a) : (named entries name).ran s = (.ok a, s) := by
  rw [named, h]
  rfl

/-- What is found under a name is there. -/
theorem get?_of_ran_named {α : Type} {entries : Named α} {name : String} {s : Session} {a : α}
    (h : ((named entries name).ran s).1 = .ok a) :
    entries.get? name = some a ∧ ((named entries name).ran s).2 = s := by
  rw [named] at h ⊢
  cases hget : entries.get? name with
  | some b =>
    rw [hget] at h
    obtain rfl := Except.ok.inj h
    exact ⟨rfl, rfl⟩
  | none =>
    rw [hget] at h
    cases h

/-- What writing to a log `l` makes of a session. The line is printed if the log takes the message. -/
def written (index : Nat) (l : Log) (m : Log.Message) (s : Session) : Session :=
  let s' : Session := { s with logs := s.logs.setIfInBounds index (l.write s.clock m).2 }
  match (l.write s.clock m).1 with
  | some e => s'.see (.logged e.line)
  | none => s'

theorem ran_write_eq {index : Nat} {s : Session} {l : Log} (h : s.logs[index]? = some l) (m : Log.Message) :
    (write index m).ran s = (.ok (), written index l m s) := by
  have hget : (get : Act Session).ran s = (.ok s, s) := rfl
  have hlog : (logAt index).ran s = (.ok l, s) := by
    rw [logAt, ran_bind, hget, onward, h]
    rfl
  rw [write, ran_bind, hlog, onward, ran_bind, hget, onward, written]
  rcases l.write s.clock m with ⟨_ | e, l'⟩ <;> rfl

/-- Writing to a log changes that log, and otherwise at most the events. -/
theorem written_eq (index : Nat) (l : Log) (m : Log.Message) (s : Session) :
    written index l m s =
      { s with
        logs := s.logs.setIfInBounds index (l.write s.clock m).2
        events := (written index l m s).events } := by
  rw [written]
  rcases l.write s.clock m with ⟨_ | e, l'⟩ <;> rfl

/-- A message can be written to a log that is there. -/
theorem ran_write {index : Nat} {s : Session} (h : index < s.logs.size) (m : Log.Message) :
    ∃ s', (write index m).ran s = (.ok (), s') ∧ s'.trackers = s.trackers ∧
      s'.logs.size = s.logs.size := by
  refine ⟨_, ran_write_eq (Array.getElem?_eq_getElem h) m, ?_⟩
  rw [written_eq]
  exact ⟨rfl, Array.size_setIfInBounds ..⟩

/-- A log that was written to was there. -/
theorem written_of_ran_write {index : Nat} {m : Log.Message} {s : Session}
    (h : ((write index m).ran s).1 = .ok ()) :
    ∃ l, s.logs[index]? = some l ∧ ((write index m).ran s).2 = written index l m s := by
  cases hl : s.logs[index]? with
  | some l => exact ⟨l, rfl, by rw [ran_write_eq hl]⟩
  | none =>
    have hget : (get : Act Session).ran s = (.ok s, s) := rfl
    have hlook : (logAt index).ran s = (.error (.unknownName (toString index)), s) := by
      rw [logAt, ran_bind, hget, onward, hl]
      rfl
    rw [write, ran_bind, hlook] at h
    cases h

/-- And it still is. -/
theorem lt_of_ran_write {index : Nat} {m : Log.Message} {s : Session}
    (h : ((write index m).ran s).1 = .ok ()) : index < ((write index m).ran s).2.logs.size := by
  obtain ⟨l, hl, hs'⟩ := written_of_ran_write h
  rw [hs', written_eq]
  exact (Array.size_setIfInBounds ..).symm ▸ (Array.getElem?_eq_some_iff.1 hl).1

end Looking

end Act

end RadioOccupancy
