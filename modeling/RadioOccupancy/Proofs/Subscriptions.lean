import Mathlib.Data.List.Nodup
import RadioOccupancy.Observer.Subscriptions

/-!
What becomes of the entries of one subscriber when others come and go.

    entries:   0 meter   1 collector   2 mac   3 collector   4 mac
                                        ^ removed by its serial

Entries are removed by their serials. As long as no two of them share one, and new ones get serials that were
never given before (`Subscriptions.Sound`), others leave the entries of a subscriber as they are, whatever
they do. This includes an entry for one event that ends when its turn comes on a list drawn up long before.
-/

namespace RadioOccupancy

namespace Subscriptions

variable {s s' : Subscriptions} {kind : TraceKind} {who other : Subscriber} {once : Bool} {e : Subscription}

/-- The entries of a subscriber. -/
def entriesOf (s : Subscriptions) (who : Subscriber) : List Subscription :=
  s.entries.filter fun e => e.subscriber = who

theorem mem_entriesOf : e ∈ s.entriesOf who ↔ e ∈ s.entries ∧ e.subscriber = who := by
  rw [entriesOf, List.mem_filter, decide_eq_true_iff]

/-- No two entries share a serial, and none has that of the next one. -/
structure Sound (s : Subscriptions) : Prop where
  nodup : (s.entries.map Subscription.serial).Nodup
  lt_next : ∀ e ∈ s.entries, e.serial < s.nextSerial

theorem sound_empty : Sound {} :=
  ⟨List.nodup_nil, by simp⟩

theorem sound_clear (s : Subscriptions) : s.clear.Sound :=
  ⟨List.nodup_nil, by simp [clear]⟩

namespace Sound

theorem add (h : s.Sound) (kind : TraceKind) (who : Subscriber) (once : Bool) :
    (s.add kind who once).Sound := by
  constructor
  · rw [Subscriptions.add, List.map_append, List.nodup_append]
    refine ⟨h.nodup, List.nodup_singleton _, ?_⟩
    rintro n hn m hm rfl
    obtain ⟨e, he, rfl⟩ := List.mem_map.1 hn
    rw [List.map_singleton, List.mem_singleton] at hm
    exact absurd hm (Nat.ne_of_lt (h.lt_next e he))
  · rw [Subscriptions.add, List.forall_mem_append, List.forall_mem_singleton]
    exact ⟨fun e he => Nat.lt_succ_of_lt (h.lt_next e he), Nat.lt_succ_self _⟩

theorem removeSerial (h : s.Sound) (serial : Nat) : (s.removeSerial serial).Sound :=
  ⟨h.nodup.sublist (List.filter_sublist.map _), fun e he => h.lt_next e (List.mem_of_mem_filter he)⟩

theorem remove (h : s.Sound) (kind : TraceKind) (who : Subscriber) : (s.remove kind who).Sound := by
  rw [Subscriptions.remove]
  split
  · exact h.removeSerial _
  · exact h

theorem claim (h : s.Sound) (hs : s.claim e = some s') : s'.Sound := by
  rw [Subscriptions.claim] at hs
  split at hs
  · obtain rfl := Option.some.inj hs
    exact h
  · split at hs
    · cases hs
    · obtain rfl := Option.some.inj hs
      exact ⟨(h.removeSerial _).nodup, (h.removeSerial _).lt_next⟩

/-- An entry of somebody else has another serial. -/
theorem serial_ne (h : s.Sound) (he : e ∈ s.entries) (hne : e.subscriber ≠ who) :
    ∀ f ∈ s.entriesOf who, f.serial ≠ e.serial := by
  intro f hf heq
  obtain ⟨hmem, rfl⟩ := mem_entriesOf.1 hf
  exact hne (congrArg Subscription.subscriber (List.inj_on_of_nodup_map h.nodup he hmem heq.symm))

end Sound

/-! ### What others do to the entries of a subscriber -/

theorem entriesOf_add (s : Subscriptions) (kind : TraceKind) (other who : Subscriber) (once : Bool) :
    (s.add kind other once).entriesOf who =
      s.entriesOf who ++ if other = who then [⟨s.nextSerial, kind, other, once⟩] else [] := by
  rw [entriesOf, add, List.filter_append, List.filter_singleton, entriesOf]
  simp

theorem entriesOf_add_of_ne (s : Subscriptions) (kind : TraceKind) (once : Bool) (h : other ≠ who) :
    (s.add kind other once).entriesOf who = s.entriesOf who := by
  rw [entriesOf_add, if_neg h, List.append_nil]

theorem entriesOf_removeSerial {serial : Nat} (h : ∀ f ∈ s.entriesOf who, f.serial ≠ serial) :
    (s.removeSerial serial).entriesOf who = s.entriesOf who := by
  rw [entriesOf, removeSerial, List.filter_comm]
  exact List.filter_eq_self.2 fun f hf => bne_iff_ne.2 (h f hf)

theorem entriesOf_remove_of_ne (h : s.Sound) (kind : TraceKind) (hne : other ≠ who) :
    (s.remove kind other).entriesOf who = s.entriesOf who := by
  rw [remove]
  split
  · next e hfind =>
    have hmem : e ∈ s.ofKind kind := List.mem_reverse.1 (List.mem_of_find?_eq_some hfind)
    have hwho : e.subscriber = other := by simpa using List.find?_some hfind
    exact entriesOf_removeSerial (h.serial_ne (List.mem_of_mem_filter hmem) (hwho ▸ hne))
  · rfl

/-- Getting an entry of somebody else ready to be called, or a lasting one, changes nothing. -/
theorem entriesOf_claim (h : s.claim e = some s')
    (hne : e.once = true → ∀ f ∈ s.entriesOf who, f.serial ≠ e.serial) :
    s'.entriesOf who = s.entriesOf who := by
  rw [claim] at h
  split at h
  · obtain rfl := Option.some.inj h
    rfl
  · next honce =>
    split at h
    · cases h
    · obtain rfl := Option.some.inj h
      exact entriesOf_removeSerial (hne (by simpa using honce))

/-- A lasting entry is always called. -/
theorem claim_of_lasting (h : e.once = false) : s.claim e = some s := by
  rw [claim, h]
  rfl

/-- Among the entries for a kind of event, those of a subscriber are those for the kind among its own. -/
theorem filter_ofKind (s : Subscriptions) (kind : TraceKind) (who : Subscriber) :
    (s.ofKind kind).filter (fun e => e.subscriber = who) =
      (s.entriesOf who).filter fun e => e.kind = kind :=
  List.filter_comm ..

/-! ### What is left of the entries of a subscriber -/

theorem entriesOf_removeSerial_sublist (s : Subscriptions) (serial : Nat) (who : Subscriber) :
    ((s.removeSerial serial).entriesOf who).Sublist (s.entriesOf who) :=
  List.filter_sublist.filter _

theorem entriesOf_remove_sublist (s : Subscriptions) (kind : TraceKind) (other who : Subscriber) :
    ((s.remove kind other).entriesOf who).Sublist (s.entriesOf who) := by
  rw [remove]
  split
  · exact entriesOf_removeSerial_sublist ..
  · exact List.Sublist.refl _

theorem entriesOf_claim_sublist (h : s.claim e = some s') (who : Subscriber) :
    (s'.entriesOf who).Sublist (s.entriesOf who) := by
  rw [claim] at h
  split at h
  · obtain rfl := Option.some.inj h
    exact List.Sublist.refl _
  · split at h
    · cases h
    · obtain rfl := Option.some.inj h
      exact entriesOf_removeSerial_sublist ..

/-- The only entry of a subscriber for a kind of event is the one that is removed. -/
theorem filter_kind_remove (h : ((s.entriesOf who).filter fun e => e.kind = kind).length ≤ 1) :
    ((s.remove kind who).entriesOf who).filter (fun e => e.kind = kind) = [] := by
  rw [← filter_ofKind] at h
  rw [remove]
  split
  · next e hfind =>
    have hwho : e.subscriber = who := by simpa using List.find?_some hfind
    have hmem : e ∈ (s.ofKind kind).filter fun e => e.subscriber = who :=
      List.mem_filter.2 ⟨List.mem_reverse.1 (List.mem_of_find?_eq_some hfind), decide_eq_true hwho⟩
    rw [List.filter_eq_nil_iff]
    intro f hf
    rw [decide_eq_true_iff]
    rintro hkind
    obtain ⟨hf, hf'⟩ := mem_entriesOf.1 hf
    obtain ⟨hf, hne⟩ := List.mem_filter.1 hf
    have hmem' : f ∈ (s.ofKind kind).filter fun e => e.subscriber = who :=
      List.mem_filter.2 ⟨List.mem_filter.2 ⟨hf, decide_eq_true hkind⟩, decide_eq_true hf'⟩
    obtain ⟨g, hg⟩ := List.length_eq_one_iff.1 (Nat.le_antisymm h (List.length_pos_of_mem hmem))
    rw [hg, List.mem_singleton] at hmem hmem'
    rw [hmem, hmem'] at hne
    simp at hne
  · next hfind =>
    rw [List.filter_eq_nil_iff]
    intro f hf hkind
    obtain ⟨hf, hf'⟩ := mem_entriesOf.1 hf
    have hmem : f ∈ (s.ofKind kind).reverse := List.mem_reverse.2 (List.mem_filter.2 ⟨hf, hkind⟩)
    exact absurd (decide_eq_true hf') (by simpa using List.find?_eq_none.1 hfind f hmem)

/-! ### Entries for several kinds of event -/

/-- Adds a lasting entry for each of some kinds of event. -/
def addAll (s : Subscriptions) (who : Subscriber) (kinds : List TraceKind) : Subscriptions :=
  kinds.foldl (fun s kind => s.add kind who false) s

/-- Removes the latest entry for each of some kinds of event. -/
def removeAll (s : Subscriptions) (who : Subscriber) (kinds : List TraceKind) : Subscriptions :=
  kinds.foldl (fun s kind => s.remove kind who) s

theorem Sound.addAll (h : s.Sound) (who : Subscriber) (kinds : List TraceKind) :
    (s.addAll who kinds).Sound := by
  induction kinds generalizing s with
  | nil => exact h
  | cons kind rest ih => exact ih (h.add kind who false)

theorem Sound.removeAll (h : s.Sound) (who : Subscriber) (kinds : List TraceKind) :
    (s.removeAll who kinds).Sound := by
  induction kinds generalizing s with
  | nil => exact h
  | cons kind rest ih => exact ih (h.remove kind who)

/-- The subscriber gets an entry for each kind. -/
theorem entriesOf_addAll (s : Subscriptions) (who : Subscriber) (kinds : List TraceKind) :
    ((s.addAll who kinds).entriesOf who).map (fun e => (e.kind, e.once)) =
      (s.entriesOf who).map (fun e => (e.kind, e.once)) ++ kinds.map (·, false) := by
  induction kinds generalizing s with
  | nil => exact (List.append_nil _).symm
  | cons kind rest ih =>
    refine (ih _).trans ?_
    rw [entriesOf_add, if_pos rfl, List.map_append, List.append_assoc]
    rfl

theorem entriesOf_addAll_of_ne (s : Subscriptions) (kinds : List TraceKind) (h : other ≠ who) :
    (s.addAll other kinds).entriesOf who = s.entriesOf who := by
  induction kinds generalizing s with
  | nil => rfl
  | cons kind rest ih => exact (ih _).trans (entriesOf_add_of_ne s kind false h)

theorem entriesOf_removeAll_sublist (s : Subscriptions) (other who : Subscriber) (kinds : List TraceKind) :
    ((s.removeAll other kinds).entriesOf who).Sublist (s.entriesOf who) := by
  induction kinds generalizing s with
  | nil => exact List.Sublist.refl _
  | cons kind rest ih => exact (ih _).trans (entriesOf_remove_sublist s kind other who)

/-- A subscriber that has one entry for each kind at most has none left. -/
theorem entriesOf_removeAll
    (h : ∀ kind, ((s.entriesOf who).filter fun e => e.kind = kind).length ≤ 1) :
    (s.removeAll who TraceKind.all).entriesOf who = [] := by
  have hnone : ∀ kinds : List TraceKind, ∀ kind ∈ kinds,
      ((s.removeAll who kinds).entriesOf who).filter (fun e => e.kind = kind) = [] := by
    intro kinds
    induction kinds generalizing s with
    | nil => simp
    | cons first rest ih =>
      have hfirst : ((s.remove first who).entriesOf who).filter (fun e => e.kind = first) = [] :=
        filter_kind_remove (h first)
      have hless := entriesOf_remove_sublist s first who who
      have hrest := ih fun kind => Nat.le_trans (hless.filter _).length_le (h kind)
      intro kind hkind
      rcases List.mem_cons.1 hkind with rfl | hkind
      · have hsub := (entriesOf_removeAll_sublist (s.remove kind who) who who rest).filter
          fun e => decide (e.kind = kind)
        rw [hfirst] at hsub
        exact List.sublist_nil.1 hsub
      · exact hrest kind hkind
  rw [List.eq_nil_iff_forall_not_mem]
  intro e he
  have hkind : e.kind ∈ TraceKind.all := by
    cases e.kind <;> decide
  have hmem : e ∈ ((s.removeAll who TraceKind.all).entriesOf who).filter fun f => f.kind = e.kind :=
    List.mem_filter.2 ⟨he, decide_eq_true rfl⟩
  rw [hnone _ _ hkind] at hmem
  cases hmem

end Subscriptions

end RadioOccupancy
