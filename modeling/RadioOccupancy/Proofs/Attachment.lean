import RadioOccupancy.Proofs.Session.Faithful
import RadioOccupancy.Proofs.Session.Progress

/-!
A collector counts each event once.

    collector 0:   none     attached to 1   attached to 1   attached to 2   none
    tracker 1:     -        sc tx ok err    sc tx ok err    -               -
    tracker 2:     -        -               -               sc tx ok err    -

Nothing keeps a subscriber from having two entries for the same event and being called twice for it. A
collector has one at most, because it ends its entries before it makes new ones (`Act.attach_spec`), and
because nobody else makes entries for it, neither while it is attached nor while an event is being told. So it
is at each moment of whatever is requested, from outside or by observers (`Machine.Reachable.counts_once`).
-/

namespace RadioOccupancy

/-- No collector has its turn twice in what is left of an emission. -/
def Task.CountsOnce : Task → Prop
  | .subscribers _ _ _ entries => ∀ k, entries.countP (fun e => e.subscriber = .collector k) ≤ 1
  | _ => True

namespace Act

/-- After a collector has been attached, it has one entry for each kind of event at the tracker, and none at
others. -/
theorem attach_spec {s : Session} (hs : s.Orderly) {k j : Nat} {c : Collector} {t : Tracker}
    (hc : s.collectors[k]? = some c) (ht : s.trackers[j]? = some t) :
    ((attach k j).ran s).2.Subscribed j k ∧ ∀ n, n ≠ j → ((attach k j).ran s).2.entriesAt n k = [] := by
  obtain ⟨hnone, -⟩ | ⟨d, s₁, -, hran, hs₁, hd⟩ := detach_cases (k := k) hs
  · rw [hc] at hnone
    cases hnone
  · obtain ⟨u, hu, -⟩ := along_detach (R := KeepsAt j) k s t ht
    rw [hran] at hu
    have hsame : ((attach k j).ran s).2.trackers = (s₁.subscribing j k).trackers := by
      rw [ran_attach hran]
      exact along_writeOfCollector (R := fun s s' => s'.trackers = s.trackers) k _ _
    have hentries (n : Nat) :
        ((attach k j).ran s).2.entriesAt n k = (s₁.subscribing j k).entriesAt n k := by
      rw [Session.entriesAt, hsame, Session.entriesAt]
    refine ⟨fun kind => ?_, fun n hn => ?_⟩
    · rw [hentries]
      exact hs₁.subscribed_subscribing hd rfl hu kind
    · rw [hentries, Session.entriesAt_subscribing_of_ne s₁ fun h => absurd h hn]
      exact hs₁.unheard hd rfl n

/-- After it has been detached, it has none anywhere. -/
theorem detach_spec {s : Session} (hs : s.Orderly) {k : Nat} {c : Collector}
    (hc : s.collectors[k]? = some c) (n : Nat) : ((detach k).ran s).2.entriesAt n k = [] := by
  obtain ⟨hnone, -⟩ | ⟨d, s₁, -, hran, hs₁, hd⟩ := detach_cases (k := k) hs
  · rw [hc] at hnone
    cases hnone
  · rw [hran]
    exact hs₁.unheard hd rfl n

section Named

variable {respond : Respond} {s : Session} {name : String} {k : Nat} {c : Collector}

/-- The answer makes no difference to the session. -/
theorem snd_ran_bind_pure {α β : Type} (x : Act α) (b : β) (s : Session) :
    ((x >>= fun _ => pure b).ran s).2 = (x.ran s).2 := by
  rw [ran_bind]
  rcases x.ran s with ⟨e | a, s'⟩ <;> rfl

variable (hname : s.collectorNames.get? name = some k) (hc : s.collectors[k]? = some c)
include hname hc

/-- A request to a collector is carried out on the collector that has the name. -/
theorem ran_performCollector_bind (f : Nat → Collector → Act Value) :
    Act.ran (do
      let index ← named (← get).collectorNames name
      let c ← collector index
      f index c) s = (f k c).ran s := by
  have hget : (get : Act Session).ran s = (.ok s, s) := rfl
  rw [ran_bind, hget, onward, ran_bind, ran_named hname, onward, ran_bind, ran_collector hc, onward]

theorem ran_detachNamed : ((perform respond (.collector name .detach)).ran s).2 = ((detach k).ran s).2 := by
  have hperform := ran_performCollector_bind hname hc fun index _ => do
    detach index
    return Value.nothing
  exact (congrArg Prod.snd hperform).trans (snd_ran_bind_pure _ _ _)

theorem ran_attachNamed {target : String} {j : Nat} (htarget : s.trackerNames.get? target = some j) :
    ((perform respond (.collector name (.attach target))).ran s).2 = ((attach k j).ran s).2 := by
  have hperform := ran_performCollector_bind hname hc fun index _ => do
    attach index (← named (← get).trackerNames target)
    return Value.nothing
  have hget : (get : Act Session).ran s = (.ok s, s) := rfl
  refine (congrArg Prod.snd hperform).trans ?_
  rw [ran_bind, hget, onward, ran_bind, ran_named htarget, onward]
  exact snd_ran_bind_pure _ _ _

end Named

end Act

/-- A collector has one entry at most among those that are told of an event. -/
theorem Session.Orderly.countP_ofKind {s : Session} (h : s.Orderly) {j : Nat} {t : Tracker}
    (ht : s.trackers[j]? = some t) (kind : TraceKind) (k : Nat) :
    (t.subscriptions.ofKind kind).countP (fun e => e.subscriber = .collector k) ≤ 1 := by
  have hsingle := h.single j k kind
  rw [entriesAt_eq ht, ← Subscriptions.filter_ofKind] at hsingle
  rwa [List.countP_eq_length_filter]

namespace Task

theorem Begets.countsOnce {s : Session} (hs : s.Orderly) {task t : Task} (h : task.Begets s t)
    (htask : task.CountsOnce) : t.CountsOnce := by
  cases h with
  | subscribers => exact fun k => Nat.le_trans (List.Sublist.countP_le (List.sublist_cons_self ..)) (htask k)
  | noticeTrace ht => exact fun k => hs.countP_ofKind ht _ k
  | _ => trivial

theorem countsOnce_of_isFrame {t : Task} (h : t.isFrame = true) : t.CountsOnce := by
  cases t with
  | subscribers => cases h
  | _ => trivial

end Task

theorem Request.Begets.countsOnce {s : Session} (hs : s.Orderly) {r : Request} {t : Task} (h : r.Begets s t) :
    t.CountsOnce := by
  cases h with
  | emit _ ht => exact fun k => hs.countP_ofKind ht _ k
  | _ => trivial

/-- The request is to attach the collector of one name to the tracker of the other. -/
def Request.attaches (collector tracker : String) : Request → Bool
  | .collector name (.attach target) => name = collector ∧ target = tracker
  | _ => false

theorem Request.eq_of_attaches {collector tracker : String} {r : Request}
    (h : r.attaches collector tracker = true) : r = .collector collector (.attach tracker) := by
  rw [Request.attaches.eq_def] at h
  split at h
  · obtain ⟨rfl, rfl⟩ := of_decide_eq_true h
    rfl
  · cases h

namespace Machine

theorem Reachable.countsOnce {m : Machine} (hm : m.Reachable) : ∀ t ∈ m.tasks, t.CountsOnce := by
  obtain ⟨rs, hruns⟩ := hm
  induction hruns with
  | nil => rintro _ ⟨⟩
  | @snoc rs r m m' hruns hnext ih =>
    have hs : m.session.Orderly := Reachable.orderly ⟨rs, hruns⟩
    intro t ht
    rcases hnext.mem_tasks ht with ht | ⟨task, htask, hbegets⟩ | ⟨q, -, hbegets⟩ | hframe
    · exact ih t ht
    · exact hbegets.countsOnce hs (ih task htask)
    · exact hbegets.countsOnce hs
    · exact Task.countsOnce_of_isFrame hframe

/-- At each moment of whatever is requested, a collector has entries only at the tracker that it is attached
to, and one for each kind of event at most, and it has its turn once at most in each emission that is under
way. When it has been attached, it has one entry for each kind of event at that tracker, and when it has been
detached, it has none. -/
theorem Reachable.counts_once {m : Machine} (hm : m.Reachable) :
    (∀ j k kind, ((m.session.entriesAt j k).filter fun e => e.kind = kind).length ≤ 1) ∧
    (∀ j k, m.session.entriesAt j k ≠ [] →
      ∃ c, m.session.collectors[k]? = some c ∧ c.tracker = some j) ∧
    (∀ task ∈ m.tasks, task.CountsOnce) ∧
    (∀ (name target : String) (k j : Nat) (c : Collector) (t : Tracker) (m' : Machine),
      m.session.collectorNames.get? name = some k → m.session.collectors[k]? = some c →
      m.session.trackerNames.get? target = some j → m.session.trackers[j]? = some t →
      Next (some (.collector name (.attach target))) m m' →
        m'.session.Subscribed j k ∧ ∀ n, n ≠ j → m'.session.entriesAt n k = []) ∧
    ∀ (name : String) (k : Nat) (c : Collector) (m' : Machine),
      m.session.collectorNames.get? name = some k → m.session.collectors[k]? = some c →
      Next (some (.collector name .detach)) m m' → ∀ n, m'.session.entriesAt n k = [] := by
  have hs := hm.orderly
  have hevents (events : Array Event) : { m.session with events }.Orderly :=
    hs.of_same rfl rfl (Nat.le_refl _)
  refine ⟨hs.single, hs.attached, hm.countsOnce, ?_, ?_⟩
  · intro name target k j c t m' hname hc htarget ht hnext
    obtain ⟨events, hm'⟩ := hnext.session_eq rfl
    rw [hm', Act.ran_attachNamed (s := { m.session with events }) hname hc htarget]
    exact Act.attach_spec (hevents events) hc ht
  · intro name k c m' hname hc hnext
    obtain ⟨events, hm'⟩ := hnext.session_eq rfl
    rw [hm', Act.ran_detachNamed (s := { m.session with events }) hname hc]
    exact Act.detach_spec (hevents events) hc

/-- A listener hears of a transmission and attaches a collector twice to the tracker that tells it. When it is
about to do so for the second time, the collector has its entries already, and afterwards it has one for each
kind of event as before. -/
theorem counts_once_of_attaching_twice :
    let attach : Scripted Request := ⟨.collector "stats" (.attach "radio"), true⟩
    ∃ m m' : Machine, m.Reachable ∧ m.tasks.length = 6 ∧ (m.session.entriesAt 0 0).length = 4 ∧
      Next (some attach.request) m m' ∧ m'.session.Subscribed 0 0 := by
  intro attach
  let rs : List Request :=
    [.tracker "radio" (.create none {}), .collector "stats" .create, .tracker "radio" (.register "mac"),
      .script "mac" "onTxStart" [attach, attach]]
  let transmit : Request := .tracker "radio" (.transition
    (.transmit 0 30 ⟨[(1, ⟨[⟨1, 100⟩], true⟩)]⟩ 20 ⟨"OfdmRate6Mbps", .long, 0, 20⟩ ⟨⟨0, 63⟩, none⟩))
  let begun := (⟨({} : Session).after rs, [], none, ({} : Session).run rs⟩ : Machine).begin transmit
  let m := begun.advance 9
  have hm : m.Reachable :=
    (reachable_after rs).later
      ((Later.next (.refl _) (.request transmit rfl)).trans (steps_advance 9 begun).later)
  have hentries : (m.session.entriesAt 0 0).length = 4 := by decide +kernel
  have htasks : m.tasks.length = 6 := by decide +kernel
  have hasked : m.asked? = some attach.request :=
    asked?_of_any (f := Request.attaches "stats" "radio") (by decide +kernel) fun _ => Request.eq_of_attaches
  have hstep : m.step.isSome = true := by decide +kernel
  have hc : m.session.collectors[0]?.isSome = true := by decide +kernel
  have ht : m.session.trackers[0]?.isSome = true := by decide +kernel
  obtain ⟨m', hstep⟩ := Option.isSome_iff_exists.1 hstep
  obtain ⟨c, hc⟩ := Option.isSome_iff_exists.1 hc
  obtain ⟨t, ht⟩ := Option.isSome_iff_exists.1 ht
  have hnext : Next (some attach.request) m m' := hasked ▸ .step hstep
  obtain ⟨-, -, -, hattached, -⟩ := hm.counts_once
  exact ⟨m, m', hm, htasks, hentries, hnext,
    (hattached "stats" "radio" 0 0 c t m' (by decide +kernel) hc (by decide +kernel) ht hnext).1⟩

end Machine

end RadioOccupancy
