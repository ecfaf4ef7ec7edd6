/-!
The listeners of a radio: an ordered set, in the order of registration. A listener is its own handle,
so registering it again changes nothing.
-/

namespace RadioOccupancy

/-- The name of an observer. -/
abbrev ObserverId := String

/-- Listeners in the order of registration, each of them once. -/
structure ListenerSet where
  members : List ObserverId := []
  nodup : members.Nodup := by exact List.nodup_nil
deriving DecidableEq, Repr

namespace ListenerSet

/-- How many listeners there are. -/
def size (s : ListenerSet) : Nat :=
  s.members.length

/-- The listener is registered. -/
def has (s : ListenerSet) (id : ObserverId) : Bool :=
  s.members.contains id

/-- A listener that is not there can be added at the end. -/
theorem nodup_append_of_not_has {s : ListenerSet} {id : ObserverId} (h : ¬s.has id) :
    (s.members ++ [id]).Nodup := by
  have hnot : id ∉ s.members := by simpa [has] using h
  rw [List.nodup_append]
  refine ⟨s.nodup, by simp, ?_⟩
  rintro a ha b hb rfl
  exact hnot (List.mem_singleton.1 hb ▸ ha)

/-- Adds a listener at the end, unless it is there. -/
def register (s : ListenerSet) (id : ObserverId) : ListenerSet :=
  if h : s.has id then s else ⟨s.members ++ [id], nodup_append_of_not_has h⟩

/-- Removes a listener. -/
def unregister (s : ListenerSet) (id : ObserverId) : ListenerSet :=
  ⟨s.members.erase id, s.nodup.erase id⟩

end ListenerSet

end RadioOccupancy
