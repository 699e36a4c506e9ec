import Mathlib.Data.Finset.Insert
import Mathlib.Data.Finset.Lattice.Basic
import Mathlib.Logic.Function.Basic

/-!
# Views of threads under release and acquire

A thread knows some events to be complete: its own, and those it has learned of by reading what
another thread has released. The view of a thread is the set of these events. An atomic location
carries the view that was released to it; a read-modify-write that does not release passes it on.
-/

namespace MemoryViews

/-- The ordering of a read-modify-write. -/
inductive MemoryOrder where
  | relaxed
  | acquire
  | release
  | acqRel
  deriving DecidableEq, Repr

def MemoryOrder.acquires : MemoryOrder → Bool
  | .acquire | .acqRel => true
  | _ => false

def MemoryOrder.releases : MemoryOrder → Bool
  | .release | .acqRel => true
  | _ => false

/-- The views of the threads and those attached to the atomic locations. -/
structure Views (Thread Location Event : Type*) where
  thread : Thread → Finset Event
  location : Location → Finset Event

inductive Action (Thread Location Event : Type*) where
  /-- An access that is not atomic. -/
  | access (thread : Thread) (event : Event)
  | readModifyWrite (thread : Thread) (location : Location) (ordering : MemoryOrder)

variable {Thread Location Event : Type*} [DecidableEq Event]

namespace Views

def empty : Views Thread Location Event :=
  { thread := fun _ => ∅
    location := fun _ => ∅ }

/-- The view of a thread after it has read the value of a location. -/
def acquired (views : Views Thread Location Event) (thread : Thread) (location : Location)
    (ordering : MemoryOrder) : Finset Event :=
  if ordering.acquires then views.thread thread ∪ views.location location
  else views.thread thread

/-- The view attached to the value that a thread then writes. -/
def released (views : Views Thread Location Event) (thread : Thread) (location : Location)
    (ordering : MemoryOrder) : Finset Event :=
  if ordering.releases then views.location location ∪ views.acquired thread location ordering
  else views.location location

theorem thread_subset_acquired (views : Views Thread Location Event) (thread : Thread)
    (location : Location) (ordering : MemoryOrder) :
    views.thread thread ⊆ views.acquired thread location ordering := by
  rw [acquired]
  split
  · exact Finset.subset_union_left
  · exact Finset.Subset.refl _

theorem location_subset_released (views : Views Thread Location Event) (thread : Thread)
    (location : Location) (ordering : MemoryOrder) :
    views.location location ⊆ views.released thread location ordering := by
  rw [released]
  split
  · exact Finset.subset_union_left
  · exact Finset.Subset.refl _

section Act

variable [DecidableEq Thread] [DecidableEq Location]

def act (views : Views Thread Location Event) :
    Action Thread Location Event → Views Thread Location Event
  | .access thread event =>
    { views with
      thread := Function.update views.thread thread (insert event (views.thread thread)) }
  | .readModifyWrite thread location ordering =>
    { thread := Function.update views.thread thread (views.acquired thread location ordering)
      location :=
        Function.update views.location location (views.released thread location ordering) }

variable {views : Views Thread Location Event}

/-- A thread does not forget. -/
theorem thread_subset_act (action : Action Thread Location Event) (thread : Thread) :
    views.thread thread ⊆ (views.act action).thread thread := by
  cases action with
  | access actor event =>
      by_cases hactor : thread = actor
      · subst hactor
        simp [act]
      · simp [act, hactor]
  | readModifyWrite actor location ordering =>
      by_cases hactor : thread = actor
      · subst hactor
        simpa [act] using views.thread_subset_acquired thread location ordering
      · simp [act, hactor]

/-- A location passes on what was released to it. -/
theorem location_subset_act (action : Action Thread Location Event) (location : Location) :
    views.location location ⊆ (views.act action).location location := by
  cases action with
  | access actor event => exact Finset.Subset.refl _
  | readModifyWrite actor location' ordering =>
      by_cases hlocation : location = location'
      · subst hlocation
        simpa [act] using views.location_subset_released actor location ordering
      · simp [act, hlocation]

/-- A thread knows its own accesses. -/
theorem mem_thread_access (thread : Thread) (event : Event) :
    event ∈ (views.act (.access thread event)).thread thread := by
  simp [act]

/-- What a thread knows is attached to what it releases. -/
theorem thread_subset_location_of_releases {ordering : MemoryOrder}
    (hreleases : ordering.releases = true) (thread : Thread) (location : Location) :
    views.thread thread
      ⊆ (views.act (.readModifyWrite thread location ordering)).location location := by
  simp only [act, Function.update_self, released, hreleases, if_true]
  exact (views.thread_subset_acquired thread location ordering).trans Finset.subset_union_right

/-- What is attached to a value is known to the thread that acquires it. -/
theorem location_subset_thread_of_acquires {ordering : MemoryOrder}
    (hacquires : ordering.acquires = true) (thread : Thread) (location : Location) :
    views.location location
      ⊆ (views.act (.readModifyWrite thread location ordering)).thread thread := by
  simp only [act, Function.update_self, acquired, hacquires, if_true]
  exact Finset.subset_union_right

/-- A thread learns only by what it does itself, and by a read-modify-write only if that acquires. -/
theorem thread_act_readModifyWrite (views : Views Thread Location Event) {thread : Thread}
    (actor : Thread) (location : Location) (ordering : MemoryOrder)
    (h : thread ≠ actor ∨ ordering.acquires = false) :
    (views.act (.readModifyWrite actor location ordering)).thread thread = views.thread thread := by
  by_cases hactor : thread = actor
  · subst hactor
    simp [act, acquired, h.resolve_left (not_not_intro rfl)]
  · exact Function.update_of_ne hactor _ _

theorem thread_act_access (views : Views Thread Location Event) {thread actor : Thread}
    (event : Event) (h : thread ≠ actor) :
    (views.act (.access actor event)).thread thread = views.thread thread :=
  Function.update_of_ne h _ _

/-- What is attached to a location changes only when something is released to it. -/
theorem location_act_readModifyWrite (views : Views Thread Location Event) {location : Location}
    (actor : Thread) (target : Location) (ordering : MemoryOrder)
    (h : location ≠ target ∨ ordering.releases = false) :
    (views.act (.readModifyWrite actor target ordering)).location location
      = views.location location := by
  by_cases htarget : location = target
  · subst htarget
    simp [act, released, h.resolve_left (not_not_intro rfl)]
  · exact Function.update_of_ne htarget _ _

end Act

end Views

end MemoryViews
