import Stepwise.View.Highlight

/-!
# Session - The view cache

Views that were rendered before, by step number.  A session works with any store of
views that can be looked up and added to; the one it works with unless told otherwise
holds a bounded number of views and drops the one that was not used for the longest
time.

Main definitions:

- `ViewStore`, the operations of a store of views.
- `ViewCache`, the store that a session works with.

Main results:

- Theorem `mem_of_find?`: a view that is found was stored under its number.
-/

namespace Stepwise

/-- A store of views by step number.  Looking a view up may change what the store
drops later on. -/
class ViewStore (Store : Type) where
  /-- A store with room for a number of views. -/
  new : Nat → Store
  /-- The view kept under a step number, if there is one. -/
  get : Store → Nat → Option View × Store
  /-- Keep a view under a step number. -/
  add : Store → Nat → View → Store

/-- Views by step number, the most recently used first, at most `capacity`. -/
structure ViewCache where
  capacity : Nat
  entries : List (Nat × View)
  deriving Inhabited

namespace ViewCache

/-- The empty cache. -/
def empty (capacity : Nat) : ViewCache := ⟨capacity, []⟩

/-- The view stored under a step number. -/
def find? (cache : ViewCache) (step : Nat) : Option View :=
  cache.entries.lookup step

/-- Store a view under a step number. -/
def insert (cache : ViewCache) (step : Nat) (view : View) : ViewCache :=
  { cache with
    entries := ((step, view) :: cache.entries.filter (·.1 != step)).take cache.capacity }

/-- Make a stored view the most recently used one. -/
def touch (cache : ViewCache) (step : Nat) : ViewCache :=
  match cache.find? step with
  | some view => cache.insert step view
  | none => cache

instance : ViewStore ViewCache where
  new := empty
  get cache step := (cache.find? step, cache.touch step)
  add := insert

/-- A view that is found was stored under its number. -/
theorem mem_of_find? {cache : ViewCache} {step : Nat} {view : View}
    (h : cache.find? step = some view) : (step, view) ∈ cache.entries := by
  unfold find? at h
  generalize cache.entries = entries at h
  induction entries with
  | nil => simp at h
  | cons e es ih =>
    obtain ⟨k, v⟩ := e
    simp only [List.lookup_cons] at h
    split at h
    · simp_all
    · simp [ih h]

end ViewCache

end Stepwise
