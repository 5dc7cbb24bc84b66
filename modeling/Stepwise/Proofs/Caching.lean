import Stepwise.Proofs.Equivariance
import Stepwise.Proofs.Sessions

/-!
# Proofs - Views from a store are the views of the states

A session keeps views by step number and never drops one because a step was undone.  That is
sound: the state at a step number is the same on every way to it, but for identities of new
nodes, and a view does not depend on those.

Of the store of views one thing is assumed: it misses, or it gives the view that was last added
under the number.  What it drops, and when, is left open.

Main definitions:

- `ViewStore.Holds`, stores with what was last added to them.
- `LawfulViewStore`, the law of a store of views; the view cache obeys it.

Main results:

- `Session.Cached.view`: looking at a view keeps the views in the store right.
- `view_from_store`: every view of a session is that of its current state.
-/

namespace Stepwise

/-! ## Stores of views -/

/-- A store that was made anew and then looked up and added to, with the view that was last
added under each step number. -/
inductive ViewStore.Holds {Store : Type} [ViewStore Store] : Store → (Nat → Option View) → Prop
  | new (room : Nat) : Holds (ViewStore.new room) fun _ => none
  | get {store : Store} {last : Nat → Option View} (step : Nat) :
      Holds store last → Holds (ViewStore.get store step).2 last
  | add {store : Store} {last : Nat → Option View} (step : Nat) (view : View) :
      Holds store last →
      Holds (ViewStore.add store step view) (Function.update last step (some view))

/-- A store of views that misses or gives the view last added under a step number. -/
class LawfulViewStore (Store : Type) [ViewStore Store] : Prop where
  get_eq : ∀ {store : Store} {last : Nat → Option View} {step : Nat} {view : View},
    ViewStore.Holds store last → (ViewStore.get store step).1 = some view →
      last step = some view

namespace ViewCache

/-- The views in the cache were the last ones added under their numbers. -/
theorem mem_entries_of_holds {cache : ViewCache} {last : Nat → Option View}
    (h : ViewStore.Holds cache last) : ∀ p ∈ cache.entries, last p.1 = some p.2 := by
  have insert : ∀ {cache : ViewCache} {last last' : Nat → Option View} (step : Nat) (view : View),
      (∀ p ∈ cache.entries, last p.1 = some p.2) → last' step = some view →
      (∀ k, k ≠ step → last' k = last k) →
      ∀ p ∈ (cache.insert step view).entries, last' p.1 = some p.2 := by
    intro cache last last' step view hold hnew hsame p hp
    rcases List.mem_cons.1 (List.mem_of_mem_take hp) with rfl | hp
    · exact hnew
    · obtain ⟨hmem, hne⟩ := List.mem_filter.1 hp
      rw [hsame p.1 (by simpa using hne)]
      exact hold p hmem
  induction h with
  | new room =>
    intro p hp
    cases hp
  | @get cache last step h ih =>
    change ∀ p ∈ (cache.touch step).entries, last p.1 = some p.2
    unfold touch
    split
    · rename_i view hfind
      exact insert step view ih (ih _ (mem_of_find? hfind)) fun _ _ => rfl
    · exact ih
  | @add cache last step view h ih =>
    exact insert step view ih (Function.update_self ..) fun k hk => Function.update_of_ne hk _ _

instance : LawfulViewStore ViewCache where
  get_eq h hget := mem_entries_of_holds h _ (mem_of_find? hget)

end ViewCache

/-! ## The views of a session -/

namespace Session

variable {Store : Type} {s s' : Session Store} {tree code : List Stmt} {sup : Supply}

/-- The current state of a session has the view of the state of the run after as many steps,
whatever identities are given out next. -/
theorem Sound.view_now (hc : Coded code sup) (hb : Built tree sup) (h : s.Sound tree code sup) :
    ∃ r, State.steps s.steps (.init (code.map .filled) sup) = .ok r ∧
      ∀ sup' : Supply, s.supply.node ≤ sup'.node →
        State.view { s.state with supply := sup' } tree = r.view tree := by
  obtain ⟨r, f, hr, hp, hm, -⟩ := h.tracks.inStep hc
  refine ⟨r, hr, fun sup' hle => ?_⟩
  obtain ⟨g, hg⟩ := hm.resupply hle
  exact hg.view_eq hp hc.old hc.flat hb.checked hb.old

variable [ViewStore Store]

/-- The views in the store of a session are views of states of the run. -/
def Cached (tree code : List Stmt) (sup : Supply) (s : Session Store) : Prop :=
  ∃ last, ViewStore.Holds s.views last ∧ ∀ k view, last k = some view →
    ∃ r, State.steps k (.init (code.map .filled) sup) = .ok r ∧ r.view tree = .ok view

/-- Moving along the history keeps the stored views those of the run. -/
theorem Cached.move (h : s.Cached tree code sup) (hm : Moves s s') : s'.Cached tree code sup := by
  cases hm <;> exact h

/-- A look at the view gives the view of the state of the run, and keeps the store right. -/
theorem Cached.view [LawfulViewStore Store] {r : State} (h : s.Cached tree code sup)
    (hr : State.steps s.steps (.init (code.map .filled) sup) = .ok r)
    (hnow : s.now.view s.tree = r.view tree) :
    s.view.2 = r.view tree ∧ s.view.1.Cached tree code sup := by
  obtain ⟨last, hholds, hlast⟩ := h
  have hget := hholds.get s.steps
  have hlaw : ∀ view, (ViewStore.get s.views s.steps).1 = some view → r.view tree = .ok view := by
    intro view hview
    obtain ⟨r', hr', hview'⟩ := hlast _ view (LawfulViewStore.get_eq hholds hview)
    rw [hr] at hr'
    cases hr'
    exact hview'
  unfold Session.view
  rcases hpair : ViewStore.get s.views s.steps with ⟨found, views⟩
  rw [hpair] at hget hlaw
  cases found with
  | some view => exact ⟨(hlaw view rfl).symm, last, hget, hlast⟩
  | none =>
    cases hv : s.now.view s.tree with
    | error e =>
      rw [hv] at hnow
      exact ⟨hnow, last, hget, hlast⟩
    | ok view =>
      rw [hv] at hnow
      refine ⟨hnow, _, hget.add s.steps view, fun k view' hk => ?_⟩
      by_cases hks : k = s.steps
      · subst hks
        rw [Function.update_self, Option.some.injEq] at hk
        subst hk
        exact ⟨r, hr, hnow.symm⟩
      · rw [Function.update_of_ne hks] at hk
        exact hlast k view' hk

/-- A session with the right views in its store shows the view of its current state, and still
has the right views then. -/
theorem Sound.look [LawfulViewStore Store] (hc : Coded code sup) (hb : Built tree sup)
    (h : s.Sound tree code sup) (hcached : s.Cached tree code sup) :
    s.view.1.Cached tree code sup ∧ ∀ sup' : Supply, s.supply.node ≤ sup'.node →
      s.view.2 = State.view { s.state with supply := sup' } tree := by
  obtain ⟨r, hr, hview⟩ := h.view_now hc hb
  have hnow : s.now.view s.tree = r.view tree := by
    rw [h.tree]
    exact hview s.supply (Nat.le_refl _)
  obtain ⟨heq, hkept⟩ := hcached.view hr hnow
  refine ⟨hkept, fun sup' hle => ?_⟩
  rw [heq, hview sup' hle]

end Session

/-- Every view of a session is the view of its current state, whatever calls were made, whatever
views are in the store and whatever identities the view is built with. -/
theorem view_from_store {Store : Type} [ViewStore Store] [LawfulViewStore Store]
    {tree : List Stmt} {size : Int} {log : Log} {sup : Supply} {start s : Session Store}
    (htree : Built tree sup)
    (hstart : Session.startWith Store (tree.map .filled) size log sup = .ok start)
    (hs : Session.Driven start s) :
    s.tree = tree ∧ ∀ sup' : Supply, s.supply.node ≤ sup'.node →
      s.view.2 = State.view { s.state with supply := sup' } tree := by
  obtain ⟨code, sup₁, hlower, hc, hsound⟩ := Session.Sound.start htree hstart
  have hb : Built tree sup₁ := htree.mono (Stmt.lowerAll_layout hlower).2.le
  have hempty : start.Cached tree code sup₁ := by
    obtain ⟨_, _, _, -, -, rfl⟩ := Session.startWith_eq_ok hstart
    refine ⟨_, .new _, fun k view hk => ?_⟩
    cases hk
  have hinv : s.Sound tree code sup₁ ∧ s.Cached tree code sup₁ := by
    refine hs.induct (P := fun t => t.Sound tree code sup₁ ∧ t.Cached tree code sup₁)
      ⟨hsound, hempty⟩ ?_ ?_
    · rintro t u ⟨ht, hcached⟩ hm
      exact ⟨ht.move hc hm, hcached.move hm⟩
    · rintro t ⟨ht, hcached⟩
      exact ⟨ht.view, (ht.look hc hb hcached).1⟩
  exact ⟨hinv.1.tree, (hinv.1.look hc hb hinv.2).2⟩

/-- The program `int x = 1; x += 1; x += 1;`, in which the last two statements are one node. -/
def repeatedProgram : List Stmt :=
  let add : Stmt := .expression 4 (some (.addAssign 5 ⟨6, "x"⟩ (.constant ⟨7, .int 1⟩)))
  [.declaration 1 .int ⟨2, "x"⟩ (some (.constant ⟨3, .int 1⟩)), add, add]

/-- The view after four steps is stored; then the fourth step is undone and taken again. -/
theorem view_from_store_repeatedProgram :
    Built repeatedProgram ⟨8, 0⟩ ∧
      ∃ start s : Session,
        Session.startWith ViewCache (repeatedProgram.map .filled) 1 .silent ⟨8, 0⟩ = .ok start ∧
        Session.Driven start s ∧ s.steps = 4 ∧ (s.views.find? 4).isSome = true ∧
        s.tree = repeatedProgram ∧ ∀ sup' : Supply, s.supply.node ≤ sup'.node →
          s.view.2 = State.view { s.state with supply := sup' } repeatedProgram := by
  have hbuilt : Built repeatedProgram ⟨8, 0⟩ := by
    refine ⟨?_, by decide⟩
    simp [repeatedProgram, Identifier.Checked, Datatype.declarable]
  obtain ⟨start, hstart, hsteps, hstored⟩ : ∃ start : Session,
      Session.startWith ViewCache (repeatedProgram.map .filled) 1 .silent ⟨8, 0⟩ = .ok start ∧
        (((start.seek 4).1.view.1.seek 3).1.step.1).steps = 4 ∧
        ((((start.seek 4).1.view.1.seek 3).1.step.1).views.find? 4).isSome = true :=
    ⟨_, rfl, by decide +kernel, by decide +kernel⟩
  have hdriven : Session.Driven start ((start.seek 4).1.view.1.seek 3).1.step.1 :=
    .tail (.tail (.tail (.single (.seek _ 4)) (.view _)) (.seek _ 3)) (.step _)
  exact ⟨hbuilt, start, _, hstart, hdriven, hsteps, hstored, view_from_store hbuilt hstart hdriven⟩

end Stepwise
