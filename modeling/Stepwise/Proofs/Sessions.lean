import Stepwise.Proofs.Occurrence
import Stepwise.Proofs.Renaming
import Stepwise.Session.Basic
import Mathlib.Data.ENat.Lattice
import Mathlib.Logic.Relation
import Mathlib.Order.CompletePartialOrder

/-!
# Proofs - Sessions do not depend on the way taken

A session may step, undo, run, seek and render views in any order.  Its history is always
a first part of the one run of the program, but for the identities of the nodes that were
made anew when steps were taken again.

Main definitions:

- `State.lifetime`, the number of steps of a run, which may be infinite.
- `State.Alike`, states that differ in the identities of new nodes only.
- `Session.Moves`, the elementary changes of a session, and `Session.Driven`, sessions that
  calls lead to.

Main results:

- `Session.Call.moves`: every call is a chain of moves or a look at a view.
- `Session.Sound.driven`: the states of a session mirror the run of its program.
- `history_path_independent`: what calls do, whatever calls came before.
-/

namespace Stepwise

/-! ## The length of a run -/

namespace State

variable {s t : State} {l m n : Nat} {err : EvalError}

/-- A run that takes some steps takes fewer steps too. -/
theorem exists_steps_of_le (h : steps n s = .ok t) (hle : m ≤ n) : ∃ u, steps m s = .ok u := by
  rcases steps_or_halts s m with hm | ⟨l, hl, u, err, hend⟩
  · exact hm
  · have := (hend.split h).1
    omega

/-- The number of steps that a run takes before a step fails. -/
noncomputable def lifetime (s : State) : ℕ∞ :=
  ⨆ n : { n : Nat // ∃ t, steps n s = .ok t }, (n : ℕ∞)

/-- A lifetime is at least a number of steps when as many steps succeed. -/
theorem le_lifetime_iff : (n : ℕ∞) ≤ s.lifetime ↔ ∃ t, steps n s = .ok t := by
  constructor
  · intro hle
    rcases steps_or_halts s n with hn | ⟨m, hm, t, err, hend⟩
    · exact hn
    · have hlast : s.lifetime ≤ m := by
        apply iSup_le
        rintro ⟨k, u, hu⟩
        exact Nat.cast_le.2 (hend.split hu).1
      have := Nat.cast_le.1 (hle.trans hlast)
      omega
  · intro hn
    exact le_iSup (fun n : { n : Nat // ∃ t, steps n s = .ok t } => ((n : Nat) : ℕ∞)) ⟨n, hn⟩

/-- A run that comes to an end has taken all its steps. -/
theorem Halts.lifetime_eq (h : Halts n s t err) : s.lifetime = n := by
  apply le_antisymm
  · apply iSup_le
    rintro ⟨m, u, hu⟩
    exact Nat.cast_le.2 (h.split hu).1
  · exact le_lifetime_iff.2 ⟨t, h.1⟩

end State

/-! ## Calls and moves -/

namespace Session

variable {Store : Type} {s s' : Session Store}

/-- All states of a session up to the current one, the oldest first. -/
def history (s : Session Store) : List State :=
  s.past.toList ++ [s.state]

/-- The history holds one state more than steps were taken. -/
theorem length_history (s : Session Store) : s.history.length = s.steps + 1 := by
  simp [history, steps]

/-- The history ends with the current state. -/
theorem history_getElem?_steps (s : Session Store) : s.history[s.steps]? = some s.state := by
  simp [history, steps]

/-- A step adds a state to the history. -/
theorem history_push (s : Session Store) (next : State) (supply : Supply) :
    ({ s with past := s.past.push s.state, state := next, supply } : Session Store).history =
      s.history ++ [next] := by
  simp [history]

/-- Undoing a step drops the last state of the history. -/
theorem history_pop {previous : State} (h : s.past.back? = some previous) :
    s.history = ({ s with past := s.past.pop, state := previous } : Session Store).history ++
      [s.state] := by
  obtain ⟨past, hpast⟩ := Array.back?_eq_some_iff.1 h
  simp [history, hpast]

/-- The elementary changes of a session: an event is recorded, a step is taken or a step is
undone. -/
inductive Moves : Session Store → Session Store → Prop
  | note (s : Session Store) (event : Event) : Moves s (s.note event)
  | step {s : Session Store} {next : State} : s.now.step = .ok next →
      Moves s { s with past := s.past.push s.state, state := next, supply := next.supply }
  | back {s : Session Store} {previous : State} : s.past.back? = some previous →
      Moves s { s with past := s.past.pop, state := previous }

/-- One call that returns. -/
inductive Call [ViewStore Store] : Session Store → Session Store → Prop
  | step (s : Session Store) : Call s s.step.1
  | back {s s' : Session Store} : s.back? = some s' → Call s s'
  | run {s : Session Store} {limit : Int} {fuel : Nat} {stop : Stop Store} :
      s.run limit fuel = some stop → Call s stop.session
  | seek (s : Session Store) (target : Int) : Call s (s.seek target).1
  | view (s : Session Store) : Call s s.view.1

/-- A session that a sequence of calls leads to. -/
def Driven [ViewStore Store] : Session Store → Session Store → Prop :=
  Relation.ReflTransGen Call

/-- A session that a sequence of moves leads to. -/
def Moved : Session Store → Session Store → Prop :=
  Relation.ReflTransGen Moves

/-- What every move keeps is kept by a sequence of moves. -/
theorem Moved.induct {P : Session Store → Prop} (h : Moved s s') (hs : P s)
    (hmove : ∀ t u, P t → Moves t u → P u) : P s' := by
  induction h with
  | refl => exact hs
  | tail _ hm ih => exact hmove _ _ ih hm

theorem moved_note (s : Session Store) (event : Event) : Moved s (s.note event) :=
  .single (.note s event)

/-- A step takes the state on and notes it, or is noted as failed. -/
theorem moved_step (s : Session Store) : Moved s s.step.1 := by
  unfold step
  split
  · split
    · exact .refl
    · exact moved_note s _
  · rename_i next hstep
    exact .tail (.single (.step hstep)) (.note _ _)

/-- Undoing a step moves along the history. -/
theorem moved_back (h : s.back? = some s') : Moved s s' := by
  unfold back? at h
  split at h
  · cases h
  · rename_i previous hprev
    cases h
    exact .tail (.single (.back hprev)) (.note _ _)

/-- A run moves along the history. -/
theorem moved_runFrom {limit : Int} {taken fuel : Nat} {stop : Stop Store}
    (h : runFrom limit taken s fuel = some stop) : Moved s stop.session := by
  induction fuel generalizing s taken with
  | zero => cases h
  | succ fuel ih =>
    have hstep := moved_step s
    unfold runFrom at h
    split at h
    · cases h
      exact moved_note s _
    · split at h
      · cases h
        exact moved_note s _
      · split at h
        · rename_i s₁ e hs
          rw [hs] at hstep
          cases h
          exact hstep
        · rename_i s₁ hs
          rw [hs] at hstep
          exact hstep.trans (ih h)

/-- Rewinding moves along the history. -/
theorem moved_rewind (s : Session Store) (n : Nat) : Moved s (s.rewind n) := by
  induction n generalizing s with
  | zero => exact .refl
  | succ n ih =>
    unfold rewind
    split
    · rename_i s₁ hback
      exact (moved_back hback).trans (ih s₁)
    · exact .refl

/-- Advancing moves along the history. -/
theorem moved_advance (s : Session Store) (n : Nat) : Moved s (s.advance n).1 := by
  induction n generalizing s with
  | zero => exact .refl
  | succ n ih =>
    have hstep := moved_step s
    unfold advance
    split
    · exact .refl
    · split
      · rename_i s₁ e hs
        rw [hs] at hstep
        exact hstep
      · rename_i s₁ hs
        rw [hs] at hstep
        exact hstep.trans (ih s₁)

/-- Seeking moves along the history. -/
theorem moved_seek (s : Session Store) (target : Int) : Moved s (s.seek target).1 := by
  unfold seek
  split
  · exact .refl
  · dsimp only
    split
    · exact moved_rewind s _
    · exact moved_advance s _

/-- A call is a chain of moves, or it renders the view. -/
theorem Call.moves [ViewStore Store] (h : Call s s') : Moved s s' ∨ s' = s.view.1 := by
  cases h with
  | step => exact .inl (moved_step s)
  | back h => exact .inl (moved_back h)
  | run h => exact .inl (moved_runFrom h)
  | seek target => exact .inl (moved_seek s target)
  | view => exact .inr rfl

/-- What moves and views keep is kept by calls. -/
theorem Driven.induct [ViewStore Store] {P : Session Store → Prop} (h : Driven s s') (hs : P s)
    (hmove : ∀ t u, P t → Moves t u → P u) (hview : ∀ t, P t → P t.view.1) : P s' := by
  induction h with
  | refl => exact hs
  | tail _ hcall ih =>
    rcases hcall.moves with hmoved | rfl
    · exact hmoved.induct ih hmove
    · exact hview _ ih

/-- Looking at a view changes the store of views only. -/
theorem view_fst [ViewStore Store] (s : Session Store) : ∃ views, s.view.1 = { s with views } := by
  unfold view
  split
  · exact ⟨_, rfl⟩
  · split <;> exact ⟨_, rfl⟩

end Session

/-! ## Sessions and the run of a program -/

/-- Two states that differ in identities of nodes made from `base` on only: they stand at the
same place of the same code, the same values are in scope and the same text was printed, and
the active statements are the same but for a renaming of new identities. -/
def State.Alike (base : Nat) (r t : State) : Prop :=
  t.program = r.program ∧ t.pc = r.pc ∧ t.env.contents = r.env.contents ∧ t.output = r.output ∧
    ∃ f : Nat → Nat, Function.Injective f ∧ (∀ k < base, f k = k) ∧
      t.active = r.active.map (Stmt.rename f)

/-- A state that mirrors another one is like it. -/
theorem State.Mirrors.alike {base : Nat} {f : Nat → Nat} {r t : State} (h : r.Mirrors base f t) :
    r.Alike base t :=
  ⟨h.program, h.pc, h.contents, h.output, f, h.aligned.injective, h.aligned.fixed, h.active⟩

/-- A program as checked builders produce it, whose identities were given out before.  A node
may occur several times. -/
structure Built (tree : List Stmt) (s : Supply) : Prop where
  checked : Stmt.AllChecked tree
  old : ∀ k ∈ Stmt.listIds tree, k < s.node

/-- A built program stays built as identities are given out. -/
theorem Built.mono {tree : List Stmt} {s s' : Supply} (h : Built tree s)
    (hle : s.node ≤ s'.node) : Built tree s' :=
  ⟨h.checked, fun k hk => Nat.lt_of_lt_of_le (h.old k hk) hle⟩

/-- The identities in the code of a program were given out before or by lowering it. -/
theorem Built.code_lt {tree code : List Stmt} {s s' : Supply} (h : Built tree s)
    (hlower : Stmt.lowerAll tree s = .ok (code, s')) : ∀ k ∈ Stmt.listIds code, k < s'.node := by
  obtain ⟨hlayout, hdrawn⟩ := Stmt.lowerAll_layout hlower
  intro k hk
  obtain ⟨st, hst, hk⟩ := Stmt.mem_listIds.1 hk
  rcases hlayout.ids hst hk with hk | ⟨hsource, rfl⟩
  · exact Nat.lt_of_lt_of_le (h.old k hk) hdrawn.le
  · exact (hdrawn.id_mem hst hsource).2

/-- Code as lowering a built program gives it: it is checked and flat, and its identities were
given out before. -/
structure Coded (code : List Stmt) (sup : Supply) : Prop where
  checked : Stmt.AllChecked code
  flat : ∀ st ∈ code, st.Flat
  old : ∀ k ∈ Stmt.listIds code, k < sup.node

/-- The code of a built program is coded. -/
theorem Built.coded {tree code : List Stmt} {s s' : Supply} (h : Built tree s)
    (hlower : Stmt.lowerAll tree s = .ok (code, s')) : Coded code s' := by
  have hlayout := (Stmt.lowerAll_layout hlower).1
  exact ⟨hlayout.checked h.checked, hlayout.flat, h.code_lt hlower⟩

namespace State

variable {code : List Stmt} {sup : Supply} {r t : State} {f : Nat → Nat} {base : Nat}

/-- A step does not give identities back. -/
theorem Placed.supply_le (h : Placed code r) (hs : r.step = .ok t) :
    r.supply.node ≤ t.supply.node := by
  obtain ⟨i, -, st', env, out, sup, rfl, -, -, -, hc, hmoves⟩ := h.moves hs
  cases hmoves with
  | reduce frame id he hx =>
    have hred := (Expr.reduce_eq_ok_iff hc.of_fill).1 hx
    exact Nat.le_succ_of_le (Nat.le_of_lt hred.supply_lt)
  | advance | undeclare | jump => exact Nat.le_refl _
  | declare => exact Nat.le_succ _

/-- The same steps give out the same number of identities. -/
theorem Mirrors.supply_le {r' t' : State} (h : r.Mirrors base f t) (h' : r'.Mirrors base f t')
    (hle : r.supply.node ≤ r'.supply.node) : t.supply.node ≤ t'.supply.node := by
  obtain ⟨j, hj⟩ := Nat.exists_eq_add_of_le hle
  have hstart := h'.aligned.apply_start
  rw [hj, h.aligned.shift] at hstart
  exact hstart ▸ Nat.le_add_right _ j

end State

namespace Session

variable {Store : Type} {s s' : Session Store} {code : List Stmt} {sup : Supply}

/-- Every state of the session, with the identities that the session gives out next, mirrors
the state of the run after as many steps. -/
def Tracks (code : List Stmt) (sup : Supply) (s : Session Store) : Prop :=
  ∀ i t, s.history[i]? = some t → ∃ r f, State.steps i (.init (code.map .filled) sup) = .ok r ∧
    State.Mirrors sup.node f r { t with supply := s.supply }

/-- The current state of a session and the state of the run after as many steps take the next
step alike. -/
theorem Tracks.inStep (hc : Coded code sup) (h : s.Tracks code sup) :
    ∃ r f, State.steps s.steps (.init (code.map .filled) sup) = .ok r ∧ State.Placed code r ∧
      State.Mirrors sup.node f r s.now ∧ State.InStep sup.node f r.step s.now.step := by
  obtain ⟨r, f, hr, hm⟩ := h s.steps s.state s.history_getElem?_steps
  have hp := State.Placed.of_reaches hc.checked ⟨_, hr⟩
  exact ⟨r, f, hr, hp, hm, hm.step hc.old hp⟩

/-- A move keeps a session on the run of its program. -/
theorem Tracks.move (hc : Coded code sup) (h : s.Tracks code sup) (hm : Moves s s') :
    s'.Tracks code sup := by
  cases hm with
  | note event => exact h
  | @step next hstep =>
    obtain ⟨r, f, hr, hp, hmir, hin⟩ := h.inStep hc
    rw [hstep] at hin
    generalize hr' : r.step = step' at hin
    cases hin with
    | @go r' _ hmir' =>
      have hle : s.supply.node ≤ next.supply.node := hmir.supply_le hmir' (hp.supply_le hr')
      intro i t hi
      rw [history_push] at hi
      by_cases hlt : i < s.history.length
      · rw [List.getElem?_append_left hlt] at hi
        obtain ⟨r₀, f₀, hr₀, hmir₀⟩ := h i t hi
        obtain ⟨g, hg⟩ := hmir₀.resupply hle
        exact ⟨r₀, g, hr₀, hg⟩
      · have hlen := (List.getElem?_eq_some_iff.1 hi).1
        rw [List.length_append, List.length_singleton] at hlen
        obtain rfl : i = s.history.length := by omega
        rw [List.getElem?_concat_length, Option.some.injEq] at hi
        subst hi
        refine ⟨r', f, ?_, hmir'⟩
        rw [length_history, State.steps_add hr, State.steps_one hr']
  | @back previous hprev =>
    intro i t hi
    apply h i t
    rw [history_pop hprev]
    exact (List.getElem?_append_left (List.getElem?_eq_some_iff.1 hi).1).trans hi

/-- A session that tracks its run tracks it wherever it moves. -/
theorem Tracks.moved (hc : Coded code sup) (h : s.Tracks code sup) (hm : Moved s s') :
    s'.Tracks code sup :=
  hm.induct h fun _ _ ht => ht.move hc

/-- What a new session holds. -/
theorem startWith_eq_ok [ViewStore Store] {tree : List Stmt} {size : Int} {log : Log}
    {start : Session Store} (h : startWith Store (tree.map .filled) size log sup = .ok start) :
    ∃ code sup' log', Stmt.lowerAll tree sup = .ok (code, sup') ∧ 0 < size ∧
      start = ⟨tree, code, #[], .init (code.map .filled) sup', sup', ViewStore.new size.toNat,
        log'⟩ := by
  unfold startWith at h
  rw [lower_filled] at h
  split at h
  · cases h
  · rename_i code sup' hlower
    split at h
    · cases h
    · rename_i hsize
      cases h
      refine ⟨code, sup', log.push (startedEvent tree.length code.length), hlower, by omega, ?_⟩
      simp [note, List.filterMap_map, Function.comp_def]

/-- A new session stands at the first state of the run. -/
theorem Tracks.start (hc : Coded code sup) (hpast : s.past = #[])
    (hstate : s.state = .init (code.map .filled) sup) (hsup : s.supply = sup) :
    s.Tracks code sup := by
  intro i t hi
  have hlen := (List.getElem?_eq_some_iff.1 hi).1
  simp only [history, hpast, hstate] at hi hlen
  obtain rfl : i = 0 := by simpa using hlen
  obtain rfl : State.init (code.map .filled) sup = t := by simpa using hi
  rw [hsup]
  exact ⟨_, _, rfl, .resume hc.old (.refl sup.node sup.node) (Nat.le_refl _) rfl 0 ""⟩

/-! ## What calls do -/

/-- A step that fails changes the log only. -/
theorem step_of_error {err : EvalError} (h : s.now.step = .error err) :
    ∃ log, s.step = ({ s with log }, some err) := by
  unfold step
  rw [h]
  dsimp only
  split
  · exact ⟨s.log, rfl⟩
  · exact ⟨_, rfl⟩

/-- A step that succeeds adds the current state to the past. -/
theorem step_of_ok {next : State} (h : s.now.step = .ok next) :
    ∃ log, s.step = (⟨s.tree, s.program, s.past.push s.state, next, next.supply, s.views, log⟩,
      none) := by
  unfold step
  rw [h]
  exact ⟨_, rfl⟩

/-- A session fails to step as its current state does. -/
theorem step_snd_eq_some_iff {err : EvalError} :
    s.step.2 = some err ↔ s.now.step = .error err := by
  cases h : s.now.step with
  | error e =>
    obtain ⟨log, hs⟩ := step_of_error h
    simp [hs]
  | ok next =>
    obtain ⟨log, hs⟩ := step_of_ok h
    simp [hs]

/-- There is nothing to undo at the first state only. -/
theorem back?_eq_none_iff : s.back? = none ↔ s.steps = 0 := by
  unfold back? steps
  split <;> rename_i h
  · simpa using h
  · obtain ⟨past, hpast⟩ := Array.back?_eq_some_iff.1 h
    simp [hpast]

/-- Undoing a step drops the current state. -/
theorem history_of_back (h : s.back? = some s') : s.history = s'.history ++ [s.state] := by
  unfold back? at h
  split at h
  · cases h
  · rename_i previous hprev
    cases h
    exact history_pop hprev

/-- Rewinding undoes as many steps as there are. -/
theorem steps_rewind (s : Session Store) (n : Nat) : (s.rewind n).steps = s.steps - n := by
  induction n generalizing s with
  | zero => rfl
  | succ n ih =>
    unfold rewind
    split
    · rename_i s₁ hback
      have hlen := congrArg List.length (history_of_back hback)
      rw [List.length_append, length_history, length_history, List.length_singleton] at hlen
      rw [ih]
      omega
    · rename_i hback
      rw [back?_eq_none_iff.1 hback, Nat.zero_sub]

/-- The outcome of going to the state after `n` steps of a run: the session is there, or it is
at the end of the run and reports how the run ended. -/
def GoesTo (s₀ : State) (n : Nat) (outcome : Session Store × Option SessionError) : Prop :=
  (∃ t, State.steps n s₀ = .ok t) ∧ outcome.1.steps = n ∧ outcome.2 = none ∨
    ∃ l t err, l < n ∧ State.Halts l s₀ t err ∧ outcome.1.steps = l ∧
      outcome.2 = some (if t.done then .endsBefore l else .eval err)

namespace GoesTo

variable {s₀ : State} {n : Nat} {outcome : Session Store × Option SessionError}

/-- Seeking takes as many steps as it is asked for, or all there are. -/
theorem steps_eq (h : GoesTo s₀ n outcome) : (outcome.1.steps : ℕ∞) = min (n : ℕ∞) s₀.lifetime := by
  rcases h with ⟨hlast, hsteps, -⟩ | ⟨l, t, err, hl, hend, hsteps, -⟩
  · rw [hsteps, min_eq_left (State.le_lifetime_iff.2 hlast)]
  · rw [hsteps, hend.lifetime_eq, min_eq_right (Nat.cast_le.2 (Nat.le_of_lt hl))]

/-- Seeking succeeds when there are as many steps. -/
theorem succeeds_iff (h : GoesTo s₀ n outcome) : outcome.2 = none ↔ (n : ℕ∞) ≤ s₀.lifetime := by
  rcases h with ⟨hlast, -, hnone⟩ | ⟨l, t, err, hl, hend, -, hsome⟩
  · exact iff_of_true hnone (State.le_lifetime_iff.2 hlast)
  · rw [hsome, hend.lifetime_eq, Nat.cast_le]
    exact iff_of_false (by simp) (Nat.not_le.2 hl)

/-- Seeking beyond the end fails as the run does, or says where the program ends. -/
theorem fails (h : GoesTo s₀ n outcome) (hn : s₀.lifetime < n) :
    ∃ (l : Nat) (t : State) (err : EvalError), s₀.lifetime = l ∧ State.Halts l s₀ t err ∧
      outcome.2 = some (if t.done then .endsBefore l else .eval err) := by
  rcases h with ⟨hlast, -⟩ | ⟨l, t, err, -, hend, -, hsome⟩
  · exact absurd (State.le_lifetime_iff.2 hlast) (not_le.2 hn)
  · exact ⟨l, t, err, hend.lifetime_eq, hend, hsome⟩

end GoesTo

/-- A session is done when the state of the run is. -/
theorem Tracks.done_eq (h : s.Tracks code sup) {r : State}
    (hr : State.steps s.steps (.init (code.map .filled) sup) = .ok r) : s.done = r.done := by
  obtain ⟨r', f, hr', hm⟩ := h s.steps s.state s.history_getElem?_steps
  rw [hr] at hr'
  cases hr'
  have hprogram : s.state.program = r.program := hm.program
  have hpc : s.state.pc = r.pc := hm.pc
  simp only [done, State.done, hprogram, hpc]

/-- Steps lead on along the run, or to its end. -/
theorem Tracks.advance (hc : Coded code sup) (h : s.Tracks code sup) (n : Nat) :
    GoesTo (.init (code.map .filled) sup) (s.steps + n) (s.advance n) := by
  induction n generalizing s with
  | zero =>
    obtain ⟨r, -, hr, -⟩ := h.inStep hc
    exact .inl ⟨⟨r, hr⟩, rfl, rfl⟩
  | succ n ih =>
    obtain ⟨r, f, hr, -, -, hin⟩ := h.inStep hc
    have hdone := h.done_eq hr
    unfold Session.advance
    by_cases hd : s.done = true
    · rw [if_pos hd]
      rw [hdone] at hd
      refine .inr ⟨s.steps, r, _, by omega, ⟨hr, State.step_of_done hd⟩, rfl, ?_⟩
      rw [if_pos hd]
    · rw [if_neg hd]
      rw [hdone] at hd
      cases hstep : s.now.step with
      | error err =>
        rw [hstep] at hin
        obtain ⟨log, hs⟩ := step_of_error hstep
        rw [hs]
        refine .inr ⟨s.steps, r, err, by omega, ⟨hr, hin.error_iff.2 rfl⟩, rfl, ?_⟩
        rw [if_neg hd]
      | ok next =>
        have hmoved := moved_step s
        obtain ⟨log, hs⟩ := step_of_ok hstep
        rw [hs] at hmoved ⊢
        have hgoes := ih (h.moved hc hmoved)
        have hsteps : s.steps + (n + 1) = s.past.size + 1 + n := by
          simp only [steps]
          omega
        rw [hsteps]
        simpa [steps] using hgoes

/-- Seeking goes to the state after as many steps. -/
theorem Tracks.seek (hc : Coded code sup) (h : s.Tracks code sup) (n : Nat) :
    GoesTo (.init (code.map .filled) sup) n (s.seek n) := by
  unfold Session.seek
  rw [if_neg (by omega)]
  dsimp only
  rw [Int.toNat_natCast]
  by_cases hle : n ≤ s.steps
  · rw [if_pos hle]
    obtain ⟨r, -, hr, -⟩ := h.inStep hc
    refine .inl ⟨State.exists_steps_of_le hr hle, ?_, rfl⟩
    rw [steps_rewind]
    omega
  · rw [if_neg hle]
    have hgoes := h.advance hc (n - s.steps)
    rwa [Nat.add_sub_cancel' (by omega)] at hgoes

/-- A session of a built program holds its tree and its code, and its states mirror the run
of the code. -/
structure Sound (tree code : List Stmt) (sup : Supply) (s : Session Store) : Prop where
  tree : s.tree = tree
  program : s.program = code
  tracks : s.Tracks code sup

/-- A sound session stays sound wherever it moves. -/
theorem Sound.move {tree : List Stmt} (hc : Coded code sup) (h : s.Sound tree code sup)
    (hm : Moves s s') : s'.Sound tree code sup := by
  refine ⟨?_, ?_, h.tracks.move hc hm⟩
  · cases hm <;> exact h.tree
  · cases hm <;> exact h.program

/-- A sound session stays sound when its view is looked at. -/
theorem Sound.view [ViewStore Store] {tree : List Stmt} (h : s.Sound tree code sup) :
    s.view.1.Sound tree code sup := by
  obtain ⟨views, hviews⟩ := view_fst s
  rw [hviews]
  exact ⟨h.tree, h.program, h.tracks⟩

/-- A new session of a built program stands at the first state of its run. -/
theorem Sound.start [ViewStore Store] {tree : List Stmt} {size : Int} {log : Log}
    {start : Session Store} (htree : Built tree sup)
    (hstart : startWith Store (tree.map .filled) size log sup = .ok start) :
    ∃ code sup', Stmt.lowerAll tree sup = .ok (code, sup') ∧ Coded code sup' ∧
      start.Sound tree code sup' := by
  obtain ⟨code, sup', log', hlower, -, rfl⟩ := startWith_eq_ok hstart
  have hc := htree.coded hlower
  exact ⟨code, sup', hlower, hc, rfl, rfl, .start hc rfl rfl rfl⟩

/-- Whatever calls are made, a session stays on the run of its program. -/
theorem Sound.driven [ViewStore Store] {tree : List Stmt} (hc : Coded code sup)
    (h : s.Sound tree code sup) (hs : Driven s s') : s'.Sound tree code sup :=
  hs.induct h (fun _ _ ht => ht.move hc) fun _ => Sound.view

/-- What calls do from a session, compared with the run from a state `s₀`.  The last three
fields say where a call of `seek` ends, from wherever it is made. -/
structure PathIndependent (s₀ : State) (s : Session Store) : Prop where
  /-- The history is a first part of the run, and ends with the current state. -/
  history : ∀ i t, s.history[i]? = some t →
    ∃ r, State.steps i s₀ = .ok r ∧ r.Alike s₀.supply.node t
  length : s.history.length = s.steps + 1
  current : s.history[s.steps]? = some s.state
  steps_le : (s.steps : ℕ∞) ≤ s₀.lifetime
  /-- A step fails where the run does, with the same error. -/
  step_fails : ∀ r, State.steps s.steps s₀ = .ok r →
    ∀ err, s.step.2 = some err ↔ r.step = .error err
  /-- A step that fails changes nothing but the log, and fails again. -/
  failed_step : ∀ err, s.step.2 = some err →
    (∃ log, s.step.1 = { s with log }) ∧ s.step.1.step.2 = some err
  /-- A step that succeeds can be undone exactly. -/
  undone_step : s.step.2 = none → ∃ s', s.step.1.back? = some s' ∧ s'.history = s.history
  /-- Undoing drops the current state; there is nothing to undo at the first state only. -/
  back : ∀ s', s.back? = some s' → s.history = s'.history ++ [s.state]
  back_none : s.back? = none ↔ s.steps = 0
  /-- A seek ends at the state asked for or at the end of the run, whichever comes first. -/
  seek_steps : ∀ n : Nat, ((s.seek n).1.steps : ℕ∞) = min (n : ℕ∞) s₀.lifetime
  seek_succeeds : ∀ n : Nat, (s.seek n).2 = none ↔ (n : ℕ∞) ≤ s₀.lifetime
  /-- Beyond the end of the run it reports that the program has terminated, or the error of
  the last state. -/
  seek_fails : ∀ n : Nat, s₀.lifetime < n →
    ∃ (l : Nat) (t : State) (err : EvalError), s₀.lifetime = l ∧ State.Halts l s₀ t err ∧
      (s.seek n).2 = some (if t.done then .endsBefore l else .eval err)
  seek_negative : ∀ n : Int, n < 0 → s.seek n = (s, some (.negativeSeek n))

/-- A step that fails leaves the session such that it fails again. -/
theorem step_again {err : EvalError} (h : s.step.2 = some err) :
    (∃ log, s.step.1 = { s with log }) ∧ s.step.1.step.2 = some err := by
  have hnow := step_snd_eq_some_iff.1 h
  obtain ⟨log, hs⟩ := step_of_error hnow
  rw [hs]
  exact ⟨⟨log, rfl⟩, step_snd_eq_some_iff.2 hnow⟩

/-- A step that succeeds is undone by going back. -/
theorem back_step (h : s.step.2 = none) :
    ∃ s', s.step.1.back? = some s' ∧ s'.history = s.history := by
  cases hnow : s.now.step with
  | error err =>
    rw [step_snd_eq_some_iff.2 hnow] at h
    cases h
  | ok next =>
    obtain ⟨log, hs⟩ := step_of_ok hnow
    rw [hs]
    cases hback : back? (⟨s.tree, s.program, s.past.push s.state, next, next.supply, s.views,
        log⟩ : Session Store) with
    | none =>
      have := back?_eq_none_iff.1 hback
      simp [steps] at this
    | some s' =>
      have hhist := history_of_back hback
      simp only [history, Array.toList_push] at hhist
      exact ⟨s', rfl, (List.append_cancel_right hhist).symm⟩

/-- A session on the run of its program behaves as the run says. -/
theorem Tracks.pathIndependent (hc : Coded code sup) (h : s.Tracks code sup) :
    s.PathIndependent (.init (code.map .filled) sup) := by
  obtain ⟨r, f, hr, -, -, hin⟩ := h.inStep hc
  exact {
    history := by
      intro i t hi
      obtain ⟨u, g, hu, hmir⟩ := h i t hi
      exact ⟨u, hu, hmir.alike⟩
    length := s.length_history
    current := s.history_getElem?_steps
    steps_le := State.le_lifetime_iff.2 ⟨r, hr⟩
    step_fails := by
      intro r' hr' err
      rw [hr] at hr'
      cases hr'
      rw [step_snd_eq_some_iff, hin.error_iff]
    failed_step := fun _ => step_again
    undone_step := back_step
    back := fun _ => history_of_back
    back_none := back?_eq_none_iff
    seek_steps := fun n => (h.seek hc n).steps_eq
    seek_succeeds := fun n => (h.seek hc n).succeeds_iff
    seek_fails := fun n => (h.seek hc n).fails
    seek_negative := fun _ hn => if_pos hn }

end Session

/-- Whatever calls were made, the history of a session is a first part of the one run of its
program, and what the next call does depends on the place in that run only. -/
theorem history_path_independent {Store : Type} [ViewStore Store] {tree : List Stmt} {size : Int}
    {log : Log} {sup : Supply} {start s : Session Store} (htree : Built tree sup)
    (hstart : Session.startWith Store (tree.map .filled) size log sup = .ok start)
    (hs : Session.Driven start s) :
    ∃ code sup', lower (tree.map .filled) sup = .ok (code, sup') ∧ s.program = code ∧
      s.PathIndependent (.init (code.map .filled) sup') := by
  obtain ⟨code, sup', hlower, hc, hsound⟩ := Session.Sound.start htree hstart
  have hs' := hsound.driven hc hs
  refine ⟨code, sup', ?_, hs'.program, hs'.tracks.pathIndependent hc⟩
  rw [lower_filled, hlower]

/-- The program `int x = 1; x += 1; y;`, whose fourth step fails. -/
def strayProgram : List Stmt :=
  [.declaration 1 .int ⟨2, "x"⟩ (some (.constant ⟨3, .int 1⟩)),
    .expression 4 (some (.addAssign 5 ⟨6, "x"⟩ (.constant ⟨7, .int 1⟩))),
    .expression 8 (some (.identifier ⟨9, "y"⟩))]

theorem strayProgram_built : Built strayProgram ⟨10, 0⟩ := by
  refine ⟨?_, by decide⟩
  simp [strayProgram, Identifier.Checked, Datatype.declarable]

/-- Seeking back and then beyond the failing step leads to the state before it. -/
theorem history_path_independent_strayProgram :
    Built strayProgram ⟨10, 0⟩ ∧
      ∃ start s : Session,
        Session.startWith ViewCache (strayProgram.map .filled) 1 .silent ⟨10, 0⟩ = .ok start ∧
        s = ((start.step.1.step.1.view.1.seek 1).1.seek 7).1 ∧ Session.Driven start s ∧
        s.steps = 3 ∧
        ∃ code sup', lower (strayProgram.map .filled) ⟨10, 0⟩ = .ok (code, sup') ∧
          s.program = code ∧ s.PathIndependent (.init (code.map .filled) sup') := by
  obtain ⟨start, hstart, hsteps⟩ : ∃ start : Session,
      Session.startWith ViewCache (strayProgram.map .filled) 1 .silent ⟨10, 0⟩ = .ok start ∧
        ((start.step.1.step.1.view.1.seek 1).1.seek 7).1.steps = 3 :=
    ⟨_, rfl, by decide +kernel⟩
  have hdriven : Session.Driven start ((start.step.1.step.1.view.1.seek 1).1.seek 7).1 :=
    .tail (.tail (.tail (.tail (.single (.step _)) (.step _)) (.view _)) (.seek _ 1)) (.seek _ 7)
  exact ⟨strayProgram_built, start, _, hstart, rfl, hdriven, hsteps,
    history_path_independent strayProgram_built hstart hdriven⟩

end Stepwise
