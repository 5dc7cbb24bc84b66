import Stepwise.Proofs.Caching
import Stepwise.Proofs.Programs
import Stepwise.Proofs.Views
import Stepwise.Session.Report

/-!
# Proofs - The loops that run a program

Three loops take step after step: the run of a state, the run of a session and the trace,
which also reports every state.  Each of them stops at the end of the program, at a positive
limit or at a step that fails, and has no answer while its fuel does not suffice.  Here they
are compared with each other, and the run of a state with the number of steps it takes.

Main definitions:

- `State.StopsWith`, what makes a run stop at a state.
- `State.Returns` and `Session.Returns`, runs that some fuel suffices for.
- `Session.Describes`, reports that contain the view of a state.
- `Session.Told`, reports of the first states of a run.

Main results:

- `State.returns_iff`: where a run with a limit stops.
- `Session.rel_runFrom`: states that step alike run alike.
- `Session.describes_reportOf`: what a report contains.
- `Session.Onward.rel_traceFrom`: a trace stops where the run does and reports every state.
- `loops_agree`: all of it for sessions of a checked program.
-/

namespace Stepwise

/-! ## The run of a state -/

namespace State

variable {s t : State} {limit m n : Int} {taken fuel j k : Nat} {stop first second : Stop}
  {err : Option EvalError}

/-- A run with a limit stops at a state after `taken` steps, with an error or without one. -/
inductive StopsWith (limit : Int) (taken : Nat) (t : State) : Option EvalError → Prop
  | done : t.done = true → StopsWith limit taken t none
  | reached : t.done = false → 0 < limit → limit ≤ taken →
      StopsWith limit taken t (some (.stepLimit taken))
  | failed {err : EvalError} : t.done = false → (0 < limit → taken < limit) →
      t.step = .error err → StopsWith limit taken t (some err)

/-- A state that takes a step is not done. -/
theorem done_eq_false_of_step (h : s.step = .ok t) : s.done = false := by
  by_contra hdone
  rw [step_of_done (by simpa using hdone)] at h
  cases h

/-- A run that returns stops after some steps, the last of which was within the limit. -/
theorem runFrom_sound (h : runFrom limit taken s fuel = some ⟨t, j, err⟩) :
    ∃ k, j = taken + k ∧ steps k s = .ok t ∧ (0 < limit → k = 0 ∨ j ≤ limit) ∧
      StopsWith limit j t err := by
  induction fuel generalizing s taken with
  | zero => cases h
  | succ fuel ih =>
    unfold runFrom at h
    split at h
    · rename_i hdone
      cases h
      exact ⟨0, rfl, rfl, fun _ => .inl rfl, .done hdone⟩
    · rename_i hdone
      rw [Bool.not_eq_true] at hdone
      split at h
      · rename_i hlimit
        cases h
        exact ⟨0, rfl, rfl, fun _ => .inl rfl, .reached hdone hlimit.1 hlimit.2⟩
      · rename_i hlimit
        split at h
        · rename_i err hstep
          cases h
          exact ⟨0, rfl, rfl, fun _ => .inl rfl, .failed hdone (by omega) hstep⟩
        · rename_i s' hstep
          obtain ⟨k, hk, hsteps, hle, hstops⟩ := ih h
          exact ⟨k + 1, by omega, by rw [steps_succ hstep, hsteps], by omega, hstops⟩

/-- A run stops where something makes it stop, if the steps before are within the limit. -/
theorem runFrom_complete (hfuel : k < fuel) (hsteps : steps k s = .ok t)
    (hle : 0 < limit → k = 0 ∨ ((taken + k : Nat) : Int) ≤ limit)
    (hstops : StopsWith limit (taken + k) t err) :
    runFrom limit taken s fuel = some ⟨t, taken + k, err⟩ := by
  induction fuel generalizing s taken k with
  | zero => exact absurd hfuel (Nat.not_lt_zero k)
  | succ fuel ih =>
    unfold runFrom
    cases k with
    | zero =>
      cases hsteps
      cases hstops with
      | done hdone => simp [hdone]
      | reached hdone hpos hge => simp_all
      | failed hdone hlt hstep =>
        have hlimit : ¬(0 < limit ∧ limit ≤ taken) := by omega
        simp [hdone, hlimit, hstep]
    | succ k =>
      cases hstep : s.step with
      | error err => simp [steps, hstep] at hsteps
      | ok s' =>
        have hlimit : ¬(0 < limit ∧ limit ≤ taken) := by omega
        rw [steps_succ hstep] at hsteps
        have hadd : taken + (k + 1) = taken + 1 + k := by omega
        rw [hadd] at hstops hle ⊢
        rw [if_neg (by simp [done_eq_false_of_step hstep]), if_neg hlimit]
        exact ih (by omega) hsteps (by omega) hstops

/-- A run that some fuel suffices for. -/
def Returns (s : State) (limit : Int) (stop : Stop) : Prop :=
  ∃ fuel, s.run limit fuel = some stop

/-- A run returns at the first state at which something makes it stop. -/
theorem returns_iff : s.Returns limit ⟨t, k, err⟩ ↔
    steps k s = .ok t ∧ (0 < limit → k ≤ limit) ∧ StopsWith limit k t err := by
  constructor
  · rintro ⟨fuel, h⟩
    obtain ⟨j, hj, hsteps, hle, hstops⟩ := runFrom_sound h
    rw [Nat.zero_add] at hj
    exact ⟨by rw [hj, hsteps], by omega, hstops⟩
  · rintro ⟨hsteps, hle, hstops⟩
    refine ⟨k + 1, ?_⟩
    rw [← Nat.zero_add k] at hstops
    have hrun := runFrom_complete (Nat.lt_succ_self k) hsteps (by omega) hstops
    rwa [Nat.zero_add] at hrun

/-- A run with a positive limit returns. -/
theorem exists_returns (s : State) (h : 0 < limit) : ∃ stop, s.Returns limit stop := by
  rcases steps_or_halts s limit.toNat with ⟨t, ht⟩ | ⟨k, hk, t, err, ht, hstep⟩
  · have hle : (limit.toNat : Int) ≤ limit := by omega
    cases hdone : t.done with
    | true => exact ⟨_, returns_iff.2 ⟨ht, fun _ => hle, .done hdone⟩⟩
    | false => exact ⟨_, returns_iff.2 ⟨ht, fun _ => hle, .reached hdone h (by omega)⟩⟩
  · have hlt : (k : Int) < limit := by omega
    cases hdone : t.done with
    | true => exact ⟨_, returns_iff.2 ⟨ht, fun _ => by omega, .done hdone⟩⟩
    | false => exact ⟨_, returns_iff.2 ⟨ht, fun _ => by omega, .failed hdone (fun _ => hlt) hstep⟩⟩

/-- A run that stopped at its limit. -/
def Stop.Limited (stop : Stop) : Prop :=
  ∃ err, stop.error = some err ∧ err.errorClass = .stepLimit

/-- A run stopped at its limit if it took as many steps and is not done. -/
theorem Returns.limited_iff (hstop : s.Returns limit stop) :
    stop.Limited ↔ 0 < limit ∧ stop.steps = limit ∧ stop.state.done = false := by
  obtain ⟨t, k, err⟩ := stop
  obtain ⟨hsteps, hle, hstops⟩ := returns_iff.1 hstop
  cases hstops with
  | done hdone => simp [Stop.Limited, hdone]
  | reached hdone hpos hge =>
    have hk : (k : Int) = limit := by omega
    simp [Stop.Limited, EvalError.errorClass, hdone, hpos, hk]
  | @failed err hdone hlt hstep =>
    have hother := step_ne_stepLimit hstep
    simp only [Stop.Limited, Option.some.injEq, exists_eq_left', hother, false_iff]
    omega

/-- A run stops at its limit exactly if the program is not done after as many steps. -/
theorem exists_limited_iff (s : State) (limit : Int) :
    (∃ stop, s.Returns limit stop ∧ stop.Limited) ↔
      0 < limit ∧ ∃ t, steps limit.toNat s = .ok t ∧ t.done = false := by
  constructor
  · rintro ⟨⟨t, k, err⟩, hstop, hlimited⟩
    obtain ⟨hpos, hk, hdone⟩ := hstop.limited_iff.1 hlimited
    obtain rfl : k = limit.toNat := by
      dsimp only at hk
      omega
    exact ⟨hpos, t, (returns_iff.1 hstop).1, hdone⟩
  · rintro ⟨hpos, t, ht, hdone⟩
    have hstop := returns_iff.2 ⟨ht, by omega, .reached hdone hpos (by omega)⟩
    exact ⟨_, hstop, _, rfl, rfl⟩

/-- A run that did not stop at its limit returns the same with a larger one. -/
theorem Returns.enlarge (hm : 0 < m) (hn : 0 < n) (h : s.Returns m stop) (hnot : ¬stop.Limited) :
    s.Returns (m + n) stop := by
  obtain ⟨t, k, err⟩ := stop
  obtain ⟨hsteps, hle, hstops⟩ := returns_iff.1 h
  refine returns_iff.2 ⟨hsteps, by omega, ?_⟩
  cases hstops with
  | done hdone => exact .done hdone
  | reached => exact absurd ⟨_, rfl, rfl⟩ hnot
  | failed hdone hlt hstep => exact .failed hdone (by omega) hstep

/-- A run that stopped at its limit and is taken up again stops where one run with the sum of
the limits does. -/
theorem Returns.append (hn : 0 < n) (hfirst : s.Returns m first)
    (hlimited : first.Limited) (hsecond : first.state.Returns n second) :
    ∃ err, s.Returns (m + n) ⟨second.state, first.steps + second.steps, err⟩ ∧
      err.map EvalError.errorClass = second.error.map EvalError.errorClass := by
  obtain ⟨hm, hj, -⟩ := hfirst.limited_iff.1 hlimited
  obtain ⟨u, j, err⟩ := first
  obtain ⟨t, k, err'⟩ := second
  obtain ⟨hsteps, -, -⟩ := returns_iff.1 hfirst
  obtain ⟨hsteps', hle, hstops⟩ := returns_iff.1 hsecond
  dsimp only at hj ⊢
  have hboth : steps (j + k) s = .ok t := by rw [steps_add hsteps, hsteps']
  have hle' : 0 < m + n → ((j + k : Nat) : Int) ≤ m + n := by omega
  cases hstops with
  | done hdone => exact ⟨_, returns_iff.2 ⟨hboth, hle', .done hdone⟩, rfl⟩
  | reached hdone hpos hge =>
    exact ⟨_, returns_iff.2 ⟨hboth, hle', .reached hdone (by omega) (by omega)⟩, rfl⟩
  | failed hdone hlt hstep =>
    exact ⟨_, returns_iff.2 ⟨hboth, hle', .failed hdone (by omega) hstep⟩, rfl⟩

/-- A run with a limit that is taken up with another limit if it stopped there ends as one run
does with the sum of the limits. -/
def Resumes (s : State) (m n : Int) : Prop :=
  ∃ first whole, s.Returns m first ∧ s.Returns (m + n) whole ∧
    (first.Limited → ∃ second, first.state.Returns n second ∧ second.state = whole.state ∧
      first.steps + second.steps = whole.steps ∧
      second.error.map EvalError.errorClass = whole.error.map EvalError.errorClass) ∧
    (¬first.Limited → whole = first)

/-- A run that is taken up at its limit ends as one run with both limits does. -/
theorem resumes (s : State) (hm : 0 < m) (hn : 0 < n) : s.Resumes m n := by
  obtain ⟨first, hfirst⟩ := exists_returns s hm
  by_cases hlimited : first.Limited
  · obtain ⟨second, hsecond⟩ := exists_returns first.state hn
    obtain ⟨err, hwhole, herr⟩ := hfirst.append hn hlimited hsecond
    exact ⟨first, _, hfirst, hwhole, fun _ => ⟨second, hsecond, rfl, rfl, herr.symm⟩,
      fun hnot => absurd hlimited hnot⟩
  · exact ⟨first, first, hfirst, hfirst.enlarge hm hn hlimited, fun h => absurd h hlimited,
      fun _ => rfl⟩

end State

/-! ## The run of a session -/

namespace Session

variable {Store : Type} {c : Session Store} {r : State} {limit : Int} {taken fuel : Nat}
  {tree code : List Stmt} {sup : Supply}

/-- The ends of a run of a session and of a run of a state: the same number of steps, the same
error, and related states. -/
structure Stop.Matches (R : State → State → Prop) (a : Stop Store) (b : State.Stop) : Prop where
  steps : a.steps = b.steps
  error : a.error = b.error
  state : R b.state a.session.now

/-- Runs from related states end alike or not at all, if related states step alike. -/
theorem rel_runFrom {R : State → State → Prop} (hdone : ∀ r t, R r t → r.done = t.done)
    (hfail : ∀ r t err, R r t → (r.step = .error err ↔ t.step = .error err))
    (hstep : ∀ r t r' t', R r t → r.step = .ok r' → t.step = .ok t' → R r' t')
    (h : R r c.now) :
    Option.Rel (Stop.Matches R) (c.runFrom limit taken fuel) (r.runFrom limit taken fuel) := by
  induction fuel generalizing r c taken with
  | zero => exact .none
  | succ fuel ih =>
    have hd : c.done = r.done := (hdone r c.now h).symm
    unfold Session.runFrom State.runFrom
    rw [hd]
    split
    · exact .some ⟨rfl, rfl, h⟩
    · split
      · exact .some ⟨rfl, rfl, h⟩
      · cases hr : r.step with
        | error err =>
          obtain ⟨log, hc⟩ := step_of_error ((hfail r c.now err h).1 hr)
          rw [hc]
          exact .some ⟨rfl, rfl, h⟩
        | ok r' =>
          cases hnow : c.now.step with
          | error err =>
            rw [(hfail r c.now err h).2 hnow] at hr
            cases hr
          | ok t' =>
            obtain ⟨log, hc⟩ := step_of_ok hnow
            rw [hc]
            exact ih (hstep r c.now r' t' h hr hnow)

/-- A session runs as its current state does. -/
theorem rel_run_now (c : Session Store) (limit : Int) (fuel : Nat) :
    Option.Rel (Stop.Matches Eq) (c.run limit fuel) (c.now.run limit fuel) := by
  refine rel_runFrom ?_ ?_ ?_ rfl
  · rintro r t rfl
    rfl
  · rintro r t err rfl
    rfl
  · rintro r t r' t' rfl hr ht
    rw [hr] at ht
    cases ht
    rfl

/-- A session on the run of its program runs as the state of that run does. -/
theorem Tracks.rel_run (hc : Coded code sup) (h : c.Tracks code sup)
    (hr : State.steps c.steps (.init (code.map .filled) sup) = .ok r) (limit : Int) (fuel : Nat) :
    Option.Rel (Stop.Matches (State.Alike sup.node)) (c.run limit fuel) (r.run limit fuel) := by
  obtain ⟨r', f, hr', hp, hm, -⟩ := h.inStep hc
  rw [hr] at hr'
  cases hr'
  have hrel : Option.Rel
      (Stop.Matches fun r t => State.Placed code r ∧ State.Mirrors sup.node f r t)
      (c.run limit fuel) (r.run limit fuel) := by
    refine rel_runFrom ?_ ?_ ?_ ⟨hp, hm⟩
    · rintro r t ⟨-, hm⟩
      simp only [State.done, hm.program, hm.pc]
    · rintro r t err ⟨hp, hm⟩
      exact (hm.step hc.old hp).error_iff
    · rintro r t r' t' ⟨hp, hm⟩ hr ht
      have hin := hm.step hc.old hp
      rw [hr, ht] at hin
      cases hin with
      | go hm' => exact ⟨hp.step hc.checked hr, hm'⟩
  generalize c.run limit fuel = a at hrel ⊢
  generalize r.run limit fuel = b at hrel ⊢
  cases hrel with
  | none => exact .none
  | some h => exact .some ⟨h.steps, h.error, h.state.2.alike⟩

/-- A run of a session that some fuel suffices for. -/
def Returns (c : Session Store) (limit : Int) (stop : Stop Store) : Prop :=
  ∃ fuel, c.run limit fuel = some stop

/-- A session returns what its current state does. -/
theorem exists_returns {b : State.Stop} (h : c.now.Returns limit b) :
    ∃ a, c.Returns limit a ∧ a.Matches Eq b := by
  obtain ⟨fuel, hb⟩ := h
  have hrel := c.rel_run_now limit fuel
  rw [hb] at hrel
  generalize ha : c.run limit fuel = found at hrel
  cases hrel with
  | some h => exact ⟨_, ⟨fuel, ha⟩, h⟩

/-- A run of a session that returns is one of its current state. -/
theorem Returns.now {a : Stop Store} (h : c.Returns limit a) :
    ∃ b, c.now.Returns limit b ∧ a.Matches Eq b := by
  obtain ⟨fuel, ha⟩ := h
  have hrel := c.rel_run_now limit fuel
  rw [ha] at hrel
  generalize hb : c.now.run limit fuel = found at hrel
  cases hrel with
  | some h => exact ⟨_, ⟨fuel, hb⟩, h⟩

/-- A run of a session that stopped at its limit. -/
def Stop.Limited (stop : Stop Store) : Prop :=
  ∃ err, stop.error = some err ∧ err.errorClass = .stepLimit

/-- A session stops at a positive limit if the program is not done after as many steps. -/
theorem exists_limited_iff (c : Session Store) (limit : Int) :
    (∃ stop, c.Returns limit stop ∧ stop.Limited) ↔
      0 < limit ∧ ∃ t, State.steps limit.toNat c.now = .ok t ∧ t.done = false := by
  rw [← State.exists_limited_iff]
  constructor
  · rintro ⟨a, ha, err, herr, hclass⟩
    obtain ⟨b, hb, hmatch⟩ := ha.now
    exact ⟨b, hb, err, hmatch.error.symm.trans herr, hclass⟩
  · rintro ⟨b, hb, err, herr, hclass⟩
    obtain ⟨a, ha, hmatch⟩ := exists_returns hb
    exact ⟨a, ha, err, hmatch.error.trans herr, hclass⟩

/-- A session that runs with a limit, and runs on with another limit if it stopped there, ends
as one run does with the sum of the limits. -/
def Resumes (c : Session Store) (m n : Int) : Prop :=
  ∃ first whole, c.Returns m first ∧ c.Returns (m + n) whole ∧
    (first.Limited → ∃ second, first.session.Returns n second ∧
      second.session.now = whole.session.now ∧ first.steps + second.steps = whole.steps ∧
      second.error.map EvalError.errorClass = whole.error.map EvalError.errorClass) ∧
    (¬first.Limited → whole.session.now = first.session.now ∧ whole.steps = first.steps ∧
      whole.error = first.error)

/-- A session is taken up as its current state is. -/
theorem resumes_of_now {m n : Int} (h : c.now.Resumes m n) : c.Resumes m n := by
  obtain ⟨first, whole, hfirst, hwhole, hlimited, hnot⟩ := h
  obtain ⟨first', hfirst', hf⟩ := exists_returns hfirst
  obtain ⟨whole', hwhole', hw⟩ := exists_returns hwhole
  have hiff : first'.Limited ↔ first.Limited := by
    unfold Stop.Limited State.Stop.Limited
    rw [hf.error]
  refine ⟨first', whole', hfirst', hwhole', fun hl => ?_, fun hl => ?_⟩
  · obtain ⟨second, hsecond, hstate, hsteps, herror⟩ := hlimited (hiff.1 hl)
    rw [hf.state] at hsecond
    obtain ⟨second', hsecond', hs⟩ := exists_returns hsecond
    refine ⟨second', hsecond', ?_, ?_, ?_⟩
    · rw [← hs.state, ← hw.state, hstate]
    · rw [hf.steps, hs.steps, hw.steps, hsteps]
    · rw [hs.error, hw.error, herror]
  · rw [hnot (mt hiff.2 hl)] at hw
    exact ⟨hw.state.symm.trans hf.state, hw.steps.trans hf.steps.symm,
      hw.error.trans hf.error.symm⟩

/-! ## What a report contains -/

/-- Texts that show tokens: the text of each of them in turn, plain or, where text is coloured,
in a style. -/
inductive Painted (colored : Bool) : List Token → String → Prop
  | nil : Painted colored [] ""
  | plain {t : Token} {ts : List Token} {text : String} :
      Painted colored ts text → Painted colored (t :: ts) (t.text ++ text)
  | styled {t : Token} {ts : List Token} {text : String} (style : Style) :
      colored = true → Painted colored ts text →
      Painted colored (t :: ts) (style.paint t.text ++ text)

/-- A token is shown in a style where it has one and text is coloured, and plain elsewhere. -/
theorem Painted.paintIf {colored : Bool} {ts : List Token} {text : String}
    (h : Painted colored ts text) (style : Option Style) (t : Token) :
    Painted colored (t :: ts) (paintIf colored style t.text ++ text) := by
  cases style with
  | none => exact .plain h
  | some s =>
    cases colored with
    | false => exact .plain h
    | true => exact .styled s rfl h

/-- Tokens that are painted one by one are shown in turn, whatever their styles are. -/
theorem painted_mapIdx (colored : Bool) (style : Nat → Token → Option Style)
    (ts : List Token) :
    Painted colored ts
      (String.join (ts.mapIdx fun i t => paintIf colored (style i t) t.text)) := by
  induction ts generalizing style with
  | nil => exact .nil
  | cons t ts ih =>
    rw [List.mapIdx_cons, String.join_cons]
    exact (ih fun i => style (i + 1)).paintIf (style 0 t) t

/-- The line of a report on what the next step is about: the marked part of the view or, where
nothing is marked, the statement that the program stands at. -/
inductive Foretells (s : State) (v : View) : String → Prop
  | done : s.done = true → Foretells s v "terminated"
  | focus {r : Range} : s.done = false → v.focus = some r →
      Foretells s v ("next: " ++ oneLine (v.textOf r))
  | current {st : Stmt} : s.done = false → v.focus = none → s.current = .filled st →
      Foretells s v ("next: " ++ oneLine (Node.stmt st).source)

/-- A report of a state after `n` steps.  The tokens of its view stand, painted, between a heading
with the number of steps and three lines on what is next, the variables and the output. -/
def Describes (colored : Bool) (n : Nat) (s : State) (v : View) (text : String) : Prop :=
  ∃ shown next, Painted colored v.tokens shown ∧ shown = v.paint colored ∧ Foretells s v next ∧
    text = paintIf colored (some .faint) ("-- step " ++ toString n ++ " --") ++ "\n" ++
      shown ++ next ++ "\n" ++ "env: " ++ s.env.text ++ "\n" ++
      "output: " ++ Text.Escaped.quote s.output ++ "\n"

/-- The report of a state that is done or stands at a statement. -/
theorem describes_reportOf (colored : Bool) (v : View)
    (hcurrent : c.done = false → ∃ st, c.now.current = .filled st) :
    Describes colored c.steps c.now v (c.reportOf colored v) := by
  refine ⟨v.paint colored, c.nextText v, painted_mapIdx colored v.styleAt v.tokens, rfl, ?_, rfl⟩
  unfold nextText
  split
  · rename_i hdone
    exact .done hdone
  · rename_i hdone
    have hdone : c.done = false := by simpa using hdone
    cases hfocus : v.focus with
    | some r => exact .focus hdone hfocus
    | none =>
      obtain ⟨st, hst⟩ := hcurrent hdone
      have hstate : c.state.current = .filled st := hst
      rw [hstate]
      exact .current hdone hfocus hst

/-! ## The trace of a session -/

variable [ViewStore Store] {start : Session Store} {colored : Bool} {reports : Array String}

/-- The reports of the first states of a run, one for each of them and in order.  Each of them
contains the view of its state. -/
structure Told (tree : List Stmt) (s₀ : State) (start : Session Store) (colored : Bool)
    (reports : Array String) (n : Nat) : Prop where
  size : reports.size = n
  report : ∀ i < n, ∃ c v text, Driven start c ∧ c.steps = i ∧ State.steps i s₀ = .ok c.now ∧
    c.now.view tree = .ok v ∧ reports[i]? = some text ∧ Describes colored i c.now v text

/-- The report of the state after as many steps as there are reports continues them. -/
theorem Told.push {s₀ : State} {v : View} {text : String}
    (h : Told tree s₀ start colored reports c.steps) (hc : Driven start c)
    (hnow : State.steps c.steps s₀ = .ok c.now) (hv : c.now.view tree = .ok v)
    (htext : Describes colored c.steps c.now v text) :
    Told tree s₀ start colored (reports.push text) (c.steps + 1) := by
  refine ⟨by rw [Array.size_push, h.size], fun i hi => ?_⟩
  rcases Nat.lt_succ_iff_lt_or_eq.1 hi with hlt | rfl
  · obtain ⟨d, w, text', hd, hsteps, hrun, hw, hget, htext'⟩ := h.report i hlt
    refine ⟨d, w, text', hd, hsteps, hrun, hw, ?_, htext'⟩
    rw [Array.getElem?_push, h.size, if_neg (Nat.ne_of_lt hlt), hget]
  · refine ⟨c, v, text, hc, rfl, hnow, hv, ?_, htext⟩
    rw [← h.size, Array.getElem?_push_size]

/-- The ends of a trace and of a run of a session: the same state, the same number of steps and
the same error, with a report of every state up to the last one. -/
structure Trace.Matches (tree : List Stmt) (s₀ : State) (start : Session Store) (colored : Bool)
    (a : Trace Store) (b : Stop Store) : Prop where
  state : a.session.now = b.session.now
  steps : a.session.steps = b.steps
  error : a.error = b.error.map .eval
  told : Told tree s₀ start colored a.reports (b.steps + 1)

/-- A session that was driven along the run of its program without undoing a step. -/
structure Onward (tree code : List Stmt) (sup : Supply) (start c : Session Store) : Prop where
  driven : Driven start c
  sound : c.Sound tree code sup
  cached : c.Cached tree code sup
  now : State.steps c.steps (.init (code.map .filled) sup) = .ok c.now

namespace Onward

/-- Looking at the view shows the view of the current state and changes nothing else. -/
theorem look [LawfulViewStore Store] (hc : Coded code sup) (hb : Built tree sup)
    (h : Onward tree code sup start c) :
    ∃ d, c.view = (d, c.now.view tree) ∧ Onward tree code sup start d ∧ d.now = c.now ∧
      d.steps = c.steps := by
  obtain ⟨hcached, hview⟩ := h.sound.look hc hb h.cached
  obtain ⟨views, hfst⟩ := view_fst c
  have hpair : c.view = ({ c with views }, c.now.view tree) :=
    Prod.ext hfst (hview c.supply (Nat.le_refl _))
  refine ⟨_, hpair, ⟨.tail h.driven ?_, ?_, ?_, h.now⟩, rfl, rfl⟩
  · rw [← hfst]
    exact .view c
  · rw [← hfst]
    exact h.sound.view
  · rw [← hfst]
    exact hcached

/-- A step goes on along the run. -/
theorem step {next : State} (hc : Coded code sup) (h : Onward tree code sup start c)
    (hstep : c.now.step = .ok next) :
    ∃ d, c.step = (d, none) ∧ Onward tree code sup start d ∧ d.now = next ∧
      d.steps = c.steps + 1 := by
  obtain ⟨log, hpair⟩ := step_of_ok hstep
  have hmoved := moved_step c
  have hcall : Call c c.step.1 := .step c
  rw [hpair] at hmoved hcall
  have hsize : (c.past.push c.state).size = c.steps + 1 := Array.size_push _
  refine ⟨_, hpair, ⟨.tail h.driven hcall, ?_, ?_, ?_⟩, rfl, hsize⟩
  · exact hmoved.induct h.sound fun _ _ ht => ht.move hc
  · exact hmoved.induct h.cached fun _ _ ht => ht.move
  · change State.steps (c.past.push c.state).size _ = .ok next
    rw [hsize, State.steps_add h.now, State.steps_one hstep]

/-- A trace and a run of a session end alike or not at all, and the trace has reported every
state on the way. -/
theorem rel_traceFrom [LawfulViewStore Store] (hc : Coded code sup) (hb : Built tree sup)
    (hview : ∀ t, State.Reaches (.init (code.map .filled) sup) t → ∃ v, t.view tree = .ok v)
    {e : Session Store} (h : Onward tree code sup start c) (hnow : e.now = c.now)
    (htold : Told tree (.init (code.map .filled) sup) start colored reports c.steps)
    (limit : Int) (fuel : Nat) :
    Option.Rel (Trace.Matches tree (.init (code.map .filled) sup) start colored)
      (c.traceFrom colored limit reports fuel) (e.runFrom limit c.steps fuel) := by
  induction fuel generalizing c e reports with
  | zero => exact .none
  | succ fuel ih =>
    obtain ⟨v, hv⟩ := hview c.now ⟨_, h.now⟩
    obtain ⟨d, hlook, hd, hdnow, hdsteps⟩ := h.look hc hb
    rw [← hdnow] at hv hnow
    rw [← hdsteps] at htold ⊢
    have hreport : c.report colored = (d, .ok (d.reportOf colored v)) := by
      unfold report
      rw [hlook, ← hdnow, hv]
    have hmore := htold.push hd.driven hd.now hv (describes_reportOf colored v fun hdone =>
      (State.Placed.of_reaches hc.checked ⟨_, hd.now⟩).exists_current hdone)
    have hdone : e.done = d.done := by
      change e.now.done = d.now.done
      rw [hnow]
    unfold Session.traceFrom Session.runFrom
    rw [hreport, hdone]
    dsimp only
    split
    · exact .some ⟨hnow.symm, rfl, rfl, hmore⟩
    · split
      · exact .some ⟨hnow.symm, rfl, rfl, hmore⟩
      · cases hstep : d.now.step with
        | error err =>
          obtain ⟨log, hds⟩ := step_of_error hstep
          rw [← hnow] at hstep
          obtain ⟨log', hes⟩ := step_of_error hstep
          rw [hds, hes]
          exact .some ⟨hnow.symm, rfl, rfl, hmore⟩
        | ok next =>
          obtain ⟨d', hds, hd', hdnow', hdsteps'⟩ := hd.step hc hstep
          rw [← hnow] at hstep
          obtain ⟨log', hes⟩ := step_of_ok hstep
          rw [hds, hes, ← hdsteps']
          exact ih hd' hdnow'.symm (hdsteps' ▸ hmore)

end Onward

end Session

/-! ## Runs of lowered code -/

section Lowered

variable {tree code : List Stmt} {s s' : Supply} {t : State}

/-- Every state of a run of a program in which no node occurs twice has a view. -/
theorem Source.exists_view (htree : Source tree s)
    (hlower : Stmt.lowerAll tree s = .ok (code, s'))
    (ht : State.Reaches (.init (code.map .filled) s') t) : ∃ v, t.view tree = .ok v := by
  cases htree.position hlower ht with
  | ended _ hcurrent hactive =>
    exact ⟨_, view_empty htree.checked hcurrent hactive⟩
  | inPlace hmem hcurrent hactive hchecked hren hn =>
    obtain ⟨v, -, -, -, -, hv, -⟩ :=
      htree.view_shows hlower hmem hcurrent hactive hchecked hren hn
    exact ⟨v, hv⟩
  | aside hmem hcurrent hactive hn haside =>
    obtain ⟨hid, -⟩ := htree.aside_ids hlower hmem haside
    exact ⟨_, view_aside htree.checked hcurrent hactive hid haside⟩

end Lowered

/-- What the loops that run a program have in common, from a session before the first step of
the program and the first state of its run. -/
structure Session.LoopsAgree {Store : Type} [ViewStore Store] (tree : List Stmt) (s₀ : State)
    (start : Session Store) : Prop where
  /-- Calls lead to every state of the run. -/
  reached : ∀ s, s₀.Reaches s → ∃ c, Driven start c ∧ c.now = s
  /-- With any limit and fuel, a session and its current state both return or neither does.  If
  they do, it is after as many steps, in the same state and with the same error. -/
  same : ∀ (c : Session Store) limit fuel,
    Option.Rel (Stop.Matches Eq) (c.run limit fuel) (c.now.run limit fuel)
  /-- The same holds of the state of the run after as many steps, however the session came to
  stand there, but for the identities of new nodes. -/
  alike : ∀ c s, Driven start c → State.steps c.steps s₀ = .ok s → ∀ limit fuel,
    Option.Rel (Stop.Matches (State.Alike s₀.supply.node)) (c.run limit fuel) (s.run limit fuel)
  /-- A run that stopped at its limit can be taken up. -/
  resumed : ∀ s, s₀.Reaches s → ∀ m n : Int, 0 < m → 0 < n → s.Resumes m n
  resumed_session : ∀ c, Driven start c → ∀ m n : Int, 0 < m → 0 < n → c.Resumes m n
  /-- A run stops at a positive limit if the program is not done after as many steps. -/
  limited : ∀ s, s₀.Reaches s → ∀ limit, (∃ stop, s.Returns limit stop ∧ stop.Limited) ↔
    0 < limit ∧ ∃ t, State.steps limit.toNat s = .ok t ∧ t.done = false
  limited_session : ∀ c, Driven start c → ∀ limit,
    (∃ stop, c.Returns limit stop ∧ stop.Limited) ↔
      0 < limit ∧ ∃ t, State.steps limit.toNat c.now = .ok t ∧ t.done = false
  /-- If no node occurs twice, a trace ends as the run does, with one report of every state. -/
  traced : (Stmt.listIds tree).Nodup → ∀ colored limit fuel,
    Option.Rel (Trace.Matches tree s₀ start colored) (start.trace colored limit fuel)
      (start.run limit fuel)

/-- The run of a state, the run of a session and the trace take the same steps and stop at the
same place, on every session of a checked program. -/
theorem loops_agree {Store : Type} [ViewStore Store] [LawfulViewStore Store] {tree : List Stmt}
    {size : Int} {log : Log} {sup : Supply} {start : Session Store} (htree : Built tree sup)
    (hstart : Session.startWith Store (tree.map .filled) size log sup = .ok start) :
    ∃ code sup', lower (tree.map .filled) sup = .ok (code, sup') ∧
      start.LoopsAgree tree (.init (code.map .filled) sup') := by
  obtain ⟨code, sup', hlower, hc, hsound⟩ := Session.Sound.start htree hstart
  have hle : sup.node ≤ sup'.node := (Stmt.lowerAll_layout hlower).2.le
  have htracks : ∀ c, Session.Driven start c → c.Tracks code sup' :=
    fun c hcall => (hsound.driven hc hcall).tracks
  obtain ⟨hzero, honward⟩ : start.steps = 0 ∧ Session.Onward tree code sup' start start := by
    obtain ⟨_, _, _, hlower', -, rfl⟩ := Session.startWith_eq_ok hstart
    rw [hlower] at hlower'
    cases hlower'
    refine ⟨rfl, .refl, hsound, ⟨_, .new _, fun k view hk => ?_⟩, rfl⟩
    cases hk
  refine ⟨code, sup', by rw [lower_filled, hlower], ?_⟩
  exact {
    reached := by
      intro s hs
      have hfirst : start.now = .init (code.map .filled) sup' := by
        have hnow := honward.now
        rw [hzero, State.steps_zero, Except.ok.injEq] at hnow
        exact hnow.symm
      refine hs.induct (P := fun t => ∃ c, Session.Driven start c ∧ c.now = t)
        ⟨start, .refl, hfirst⟩ ?_
      rintro t u ⟨c, hcall, rfl⟩ hu
      obtain ⟨log, hstep⟩ := Session.step_of_ok hu
      refine ⟨c.step.1, .tail hcall (.step c), ?_⟩
      rw [hstep]
      rfl
    same := Session.rel_run_now
    alike := fun c s hcall hs limit fuel => (htracks c hcall).rel_run hc hs limit fuel
    resumed := fun s _ m n hm hn => s.resumes hm hn
    resumed_session := fun c _ m n hm hn => Session.resumes_of_now (c.now.resumes hm hn)
    limited := fun s _ limit => s.exists_limited_iff limit
    limited_session := fun c _ limit => c.exists_limited_iff limit
    traced := by
      intro hnodup colored limit fuel
      have hsource : Source tree sup := ⟨htree.checked, hnodup, htree.old⟩
      have htold : Session.Told tree (.init (code.map .filled) sup') start colored #[]
          start.steps := by
        refine ⟨hzero.symm, fun i hi => ?_⟩
        omega
      have hrel := honward.rel_traceFrom hc (htree.mono hle)
        (fun _ => hsource.exists_view hlower) rfl htold limit fuel
      rwa [hzero] at hrel }

/-- The counting program is stopped by a limit of seven, and runs to its end without a limit. -/
theorem loops_agree_countingProgram :
    Built countingProgram ⟨25, 0⟩ ∧ (Stmt.listIds countingProgram).Nodup ∧
      ∃ start : Session,
        Session.startWith ViewCache (countingProgram.map .filled) 2 .silent ⟨25, 0⟩ = .ok start ∧
        (start.run 7 8).map (fun stop => (stop.steps, stop.error)) =
          some (7, some (.stepLimit 7)) ∧
        (start.run 0 99).map (fun stop => (stop.session.output, stop.error)) = some ("1", none) ∧
        (start.trace false 7 8).map (fun a => (a.reports.size, a.reports.back?)) =
          some (8, some ("-- step 7 --\n" ++
            "int n = 2;\nfor (int i = 0; i <= n; i++) \x7b\n  if (0 == 1)\n" ++
            "    printf(\"%d\", i);\n\x7d\n" ++
            "next: 0 == 1\nenv: \x7bn = 2, i = 0\x7d\noutput: \"\"\n")) ∧
        ∃ code sup', lower (countingProgram.map .filled) ⟨25, 0⟩ = .ok (code, sup') ∧
          start.LoopsAgree countingProgram (.init (code.map .filled) sup') := by
  have hbuilt : Built countingProgram ⟨25, 0⟩ := ⟨countingProgram_checked, by decide⟩
  obtain ⟨start, hstart⟩ : ∃ start : Session,
      Session.startWith ViewCache (countingProgram.map .filled) 2 .silent ⟨25, 0⟩ = .ok start :=
    ⟨_, rfl⟩
  refine ⟨hbuilt, by decide, start, hstart, ?_, ?_, ?_, loops_agree hbuilt hstart⟩ <;>
    cases hstart <;> decide +kernel

end Stepwise
