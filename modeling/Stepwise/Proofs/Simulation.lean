import Stepwise.Proofs.Interpretation
import Stepwise.Proofs.Shape
import Stepwise.Proofs.Steps
import Mathlib.Data.List.Perm.Subperm

/-!
# Proofs - Lowered code runs like its source

The machine stands at a place of lowered code with a memory, and so does the
interpreter before a phrase.  When the phrase runs to an end, the machine goes
from the start of its code to the end of its code, or fails, with the same
memory.  When the machine comes to an end, so does the phrase.

Main results:

- `Phrase.Runs.ends`: the machine follows the interpreter.
- `Phrase.LowersTo.runs`: where the machine ends, the interpreter ends.
-/

namespace Stepwise

open State

variable {w : List Stmt} {i j k n : Nat} {m m' : Memory} {s t : State} {err : EvalError}

/-! ## Memories of states -/

/-- What a state holds, without identities. -/
def State.memory (s : State) : Memory :=
  ⟨s.env.contents, s.output⟩

/-- The machine resumes at a place with a memory. -/
def At (w : List Stmt) (i : Nat) (m : Memory) (s : State) : Prop :=
  ∃ env sup, s = resume w i env m.output sup ∧ env.contents = m.vars

theorem At.memory (h : At w i m s) : s.memory = m := by
  obtain ⟨env, sup, rfl, henv⟩ := h
  simp [State.memory, henv]

/-- A label is passed over. -/
theorem At.label {l : Label} (h : At w i m s) (hl : w[i]? = some (.label l)) :
    At w (i + 1) m s := by
  simpa only [At, resume_label hl] using h

theorem At.cast (h : At w i m s) (hij : i = j) : At w j m s := hij ▸ h

/-- A statement that is no label is the active one. -/
theorem At.active {st : Stmt} (h : At w i m s) (hst : w[i]? = some st)
    (hl : st.isLabel = false) :
    ∃ env sup, s = standing w i st env m.output sup ∧ env.contents = m.vars := by
  obtain ⟨env, sup, rfl, henv⟩ := h
  exact ⟨env, sup, resume_of_not_label hst hl, henv⟩

/-- An environment with the variables of a memory has its names. -/
theorem names_of_contents {env : Env} (h : env.contents = m.vars) : env.names = m.names := by
  rw [Env.names_eq_contents, h, Memory.names]

/-! ## Ends of runs -/

/-- From a state the machine comes to one that answers, or to one that fails. -/
inductive Ends {α : Type} (s : State) (P : α → Memory → State → Prop) :
    Except EvalError α → Memory → Prop
  | answers {t : State} {a : α} {m : Memory} : Reaches s t → P a m t → Ends s P (.ok a) m
  | fails {t : State} {err : EvalError} {m : Memory} : Reaches s t → t.step = .error err →
      t.memory = m → Ends s P (.error err) m

namespace Ends

variable {α β : Type} {P P' : α → Memory → State → Prop} {Q : β → Memory → State → Prop}
  {r : Except EvalError α}

/-- What a run ends with is what it ends with after some steps. -/
theorem of_reaches (h : Reaches s t) (ht : Ends t P r m) : Ends s P r m := by
  cases ht with
  | answers htu hu => exact .answers (h.trans htu) hu
  | fails htu hu hm => exact .fails (h.trans htu) hu hm

/-- What a run ends with is what it ends with after one step. -/
theorem of_step (h : s.step = .ok t) (ht : Ends t P r m) : Ends s P r m :=
  .of_reaches (.single h) ht

/-- What fails does so whatever answer is waited for. -/
theorem error (h : Ends s P (.error err) m) : Ends s Q (.error err) m := by
  cases h with
  | fails hst ht hm => exact .fails hst ht hm

/-- A run that ends with an answer reaches a state that has it. -/
theorem answer {a : α} (h : Ends s P (.ok a) m) : ∃ t, Reaches s t ∧ P a m t := by
  cases h with
  | answers hst ht => exact ⟨_, hst, ht⟩

/-- The run goes on after an answer. -/
theorem bind {a : α} {r' : Except EvalError β} (h : Ends s P (.ok a) m)
    (hP : ∀ t, P a m t → Ends t Q r' m') : Ends s Q r' m' := by
  cases h with
  | answers hst ht => exact .of_reaches hst (hP _ ht)

/-- The run goes on to another place after a normal end, with the same memory. -/
theorem weaken (h : Ends s P r m) (hP : ∀ a t, P a m t → ∃ u, Reaches t u ∧ P' a m u) :
    Ends s P' r m := by
  cases h with
  | answers hst ht =>
    obtain ⟨u, htu, hu⟩ := hP _ _ ht
    exact .answers (hst.trans htu) hu
  | fails hst ht hm => exact .fails hst ht hm

end Ends

/-! ## Expressions -/

/-- The expression in a frame is evaluated. -/
def Settles (w : List Stmt) (i : Nat) (frame : Frame) (v : Value) (m : Memory) (t : State) : Prop :=
  ∃ id id' env sup, t = standing w i (frame.fill id (.constant ⟨id', v⟩)) env m.output sup ∧
    env.contents = m.vars

/-- The machine evaluates an expression in any frame as the interpreter evaluates
one of the same shape. -/
theorem Expr.Evaluates.ends {e e₀ : Expr} {r : Except EvalError Value} {env : Env}
    (h : e.Evaluates m r m') (hi : i < w.length) (he : e.Checked) (he₀ : e₀.Checked)
    (hshape : e₀.shape = e.shape) (henv : env.contents = m.vars) {frame : Frame}
    (hf : frame.Declarable) (id : NodeId) (sup : Supply) :
    Ends (standing w i (frame.fill id e₀) env m.output sup) (Settles w i frame) r m' := by
  induction h generalizing e₀ env id sup with
  | constant c m =>
    obtain ⟨c₀, rfl, hc⟩ := shape_eq_constant hshape
    rw [← hc]
    exact .answers (.refl _) ⟨id, c₀.id, env, sup, rfl, henv⟩
  | reduce hnone hx _ ih =>
    have hred := (reduce_eq_ok_iff he).1 hx
    obtain ⟨x₀, sup', hred₀, hshape', henv', hout⟩ := hred.alike hshape henv sup
    refine .of_step (step_fill hi hf he₀ hred₀.constant?_eq_none (hred₀.reduce_eq he₀)) ?_
    rw [hout]
    exact ih (hred.checked he) (hred₀.checked he₀) hshape' henv' _ _
  | fail hnone hx =>
    have hblocked := ((reduce_eq_error_iff he hnone).1 hx).alike hshape henv
    refine .fails (.refl _) (step_fill_error hi frame id hblocked.constant?_eq_none
      (hblocked.reduce_eq he₀ sup)) ?_
    simp [State.memory, standing, henv]

/-- The machine evaluates the expression of the statement it stands at. -/
theorem At.evaluates {e : Expr} {r : Except EvalError Value} {frame : Frame} {id : NodeId}
    (h : At w i m s) (hst : w[i]? = some (frame.fill id e)) (he : e.Evaluates m r m')
    (hf : frame.Declarable) (hc : e.Checked) : Ends s (Settles w i frame) r m' := by
  obtain ⟨env, sup, rfl, henv⟩ := h.active hst (frame.isLabel_fill id e)
  exact he.ends (List.getElem?_eq_some_iff.1 hst).1 hc hc rfl henv hf id sup

/-- Where the machine ends, the evaluation of an expression in a frame has ended
too. -/
theorem State.Stops.evaluates {e : Expr} {frame : Frame} {id : NodeId} {env : Env} {out : String}
    {sup : Supply} (h : Stops n (standing w i (frame.fill id e) env out sup)) (hi : i < w.length)
    (hf : frame.Declarable) (he : e.Checked) : ∃ r m', e.Evaluates ⟨env.contents, out⟩ r m' := by
  induction n using Nat.strongRecOn generalizing e id env out sup with
  | ind n ih =>
    cases hc : e.constant? with
    | some c =>
      obtain rfl := Expr.constant?_eq_some_iff.1 hc
      exact ⟨_, _, .constant c _⟩
    | none =>
      rcases Expr.reduces_or_blocked he hc env sup with ⟨x, sup', hx⟩ | ⟨err, herr⟩
      · obtain ⟨k, hk, hstops⟩ := h.step (step_fill hi hf he hc (hx.reduce_eq he))
        obtain ⟨r, m', heval⟩ := ih k hk hstops (hx.checked he)
        exact ⟨r, m', .reduce hc (hx.reduce_eq he) heval⟩
      · exact ⟨_, _, .fail hc (herr.reduce_eq he sup)⟩

/-- An expression is evaluated by a run that stops. -/
theorem At.evaluates_of_stops {e : Expr} {frame : Frame} {id : NodeId} (h : At w i m s)
    (hst : w[i]? = some (frame.fill id e)) (hf : frame.Declarable) (hc : e.Checked)
    (hs : Stops n s) : ∃ r m', e.Evaluates m r m' := by
  obtain ⟨env, sup, rfl, henv⟩ := h.active hst (frame.isLabel_fill id e)
  have := hs.evaluates (List.getElem?_eq_some_iff.1 hst).1 hf hc
  rwa [henv] at this

/-! ## Jumps -/

/-- A jump leads to the place of its label in one step. -/
theorem At.jump (hu : UniqueLabels w) {id : NodeId} {l : Label} (h : At w i m s)
    (hst : w[i]? = some (.jump id l)) (hl : w[j]? = some (.label l)) :
    ∃ t, s.step = .ok t ∧ At w j m t := by
  obtain ⟨env, sup, rfl, henv⟩ := h.active hst rfl
  refine ⟨resume w j env m.output sup, ?_, env, sup, rfl, henv⟩
  rw [standing_step (List.getElem?_eq_some_iff.1 hst).1]
  exact jumpTo_eq hu hl

/-- The next step is on the way to one of two places. -/
def Branches (w : List Stmt) (onTrue onFalse : Nat) (b : Bool) (m : Memory) (t : State) : Prop :=
  ∃ u v, t.step = .ok u ∧ Reaches u v ∧ At w (if b then onTrue else onFalse) m v

/-- A run that branches reaches the place of its branch. -/
theorem Branches.reaches {onTrue onFalse : Nat} {b : Bool} (h : Branches w onTrue onFalse b m s) :
    ∃ t, Reaches s t ∧ At w (if b then onTrue else onFalse) m t := by
  obtain ⟨u, v, hu, huv, hv⟩ := h
  exact ⟨v, (Reaches.single hu).trans huv, hv⟩

/-- The code at a place makes a test and branches on it: the machine follows the
test, and where the machine ends the test has ended. -/
structure Guards (w : List Stmt) (i onTrue onFalse : Nat)
    (test : Memory → Except EvalError Bool → Memory → Prop) : Prop where
  ends : ∀ {m m' s r}, At w i m s → test m r m' → Ends s (Branches w onTrue onFalse) r m'
  total : ∀ {m s n}, At w i m s → Stops n s → ∃ r m', test m r m'

/-- The run goes on from the place a test leads to. -/
theorem Guards.branch {onTrue onFalse : Nat} {b : Bool} {α : Type}
    {test : Memory → Except EvalError Bool → Memory → Prop} {P : α → Memory → State → Prop}
    {r : Except EvalError α} {m₁ m₂ : Memory} (h : Guards w i onTrue onFalse test)
    (hs : At w i m s) (htest : test m (.ok b) m₁)
    (hP : ∀ t, At w (if b then onTrue else onFalse) m₁ t → Ends t P r m₂) : Ends s P r m₂ := by
  refine (h.ends hs htest).bind fun t ht => ?_
  obtain ⟨v, htv, hv⟩ := ht.reaches
  exact .of_reaches htv (hP v hv)

/-- Both places may be followed up. -/
theorem Guards.mono {onTrue onFalse onTrue' onFalse' : Nat}
    {test : Memory → Except EvalError Bool → Memory → Prop}
    (h : Guards w i onTrue onFalse test)
    (ht : ∀ {m t}, At w onTrue m t → ∃ u, Reaches t u ∧ At w onTrue' m u)
    (hf : ∀ {m t}, At w onFalse m t → ∃ u, Reaches t u ∧ At w onFalse' m u) :
    Guards w i onTrue' onFalse' test := by
  refine ⟨fun hs htest => (h.ends hs htest).weaken fun b t hb => ⟨t, .refl t, ?_⟩, h.total⟩
  obtain ⟨u, v, hu, huv, hv⟩ := hb
  cases b with
  | true =>
    obtain ⟨x, hvx, hx⟩ := ht hv
    exact ⟨u, x, hu, huv.trans hvx, hx⟩
  | false =>
    obtain ⟨x, hvx, hx⟩ := hf hv
    exact ⟨u, x, hu, huv.trans hvx, hx⟩

/-- A conditional jump tests its condition and goes to one of its labels. -/
theorem guards_condJump (hu : UniqueLabels w) {id : NodeId} {c : Expr} {onTrue onFalse : Label}
    {o : Stmt} (hst : w[i]? = some (.condJump id c onTrue onFalse o))
    (ht : w[j]? = some (.label onTrue)) (hf : w[k]? = some (.label onFalse)) (hc : c.Checked) :
    Guards w i j k c.Tests := by
  have hi := (List.getElem?_eq_some_iff.1 hst).1
  have hst : w[i]? = some ((Frame.condJump onTrue onFalse o).fill id c) := hst
  refine ⟨fun hs htest => ?_, fun hs hstops => ?_⟩
  · cases htest with
    | fail he => exact (hs.evaluates hst he trivial hc).error
    | @value _ v he =>
      refine (hs.evaluates hst he trivial hc).bind ?_
      rintro t ⟨k, k', env, sup, rfl, henv⟩
      cases hv : v.truth with
      | error err =>
        refine .fails (.refl _) ((step_condJump hi k ⟨k', v⟩ onTrue onFalse o).trans ?_)
          (by simp [State.memory, standing, henv])
        rw [hv]
      | ok b =>
        refine .answers (.refl _) ⟨_, _, (step_condJump hi k ⟨k', v⟩ onTrue onFalse o).trans ?_,
          .refl _, env, sup, rfl, henv⟩
        rw [hv]
        cases b
        · exact jumpTo_eq hu hf
        · exact jumpTo_eq hu ht
  · obtain ⟨r, m', he⟩ := hs.evaluates_of_stops hst trivial hc hstops
    cases r with
    | error err => exact ⟨_, _, .fail he⟩
    | ok v => exact ⟨_, _, .value he⟩

/-- The jump at the head of a loop enters the loop or leaves it. -/
theorem LoopTest.guards (hu : UniqueLabels w) {c test : Stmt} {inner exit : Label}
    (h : LoopTest inner exit c test) (hst : w[i]? = some test)
    (hin : w[j]? = some (.label inner)) (hex : w[k]? = some (.label exit)) (hc : c.Checked) :
    Guards w i j k c.Continues := by
  cases h with
  | absent id =>
    refine ⟨fun hs hcont => ?_, fun _ _ => ⟨_, _, .absent id _⟩⟩
    cases hcont
    obtain ⟨t, hstep, hat⟩ := hs.jump hu hst hin
    exact .answers (.refl _) ⟨t, t, hstep, .refl t, hat⟩
  | present id =>
    have hguards := guards_condJump hu hst hin hex hc
    refine ⟨fun hs hcont => ?_, fun hs hstops => ?_⟩
    · cases hcont with
      | present _ htest => exact hguards.ends hs htest
    · obtain ⟨r, m', htest⟩ := hguards.total hs hstops
      exact ⟨r, m', .present id htest⟩

/-! ## Declarations and undeclarations -/

/-- The initial value of a declaration is known. -/
def Initializes (w : List Stmt) (i : Nat) (x : Identifier) (value : Value) (m : Memory)
    (t : State) : Prop :=
  ∃ st env sup, t = standing w i st env m.output sup ∧ env.contents = m.vars ∧
    t.step = t.declareChecked x.name (initialValue x.name value)

/-- A declaration evaluates its initializer. -/
theorem At.initial {id : NodeId} {type : Datatype} {x : Identifier} {v : Option Expr}
    {r : Except EvalError Value} (h : At w i m s)
    (hst : w[i]? = some (.declaration id type x v)) (hv : type.Initial v m r m')
    (hd : type.declarable = true) (hc : Expr.OptionChecked v) :
    Ends s (Initializes w i x) r m' := by
  have hi := (List.getElem?_eq_some_iff.1 hst).1
  rcases v with - | e
  · cases hv
    obtain ⟨env, sup, rfl, henv⟩ := h.active hst rfl
    refine .answers (.refl _) ⟨_, env, sup, rfl, henv, ?_⟩
    rw [step_declaration_none hi]
    cases type <;> rfl
  · have hst : w[i]? = some ((Frame.declaration type x).fill id e) := hst
    have hends : Ends s (Settles w i (.declaration type x)) r m' := by
      cases hv with
      | value he => exact h.evaluates hst he hd hc
    cases r with
    | error err => exact hends.error
    | ok value =>
      refine hends.bind ?_
      rintro t ⟨k, k', env, sup, rfl, henv⟩
      exact .answers (.refl _) ⟨_, env, sup, rfl, henv, step_declaration hi k type x ⟨k', value⟩⟩

/-- An initial value is evaluated by a run that stops. -/
theorem At.initial_of_stops {id : NodeId} {type : Datatype} {x : Identifier} {v : Option Expr}
    (h : At w i m s) (hst : w[i]? = some (.declaration id type x v))
    (hd : type.declarable = true) (hc : Expr.OptionChecked v) (hs : Stops n s) :
    ∃ r m', type.Initial v m r m' := by
  rcases v with - | e
  · exact ⟨_, _, .zero m⟩
  · have hst : w[i]? = some ((Frame.declaration type x).fill id e) := hst
    obtain ⟨r, m', he⟩ := h.evaluates_of_stops hst hd hc hs
    exact ⟨r, m', .value he⟩

/-- A name in scope is not declared again. -/
theorem Initializes.redeclares {x : Identifier} {value : Value}
    (h : Initializes w i x value m s) (hx : x.name ∈ m.names) :
    s.step = .error (.alreadyDeclared x.name) := by
  obtain ⟨st, env, sup, rfl, henv, hstep⟩ := h
  rwa [step_declareChecked, names_of_contents henv, if_pos hx] at hstep

/-- A value that may not be stored is refused. -/
theorem Initializes.refuses {x : Identifier} {value : Value}
    (h : Initializes w i x value m s) (hx : x.name ∉ m.names)
    (hstore : value.storable x.name = .error err) : s.step = .error err := by
  obtain ⟨st, env, sup, rfl, henv, hstep⟩ := h
  rwa [step_declareChecked, names_of_contents henv, if_neg hx, initialValue, hstore] at hstep

/-- A new name is declared with its initial value. -/
theorem Initializes.declares {x : Identifier} {value : Value}
    (h : Initializes w i x value m s) (hx : x.name ∉ m.names)
    (hstore : value.storable x.name = .ok ()) :
    ∃ t, s.step = .ok t ∧ At w (i + 1) (m.declare x.name value) t := by
  obtain ⟨st, env, sup, rfl, henv, hstep⟩ := h
  rw [step_declareChecked, names_of_contents henv, if_neg hx, initialValue, hstore] at hstep
  refine ⟨_, hstep, _, _, rfl, ?_⟩
  rw [Env.contents_insert, henv, Env.assign_of_not_mem _ hx, Memory.declare]

/-- A declaration that is about to be made keeps the memory. -/
theorem Initializes.memory {x : Identifier} {value : Value} (h : Initializes w i x value m s) :
    s.memory = m := by
  obtain ⟨st, env, sup, rfl, henv, -⟩ := h
  simp [State.memory, standing, henv]

/-- A name in scope leaves it in one step. -/
theorem At.undeclaration {id : NodeId} {x : Identifier} (h : At w i m s)
    (hst : w[i]? = some (.undeclaration id x)) (hx : x.name ∈ m.names) :
    ∃ t, s.step = .ok t ∧ At w (i + 1) { m with vars := Env.discard x.name m.vars } t := by
  obtain ⟨env, sup, rfl, henv⟩ := h.active hst rfl
  have hi := (List.getElem?_eq_some_iff.1 hst).1
  have hmem : x.name ∈ env.names := by rwa [names_of_contents henv]
  refine ⟨_, step_undeclaration hi id hmem, _, _, rfl, ?_⟩
  rw [Env.contents_erase, henv]

/-- Names in scope can be dropped one after the other. -/
theorem At.drops {xs : List Identifier} {code : List Stmt} (h : At w i m s)
    (hd : Drops xs code) (hw : StandsAt w i code)
    (hx : (xs.map (·.name)).Subperm m.names) :
    ∃ t, Reaches s t ∧ At w (i + code.length) (m.leave xs) t := by
  induction hd generalizing i m s with
  | nil => exact ⟨s, .refl s, h⟩
  | @cons x xs code id _ ih =>
    obtain ⟨hst, hw⟩ := standsAt_cons.1 hw
    obtain ⟨u, hstep, hat⟩ := h.undeclaration hst (hx.subset (by simp))
    have hrest := hx.erase x.name
    rw [List.map_cons, List.erase_cons_head, Memory.names, ← Memory.names_discard] at hrest
    obtain ⟨t, hreach, ht⟩ := ih hat hw hrest
    refine ⟨t, (Reaches.single hstep).trans hreach, ?_⟩
    rwa [List.length_cons, Nat.add_comm code.length, ← Nat.add_assoc]

/-! ## The code of structured statements -/

/-- The code of a conditional statement: the test leads to the body or to the end,
and the end of the body to the end. -/
theorem Phrase.LowersTo.ifThen_places (hu : UniqueLabels w) {id : NodeId} {c : Expr} {b : Stmt}
    {code : List Stmt} (hl : (Phrase.one (.ifThen id c b)).LowersTo code)
    (hw : StandsAt w i code) (hc : c.Checked) :
    ∃ body, (Phrase.one b).LowersTo body ∧ StandsAt w (i + 2) body ∧
      Guards w i (i + 2) (i + code.length) c.Tests ∧
      ∀ {m s}, At w (i + 2 + body.length) m s →
        ∃ t, Reaches s t ∧ At w (i + code.length) m t := by
  cases hl with
  | @ifThen _ body _ k leave skip _ onTrue onFalse exit hl =>
    simp only [standsAt_cons, standsAt_append] at hw
    obtain ⟨hjump, htrue, hbody, hleave, hfalse, hskip, hexit, -⟩ := hw
    generalize hj : i + List.length _ = j
    simp only [List.length_cons, List.length_append, List.length_nil] at hj
    have hend : ∀ {id k m s}, w[k]? = some (.jump id exit) → At w k m s →
        ∃ t, Reaches s t ∧ At w j m t := fun hk hs => by
      obtain ⟨t, hstep, hat⟩ := hs.jump hu hk hexit
      exact ⟨t, .single hstep, (hat.label hexit).cast (by omega)⟩
    refine ⟨body, hl, hbody, ?_, fun hs => hend hleave hs⟩
    exact (guards_condJump hu hjump htrue hfalse hc).mono
      (fun hu => ⟨_, .refl _, hu.label htrue⟩) fun hu => hend hskip (hu.label hfalse)

/-- The code of a loop: the test leads to the body or to the end, and the end of the
update back to the start. -/
theorem Phrase.LowersTo.loop_places (hu : UniqueLabels w) {c u b : Stmt} {code : List Stmt}
    (hl : (Phrase.loop c u b).LowersTo code) (hw : StandsAt w i code) (hc : c.Checked) :
    ∃ round, (Phrase.all [b, u]).LowersTo round ∧ StandsAt w (i + 3) round ∧
      Guards w i (i + 3) (i + code.length) c.Continues ∧
      ∀ {m s}, At w (i + 3 + round.length) m s → ∃ t, Reaches s t ∧ At w i m t := by
  cases hl with
  | @loop _ _ _ test body update back start inner exit ht hl hl' =>
    simp only [standsAt_cons, standsAt_append] at hw
    obtain ⟨hstart, htest, hinner, hbody, hupdate, hback, hexit, -⟩ := hw
    generalize hj : i + List.length _ = j
    simp only [List.length_cons, List.length_append, List.length_nil] at hj
    refine ⟨body ++ (update ++ []), .cons hl (.cons hl' .nil), ?_, ?_, fun hs => ?_⟩
    · simp only [standsAt_append, standsAt_nil]
      exact ⟨hbody, hupdate, trivial⟩
    · have hguards := (ht.guards hu htest hinner hexit hc).mono
        (fun hu => ⟨_, .refl _, hu.label hinner⟩)
        fun hu => ⟨_, .refl _, (hu.label hexit).cast (by omega : _ = j)⟩
      exact ⟨fun hs => hguards.ends (hs.label hstart), fun hs => hguards.total (hs.label hstart)⟩
    · obtain ⟨t, hstep, hat⟩ := (hs.cast (by simp; omega)).jump hu hback hstart
      exact ⟨t, .single hstep, hat⟩

/-! ## The machine follows the interpreter -/

/-- The machine is at a place after the end of a phrase. -/
def Arrives (w : List Stmt) (i : Nat) (_ : Unit) (m : Memory) (t : State) : Prop :=
  At w i m t

/-- From the start of the code of a phrase the machine comes to the end of the code
when the phrase ends normally, and to a step that fails with the same error when
it does not. -/
theorem Phrase.Runs.ends {p : Phrase} {code : List Stmt} {r : Except EvalError Unit}
    (h : p.Runs m r m') (hu : UniqueLabels w) (hl : p.LowersTo code) (hw : StandsAt w i code)
    (hc : p.Checked) (hm : m.names.Nodup) (hs : At w i m s) :
    Ends s (Arrives w (i + code.length)) r m' := by
  induction h generalizing code i s with
  | nil m =>
    cases hl
    exact .answers (.refl s) hs
  | next hrun _ ih ih' =>
    cases hl with
    | cons hl hl' =>
      obtain ⟨hw, hw'⟩ := standsAt_append.1 hw
      rw [List.length_append, ← Nat.add_assoc]
      exact (ih hl hw hc.1 hm hs).bind fun t ht => ih' hl' hw' hc.2 (hrun.scope hc.1 hm).1 ht
  | stop _ ih =>
    cases hl with
    | cons hl _ => exact (ih hl (standsAt_append.1 hw).1 hc.1 hm hs).error
  | nop id m =>
    cases hl
    have hst := (standsAt_cons.1 hw).1
    obtain ⟨env, sup, rfl, henv⟩ := hs.active hst rfl
    exact .answers (.single (step_nop (List.getElem?_eq_some_iff.1 hst).1 id))
      ⟨env, sup, rfl, henv⟩
  | @expression e m m₁ v id he =>
    cases hl
    have hst : w[i]? = some (Frame.expression.fill id e) := (standsAt_cons.1 hw).1
    have hi := (List.getElem?_eq_some_iff.1 hst).1
    refine (hs.evaluates hst he trivial hc).bind ?_
    rintro t ⟨k, k', env, sup, rfl, henv⟩
    exact .answers (.single (step_expression hi k ⟨k', v⟩)) ⟨env, sup, rfl, henv⟩
  | @expressionFails e m m₁ err id he =>
    cases hl
    have hst : w[i]? = some (Frame.expression.fill id e) := (standsAt_cons.1 hw).1
    exact (hs.evaluates hst he trivial hc).error
  | declaration id hv hx hstore =>
    cases hl
    refine (hs.initial (standsAt_cons.1 hw).1 hv hc.1 hc.2.2).bind fun t ht => ?_
    obtain ⟨u, hstep, hat⟩ := ht.declares hx hstore
    exact .answers (.single hstep) hat
  | initialFails id hv =>
    cases hl
    exact (hs.initial (standsAt_cons.1 hw).1 hv hc.1 hc.2.2).error
  | alreadyDeclared id hv hx =>
    cases hl
    refine (hs.initial (standsAt_cons.1 hw).1 hv hc.1 hc.2.2).bind fun t ht => ?_
    exact .fails (.refl t) (ht.redeclares hx) ht.memory
  | unstorable id hv hx hstore =>
    cases hl
    refine (hs.initial (standsAt_cons.1 hw).1 hv hc.1 hc.2.2).bind fun t ht => ?_
    exact .fails (.refl t) (ht.refuses hx hstore) ht.memory
  | block id hrun ih =>
    cases hl with
    | block _ hl hd =>
      obtain ⟨hw, hw'⟩ := standsAt_append.1 hw
      have hscope := (hrun.scope hc hm).2 rfl
      refine (ih hl hw hc hm hs).bind fun t ht => ?_
      obtain ⟨u, htu, hu⟩ := ht.drops hd hw' ((List.sublist_append_right _ _).trans hscope).subperm
      rw [List.length_append, ← Nat.add_assoc]
      exact .answers htu hu
  | blockFails id _ ih =>
    cases hl with
    | block _ hl hd => exact (ih hl (standsAt_append.1 hw).1 hc hm hs).error
  | ifTrue id htest _ ih =>
    obtain ⟨body, hl, hwb, hguards, hend⟩ := hl.ifThen_places hu hw hc.1
    refine hguards.branch hs htest fun t ht => ?_
    exact (ih hl hwb hc.2 (htest.names hc.1 ▸ hm) ht).weaken fun _ u hu => hend hu
  | ifFalse id htest =>
    obtain ⟨body, hl, hwb, hguards, hend⟩ := hl.ifThen_places hu hw hc.1
    exact hguards.branch hs htest fun t ht => .answers (.refl t) ht
  | ifFails id htest =>
    obtain ⟨body, hl, hwb, hguards, hend⟩ := hl.ifThen_places hu hw hc.1
    exact (hguards.ends hs htest).error
  | forLoop id hinit hloop ih ih' =>
    cases hl with
    | forLoop _ hl hl' hd =>
      simp only [standsAt_append] at hw
      obtain ⟨hwi, hwl, hwd⟩ := hw
      obtain ⟨hm₁, hs₁⟩ := hinit.scope hc.1 hm
      obtain ⟨hm₂, hs₂⟩ := hloop.scope hc.2 hm₁
      have hsub := ((List.sublist_append_right _ _).trans (hs₁ rfl)).trans
        ((List.sublist_append_left _ _).trans (hs₂ rfl))
      refine (ih hl hwi hc.1 hm hs).bind fun t ht => ?_
      refine (ih' hl' hwl hc.2 hm₁ ht).bind fun u hu => ?_
      obtain ⟨v, huv, hv⟩ := hu.drops hd hwd hsub.subperm
      exact .answers huv (hv.cast (by simp; omega))
  | initFails id _ ih =>
    cases hl with
    | forLoop _ hl hl' hd => exact (ih hl (standsAt_append.1 hw).1 hc.1 hm hs).error
  | loopFails id hinit hloop ih ih' =>
    cases hl with
    | forLoop _ hl hl' hd =>
      simp only [standsAt_append] at hw
      obtain ⟨hwi, hwl, hwd⟩ := hw
      refine (ih hl hwi hc.1 hm hs).bind fun t ht => ?_
      exact (ih' hl' hwl hc.2 (hinit.scope hc.1 hm).1 ht).error
  | exit hcont =>
    obtain ⟨round, hlr, hwr, hguards, hback⟩ := hl.loop_places hu hw hc.1
    exact hguards.branch hs hcont fun t ht => .answers (.refl t) ht
  | again hcont hrun _ ih ih' =>
    obtain ⟨round, hlr, hwr, hguards, hback⟩ := hl.loop_places hu hw hc.1
    have hm₁ := hcont.names hc.1 ▸ hm
    have hm₂ := (hrun.scope ⟨hc.2.2, hc.2.1, trivial⟩ hm₁).1
    refine hguards.branch hs hcont fun t ht => ?_
    refine (ih hlr hwr ⟨hc.2.2, hc.2.1, trivial⟩ hm₁ ht).bind fun x hx => ?_
    obtain ⟨y, hxy, hy⟩ := hback hx
    exact .of_reaches hxy (ih' hl hw hc hm₂ hy)
  | roundFails hcont _ ih =>
    obtain ⟨round, hlr, hwr, hguards, hback⟩ := hl.loop_places hu hw hc.1
    refine hguards.branch hs hcont fun t ht => ?_
    exact (ih hlr hwr ⟨hc.2.2, hc.2.1, trivial⟩ (hcont.names hc.1 ▸ hm) ht).error
  | testFails hcont =>
    obtain ⟨round, hlr, hwr, hguards, hback⟩ := hl.loop_places hu hw hc.1
    exact (hguards.ends hs hcont).error

/-! ## Where the machine ends, the interpreter ends -/

/-- Where the machine ends after it was at the start of the code of a phrase, the
phrase has an end. -/
theorem Phrase.LowersTo.runs {p : Phrase} {code : List Stmt} (hl : p.LowersTo code)
    (hu : UniqueLabels w) (hw : StandsAt w i code) (hc : p.Checked) (hm : m.names.Nodup)
    (hs : At w i m s) (hstops : Stops n s) : ∃ r m', p.Runs m r m' := by
  induction n using Nat.strongRecOn generalizing p code i m s with
  | ind n outer =>
    induction hl generalizing i m s with
    | nil => exact ⟨_, _, .nil m⟩
    | cons hl hl' ih ih' =>
      obtain ⟨hw, hw'⟩ := standsAt_append.1 hw
      obtain ⟨r, m₁, hrun⟩ := ih hw hc.1 hm hs hstops
      cases r with
      | error err => exact ⟨_, _, .stop hrun⟩
      | ok u =>
        obtain ⟨t, hst, ht⟩ := (hrun.ends hu hl hw hc.1 hm hs).answer
        obtain ⟨r, m₂, hrest⟩ := ih' hw' hc.2 (hrun.scope hc.1 hm).1 ht (hstops.reaches hst)
        exact ⟨r, m₂, .next hrun hrest⟩
    | expression id v =>
      rcases v with - | e
      · exact ⟨_, _, .nop id m⟩
      · have hst : w[i]? = some (Frame.expression.fill id e) := (standsAt_cons.1 hw).1
        obtain ⟨r, m', he⟩ := hs.evaluates_of_stops hst trivial hc hstops
        cases r with
        | error err => exact ⟨_, _, .expressionFails id he⟩
        | ok v => exact ⟨_, _, .expression id he⟩
    | declaration id type x v =>
      obtain ⟨r, m', hv⟩ := hs.initial_of_stops (standsAt_cons.1 hw).1 hc.1 hc.2.2 hstops
      cases r with
      | error err => exact ⟨_, _, .initialFails id hv⟩
      | ok value =>
        by_cases hx : x.name ∈ m'.names
        · exact ⟨_, _, .alreadyDeclared id hv hx⟩
        · cases hstore : value.storable x.name with
          | error err => exact ⟨_, _, .unstorable id hv hx hstore⟩
          | ok u => exact ⟨_, _, .declaration id hv hx hstore⟩
    | block id hl hd ih =>
      obtain ⟨r, m₁, hrun⟩ := ih (standsAt_append.1 hw).1 hc hm hs hstops
      cases r with
      | error err => exact ⟨_, _, .blockFails id hrun⟩
      | ok u => exact ⟨_, _, .block id hrun⟩
    | ifThen id k leave skip c onTrue onFalse exit hl ih =>
      obtain ⟨body, hl, hwb, hguards, -⟩ :=
        (Phrase.LowersTo.ifThen id k leave skip c onTrue onFalse exit hl).ifThen_places hu hw hc.1
      obtain ⟨r, m₁, htest⟩ := hguards.total hs hstops
      rcases r with err | (_ | _)
      · exact ⟨_, _, .ifFails id htest⟩
      · exact ⟨_, _, .ifFalse id htest⟩
      · obtain ⟨t, hst, u, v, hstep, huv, hv⟩ := (hguards.ends hs htest).answer
        obtain ⟨k, hk, hstops⟩ := (hstops.reaches hst).step hstep
        obtain ⟨r, m₂, hrun⟩ := outer k hk hl hwb hc.2 (htest.names hc.1 ▸ hm) hv
          (hstops.reaches huv)
        exact ⟨r, m₂, .ifTrue id htest hrun⟩
    | forLoop id hl hl' hd ih ih' =>
      simp only [standsAt_append] at hw
      obtain ⟨hwi, hwl, -⟩ := hw
      obtain ⟨r, m₁, hinit⟩ := ih hwi hc.1 hm hs hstops
      cases r with
      | error err => exact ⟨_, _, .initFails id hinit⟩
      | ok u =>
        obtain ⟨t, hst, ht⟩ := (hinit.ends hu hl hwi hc.1 hm hs).answer
        obtain ⟨r, m₂, hloop⟩ := ih' hwl hc.2 (hinit.scope hc.1 hm).1 ht (hstops.reaches hst)
        cases r with
        | error err => exact ⟨_, _, .loopFails id hinit hloop⟩
        | ok u => exact ⟨_, _, .forLoop id hinit hloop⟩
    | loop back start inner exit ht hl hl' =>
      have hloop := Phrase.LowersTo.loop back start inner exit ht hl hl'
      obtain ⟨round, hlr, hwr, hguards, hback⟩ := hloop.loop_places hu hw hc.1
      obtain ⟨r, m₁, hcont⟩ := hguards.total hs hstops
      rcases r with err | (_ | _)
      · exact ⟨_, _, .testFails hcont⟩
      · exact ⟨_, _, .exit hcont⟩
      · obtain ⟨t, hst, u, v, hstep, huv, hv⟩ := (hguards.ends hs hcont).answer
        obtain ⟨k, hk, hstops⟩ := (hstops.reaches hst).step hstep
        have hround : (Phrase.all [_, _]).Checked := ⟨hc.2.2, hc.2.1, trivial⟩
        have hm₁ := hcont.names hc.1 ▸ hm
        obtain ⟨r, m₂, hrun⟩ := outer k hk hlr hwr hround hm₁ hv (hstops.reaches huv)
        cases r with
        | error err => exact ⟨_, _, .roundFails hcont hrun⟩
        | ok _ =>
          obtain ⟨x, hvx, hx⟩ := (hrun.ends hu hlr hwr hround hm₁ hv).answer
          obtain ⟨y, hxy, hy⟩ := hback hx
          obtain ⟨r, m₃, hrest⟩ := outer k hk hloop hw hc (hrun.scope hround hm₁).1 hy
            (hstops.reaches (huv.trans (hvx.trans hxy)))
          exact ⟨r, m₃, .again hcont hrun hrest⟩

end Stepwise
