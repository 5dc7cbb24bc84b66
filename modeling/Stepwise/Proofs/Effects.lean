import Stepwise.Proofs.Contraction

/-!
# Proofs - What a step can touch

All effects of a step come from one place.  A reduction that goes down into an
expression hands the effects of its redex up unchanged, so a step prints what its
redex prints and assigns what its redex assigns.  Apart from that, only a declaration
that is ready and an undeclaration change which names are in scope.

Main results:

- `Env.Made.nodup`: no name is bound twice.
- `fillFirst_fills` and `printf_prints`: what is printed, said without computing it.
- `Expr.Reduces.effect`: the effects of a reduction are those of its redex.
- `step_confined`: what a step changes, and that it changes nothing else.
-/

namespace Stepwise

/-! ## Environments made by binding and unbinding -/

namespace Env

variable {env : Env}

/-- The environments that come about by binding and unbinding names. -/
inductive Made : Env → Prop
  | empty : Made .empty
  | bind {env env' : Env} {name : String} {value : Constant} {s s' : Supply} :
      Made env → (env.bind name value : Build EvalError Env) s = .ok (env', s') → Made env'
  | unbind {env env' : Env} {name : String} :
      Made env → env.unbind? name = some env' → Made env'

/-- No name is bound twice. -/
theorem Made.nodup (h : env.Made) : env.names.Nodup := by
  induction h with
  | empty => exact List.nodup_nil
  | @bind env env' name value s s' _ hbind ih =>
    rw [Build.env_bind_apply] at hbind
    cases hbind
    by_cases hname : name ∈ env.names
    · rwa [names_insert_of_mem _ hname]
    · rw [names_insert_of_not_mem _ hname, List.nodup_append]
      refine ⟨ih, List.nodup_singleton name, ?_⟩
      intro a ha b hb hab
      rw [List.mem_singleton.1 hb] at hab
      exact hname (hab ▸ ha)
  | unbind _ hunbind ih =>
    rw [(unbind?_eq_some hunbind).2, names_erase]
    exact ih.erase _

end Env

/-! ## What is printed -/

/-- A template with its first `%d` replaced by a text, if it has one. -/
inductive Fills (value : List Char) : List Char → List Char → Prop
  | unchanged {format : List Char} : ¬ ['%', 'd'] <:+: format → Fills value format format
  | first {front : List Char} (back : List Char) : ¬ ['%', 'd'] <:+: front ++ ['%'] →
      Fills value (front ++ '%' :: 'd' :: back) (front ++ value ++ back)

/-- A text has no `%d` if it does not start with one and has none after its first character. -/
theorem not_infix_cons {c : Char} {cs : List Char} (hhead : c = '%' → ∀ ds, cs ≠ 'd' :: ds)
    (htail : ¬ ['%', 'd'] <:+: cs) : ¬ ['%', 'd'] <:+: c :: cs := by
  rw [List.infix_cons_iff, not_or]
  refine ⟨?_, htail⟩
  rintro ⟨ds, hds⟩
  rw [List.cons_append, List.singleton_append, List.cons.injEq] at hds
  exact hhead hds.1.symm ds hds.2.symm

/-- Filling replaces the first `%d` and leaves what it inserts alone. -/
theorem fillFirst_fills (value format : List Char) :
    Fills value format (fillFirst value format) := by
  fun_induction fillFirst value format with
  | case1 => exact .unchanged (by simp)
  | case2 cs => exact @Fills.first _ [] cs (by decide)
  | case3 c cs hfirst ih =>
    have hhead : c = '%' → ∀ ds, cs ≠ 'd' :: ds := fun hc ds hds => hfirst ds hc hds
    generalize fillFirst value cs = filled at ih
    cases ih with
    | unchanged habs => exact .unchanged (not_infix_cons hhead habs)
    | @first front back habs =>
      refine @Fills.first _ (c :: front) back (not_infix_cons ?_ habs)
      intro hc ds hds
      cases front with
      | nil => cases hds
      | cons d front =>
        cases hds
        exact hhead hc _ rfl

/-- The text that stands for a value where it is printed. -/
inductive Value.Shows : Value → String → Prop
  | int (n : Int64) : Shows (.int n) (toString n.toInt)
  | string (s : String) : Shows (.string s) s
  | null : Shows .null "(null)"

/-- The text that a call of `printf` prints: the first argument is a string, and its first
`%d` is replaced by the second argument, if there is one. -/
inductive Prints : List Value → String → Prop
  | template (format : String) : Prints [.string format] format
  | filled {format shown text : String} {v : Value} (more : List Value) :
      v.Shows shown → Fills shown.toList format.toList text.toList →
      Prints (.string format :: v :: more) text

/-- A value that can be printed shows as what is printed. -/
theorem Value.printed_shows {v : Value} {text : String} (h : v.printed = .ok text) :
    v.Shows text := by
  cases v with
  | int n =>
    cases h
    exact .int n
  | string s =>
    cases h
    exact .string _
  | null =>
    cases h
    exact .null
  | _ => cases h

/-- What is printed is what the format says. -/
theorem printf_prints {values : List Value} {text : String} (h : printf values = .ok text) :
    Prints values text := by
  unfold printf at h
  split at h
  · cases h
  · next format args =>
    cases args with
    | nil =>
      cases h
      exact .template _
    | cons v more =>
      obtain ⟨shown, hshown, hfill⟩ := bind_eq_ok_iff.1 h
      cases hfill
      refine .filled more (Value.printed_shows hshown) ?_
      rw [String.toList_ofList]
      exact fillFirst_fills _ _
  · cases h

/-! ## The effects of a reduction -/

namespace Node

/-- The name that a node itself assigns to. -/
def target? : Node → Option Identifier
  | .expr (.assign _ x _) => some x
  | .expr (.addAssign _ x _) => some x
  | .expr (.increment _ x) => some x
  | _ => none

/-- Whether a node is a call of `printf` with given arguments. -/
def CallsPrintf (n : Node) (args : List Expr) : Prop :=
  ∃ id f, n = .expr (.invoke id f args) ∧ f.name = "printf"

/-- The text that is printed when a node is reduced: there is none unless the node is a
call of `printf`, whose arguments are constants by then. -/
structure Utters (n : Node) (text : String) : Prop where
  silent : (∀ args, ¬ n.CallsPrintf args) → text = ""
  printed : ∀ args, n.CallsPrintf args →
    ∃ cs : List Constant, args = cs.map .constant ∧ Prints (cs.map Constant.value) text

variable {n : Node}

/-- What is no call prints nothing. -/
theorem Utters.of_not_invoke (h : ∀ id f args, n ≠ .expr (.invoke id f args)) : n.Utters "" := by
  constructor
  · intro _
    rfl
  · rintro args ⟨id, f, hn, -⟩
    exact absurd hn (h id f args)

end Node

namespace Expr

variable {env env' : Env} {e r : Expr} {s s' : Supply} {x : Reduction} {c : Constant}
  {out : String}

/-- Settled arguments are constants. -/
theorem Settled.eq_map {args : List Expr} (h : Settled args) :
    ∃ cs : List Constant, args = cs.map .constant ∧ values args = cs.map Constant.value := by
  induction args with
  | nil => exact ⟨[], rfl, rfl⟩
  | cons a args ih =>
    obtain ⟨ha, hargs⟩ := settled_cons.1 h
    obtain ⟨c, hc⟩ := Option.ne_none_iff_exists'.1 ha
    obtain ⟨cs, rfl, hvalues⟩ := ih hargs
    cases constant?_eq_some_iff.1 hc
    refine ⟨c :: cs, rfl, ?_⟩
    rw [values, hvalues, List.map_cons]

/-- An expression that reduces to a constant at once binds no other name than its target. -/
theorem Reduces.env_of_constant (h : Reduces env r s ⟨.constant c, env', out⟩ s') :
    env' = env ∨ ∃ y d, (Node.expr r).target? = some y ∧ env' = env.insert y.name d := by
  cases h with
  | read | decided | apply | print => exact .inl rfl
  | assign | add | increment => exact .inr ⟨_, _, rfl, rfl⟩

/-- An expression that reduces to a constant at once prints only as a call. -/
theorem Reduces.utters_of_constant (h : Reduces env r s ⟨.constant c, env', out⟩ s') :
    (Node.expr r).Utters out := by
  cases h with
  | print hargs hf htext =>
    obtain ⟨cs, rfl, hvalues⟩ := hargs.eq_map
    rw [hvalues] at htext
    constructor
    · intro hno
      exact absurd ⟨_, _, rfl, hf⟩ (hno _)
    · rintro args ⟨id, f, hcall, -⟩
      cases hcall
      exact ⟨cs, rfl, printf_prints htext⟩
  | _ => exact .of_not_invoke (by intros; simp)

/-- The effects of a reduction are those of its redex. -/
theorem Reduces.effect (h : Reduces env e s x s') :
    (x.env = env ∨ ∃ y d, (Node.expr e.redex).target? = some y ∧ x.env = env.insert y.name d) ∧
      (Node.expr e.redex).Utters x.output := by
  obtain ⟨c, s₁, path, hred, -⟩ := h.contracts
  exact ⟨hred.env_of_constant, hred.utters_of_constant⟩

end Expr

/-! ## The effects of a step -/

namespace Stmt

/-- Whether a statement is a declaration that is ready to bind its name. -/
def Binds (st : Stmt) (x : Identifier) : Prop :=
  ∃ id d v, st = .declaration id d x v ∧ st.redex = .stmt st

/-- Whether a statement is the undeclaration of a name. -/
def Unbinds (st : Stmt) (x : Identifier) : Prop :=
  ∃ id, st = .undeclaration id x

end Stmt

/-- All that may differ between a state and the next one, besides the place and the active
statement `st`.  The program stays.  The redex prints.  A declaration that is ready adds its
name at the end, an undeclaration takes its name away, and of the names in scope before
and after only the target of the redex may get another constant. -/
structure State.Confined (s : State) (st : Stmt) (t : State) : Prop where
  program : t.program = s.program
  output : ∃ text, t.output = s.output ++ text ∧ st.redex.Utters text
  bound : ∀ x, st.Binds x → x.name ∉ s.env.names ∧ t.env.names = s.env.names ++ [x.name]
  unbound : ∀ x, st.Unbinds x →
    x.name ∈ s.env.names ∧ t.env.names = s.env.names.filter (· ≠ x.name)
  kept : (∀ x, ¬ st.Binds x) → (∀ x, ¬ st.Unbinds x) → t.env.names = s.env.names
  values : ∀ name ∈ s.env.names, name ∈ t.env.names → t.env.find? name ≠ s.env.find? name →
    ∃ x, st.redex.target? = some x ∧ x.name = name

namespace State

variable {s t : State} {st : Stmt}

/-- A declaration that is ready is refused where its name is in scope. -/
theorem declareChecked_eq_ok {name : String} {value : Except EvalError Value}
    (h : s.declareChecked name value = .ok t) : name ∉ s.env.names := by
  unfold declareChecked at h
  split at h
  · cases h
  · next hname =>
    rw [← Env.contains_iff_mem_names]
    exact hname

/-- The name of a declaration that is ready was not in scope. -/
theorem not_mem_names_of_binds {x : Identifier} (hactive : s.active = .filled st)
    (hbinds : st.Binds x) (h : s.step = .ok t) : x.name ∉ s.env.names := by
  obtain ⟨id, d, v, rfl, hredex⟩ := hbinds
  have hstep : s.stepStmt (.declaration id d x v) = .ok t := by
    unfold step at h
    split at h
    · cases h
    · rwa [hactive] at h
  cases v with
  | none =>
    simp only [stepStmt] at hstep
    exact declareChecked_eq_ok hstep
  | some e =>
    cases he : e.constant? with
    | none => simp [Stmt.redex, Expr.redex?, he] at hredex
    | some c =>
      simp only [stepStmt, he] at hstep
      exact declareChecked_eq_ok hstep

/-- A reduction touches what its redex touches. -/
theorem confined_of_reduces {frame : Frame} {id : NodeId} {e : Expr} {x : Reduction}
    {sup sup' : Supply} {slot : Slot Stmt} (he : e.constant? = none)
    (h : e.Reduces s.env s.supply x sup) :
    s.Confined (frame.fill id e)
      { s with active := slot, env := x.env, output := s.output ++ x.output, supply := sup' } := by
  have hredex : (frame.fill id e).redex = .expr e.redex := by
    simp [Stmt.redex_fill, he]
  obtain ⟨henv, hutters⟩ := h.effect
  constructor
  case program => rfl
  case output => exact ⟨x.output, rfl, by rwa [hredex]⟩
  case bound =>
    rintro y ⟨id₁, d, v, -, hself⟩
    rw [hredex] at hself
    cases hself
  case unbound =>
    rintro y ⟨id₁, hst⟩
    cases frame <;> cases hst
  case kept =>
    intro _ _
    exact h.names
  case values =>
    intro name _ _ hne
    rw [hredex]
    rcases henv with henv | ⟨y, d, htarget, henv⟩
    · exact absurd (congrArg (·.find? name) henv) hne
    · refine ⟨y, htarget, ?_⟩
      by_contra hname
      refine hne ?_
      change x.env.find? name = _
      rw [henv, Env.find?_insert_of_ne d (Ne.symm hname)]

/-- A statement that is its own redex is no call. -/
theorem utters_of_self (hself : st.redex = .stmt st) : st.redex.Utters "" := by
  rw [hself]
  exact .of_not_invoke (by simp)

/-- A step that keeps the environment and prints nothing touches nothing. -/
theorem confined_of_same (hself : st.redex = .stmt st) (hbinds : ∀ x, ¬ st.Binds x)
    (hunbinds : ∀ x, ¬ st.Unbinds x) (hprogram : t.program = s.program) (henv : t.env = s.env)
    (hout : t.output = s.output) : s.Confined st t := by
  constructor
  case program => exact hprogram
  case output => exact ⟨"", by rw [hout, String.append_empty], utters_of_self hself⟩
  case bound =>
    intro x hx
    exact absurd hx (hbinds x)
  case unbound =>
    intro x hx
    exact absurd hx (hunbinds x)
  case kept =>
    intro _ _
    rw [henv]
  case values =>
    intro name _ _ hne
    rw [henv] at hne
    exact absurd rfl hne

/-- Binding a name that was not in scope. -/
theorem confined_declare {id : NodeId} {d : Datatype} {x : Identifier} {v : Option Expr}
    (value : Value) (hself : (Stmt.declaration id d x v).redex = .stmt (.declaration id d x v))
    (hx : x.name ∉ s.env.names) :
    s.Confined (.declaration id d x v) (s.declare x.name value) := by
  have hbinds : (Stmt.declaration id d x v).Binds x := ⟨id, d, v, rfl, hself⟩
  constructor
  case program => rfl
  case output => exact ⟨"", String.append_empty.symm, utters_of_self hself⟩
  case bound =>
    rintro y ⟨id₁, d₁, v₁, hst, -⟩
    cases hst
    exact ⟨hx, Env.names_insert_of_not_mem _ hx⟩
  case unbound =>
    rintro y ⟨id₁, hst⟩
    cases hst
  case kept =>
    intro hno _
    exact absurd hbinds (hno x)
  case values =>
    intro name hname _ hne
    have hother : name ≠ x.name := fun h => hx (h ▸ hname)
    exact absurd (Env.find?_insert_of_ne _ hother) hne

/-- Unbinding a name that is in scope once. -/
theorem confined_undeclare {id : NodeId} {x : Identifier} {i : Nat} (hnodup : s.env.names.Nodup)
    (hx : x.name ∈ s.env.names) :
    s.Confined (.undeclaration id x) ({ s with env := s.env.erase x.name }.moveTo i) := by
  have hnames : (s.env.erase x.name).names = s.env.names.filter (· ≠ x.name) := by
    rw [Env.names_erase, hnodup.erase_eq_filter]
    apply List.filter_congr
    intro name _
    rw [Bool.eq_iff_iff, bne_iff_ne, decide_eq_true_iff]
  constructor
  case program => rfl
  case output => exact ⟨"", String.append_empty.symm, utters_of_self rfl⟩
  case bound =>
    rintro y ⟨id₁, d₁, v₁, hst, -⟩
    cases hst
  case unbound =>
    rintro y ⟨id₁, hst⟩
    cases hst
    exact ⟨hx, hnames⟩
  case kept =>
    intro _ hno
    exact absurd ⟨id, rfl⟩ (hno x)
  case values =>
    intro name _ hname hne
    have hother : name ≠ x.name := by
      have hmem : name ∈ (s.env.erase x.name).names := hname
      rw [hnames, List.mem_filter] at hmem
      simpa using hmem.2
    exact absurd (Env.find?_erase_of_ne hother) hne

/-- A step that is done with the active statement binds or unbinds its name at most. -/
theorem confined_of_discards (hactive : s.active = .filled st) (hnodup : s.env.names.Nodup)
    (hstep : s.step = .ok t) (hself : st.redex = .stmt st) (h : s.Discards st t) :
    s.Confined st t := by
  cases h with
  | advance id v =>
    apply confined_of_same hself
    case hbinds =>
      rintro x ⟨id₁, d, v₁, hst, -⟩
      cases hst
    case hunbinds =>
      rintro x ⟨id₁, hst⟩
      cases hst
    all_goals rfl
  | bind id d x v value =>
    exact confined_declare value hself
      (not_mem_names_of_binds hactive ⟨id, d, v, rfl, hself⟩ hstep)
  | unbind id x hx =>
    obtain ⟨hmem, rfl⟩ := Env.unbind?_eq_some hx
    exact confined_undeclare hnodup hmem
  | jump hl hjump =>
    unfold jumpTo at hjump
    split at hjump
    · cases hjump
      apply confined_of_same hself
      case hbinds =>
        rintro x ⟨id, d, v, rfl, -⟩
        cases hl
      case hunbinds =>
        rintro x ⟨id, rfl⟩
        cases hl
      all_goals rfl
    · cases hjump

end State

/-- The effects of a step on a checked statement are confined to what its redex prints and
assigns and to the name that it declares or undeclares. -/
theorem step_confined {s t : State} {st : Stmt} (hactive : s.active = .filled st)
    (hst : st.Checked) (henv : s.env.Made) (h : s.step = .ok t) : s.Confined st t := by
  rcases State.step_cases hactive h with ⟨frame, id, e, x, sup, rfl, he, hx, rfl⟩ | ⟨hself, hdone⟩
  · exact State.confined_of_reduces he ((Expr.reduce_eq_ok_iff hst.of_fill).1 hx)
  · exact State.confined_of_discards hactive henv.nodup h hself hdone

/-- The statement `x = printf("%d, %d", "<%d>");`, whose redex is the call. -/
def nestedPrintf : Stmt :=
  .expression 1 (some (.assign 2 ⟨3, "x"⟩ (.invoke 4 ⟨5, "printf"⟩
    [.constant ⟨6, .string "%d, %d"⟩, .constant ⟨7, .string "<%d>"⟩])))

/-- A state that is about to make the call. -/
def nestedPrintfState : State :=
  ⟨[.filled nestedPrintf], 0, .filled nestedPrintf, Env.empty.insert "x" ⟨8, .int 5⟩, "so far ",
    ⟨9, 0⟩⟩

/-- The step prints the filled format after what was printed before, and assigns nothing. -/
theorem step_confined_nestedPrintf :
    nestedPrintf.Checked ∧ nestedPrintfState.env.Made ∧
      ∃ t, nestedPrintfState.step = .ok t ∧ t.output = "so far <%d>, %d" ∧
        nestedPrintfState.Confined nestedPrintf t := by
  have hst : nestedPrintf.Checked := by
    simp [nestedPrintf, Identifier.Checked]
  have henv : nestedPrintfState.env.Made :=
    @Env.Made.bind .empty _ "x" ⟨0, .int 5⟩ ⟨8, 0⟩ _ .empty rfl
  obtain ⟨t, ht, hout⟩ : ∃ t, nestedPrintfState.step = .ok t ∧ t.output = "so far <%d>, %d" :=
    ⟨_, rfl, rfl⟩
  exact ⟨hst, henv, t, ht, hout, step_confined rfl hst henv ht⟩

end Stepwise
