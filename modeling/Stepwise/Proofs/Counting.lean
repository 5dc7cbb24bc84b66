import Stepwise.Proofs.Evaluator
import Stepwise.Proofs.Running
import Stepwise.Proofs.Sessions

/-!
# Proofs - Loops that count

An expression without conjunctions has nothing to skip, so it takes one step for each
of its nodes that is to be reduced.  The steps that a loop takes follow: those of its
test, its body and its update, and one more for each of them and for the jump back.  A
loop that counts up to a bound below the greatest number leaves after the bound; at the
greatest number the count starts again from the least one, and the loop never leaves.

Main results:

- `Expr.Reduces.pending_eq`: a reduction settles one node.
- `At.settles`: the number of steps that an expression takes.
- `Phrase.LowersTo.round` and `Phrase.LowersTo.exit`: one round of a loop, and its end.
- `countingLoop_counts`: loops that count.
-/

namespace Stepwise

/-! ## Expressions that skip nothing -/

mutual

/-- An expression in which every operand is evaluated. -/
def Expr.Strict : Expr → Prop
  | .binary _ op l r => op ≠ .and ∧ l.Strict ∧ r.Strict
  | .assign _ _ v => v.Strict
  | .addAssign _ _ v => v.Strict
  | .invoke _ _ args => Expr.AllStrict args
  | _ => True

/-- Expressions in which every operand is evaluated. -/
def Expr.AllStrict : List Expr → Prop
  | [] => True
  | e :: es => e.Strict ∧ Expr.AllStrict es

end

namespace Expr

variable {e : Expr} {env : Env} {s s' : Supply} {x : Reduction}

/-- A list is strict when both of its parts are. -/
theorem allStrict_append {es fs : List Expr} :
    AllStrict (es ++ fs) ↔ AllStrict es ∧ AllStrict fs := by
  induction es with
  | nil => simp [AllStrict]
  | cons e es ih => simp [AllStrict, ih, and_assoc]

/-- The reductions pending in two lists add up. -/
theorem pendingAll_append (es fs : List Expr) :
    pendingAll (es ++ fs) = pendingAll es + pendingAll fs := by
  induction es with
  | nil => simp [pendingAll]
  | cons e es ih => simp [pendingAll, ih, Nat.add_assoc]

/-- Nothing is pending in settled expressions. -/
theorem pendingAll_settled {es : List Expr} (h : Settled es) : pendingAll es = 0 := by
  induction es with
  | nil => rfl
  | cons e es ih =>
    obtain ⟨he, hes⟩ := settled_cons.1 h
    obtain ⟨c, hc⟩ := Option.ne_none_iff_exists'.1 he
    obtain rfl := constant?_eq_some_iff.1 hc
    simp [pendingAll, pending, ih hes]

/-- Reducing a strict expression gives a strict one. -/
theorem Reduces.strict (h : Reduces env e s x s') (he : e.Strict) : x.expr.Strict := by
  induction h with
  | read | decided | apply | assign | add | increment | print => trivial
  | left _ _ ih => exact ⟨he.1, ih he.2.1, he.2.2⟩
  | right _ _ _ ih => exact ⟨he.1, trivial, ih he.2.2⟩
  | assigned _ _ _ ih => exact ih he
  | added _ _ _ ih => exact ih he
  | argument _ _ _ ih =>
    obtain ⟨hdone, hnext, hrest⟩ := allStrict_append.1 he
    exact allStrict_append.2 ⟨hdone, ih hnext, hrest⟩

/-- A reduction settles one node when none is skipped. -/
theorem Reduces.pending_eq (h : Reduces env e s x s') (he : e.Strict) :
    x.expr.pending + 1 = e.pending := by
  induction h with
  | read | apply | assign | add | increment => rfl
  | left _ _ ih =>
    have hl := ih he.2.1
    simp only [pending]
    omega
  | @decided id op a r s hop =>
    cases op with
    | and => exact absurd rfl he.1
    | _ => cases hop
  | right _ _ _ ih =>
    have hr := ih he.2.2
    simp only [pending]
    omega
  | assigned _ _ _ ih => exact congrArg (· + 1) (ih he)
  | added _ _ _ ih => exact congrArg (· + 1) (ih he)
  | argument _ _ _ ih =>
    have hnext := ih (allStrict_append.1 he).2.1
    simp only [pending, pendingAll_append, pendingAll]
    omega
  | print hargs => simp [pending, pendingAll_settled hargs]

end Expr

/-! ## Runs of a known length -/

namespace State

variable {s t : State} {P Q : State → Prop} {m n : Nat}

/-- A number of steps can be taken, and the state after them has a property. -/
def After (n : Nat) (s : State) (P : State → Prop) : Prop :=
  ∃ t, steps n s = .ok t ∧ P t

/-- One step leads to what it gives. -/
theorem After.of_step (h : ∃ t, s.step = .ok t ∧ P t) : After 1 s P := by
  obtain ⟨t, hstep, ht⟩ := h
  exact ⟨t, steps_one hstep, ht⟩

/-- What holds after some steps can be weakened. -/
theorem After.mono (h : After n s P) (hP : ∀ t, P t → Q t) : After n s Q := by
  obtain ⟨t, ht, hp⟩ := h
  exact ⟨t, ht, hP t hp⟩

/-- One run follows another one. -/
theorem After.bind (h : After m s P) (hP : ∀ t, P t → After n t Q) : After (m + n) s Q := by
  obtain ⟨t, ht, hp⟩ := h
  obtain ⟨u, hu, hq⟩ := hP t hp
  exact ⟨u, by rw [steps_add ht, hu], hq⟩

/-- A run is not done before its last step. -/
theorem After.before (h : After n s P) (hlt : m < n) : After m s fun u => u.done = false := by
  obtain ⟨t, ht, -⟩ := h
  obtain ⟨u, hu⟩ := exists_steps_of_le ht (Nat.le_of_lt hlt)
  obtain ⟨v, hv⟩ := exists_steps_of_le ht (Nat.succ_le_of_lt hlt)
  rw [Nat.succ_eq_add_one, steps_add hu] at hv
  refine ⟨u, hu, ?_⟩
  cases hstep : u.step with
  | error err => simp [steps, hstep] at hv
  | ok u' => exact done_eq_false_of_step hstep

end State

open State

variable {w code : List Stmt} {i j k : Nat} {m m' : Memory} {s : State} {v : Value} {e : Expr}
  {id : NodeId}

/-! ## Steps of statements -/

/-- An expression in a statement takes one step for each node that is to be reduced. -/
theorem Expr.Strict.settles {env : Env} {out : String} (hs : e.Strict) (hi : i < w.length)
    {frame : Frame} (hf : frame.Declarable) (he : e.Checked) (id : NodeId) (sup : Supply)
    (hv : e.evaluate.run ⟨env.contents, out⟩ = .ok v m') :
    After e.pending (standing w i (frame.fill id e) env out sup) (Settles w i frame v m') := by
  generalize hn : e.pending = n
  induction n using Nat.strongRecOn generalizing e env out id sup with
  | ind n ih =>
    cases hc : e.constant? with
    | some c =>
      obtain rfl := Expr.constant?_eq_some_iff.1 hc
      cases hn
      cases hv
      exact ⟨_, rfl, id, c.id, env, sup, rfl, rfl⟩
    | none =>
      rcases Expr.reduces_or_blocked he hc env sup with ⟨x, sup', hx⟩ | ⟨err, herr⟩
      · rw [hx.run_evaluate] at hv
        have hpending := hx.pending_eq hs
        obtain ⟨t, ht, hsettles⟩ := ih x.expr.pending (by omega) (hx.strict hs) (hx.checked he)
          sup'.node sup'.next hv rfl
        refine ⟨t, ?_, hsettles⟩
        rw [← hn, ← hpending, steps_succ (step_fill hi hf he hc (hx.reduce_eq he)), ht]
      · rw [herr.run_evaluate] at hv
        cases hv

/-- A strict expression in a frame settles in as many steps as it has reductions pending. -/
theorem At.settles {frame : Frame} (h : At w i m s) (hst : w[i]? = some (frame.fill id e))
    (hf : frame.Declarable) (he : e.Checked) (hs : e.Strict)
    (hv : e.evaluate.run m = .ok v m') : After e.pending s (Settles w i frame v m') := by
  obtain ⟨env, sup, rfl, henv⟩ := h.active hst (frame.isLabel_fill id e)
  have hm : m = ⟨env.contents, m.output⟩ := by rw [henv]
  rw [hm] at hv
  exact hs.settles (List.getElem?_eq_some_iff.1 hst).1 hf he id sup hv

/-- An expression statement is done with one step after its expression is evaluated. -/
theorem At.expression (h : At w i m s) (hst : w[i]? = some (.expression id (some e)))
    (he : e.Checked) (hs : e.Strict) (hv : e.evaluate.run m = .ok v m') :
    After (e.pending + 1) s (At w (i + 1) m') := by
  have hst' : w[i]? = some (Frame.expression.fill id e) := hst
  refine (h.settles hst' trivial he hs hv).bind ?_
  rintro t ⟨k, k', env, sup, rfl, henv⟩
  have hi := (List.getElem?_eq_some_iff.1 hst).1
  exact .of_step ⟨_, step_expression hi k ⟨k', v⟩, env, sup, rfl, henv⟩

/-- A conditional jump leads to one of its labels with one step after its condition is
evaluated. -/
theorem At.condJump (hu : UniqueLabels w) {onTrue onFalse : Label} {o : Stmt} {b : Bool}
    (h : At w i m s) (hst : w[i]? = some (.condJump id e onTrue onFalse o))
    (ht : w[j]? = some (.label onTrue)) (hf : w[k]? = some (.label onFalse)) (he : e.Checked)
    (hs : e.Strict) (hv : e.evaluate.run m = .ok v m') (hb : v.truth = .ok b) :
    After (e.pending + 1) s (At w (if b then j else k) m') := by
  have hst' : w[i]? = some ((Frame.condJump onTrue onFalse o).fill id e) := hst
  refine (h.settles hst' trivial he hs hv).bind ?_
  rintro t ⟨k, k', env, sup, rfl, henv⟩
  have hi := (List.getElem?_eq_some_iff.1 hst).1
  refine .of_step ⟨_, (step_condJump hi k ⟨k', v⟩ onTrue onFalse o).trans ?_, env, sup, rfl, henv⟩
  rw [hb]
  cases b with
  | true => exact jumpTo_eq hu ht
  | false => exact jumpTo_eq hu hf

/-- A new name is declared with one step after its initial value is evaluated. -/
theorem At.declaration {type : Datatype} {x : Identifier} (h : At w i m s)
    (hst : w[i]? = some (.declaration id type x (some e))) (ht : type.declarable = true)
    (he : e.Checked) (hs : e.Strict) (hv : e.evaluate.run m = .ok v m') (hx : x.name ∉ m'.names)
    (hstore : v.storable x.name = .ok ()) :
    After (e.pending + 1) s (At w (i + 1) (m'.declare x.name v)) := by
  have hst' : w[i]? = some ((Frame.declaration type x).fill id e) := hst
  refine (h.settles hst' ht he hs hv).bind ?_
  rintro t ⟨k, k', env, sup, rfl, henv⟩
  have hi := (List.getElem?_eq_some_iff.1 hst).1
  have hinit : Initializes w i x v m' (standing w i ((Frame.declaration type x).fill k
      (.constant ⟨k', v⟩)) env m'.output sup) :=
    ⟨_, env, sup, rfl, henv, step_declaration hi k type x ⟨k', v⟩⟩
  exact .of_step (hinit.declares hx hstore)

/-! ## Rounds of loops -/

section Loop

variable {c b u : Expr} {kc kb ku : NodeId} {m₁ m₂ m₃ : Memory} {v₁ v₂ v₃ : Value}

/-- A round of a loop over expressions leads back to its start. -/
theorem Phrase.LowersTo.round (hu : UniqueLabels w)
    (hl : (Phrase.loop (.expression kc (some c)) (.expression ku (some u))
      (.expression kb (some b))).LowersTo code)
    (hw : StandsAt w i code) (hchecked : c.Checked ∧ b.Checked ∧ u.Checked)
    (hstrict : c.Strict ∧ b.Strict ∧ u.Strict) (hs : At w i m s)
    (hc : c.evaluate.run m = .ok v₁ m₁) (htrue : v₁.truth = .ok true)
    (hb : b.evaluate.run m₁ = .ok v₂ m₂) (hv : u.evaluate.run m₂ = .ok v₃ m₃) :
    After (c.pending + b.pending + u.pending + 4) s (At w i m₃) := by
  cases hl with
  | loop back start inner exit ht hbody hupdate =>
    cases ht
    cases hbody
    cases hupdate
    simp only [standsAt_cons, standsAt_append] at hw
    obtain ⟨hstart, htest, hinner, ⟨hbody, -⟩, ⟨hupdate, -⟩, hback, hexit, -⟩ := hw
    have htested := (hs.label hstart).condJump hu htest hinner hexit hchecked.1 hstrict.1 hc htrue
    have hround := ((htested.bind fun _ h =>
      (h.label hinner).expression hbody hchecked.2.1 hstrict.2.1 hb).bind fun _ h =>
      h.expression hupdate hchecked.2.2 hstrict.2.2 hv).bind fun _ h =>
      .of_step (h.jump hu hback hstart)
    convert hround using 1
    omega

/-- A loop over expressions is left when its test fails. -/
theorem Phrase.LowersTo.exit (hu : UniqueLabels w)
    (hl : (Phrase.loop (.expression kc (some c)) (.expression ku (some u))
      (.expression kb (some b))).LowersTo code)
    (hw : StandsAt w i code) (hchecked : c.Checked) (hstrict : c.Strict) (hs : At w i m s)
    (hc : c.evaluate.run m = .ok v₁ m₁) (hfalse : v₁.truth = .ok false) :
    After (c.pending + 1) s (At w (i + code.length) m₁) := by
  cases hl with
  | loop back start inner exit ht hbody hupdate =>
    cases ht
    cases hbody
    cases hupdate
    simp only [standsAt_cons, standsAt_append] at hw
    obtain ⟨hstart, htest, hinner, -, -, -, hexit, -⟩ := hw
    have htested := (hs.label hstart).condJump hu htest hinner hexit hchecked hstrict hc hfalse
    exact htested.mono fun _ h => h.label hexit

end Loop

/-! ## Loops that count -/

section Counting

variable (ids : Nat → NodeId) (a b n : Int64) (out : String)

/-- The test `i <= b`. -/
def countingTest : Expr :=
  .binary (ids 5) .le (.identifier ⟨ids 6, "i"⟩) (.constant ⟨ids 7, .int b⟩)

/-- The update `i++`. -/
def countingUpdate : Expr :=
  .increment (ids 9) ⟨ids 10, "i"⟩

/-- The call `printf("%d", i)`. -/
def countingCall : Expr :=
  .invoke (ids 12) ⟨ids 13, "printf"⟩
    [.constant ⟨ids 14, .string "%d"⟩, .identifier ⟨ids 15, "i"⟩]

/-- The loop `for (int i = a; i <= b; i++) printf("%d", i);`, with any identities. -/
def countingLoop : Stmt :=
  .forLoop (ids 0) (.declaration (ids 1) .int ⟨ids 2, "i"⟩ (some (.constant ⟨ids 3, .int a⟩)))
    (.expression (ids 4) (some (countingTest ids b)))
    (.expression (ids 8) (some (countingUpdate ids)))
    (.expression (ids 11) (some (countingCall ids)))

/-- The part of the loop that is run again and again. -/
def countingPhrase : Phrase :=
  .loop (.expression (ids 4) (some (countingTest ids b)))
    (.expression (ids 8) (some (countingUpdate ids)))
    (.expression (ids 11) (some (countingCall ids)))

/-- The loop has counted to a number and printed a text. -/
def counted : Memory := ⟨[("i", .int n)], out⟩

/-- The format of one decimal prints the digits of its argument. -/
theorem printf_decimal : printf [.string "%d", .int n] = .ok (toString n.toInt) := by
  have hfill : fillFirst (toString n.toInt).toList "%d".toList = (toString n.toInt).toList :=
    List.append_nil _
  have hprintf : printf [.string "%d", .int n] =
      .ok (String.ofList (fillFirst (toString n.toInt).toList "%d".toList)) := rfl
  rw [hprintf, hfill, String.ofList_toList]

/-- The test of the counting loop compares the counter with the bound. -/
theorem run_countingTest :
    (countingTest ids b).evaluate.run (counted n out) =
      .ok (.ofBool (decide (n.toInt ≤ b.toInt))) (counted n out) :=
  rfl

/-- The body of the counting loop prints the counter. -/
theorem run_countingCall :
    (countingCall ids).evaluate.run (counted n out) =
      .ok .void (counted n (out ++ toString n.toInt)) := by
  have hcall : (countingCall ids).evaluate.run (counted n out) =
      (do
        Evaluator.write (← ofExcept (printf [.string "%d", .int n]))
        return .void : Evaluator Value).run (counted n out) := rfl
  rw [hcall, printf_decimal]
  rfl

/-- The update of the counting loop gives the counter and adds one to it. -/
theorem run_countingUpdate :
    (countingUpdate ids).evaluate.run (counted n out) =
      .ok (.int (.ofInt n.toInt)) (counted (.ofInt (n.toInt + 1)) out) :=
  rfl

variable {ids a b n out}

theorem countingTest_checked : (countingTest ids b).Checked := by
  simp [countingTest, Identifier.Checked, BinaryOp.known]

theorem countingTest_strict : (countingTest ids b).Strict := by
  simp [countingTest, Expr.Strict]

/-- While the count is not above the bound, a round prints it and goes on to the next one. -/
theorem Phrase.LowersTo.count (hu : UniqueLabels w)
    (hl : (countingPhrase ids b).LowersTo code) (hw : StandsAt w i code)
    (hs : At w i (counted n out) s) (hle : n.toInt ≤ b.toInt) :
    After 9 s (At w i (counted (.ofInt (n.toInt + 1)) (out ++ toString n.toInt))) := by
  have hcall : (countingCall ids).Checked := by simp [countingCall, Identifier.Checked]
  have hupdate : (countingUpdate ids).Checked := by simp [countingUpdate, Identifier.Checked]
  refine hl.round hu hw ⟨countingTest_checked, hcall, hupdate⟩ ⟨countingTest_strict, ?_, trivial⟩
    hs (run_countingTest ids b n out) ?_ (run_countingCall ids n out)
    (run_countingUpdate ids n _)
  · simp [countingCall, Expr.Strict, Expr.AllStrict]
  · rw [decide_eq_true hle]
    rfl

/-- Rounds go on as long as no count is above the bound. -/
theorem Phrase.LowersTo.countUp (hu : UniqueLabels w)
    (hl : (countingPhrase ids b).LowersTo code) (hw : StandsAt w i code)
    (hs : At w i (counted a "") s) (k : Nat)
    (hle : ∀ j < k, (Int64.ofInt (a.toInt + j)).toInt ≤ b.toInt) :
    After (9 * k) s (At w i (counted (.ofInt (a.toInt + k)) (String.join
      ((List.range k).map fun j : Nat => toString (Int64.ofInt (a.toInt + j)).toInt)))) := by
  induction k with
  | zero =>
    refine ⟨s, rfl, ?_⟩
    simpa using hs
  | succ k ih =>
    have hnext : Int64.ofInt ((Int64.ofInt (a.toInt + k)).toInt + 1) =
        .ofInt (a.toInt + (k + 1 : Nat)) := by
      rw [Int64.ofInt_add, Int64.ofInt_toInt, ← Int64.ofInt_add, Int.add_assoc]
      rfl
    have hrounds := ih fun j hj => hle j (Nat.lt_succ_of_lt hj)
    have hround := hrounds.bind fun t ht => hl.count hu hw ht (hle k (Nat.lt_succ_self k))
    rw [hnext] at hround
    simpa [List.range_succ, Nat.mul_succ] using hround

/-- The code of the loop declares the count, runs the rounds and drops the count. -/
theorem Phrase.LowersTo.counting_places
    (h : (Phrase.all [countingLoop ids a b]).LowersTo w) :
    ∃ code k, (countingPhrase ids b).LowersTo code ∧ StandsAt w 1 code ∧
      w[0]? = some (.declaration (ids 1) .int ⟨ids 2, "i"⟩ (some (.constant ⟨ids 3, .int a⟩))) ∧
      w[1 + code.length]? = some (.undeclaration k ⟨ids 2, "i"⟩) ∧
      1 + code.length + 1 = w.length := by
  cases h with
  | cons h hrest =>
    cases hrest
    cases h with
    | @forLoop _ _ _ _ init code drops _ hinit hcode hdrops =>
      cases hinit
      cases hdrops with
      | cons k hdrops =>
        cases hdrops
        have hw := standsAt_self (([.declaration (ids 1) .int ⟨ids 2, "i"⟩
          (some (.constant ⟨ids 3, .int a⟩))] ++ (code ++ [.undeclaration k ⟨ids 2, "i"⟩])) ++ [])
        simp only [standsAt_cons, standsAt_append] at hw
        obtain ⟨⟨⟨hdeclare, -⟩, hrounds, hdrop, -⟩, -⟩ := hw
        exact ⟨code, k, hcode, hrounds, hdeclare, hdrop, by simp [Nat.add_comm]⟩

/-- A count above the bound leaves the loop, and then the scope of its variable. -/
theorem Phrase.LowersTo.stop {x : Identifier} (hu : UniqueLabels w)
    (hl : (countingPhrase ids b).LowersTo code) (hw : StandsAt w i code)
    (hdrop : w[i + code.length]? = some (.undeclaration id x)) (hx : x.name = "i")
    (hs : At w i (counted n out) s) (hlt : b.toInt < n.toInt) :
    After 4 s (At w (i + code.length + 1) ⟨[], out⟩) := by
  have hexit := hl.exit hu hw countingTest_checked countingTest_strict hs
    (run_countingTest ids b n out) (by rw [decide_eq_false (by omega)]; rfl)
  refine hexit.bind fun t ht => .of_step ?_
  have hdropped := ht.undeclaration hdrop (by simp [Memory.names, counted, hx])
  rwa [hx] at hdropped

/-- The count is declared with the first step. -/
theorem countingLoop_start (start : Supply)
    (hw : w[0]? =
      some (.declaration (ids 1) .int ⟨ids 2, "i"⟩ (some (.constant ⟨ids 3, .int a⟩)))) :
    After 1 (init (w.map .filled) start) (At w 1 (counted a "")) := by
  have hinit : At w 0 Memory.empty (init (w.map .filled) start) := ⟨.empty, start, rfl, rfl⟩
  exact hinit.declaration hw rfl trivial trivial rfl (by simp [Memory.empty, Memory.names]) rfl

/-- At the end of its code with nothing in scope, a run is done. -/
theorem At.finished (h : At w i ⟨[], out⟩ s) (hi : i = w.length) :
    s.done = true ∧ s.output = out ∧ s.env = .empty := by
  obtain ⟨⟨bindings⟩, sup, rfl, henv⟩ := h
  obtain rfl := List.map_eq_nil_iff.1 henv
  rw [hi, resume_end]
  exact ⟨ended_done, rfl, rfl⟩

/-- Numbers below the greatest one are counted without wrapping around. -/
theorem toInt_ofInt_count {j : Nat} (h : a.toInt + j < 2 ^ 63) :
    (Int64.ofInt (a.toInt + j)).toInt = a.toInt + j := by
  have hle := a.le_toInt
  exact Int64.toInt_ofInt_of_le (by omega) h

/-- Below the greatest number, the loop prints all numbers up to the bound and is left. -/
theorem Phrase.LowersTo.countToBound {x : Identifier} (hu : UniqueLabels w)
    (hl : (countingPhrase ids b).LowersTo code) (hw : StandsAt w i code)
    (hdrop : w[i + code.length]? = some (.undeclaration id x)) (hx : x.name = "i")
    (hs : At w i (counted a "") s) (hb : b.toInt < 2 ^ 63 - 1) (k : Nat)
    (hk : k = (b.toInt - a.toInt + 1).toNat) :
    After (9 * k + 4) s (At w (i + code.length + 1)
      ⟨[], String.join ((List.range k).map fun j : Nat => toString (a.toInt + j))⟩) := by
  have ha := a.toInt_lt
  have hcount : ∀ j ≤ k, (Int64.ofInt (a.toInt + j)).toInt = a.toInt + j :=
    fun j hj => toInt_ofInt_count (by omega)
  have hrounds := hl.countUp hu hw hs k fun j hj => by
    rw [hcount j (Nat.le_of_lt hj)]
    omega
  have htext : ((List.range k).map fun j : Nat => toString (Int64.ofInt (a.toInt + j)).toInt) =
      (List.range k).map fun j : Nat => toString (a.toInt + j) := by
    refine List.map_congr_left fun j hj => ?_
    rw [hcount j (Nat.le_of_lt (List.mem_range.1 hj))]
  rw [htext] at hrounds
  refine hrounds.bind fun t ht => hl.stop hu hw hdrop hx ht ?_
  rw [hcount k (Nat.le_refl k)]
  omega

end Counting

/-- A loop that counts from `a` up to a bound below the greatest number prints all numbers from
`a` to the bound in nine steps each and five steps more, and no step fails.  A loop that counts
up to the greatest number is never done. -/
theorem countingLoop_counts (ids : Nat → NodeId) (a b : Int64) (sup start : Supply) :
    ∃ code sup', lower [.filled (countingLoop ids a b)] sup = .ok (code, sup') ∧
      (b.toInt < 2 ^ 63 - 1 →
        let k := (b.toInt - a.toInt + 1).toNat
        After (9 * k + 5) (init (code.map .filled) start) (fun t => t.done = true ∧
          t.output = String.join ((List.range k).map fun j : Nat => toString (a.toInt + j)) ∧
          t.env = .empty) ∧
        ∀ n < 9 * k + 5, After n (init (code.map .filled) start) fun t => t.done = false) ∧
      (b.toInt = 2 ^ 63 - 1 →
        ∀ n, After n (init (code.map .filled) start) fun t => t.done = false) := by
  obtain ⟨w, sup', hlower⟩ : ∃ w sup',
      lower [.filled (countingLoop ids a b)] sup = .ok (w, sup') := ⟨_, _, rfl⟩
  refine ⟨w, sup', hlower, ?_⟩
  rw [← List.map_singleton, lower_filled] at hlower
  obtain ⟨hlayout, hdrawn⟩ := Stmt.lowerAll_layout hlower
  have hu := hdrawn.uniqueLabels
  obtain ⟨code, drop, hl, hw, hdeclare, hdrop, hlength⟩ := hlayout.counting_places
  have hstart := countingLoop_start start hdeclare
  constructor
  · intro hb k
    have hends := hstart.bind fun t ht => hl.countToBound hu hw hdrop rfl ht hb k rfl
    have hfive : 1 + (9 * k + 4) = 9 * k + 5 := by omega
    rw [hfive] at hends
    exact ⟨hends.mono fun t ht => ht.finished hlength, fun n hn => hends.before hn⟩
  · intro hb n
    have hrounds := hstart.bind fun t ht => hl.countUp hu hw ht (n + 1) fun j _ => by
      have hlt := (Int64.ofInt (a.toInt + j)).toInt_lt
      omega
    exact hrounds.before (by omega)

/-- From `-1` to `1` the loop prints three numbers in thirty-two steps.  At the greatest number
it wraps around, and is not done after a hundred steps either. -/
theorem countingLoop_counts_aroundZero :
    ((1 : Int64).toInt < 2 ^ 63 - 1 ∧
      ∃ code sup', lower [.filled (countingLoop id (-1) 1)] ⟨16, 0⟩ = .ok (code, sup') ∧
        After 32 (init (code.map .filled) ⟨23, 3⟩)
          (fun t => t.done = true ∧ t.output = "-101" ∧ t.env = .empty) ∧
        After 31 (init (code.map .filled) ⟨23, 3⟩) fun t => t.done = false) ∧
    Int64.maxValue.toInt = 2 ^ 63 - 1 ∧
      ∃ code sup', lower [.filled (countingLoop id .maxValue .maxValue)] ⟨16, 0⟩ =
          .ok (code, sup') ∧
        After 100 (init (code.map .filled) ⟨23, 3⟩) fun t => t.done = false := by
  have hone : (1 : Int64).toInt < 2 ^ 63 - 1 := by decide
  have hmax : Int64.maxValue.toInt = 2 ^ 63 - 1 := by decide
  obtain ⟨code, sup', hlower, hends, -⟩ := countingLoop_counts id (-1) 1 ⟨16, 0⟩ ⟨23, 3⟩
  obtain ⟨code', sup'', hlower', -, hnever⟩ :=
    countingLoop_counts id .maxValue .maxValue ⟨16, 0⟩ ⟨23, 3⟩
  obtain ⟨hdone, hbefore⟩ := hends hone
  exact ⟨⟨hone, code, sup', hlower, hdone, hbefore 31 (by decide)⟩,
    hmax, code', sup'', hlower', hnever hmax 100⟩

end Stepwise
