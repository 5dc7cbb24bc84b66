import Stepwise.Proofs.Activity
import Stepwise.Proofs.Contraction
import Stepwise.Proofs.Inventory
import Stepwise.Proofs.Measure
import Stepwise.Proofs.Running

/-!
# Proofs - Termination without loops

A statement that is visited is reduced until its expression is a constant, which takes
no more reductions than there are nodes to be reduced, and one more step is done with
it.  The code of a program without loops only jumps forward, so no statement is visited
twice, and the statements from the current one on bound the steps that are left.

Main definitions:

- `State.VisitEnds`, visits of a statement that end within some steps.
- `Forward`, code that only jumps forward.
- `State.stepsLeft`, a bound that every step lowers.

Main results:

- `State.visitEnds`: every visit ends.
- `Phrase.LowersTo.forward`: the code of statements without loops only jumps forward.
- `State.Underway.stepsLeft_lt`: one step; `State.endsWithin_of_forward`: a whole run.
- `loopFree_terminates`: all of it for programs without loops.
-/

namespace Stepwise

/-- The number of nodes that are still to be reduced in the expression of a statement. -/
def Stmt.pending (st : Stmt) : Nat :=
  (st.expr?.map Expr.pending).getD 0

@[simp] theorem Frame.pending_fill (frame : Frame) (id : NodeId) (e : Expr) :
    (frame.fill id e).pending = e.pending := by
  rw [Stmt.pending, Frame.expr?_fill]
  rfl

/-! ## One visit -/

namespace State

section Visit

variable {s t : State} {st act : Stmt} {bound bound' : Nat}

/-- The machine stays at a statement for at most `bound` steps, and the step after them fails
or is done with the statement. -/
def VisitEnds (s : State) (bound : Nat) : Prop :=
  ∃ n ≤ bound, ∃ t act, steps n s = .ok t ∧ (∀ m ≤ n, ∀ u, steps m s = .ok u → u.pc = s.pc) ∧
    t.active = .filled act ∧
    ((∃ err, t.step = .error err) ∨ ∃ u, t.step = .ok u ∧ t.Discards act u)

/-- A visit ends where the statement fails or is discarded. -/
theorem VisitEnds.here (hactive : s.active = .filled act)
    (h : (∃ err, s.step = .error err) ∨ ∃ u, s.step = .ok u ∧ s.Discards act u) (bound : Nat) :
    VisitEnds s bound := by
  refine ⟨0, Nat.zero_le bound, s, act, rfl, fun m hm u hu => ?_, hactive, h⟩
  obtain rfl : m = 0 := by omega
  cases hu
  rfl

/-- A visit goes on after a reduction, with a smaller bound. -/
theorem VisitEnds.reduce (hstep : s.step = .ok t) (hpc : t.pc = s.pc) (hlt : bound < bound')
    (h : VisitEnds t bound) : VisitEnds s bound' := by
  obtain ⟨n, hn, u, act, hu, hstays, hactive, hend⟩ := h
  have hsteps : steps (n + 1) s = .ok u := by rw [steps_succ hstep, hu]
  refine ⟨n + 1, by omega, u, act, hsteps, fun m hm v hv => ?_, hactive, hend⟩
  cases m with
  | zero =>
    cases hv
    rfl
  | succ m =>
    rw [steps_succ hstep] at hv
    rw [hstays m (by omega) v hv, hpc]

/-- A visit of a statement takes no more reductions than the expression of the statement has
nodes that are no constants. -/
theorem visitEnds (hactive : s.active = .filled st) : VisitEnds s st.pending := by
  obtain ⟨k, hk⟩ : ∃ k, st.pending = k := ⟨_, rfl⟩
  induction k using Nat.strongRecOn generalizing s st with
  | ind k ih =>
    cases hstep : s.step with
    | error err => exact .here hactive (.inl ⟨err, hstep⟩) _
    | ok t =>
      rcases step_cases hactive hstep with ⟨frame, id, e, x, sup, rfl, -, hx, rfl⟩ | ⟨-, hdiscards⟩
      · have hlt := Expr.pending_lt_of_reduce hx
        rw [Frame.pending_fill] at hk ⊢
        rw [← frame.pending_fill sup.node x.expr] at hlt
        exact .reduce hstep rfl hlt (ih _ (by omega) rfl rfl)
      · exact .here hactive (.inr ⟨t, hstep, hdiscards⟩) _

end Visit

end State

/-! ## Code that only jumps forward -/

/-- Every label that a statement may jump to stands after it. -/
def Forward : List Stmt → Prop
  | [] => True
  | st :: code => (∀ l ∈ st.targets, .label l ∈ code) ∧ Forward code

section Forward

variable {code more w : List Stmt} {i : Nat} {st : Stmt} {l : Label}

/-- Code jumps forward when its parts do. -/
theorem Forward.append (h : Forward code) (h' : Forward more) : Forward (code ++ more) := by
  induction code with
  | nil => exact h'
  | cons st code ih =>
    refine ⟨fun l hl => ?_, ih h.2⟩
    exact List.mem_append_left more (h.1 l hl)

/-- A statement that does not jump may stand in front. -/
theorem Forward.cons (hst : st.targets = []) (h : Forward code) : Forward (st :: code) := by
  refine ⟨fun l hl => ?_, h⟩
  rw [hst] at hl
  cases hl

/-- A jump forward leads to a later label. -/
theorem Forward.exists_label (h : Forward w) (hst : w[i]? = some st) (hl : l ∈ st.targets) :
    ∃ j, i < j ∧ w[j]? = some (.label l) := by
  induction w generalizing i with
  | nil => cases hst
  | cons first w ih =>
    cases i with
    | zero =>
      cases hst
      obtain ⟨j, hj⟩ := List.mem_iff_getElem?.1 (h.1 l hl)
      exact ⟨j + 1, Nat.succ_pos j, hj⟩
    | succ i =>
      obtain ⟨j, hij, hj⟩ := ih h.2 hst
      exact ⟨j + 1, Nat.succ_lt_succ hij, hj⟩

theorem Drops.forward {names : List Identifier} {drops : List Stmt} (h : Drops names drops) :
    Forward drops := by
  induction h with
  | nil => exact trivial
  | cons id _ ih => exact .cons rfl ih

/-- Nodes without a loop among them. -/
def LoopFree (nodes : List Node) : Prop :=
  ∀ id i c u b, Node.stmt (.forLoop id i c u b) ∉ nodes

/-- Some of the nodes without loops are without loops. -/
theorem LoopFree.mono {nodes more : List Node} (h : LoopFree more) (hsub : nodes ⊆ more) :
    LoopFree nodes :=
  fun id i c u b hmem => h id i c u b (hsub hmem)

/-- The code of statements without loops only jumps forward. -/
theorem Phrase.LowersTo.forward {p : Phrase} (h : p.LowersTo code) (hp : LoopFree p.nodes)
    (hloop : ∀ c u b, p ≠ .loop c u b) : Forward code := by
  induction h with
  | nil => exact trivial
  | cons _ _ ih ih' =>
    have hfirst := ih (hp.mono (List.subset_append_left _ _)) fun c u b h => by cases h
    have hrest := ih' (hp.mono (List.subset_append_right _ _)) fun c u b h => by cases h
    exact hfirst.append hrest
  | expression id v => exact .cons rfl trivial
  | declaration id t x v => exact .cons rfl trivial
  | block id _ hd ih =>
    have hbody := ih (hp.mono (List.subset_cons_self _ _)) fun c u b h => by cases h
    exact hbody.append hd.forward
  | @ifThen b body id k leave skip c onTrue onFalse exit _ ih =>
    have hsub : b.nodes ⊆ (Stmt.ifThen id c b).nodes :=
      List.subset_cons_of_subset _ (List.subset_append_right _ _)
    have hbody := ih (hp.mono hsub) fun c u b h => by cases h
    have hend : Forward [.jump leave exit, .label onFalse, .jump skip exit, .label exit] := by
      simp [Forward, Stmt.targets]
    have hlabels : ∀ l ∈ [onTrue, onFalse], Stmt.label l ∈ Stmt.label onTrue ::
        (body ++ [.jump leave exit, .label onFalse, .jump skip exit, .label exit]) := by
      simp
    exact ⟨hlabels, .cons rfl (hbody.append hend)⟩
  | @forLoop i c u b init again drops id => exact absurd List.mem_cons_self (hp id i c u b)
  | @loop c u b => exact absurd rfl (hloop c u b)

end Forward

/-! ## Steps left -/

/-- The most steps that the statements of some code take if each of them is visited once. -/
def codeCost (code : List Stmt) : Nat :=
  (code.map fun st => st.pending + 1).sum

/-- The costs of code in turn add up. -/
theorem codeCost_append (code more : List Stmt) :
    codeCost (code ++ more) = codeCost code + codeCost more := by
  rw [codeCost, List.map_append, List.sum_append]
  rfl

/-- The most steps that are left in a state of a run that only goes forward. -/
def State.stepsLeft (w : List Stmt) (s : State) : Nat :=
  match s.active with
  | .filled act => act.pending + 1 + codeCost (w.drop (s.pc + 1))
  | _ => 0

namespace State

variable {w : List Stmt} {s t start : State} {st act : Stmt} {i j n : Nat} {env : Env}
  {out : String} {sup : Supply}

/-- The steps left at a place are those of the active statement and of the code after it. -/
theorem stepsLeft_standing :
    stepsLeft w (standing w i act env out sup) = act.pending + 1 + codeCost (w.drop (i + 1)) := rfl

/-- The cost from a place on is that of the statement there and of what follows. -/
theorem codeCost_drop (h : w[i]? = some st) :
    codeCost (w.drop i) = st.pending + 1 + codeCost (w.drop (i + 1)) := by
  obtain ⟨hi, hst⟩ := List.getElem?_eq_some_iff.1 h
  rw [List.drop_eq_getElem_cons hi, hst]
  rfl

/-- Less is left to be done from a later place on. -/
theorem codeCost_drop_le (h : i ≤ j) : codeCost (w.drop j) ≤ codeCost (w.drop i) := by
  obtain ⟨k, rfl⟩ := Nat.exists_eq_add_of_le h
  rw [← List.drop_drop, ← List.take_append_drop k (w.drop i), codeCost_append]
  simp

/-- Where a run resumes, no statement before the place is visited again. -/
theorem stepsLeft_resume_le (w : List Stmt) (i : Nat) (env : Env) (out : String) (sup : Supply) :
    stepsLeft w (resume w i env out sup) ≤ codeCost (w.drop i) := by
  obtain ⟨k, hk⟩ : ∃ k, w.length - i = k := ⟨_, rfl⟩
  induction k generalizing i with
  | zero =>
    have hend : w[i]? = none := List.getElem?_eq_none (by omega)
    simp [resume, moveTo, skipLabels_end (w := w) (i := i) (by omega), stepsLeft, List.getD, hend]
  | succ k ih =>
    have hst := List.getElem?_eq_getElem (l := w) (i := i) (by omega)
    cases hw : w[i] with
    | label l =>
      rw [hw] at hst
      rw [resume_label hst]
      have hrest := ih (i + 1) (by omega)
      have hdrop : codeCost (w.drop (i + 1)) ≤ codeCost (w.drop i) :=
        codeCost_drop_le (Nat.le_succ i)
      omega
    | _ =>
      have hlabel : w[i].isLabel = false := by rw [hw]; rfl
      rw [resume_of_not_label hst hlabel, stepsLeft_standing, codeCost_drop hst]

/-- Every step of a run that only goes forward leaves fewer steps. -/
theorem stepsLeft_lt (hw : Forward w) (hu : UniqueLabels w) (hst : w[i]? = some st)
    (htargets : act.targets = st.targets)
    (hstep : (standing w i act env out sup).step = .ok t) :
    stepsLeft w t < stepsLeft w (standing w i act env out sup) := by
  have hi := (List.getElem?_eq_some_iff.1 hst).1
  have hnext : ∀ env' out' sup', stepsLeft w (resume w (i + 1) env' out' sup') <
      stepsLeft w (standing w i act env out sup) := by
    intro env' out' sup'
    have := stepsLeft_resume_le w (i + 1) env' out' sup'
    rw [stepsLeft_standing]
    omega
  cases step_moves hi hstep with
  | reduce frame id he hx =>
    have hlt := Expr.pending_lt_of_reduce hx
    rw [stepsLeft_standing, stepsLeft_standing, Frame.pending_fill, Frame.pending_fill]
    omega
  | advance id v => exact hnext _ _ _
  | declare id ty v value hx => exact hnext _ _ _
  | undeclare id hx => exact hnext _ _ _
  | @jump st' l l' j hl hj hid =>
    rw [htargets] at hl
    obtain ⟨k, hk, hkl⟩ := hw.exists_label hst hl
    obtain rfl : k = j := hu hkl hj hid.symm
    have hle := stepsLeft_resume_le w k env out sup
    have hdrop : codeCost (w.drop k) ≤ codeCost (w.drop (i + 1)) := codeCost_drop_le hk
    rw [stepsLeft_standing]
    omega

/-- Every step of code that jumps forward leaves fewer steps. -/
theorem Underway.stepsLeft_lt (hw : Forward w) (hu : UniqueLabels w) (h : Underway w start s)
    (hstep : s.step = .ok t) : stepsLeft w t < stepsLeft w s := by
  cases h with
  | ended env out sup =>
    rw [ended_step] at hstep
    cases hstep
  | entered env out sup hst hl => exact State.stepsLeft_lt hw hu hst rfl hstep
  | @reducing i frame id now first id' hst hentry hsteps =>
    have htargets := (frame.sameFrame_fill id id' first.expr now.expr).targets
    exact State.stepsLeft_lt hw hu hst htargets hstep

/-- So many steps were taken, and so many are left. -/
theorem Underway.steps_add_stepsLeft_le (hw : Forward w) (hu : UniqueLabels w)
    (h : Underway w start s) (hreach : Reaches start s) (hsteps : steps n s = .ok t) :
    n + stepsLeft w t ≤ stepsLeft w s := by
  induction n generalizing s with
  | zero =>
    cases hsteps
    rw [Nat.zero_add]
  | succ n ih =>
    cases hstep : s.step with
    | error err => simp [steps, hstep] at hsteps
    | ok s' =>
      rw [steps_succ hstep] at hsteps
      have hlt := h.stepsLeft_lt hw hu hstep
      have hrest := ih (h.step hreach hstep) (hreach.trans (.single hstep)) hsteps
      omega

/-- A run that is not done has steps left. -/
theorem Underway.stepsLeft_pos (h : Underway w start s) (hdone : s.done = false) :
    0 < stepsLeft w s := by
  cases h with
  | ended env out sup =>
    rw [ended_done] at hdone
    cases hdone
  | entered => exact Nat.add_pos_left (Nat.succ_pos _) _
  | reducing => exact Nat.add_pos_left (Nat.succ_pos _) _

/-- A run comes to an end within a number of steps: it is done, or the next step fails, which
counts too. -/
def EndsWithin (s : State) (bound : Nat) : Prop :=
  ∃ n t, steps n s = .ok t ∧
    ((t.done = true ∧ n ≤ bound) ∨ ∃ err, t.done = false ∧ t.step = .error err ∧ n + 1 ≤ bound)

/-- A run over code that only jumps forward visits each statement once at most. -/
theorem endsWithin_of_forward (hw : Forward w) (hu : UniqueLabels w) (sup : Supply) :
    (init (w.map .filled) sup).EndsWithin (codeCost w) := by
  have hstart : stepsLeft w (init (w.map .filled) sup) ≤ codeCost w :=
    stepsLeft_resume_le w 0 .empty "" sup
  have hleft : ∀ n t, steps n (init (w.map .filled) sup) = .ok t →
      n + stepsLeft w t ≤ codeCost w := by
    intro n t ht
    have hunder : Underway w (init (w.map .filled) sup) (init (w.map .filled) sup) :=
      .of_reaches (.refl _)
    have hle := hunder.steps_add_stepsLeft_le hw hu (.refl _) ht
    omega
  rcases steps_or_halts (init (w.map .filled) sup) (codeCost w + 1) with
    ⟨t, ht⟩ | ⟨n, -, t, err, ht, herr⟩
  · have hle := hleft _ t ht
    omega
  · have hle := hleft n t ht
    refine ⟨n, t, ht, ?_⟩
    cases hdone : t.done with
    | true => exact .inl ⟨rfl, by omega⟩
    | false =>
      have hpos := (Underway.of_reaches ⟨n, ht⟩).stepsLeft_pos hdone
      exact .inr ⟨err, rfl, herr, by omega⟩

/-- A run whose limit is not below what it takes returns, and not because of the limit. -/
theorem EndsWithin.returns {bound : Nat} {limit : Int} (h : s.EndsWithin bound)
    (hlimit : (bound : Int) ≤ limit) :
    (∃ stop, s.Returns limit stop) ∧ ∀ stop, s.Returns limit stop → ¬stop.Limited := by
  obtain ⟨n, t, ht, hend⟩ := h
  constructor
  · rcases hend with ⟨hdone, hle⟩ | ⟨err, hdone, herr, hle⟩
    · exact ⟨_, returns_iff.2 ⟨ht, fun _ => by omega, .done hdone⟩⟩
    · exact ⟨_, returns_iff.2 ⟨ht, fun _ => by omega, .failed hdone (fun _ => by omega) herr⟩⟩
  · rintro ⟨u, k, err'⟩ hreturns hlimited
    obtain ⟨hpos, hk, hdone'⟩ := hreturns.limited_iff.1 hlimited
    have hu := (returns_iff.1 hreturns).1
    dsimp only at hk hdone'
    rcases hend with ⟨hdone, hle⟩ | ⟨err, hdone, herr, hle⟩
    · obtain ⟨hkn, -⟩ := Halts.split ⟨ht, step_of_done hdone⟩ hu
      obtain rfl : k = n := by omega
      rw [ht] at hu
      cases hu
      rw [hdone] at hdone'
      cases hdone'
    · obtain ⟨hkn, -⟩ := Halts.split ⟨ht, herr⟩ hu
      omega

end State

/-- A reduction always leaves fewer nodes to be reduced; so a visit of a statement ends after at
most one step more than there are; and so a program without loops ends within the sum of these
numbers over its code, which is a limit that no run of it reaches. -/
theorem loopFree_terminates :
    (∀ (e : Expr) (env : Env) (s s' : Supply) (x : Reduction),
      e.reduce env s = .ok (x, s') → x.expr.pending < e.pending) ∧
    (∀ (s : State) (st : Stmt), s.active = .filled st → s.VisitEnds st.pending) ∧
    ∀ (program : List (Slot Stmt)) (code : List Stmt) (sup sup' start : Supply),
      lower program sup = .ok (code, sup') →
      (∀ st, .filled st ∈ program → LoopFree st.nodes) →
      (State.init (code.map .filled) start).EndsWithin (codeCost code) ∧
      ∀ limit : Int, codeCost code ≤ limit →
        (∃ stop, (State.init (code.map .filled) start).Returns limit stop) ∧
        ∀ stop, (State.init (code.map .filled) start).Returns limit stop → ¬stop.Limited := by
  refine ⟨fun e env s s' x => Expr.pending_lt_of_reduce, fun s st => State.visitEnds, ?_⟩
  intro program code sup sup' start hlower hfree
  obtain ⟨tree, rfl⟩ := filled_of_lower hlower
  rw [lower_filled] at hlower
  obtain ⟨hlayout, hdrawn⟩ := Stmt.lowerAll_layout hlower
  have hnodes : LoopFree (Phrase.all tree).nodes := by
    intro id i c u b hmem
    rw [Phrase.nodes, Stmt.listNodes_eq_flatMap, List.mem_flatMap] at hmem
    obtain ⟨st, hst, hmem⟩ := hmem
    exact hfree st (List.mem_map_of_mem hst) id i c u b hmem
  have hforward := hlayout.forward hnodes fun c u b h => by cases h
  have hends := State.endsWithin_of_forward hforward hdrawn.uniqueLabels start
  exact ⟨hends, fun limit hlimit => hends.returns hlimit⟩

/-- The program `{ int x = 2; if (x <= 3 && x) printf("%d", x); }`. -/
def branchedProgram : List Stmt :=
  let x (id : NodeId) : Expr := .identifier ⟨id, "x"⟩
  [.block 1 [.declaration 2 .int ⟨3, "x"⟩ (some (.constant ⟨4, .int 2⟩)),
    .ifThen 5 (.binary 6 .and (.binary 7 .le (x 8) (.constant ⟨9, .int 3⟩)) (x 10))
      (.expression 11 (some (.invoke 12 ⟨13, "printf"⟩ [.constant ⟨14, .string "%d"⟩, x 15])))]]

/-- It takes at most fifteen steps, and the visit of its test that follows the first step at
most four reductions. -/
theorem loopFree_terminates_branchedProgram :
    ∃ code, lower (branchedProgram.map .filled) ⟨16, 0⟩ = .ok (code, ⟨23, 3⟩) ∧
      codeCost code = 15 ∧ (∀ st ∈ branchedProgram, LoopFree st.nodes) ∧
      (∃ s, State.steps 1 (.init (code.map .filled) ⟨23, 3⟩) = .ok s ∧ s.VisitEnds 4) ∧
      (State.init (code.map .filled) ⟨23, 3⟩).EndsWithin 15 ∧
      ∃ stop, (State.init (code.map .filled) ⟨23, 3⟩).Returns 15 stop ∧ ¬stop.Limited := by
  obtain ⟨code, hlower, hcost, s, st, hs, hactive, hpending⟩ : ∃ code,
      lower (branchedProgram.map .filled) ⟨16, 0⟩ = .ok (code, ⟨23, 3⟩) ∧ codeCost code = 15 ∧
      ∃ s st, State.steps 1 (.init (code.map .filled) ⟨23, 3⟩) = .ok s ∧
        s.active = .filled st ∧ st.pending = 4 :=
    ⟨_, rfl, rfl, _, _, rfl, rfl, rfl⟩
  have hvisit := loopFree_terminates.2.1 s st hactive
  rw [hpending] at hvisit
  have hfree : ∀ st ∈ branchedProgram, LoopFree st.nodes := by
    intro st hst id i c u b
    simp only [branchedProgram, List.mem_singleton] at hst
    subst hst
    simp [Stmt.nodes, Stmt.listNodes, Expr.optionNodes, Expr.nodes, Expr.listNodes,
      Identifier.node]
  obtain ⟨hends, hlimit⟩ := loopFree_terminates.2.2 _ code _ _ ⟨23, 3⟩ hlower fun st hst => by
    obtain ⟨st', hst', h⟩ := List.mem_map.1 hst
    cases h
    exact hfree st hst'
  rw [hcost] at hends hlimit
  obtain ⟨⟨stop, hstop⟩, hnot⟩ := hlimit 15 (Int.le_refl 15)
  exact ⟨code, hlower, hcost, hfree, ⟨s, hs, hvisit⟩, hends, stop, hstop, hnot stop hstop⟩

end Stepwise
