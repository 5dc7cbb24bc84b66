import Stepwise.Proofs.Sessions
import Stepwise.Proofs.Views

/-!
# Proofs - Evaluation shares no nodes

A reduction may give a node of the program back, and the same value may go into the
environment at the same time.  The environment stores copies, though, and every other
node that is built gets an identity of its own.  So the constants of the environment
never have an identity of the active statement, of the code or of the program, and
putting the active statement into the program makes no node occur twice.

Main results:

- `Expr.Reduces.beside`: a reduction keeps the constants of the environment apart.
- `State.Apart.of_reaches`: they stay apart in every state of a run.
- `evaluation_unshared`: no node is shared in the states of a run.
-/

namespace Stepwise

/-! ## The constants of an environment -/

namespace Env

variable {env : Env} {name : String} {used used' : List Nat} {a b k : Nat}

/-- The identities of the constants an environment holds. -/
def ids (env : Env) : List Nat :=
  env.bindings.map (·.value.id)

/-- Binding adds the constant that is bound. -/
theorem mem_ids_insert {value : Constant} (h : k ∈ (env.insert name value).ids) :
    k = value.id ∨ k ∈ env.ids := by
  simp only [ids, insert] at h ⊢
  generalize env.bindings = bs at h ⊢
  induction bs with
  | nil => exact .inl (by simpa [insertBinding] using h)
  | cons b bs ih =>
    by_cases hb : b.name = name
    · rw [insertBinding, if_pos hb, List.map_cons, List.mem_cons] at h
      exact h.imp_right (List.mem_cons_of_mem _)
    · rw [insertBinding, if_neg hb, List.map_cons, List.mem_cons] at h
      rcases h with rfl | h
      · exact .inr (List.mem_cons_self ..)
      · exact (ih h).imp_right (List.mem_cons_of_mem _)

/-- Unbinding adds nothing. -/
theorem mem_ids_erase (h : k ∈ (env.erase name).ids) : k ∈ env.ids :=
  (List.eraseP_sublist.map _).subset h

/-- No constant of the environment has one of the identities `used`, and all of these and its own
were given out before `a`. -/
structure Beside (env : Env) (used : List Nat) (a : Nat) : Prop where
  held : ∀ k ∈ env.ids, k < a
  old : ∀ k ∈ used, k < a
  disjoint : env.ids.Disjoint used

namespace Beside

/-- The environment without variables. -/
theorem empty (h : ∀ k ∈ used, k < a) : Env.empty.Beside used a :=
  ⟨by simp [Env.ids, Env.empty], h, by simp [Env.ids, Env.empty]⟩

/-- Fewer identities. -/
theorem mono (h : env.Beside used a) (hsub : used' ⊆ used) : env.Beside used' a :=
  ⟨h.held, fun k hk => h.old k (hsub hk), List.disjoint_of_subset_right hsub h.disjoint⟩

/-- More identities may be given out. -/
theorem later (h : env.Beside used a) (hab : a ≤ b) : env.Beside used b :=
  ⟨fun k hk => Nat.lt_of_lt_of_le (h.held k hk) hab,
    fun k hk => Nat.lt_of_lt_of_le (h.old k hk) hab, h.disjoint⟩

/-- A node with the next identity. -/
theorem fresh (h : env.Beside used a) : env.Beside (a :: used) (a + 1) := by
  have hlater := h.later (Nat.le_succ a)
  refine ⟨hlater.held, List.forall_mem_cons.2 ⟨Nat.lt_succ_self a, hlater.old⟩, ?_⟩
  exact List.disjoint_cons_right.2 ⟨fun hk => Nat.lt_irrefl a (h.held a hk), h.disjoint⟩

/-- A constant with the next identity is bound. -/
theorem insert (h : env.Beside used a) (name : String) (value : Value) :
    (env.insert name ⟨a, value⟩).Beside used (a + 1) := by
  refine ⟨fun k hk => ?_, (h.later (Nat.le_succ a)).old, fun k hk hk' => ?_⟩
  · rcases mem_ids_insert hk with rfl | hk
    · exact Nat.lt_succ_self _
    · exact Nat.lt_succ_of_lt (h.held k hk)
  · rcases mem_ids_insert hk with rfl | hk
    · exact Nat.lt_irrefl _ (h.old _ hk')
    · exact h.disjoint hk hk'

/-- Erasing a name keeps the constants of an environment beside other nodes. -/
theorem erase (h : env.Beside used a) (name : String) : (env.erase name).Beside used a :=
  ⟨fun k hk => h.held k (mem_ids_erase hk), h.old, fun _ hk hk' =>
    h.disjoint (mem_ids_erase hk) hk'⟩

/-- Building a node anew around a part, under the next identity.  What stands beside the part
joins what was built before. -/
theorem around {env' : Env} {old new : List Nat} {id : Nat} (pre post rest : List Nat)
    (h : env.Beside (id :: (pre ++ (old ++ post)) ++ rest) a)
    (hpart : ∀ rest, env.Beside (old ++ rest) a → env'.Beside (new ++ rest) b) :
    env'.Beside (b :: (pre ++ (new ++ post)) ++ rest) (b + 1) := by
  have hnew := hpart (pre ++ (post ++ rest)) (h.mono (by grind))
  exact hnew.fresh.mono (by grind)

/-- Putting a part that stands apart from the environment into a whole that does leaves the
constants of the environment apart from the outcome. -/
theorem disjoint_grafted {old new whole whole' : List Nat} (h : env.Beside (used ++ whole) a)
    (hgraft : Grafted old new a whole whole' b) (hnew : new ⊆ used) :
    env.ids.Disjoint whole' := by
  intro k hk hk'
  rcases hgraft.mem hk' with hk' | hk' | hk'
  · exact h.disjoint hk (List.mem_append_left _ (hnew hk'))
  · exact h.disjoint hk (List.mem_append_right _ hk')
  · exact absurd (h.held k hk) (Nat.not_lt.2 hk'.1)

end Beside

end Env

/-! ## Reductions -/

/-- A reduction keeps the constants of the environment apart from the expression and from
anything else that was built before, here with the identities `rest`. -/
theorem Expr.Reduces.beside {env : Env} {e : Expr} {s s' : Supply} {x : Reduction}
    (h : e.Reduces env s x s') (rest : List Nat) (hb : env.Beside (e.ids ++ rest) s.node) :
    x.env.Beside (x.expr.ids ++ rest) s'.node := by
  induction h generalizing rest with
  | read | decided | apply | print =>
    exact (hb.mono (List.subset_append_right _ rest)).fresh
  | @left id op l r s s' x _ _ ih =>
    rw [ids_binary] at hb ⊢
    exact .around [] r.ids rest hb ih
  | @right id op a r s s' x _ _ _ ih =>
    have h := Env.Beside.around [a.id] [] rest (by simpa using hb) ih
    simpa using h
  | @assigned id y v s s' x _ _ _ ih | @added id y v b s s' x _ _ _ ih =>
    have h := Env.Beside.around [y.id] [] rest (by simpa using hb) ih
    simpa using h
  | @assign id y c s =>
    have h : env.Beside (c.id :: rest) s.node := hb.mono (by simp)
    exact h.insert y.name c.value
  | add => exact (hb.mono (List.subset_append_right _ rest)).fresh.insert _ _
  | increment =>
    have hrest := hb.mono (List.subset_append_right _ rest)
    exact ((hrest.later (Nat.le_succ _)).insert _ _).fresh
  | @argument id f done others e s s' x _ _ _ ih =>
    have h := Env.Beside.around (f.id :: done.flatMap ids) (others.flatMap ids) rest
      (by simpa using hb) ih
    simpa using h

/-! ## The states of a run -/

/-- No constant of the environment has an identity of the active statement or one of the
identities `rest`. -/
def State.Apart (rest : List Nat) (s : State) : Prop :=
  ∀ st, s.active = .filled st → s.env.Beside (st.ids ++ rest) s.supply.node

namespace State

variable {w : List Stmt} {rest : List Nat} {env : Env} {sup : Supply} {s t : State}

/-- A run that resumes keeps its constants apart. -/
theorem resume_apart (hw : Stmt.listIds w ⊆ rest) (i : Nat) (out : String)
    (h : env.Beside rest sup.node) : (resume w i env out sup).Apart rest := by
  intro st hst
  have hsub : st.ids ⊆ rest := fun k hk =>
    hw (Stmt.mem_listIds.2 ⟨st, resume_active_mem hst, hk⟩)
  exact h.mono (List.append_subset.2 ⟨hsub, List.Subset.refl rest⟩)

/-- A step keeps the constants of the environment apart. -/
theorem Apart.step (hw : Stmt.listIds w ⊆ rest) (hp : Placed w s) (h : s.Apart rest)
    (hs : s.step = .ok t) : t.Apart rest := by
  obtain ⟨i, -, st', env, out, sup, rfl, -, -, -, hc, hmoves⟩ := hp.moves hs
  have hb : env.Beside (st'.ids ++ rest) sup.node := h st' rfl
  have hrest := hb.mono (List.subset_append_right _ rest)
  cases hmoves with
  | @reduce e x sup' frame id he hx =>
    have hred := (Expr.reduce_eq_ok_iff hc.of_fill).1 hx
    rw [Frame.ids_fill] at hb
    intro st hst
    cases hst
    rw [Frame.ids_fill]
    exact .around frame.ids [] rest hb hred.beside
  | advance id v => exact resume_apart hw _ _ hrest
  | declare id t v value hx => exact resume_apart hw _ _ (hrest.insert _ _)
  | undeclare id hx => exact resume_apart hw _ _ (hrest.erase _)
  | jump hl hj hid => exact resume_apart hw _ _ hrest

/-- In every state of a run the constants of the environment are apart from all that was built
before the run. -/
theorem Apart.of_reaches (hw : Stmt.AllChecked w) (hsub : Stmt.listIds w ⊆ rest)
    (hold : ∀ k ∈ rest, k < sup.node) (h : Reaches (init (w.map .filled) sup) s) :
    s.Apart rest := by
  refine h.induct_along (resume_apart hsub _ _ (.empty hold)) ?_
  intro t u ht ha hstep
  exact ha.step hsub (.of_reaches hw ht) hstep

end State

/-! ## The program with the active statement in its place -/

/-- No node is shared in a state that runs a program.  `r` says what of the program `tree` the
active statement replaces and with what, and `tree'` is the program after the replacement. -/
structure State.Unshared (t : State) (tree : List Stmt) (active : Stmt) (r : Replacement)
    (tree' : List Stmt) : Prop where
  holds : t.active = .filled active
  distinct : active.ids.Nodup
  replacement : replacementFor t.current (.filled (.stmt active)) = .ok r
  replaced : ∃ sup', (tree.map Slot.filled).mapM (substituteTop r.target r.repl) t.supply =
    .ok (tree'.map .filled, sup')
  nodup : (Stmt.listIds tree').Nodup
  apart : ∀ b ∈ t.env.bindings, b.value.id ∉ Stmt.listIds tree'
  /-- What the current statement stands for gives way to what the active one stands for. -/
  inPlace : ∀ st n, t.current = .filled st → st.counterpart? = some n →
    ∃ n', active.counterpart? = some n' ∧ r = ⟨.filled n, .filled n'⟩ ∧
      n.ids ⊆ Stmt.listIds tree ∧ n'.ids ⊆ Stmt.listIds tree'
  /-- Jumps and undeclarations stand for nothing in the program. -/
  aside : ∀ st, t.current = .filled st → st.counterpart? = none →
    st.id ∉ Stmt.listIds tree ∧ tree' = tree

section Run

variable {tree code : List Stmt} {s s' : Supply} {t : State} {st st' : Stmt} {n : Node}

/-- What a statement stands for has no other identities than the statement. -/
theorem Stmt.ids_counterpart (hn : st.counterpart? = some n) : n.ids ⊆ st.ids := by
  rcases Stmt.counterpart?_eq_some hn with ⟨-, rfl⟩ | ⟨id, c, onTrue, onFalse, o, rfl, rfl⟩
  · exact List.Subset.refl _
  · exact List.subset_cons_self id c.ids

/-- A state whose current statement stands for something in the program. -/
theorem Source.unshared_inPlace (h : Source tree s)
    (hlower : Stmt.lowerAll tree s = .ok (code, s')) (hmem : st ∈ code)
    (hcurrent : t.current = .filled st) (hactive : t.active = .filled st')
    (hchecked : st'.Checked) (hren : st.Renewed s'.node t.supply.node st')
    (hapart : t.env.Beside (st'.ids ++ Stmt.listIds tree) t.supply.node)
    (hn : st.counterpart? = some n) : ∃ r tree', t.Unshared tree st' r tree' := by
  obtain ⟨-, hdrawn⟩ := Stmt.lowerAll_layout hlower
  obtain ⟨pre, S, post, closing, rfl, hholds⟩ := Source.occurs hlower hmem hn
  obtain ⟨hnodup, n', hn', hex, hids, hr⟩ := h.replacement hlower hmem hchecked hren hn
  obtain ⟨S', sup', hsub, -, -, -, hgraft⟩ :=
    h.substitute hdrawn.le hholds (hchecked.counterpart hn') hex hids
  have hold := hapart.old
  rw [List.forall_mem_append] at hold
  have hn'_ids := Stmt.ids_counterpart hn'
  have hsubset : n.ids ⊆ Stmt.listIds (pre ++ S :: post) := fun k hk =>
    Stmt.mem_listIds.2 ⟨S, by simp, hholds.subperm.subset hk⟩
  have hdisj := hapart.disjoint_grafted hgraft hn'_ids
  refine ⟨⟨.filled n, .filled n'⟩, pre ++ S' :: post, {
    holds := hactive
    distinct := hnodup
    replacement := hcurrent ▸ hr
    replaced := ⟨sup', hsub⟩
    nodup := hgraft.nodup h.nodup hold.2 (Stmt.nodup_counterpart hnodup hn')
      (fun k hk => hold.1 k (hn'_ids hk)) (h.away hdrawn.le hids)
    apart := fun b hb hk => hdisj (List.mem_map_of_mem hb) hk
    inPlace := fun st₀ n₀ hst₀ hn₀ => ?_
    aside := fun st₀ hst₀ hn₀ => ?_ }⟩
  · obtain rfl : st = st₀ := Slot.filled.inj (hcurrent.symm.trans hst₀)
    obtain rfl : n = n₀ := Option.some.inj (hn.symm.trans hn₀)
    exact ⟨n', hn', rfl, hsubset, hgraft.subset⟩
  · obtain rfl : st = st₀ := Slot.filled.inj (hcurrent.symm.trans hst₀)
    rw [hn] at hn₀
    cases hn₀

/-- A state that stands at a jump or at an undeclaration. -/
theorem Source.unshared_aside (h : Source tree s) (hlower : Stmt.lowerAll tree s = .ok (code, s'))
    (hmem : st ∈ code) (hcurrent : t.current = .filled st) (hactive : t.active = .filled st)
    (hapart : t.env.Beside (st.ids ++ Stmt.listIds tree) t.supply.node)
    (hn : st.counterpart? = none)
    (haside : (∃ id l, st = .jump id l) ∨ ∃ id x, st = .undeclaration id x) :
    ∃ r tree', t.Unshared tree st r tree' := by
  obtain ⟨hid, hnodup⟩ := h.aside_ids hlower hmem haside
  have hr : replacementFor (.filled st) (.filled (.stmt st)) =
      .ok ⟨.filled (.stmt st), .filled (.stmt st)⟩ := by
    rcases haside with ⟨id, l, rfl⟩ | ⟨id, x, rfl⟩ <;> rfl
  refine ⟨⟨.filled (.stmt st), .filled (.stmt st)⟩, tree, {
    holds := hactive
    distinct := hnodup
    replacement := hcurrent ▸ hr
    replaced := ⟨t.supply, mapM_substituteTop_absent h.checked hid⟩
    nodup := h.nodup
    apart := fun b hb hk =>
      hapart.disjoint (List.mem_map_of_mem hb) (List.mem_append_right _ hk)
    inPlace := fun st₀ n₀ hst₀ hn₀ => ?_
    aside := fun st₀ hst₀ hn₀ => ?_ }⟩
  · obtain rfl : st = st₀ := Slot.filled.inj (hcurrent.symm.trans hst₀)
    rw [hn] at hn₀
    cases hn₀
  · obtain rfl : st = st₀ := Slot.filled.inj (hcurrent.symm.trans hst₀)
    exact ⟨hid, rfl⟩

end Run

/-- Evaluation never shares a node.  In every state of a run that has not ended, no node of the
active statement occurs twice, none occurs twice in the program with the active statement in its
place, and no constant of the environment occurs in it. -/
theorem evaluation_unshared {tree code : List Stmt} {s s' : Supply} {t : State}
    (htree : Source tree s) (hlower : lower (tree.map .filled) s = .ok (code, s'))
    (ht : State.Reaches (.init (code.map .filled) s') t) (hdone : t.done = false) :
    ∃ active r tree', t.Unshared tree active r tree' := by
  rw [lower_filled] at hlower
  obtain ⟨hlayout, hdrawn⟩ := Stmt.lowerAll_layout hlower
  have hcode := hlayout.checked htree.checked
  have hbuilt : Built tree s := ⟨htree.checked, htree.old⟩
  have hold : ∀ k ∈ Stmt.listIds code ++ Stmt.listIds tree, k < s'.node :=
    List.forall_mem_append.2 ⟨hbuilt.code_lt hlower, (hbuilt.mono hdrawn.le).old⟩
  have hapart := State.Apart.of_reaches hcode (List.subset_append_left _ _) hold ht
  have hbeside {st' : Stmt} (hactive : t.active = .filled st') :
      t.env.Beside (st'.ids ++ Stmt.listIds tree) t.supply.node :=
    (hapart st' hactive).mono (by simp)
  cases htree.position hlower ht with
  | ended hended =>
    rw [hended] at hdone
    cases hdone
  | inPlace hmem hcurrent hactive hchecked hren hn =>
    exact ⟨_, htree.unshared_inPlace hlower hmem hcurrent hactive hchecked hren
      (hbeside hactive) hn⟩
  | aside hmem hcurrent hactive hn haside =>
    exact ⟨_, htree.unshared_aside hlower hmem hcurrent hactive (hbeside hactive) hn haside⟩

/-- The program `for (int i = 0; i <= 1; i = 7) {}`, whose update gives a node of the program
back and binds its value. -/
def resetProgram : List Stmt :=
  [.forLoop 1 (.declaration 2 .int ⟨3, "i"⟩ (some (.constant ⟨4, .int 0⟩)))
    (.expression 5 (some (.binary 6 .le (.identifier ⟨7, "i"⟩) (.constant ⟨8, .int 1⟩))))
    (.expression 9 (some (.assign 10 ⟨11, "i"⟩ (.constant ⟨12, .int 7⟩))))
    (.block 13 [])]

/-- After five steps the update has become `7`, which is still the node of the program. -/
theorem evaluation_unshared_resetProgram :
    Source resetProgram ⟨14, 0⟩ ∧
      ∃ code s' t, lower (resetProgram.map .filled) ⟨14, 0⟩ = .ok (code, s') ∧
        State.Reaches (.init (code.map .filled) s') t ∧ t.done = false ∧
        t.env = ⟨[⟨"i", ⟨26, .int 7⟩⟩]⟩ ∧
        ∃ active r tree', active.ids = [27, 12] ∧ t.Unshared resetProgram active r tree' := by
  have hsource : Source resetProgram ⟨14, 0⟩ := by
    refine ⟨?_, by decide, by decide⟩
    simp [resetProgram, Identifier.Checked, Datatype.declarable, BinaryOp.known]
  obtain ⟨code, s', hlower, hrun⟩ : ∃ code s',
      lower (resetProgram.map .filled) ⟨14, 0⟩ = .ok (code, s') ∧
        ((State.init (code.map .filled) s').steps 5).toOption.any
          (fun t => t.done = false ∧ t.env = ⟨[⟨"i", ⟨26, .int 7⟩⟩]⟩ ∧
            t.active.get?.map Stmt.ids = some [27, 12]) = true :=
    ⟨_, _, rfl, by decide +kernel⟩
  cases hsteps : (State.init (code.map .filled) s').steps 5 with
  | error err =>
    rw [hsteps] at hrun
    cases hrun
  | ok t =>
    rw [hsteps] at hrun
    obtain ⟨hdone, henv, hids⟩ := of_decide_eq_true hrun
    obtain ⟨active, r, tree', ht⟩ := evaluation_unshared hsource hlower ⟨5, hsteps⟩ hdone
    rw [ht.holds] at hids
    exact ⟨hsource, code, s', t, hlower, ⟨5, hsteps⟩, hdone, henv, active, r, tree',
      Option.some.inj hids, ht⟩

end Stepwise
