import Stepwise.Proofs.Reduction

/-!
# Proofs - Identities do not matter to reduction

Two expressions that differ in identities only reduce in the same way, in
environments that differ in identities only: the results differ in identities
only, the same text is printed, and where one is stuck the other is stuck with
the same error.

Main results:

- `Expr.Reduces.alike` and `Expr.Blocked.alike`.
-/

namespace Stepwise

namespace Expr

variable {env env₀ : Env} {e e₀ : Expr} {s s' : Supply} {x : Reduction} {err : EvalError}

/-! ## Expressions of one shape -/

attribute [simp] shape Identifier.shape Constant.shape

/-- The shapes of a list are those of its members. -/
theorem shapes_eq_map (es : List Expr) : shapes es = es.map shape := by
  induction es with
  | nil => rfl
  | cons e es ih => simp [shapes, ih]

/-- Expressions of one shape are no constants alike. -/
theorem constant?_congr (h : e₀.shape = e.shape) (hnone : e.constant? = none) :
    e₀.constant? = none := by
  cases e₀ <;> cases e <;> simp_all [constant?]

/-- What has the shape of a constant is one with the same value. -/
theorem shape_eq_constant {c : Constant} (h : e₀.shape = (constant c).shape) :
    ∃ c₀, e₀ = .constant c₀ ∧ c₀.value = c.value := by
  cases e₀ <;> simp_all

/-- Lists of one shape are settled alike. -/
theorem settled_congr {es es₀ : List Expr} (h : es₀.map shape = es.map shape) (hes : Settled es) :
    Settled es₀ := by
  intro e₀ he₀ hnone
  have hmem : e₀.shape ∈ es.map shape := h ▸ List.mem_map_of_mem he₀
  obtain ⟨e, he, heq⟩ := List.mem_map.mp hmem
  exact hes e he (constant?_congr heq hnone)

/-- Lists of one shape have the same values. -/
theorem values_congr {es es₀ : List Expr} (h : es₀.map shape = es.map shape) :
    values es₀ = values es := by
  induction es generalizing es₀ with
  | nil =>
    obtain rfl : es₀ = [] := by simpa using h
    rfl
  | cons e es ih =>
    cases es₀ with
    | nil => cases h
    | cons e₀ es₀ =>
      obtain ⟨he, hes⟩ := List.cons.inj h
      cases e <;> cases e₀ <;> simp_all [values]

/-- What has the shape of a name is that name. -/
theorem shape_eq_identifier {i : Identifier} (h : e₀.shape = (identifier i).shape) :
    ∃ i₀, e₀ = .identifier i₀ ∧ i₀.name = i.name := by
  cases e₀ <;> simp_all

/-- What has the shape of an operation is one with operands of the same shapes. -/
theorem shape_eq_binary {id : NodeId} {op : BinaryOp} {l r : Expr}
    (h : e₀.shape = (binary id op l r).shape) :
    ∃ id₀ l₀ r₀, e₀ = .binary id₀ op l₀ r₀ ∧ l₀.shape = l.shape ∧ r₀.shape = r.shape := by
  cases e₀ <;> simp_all

/-- What has the shape of an assignment is one to the same name. -/
theorem shape_eq_assign {id : NodeId} {y : Identifier} {v : Expr}
    (h : e₀.shape = (assign id y v).shape) :
    ∃ id₀ y₀ v₀, e₀ = .assign id₀ y₀ v₀ ∧ y₀.name = y.name ∧ v₀.shape = v.shape := by
  cases e₀ <;> simp_all

theorem shape_eq_addAssign {id : NodeId} {y : Identifier} {v : Expr}
    (h : e₀.shape = (addAssign id y v).shape) :
    ∃ id₀ y₀ v₀, e₀ = .addAssign id₀ y₀ v₀ ∧ y₀.name = y.name ∧ v₀.shape = v.shape := by
  cases e₀ <;> simp_all

/-- What has the shape of an increment is one of the same name. -/
theorem shape_eq_increment {id : NodeId} {y : Identifier}
    (h : e₀.shape = (increment id y).shape) :
    ∃ id₀ y₀, e₀ = .increment id₀ y₀ ∧ y₀.name = y.name := by
  cases e₀ <;> simp_all

/-- What has the shape of a call is one of the same function with arguments of the same shapes. -/
theorem shape_eq_invoke {id : NodeId} {f : Identifier} {args : List Expr}
    (h : e₀.shape = (invoke id f args).shape) :
    ∃ id₀ f₀ args₀, e₀ = .invoke id₀ f₀ args₀ ∧ f₀.name = f.name ∧
      args₀.map shape = args.map shape := by
  cases e₀ <;> simp_all [shapes_eq_map]

/-- A list of the same shapes as a split list is split in the same way. -/
theorem map_shape_eq_split {done rest es₀ : List Expr}
    (h : es₀.map shape = (done ++ e :: rest).map shape) :
    ∃ done₀ e₀ rest₀, es₀ = done₀ ++ e₀ :: rest₀ ∧ done₀.map shape = done.map shape ∧
      e₀.shape = e.shape ∧ rest₀.map shape = rest.map shape := by
  rw [List.map_append, List.map_cons] at h
  obtain ⟨done₀, tail, rfl, hdone, htail⟩ := List.map_eq_append_iff.mp h
  obtain ⟨e₀, rest₀, rfl, he, hrest⟩ := List.map_eq_cons_iff.mp htail
  exact ⟨done₀, e₀, rest₀, rfl, hdone, he, hrest⟩

/-! ## Reductions of expressions of one shape -/

/-- Expressions of one shape reduce alike in environments of the same contents. -/
theorem Reduces.alike (h : Reduces env e s x s') (he : e₀.shape = e.shape)
    (henv : env₀.contents = env.contents) (s₀ : Supply) :
    ∃ x₀ s₀', Reduces env₀ e₀ s₀ x₀ s₀' ∧ x₀.expr.shape = x.expr.shape ∧
      x₀.env.contents = x.env.contents ∧ x₀.output = x.output := by
  have hcontains := Env.contains_eq_of_contents henv
  induction h generalizing e₀ with
  | read hfind =>
    obtain ⟨i₀, rfl, hname⟩ := shape_eq_identifier he
    obtain ⟨c₀, hfind₀, hvalue⟩ := Env.find?_congr henv.symm hfind
    rw [← hname] at hfind₀
    exact ⟨_, _, .read hfind₀, by simp [hvalue], henv, rfl⟩
  | left hl _ ih =>
    obtain ⟨id₀, l₀, r₀, rfl, hl₀, hr₀⟩ := shape_eq_binary he
    obtain ⟨x₀, t₀, h₀, hx, henv', hout⟩ := ih hl₀
    exact ⟨_, _, .left (constant?_congr hl₀ hl) h₀, by simp [hx, hr₀], henv', hout⟩
  | decided hop =>
    obtain ⟨id₀, l₀, r₀, rfl, hl₀, hr₀⟩ := shape_eq_binary he
    obtain ⟨a₀, rfl, ha⟩ := shape_eq_constant hl₀
    rw [← ha] at hop
    exact ⟨_, _, .decided hop, rfl, henv, rfl⟩
  | right hop hr _ ih =>
    obtain ⟨id₀, l₀, r₀, rfl, hl₀, hr₀⟩ := shape_eq_binary he
    obtain ⟨a₀, rfl, ha⟩ := shape_eq_constant hl₀
    obtain ⟨x₀, t₀, h₀, hx, henv', hout⟩ := ih hr₀
    rw [← ha] at hop
    exact ⟨_, _, .right hop (constant?_congr hr₀ hr) h₀,
      by simp [hx, ha], henv', hout⟩
  | apply hop happly =>
    obtain ⟨id₀, l₀, r₀, rfl, hl₀, hr₀⟩ := shape_eq_binary he
    obtain ⟨a₀, rfl, ha⟩ := shape_eq_constant hl₀
    obtain ⟨b₀, rfl, hb⟩ := shape_eq_constant hr₀
    rw [← ha] at hop
    rw [← ha, ← hb] at happly
    exact ⟨_, _, .apply hop happly, rfl, henv, rfl⟩
  | assigned hx hv _ ih =>
    obtain ⟨id₀, y₀, v₀, rfl, hname, hv₀⟩ := shape_eq_assign he
    obtain ⟨x₀, t₀, h₀, hx₀, henv', hout⟩ := ih hv₀
    rw [← hname, ← hcontains] at hx
    exact ⟨_, _, .assigned hx (constant?_congr hv₀ hv) h₀,
      by simp [hx₀, hname], henv', hout⟩
  | assign hx hstore =>
    obtain ⟨id₀, y₀, v₀, rfl, hname, hv₀⟩ := shape_eq_assign he
    obtain ⟨c₀, rfl, hc⟩ := shape_eq_constant hv₀
    rw [← hname, ← hcontains] at hx
    rw [← hname, ← hc] at hstore
    refine ⟨_, _, .assign hx hstore, by simp [hc], ?_, rfl⟩
    simp [Env.contents_insert, henv, hname, hc]
  | added hx hv _ ih =>
    obtain ⟨id₀, y₀, v₀, rfl, hname, hv₀⟩ := shape_eq_addAssign he
    obtain ⟨x₀, t₀, h₀, hx₀, henv', hout⟩ := ih hv₀
    obtain ⟨b₀, hb₀, -⟩ := Env.find?_congr henv.symm hx
    rw [← hname] at hb₀
    exact ⟨_, _, .added hb₀ (constant?_congr hv₀ hv) h₀,
      by simp [hx₀, hname], henv', hout⟩
  | add hx hm hn =>
    obtain ⟨id₀, y₀, v₀, rfl, hname, hv₀⟩ := shape_eq_addAssign he
    obtain ⟨c₀, rfl, hc⟩ := shape_eq_constant hv₀
    obtain ⟨b₀, hb₀, hvalue⟩ := Env.find?_congr henv.symm hx
    rw [← hname] at hb₀
    rw [← hvalue] at hm
    rw [← hc] at hn
    refine ⟨_, _, .add hb₀ hm hn, by simp, ?_, rfl⟩
    simp [Env.contents_insert, henv, hname]
  | increment hx hn =>
    obtain ⟨id₀, y₀, rfl, hname⟩ := shape_eq_increment he
    obtain ⟨b₀, hb₀, hvalue⟩ := Env.find?_congr henv.symm hx
    rw [← hname] at hb₀
    rw [← hvalue] at hn
    refine ⟨_, _, .increment hb₀ hn, by simp, ?_, rfl⟩
    simp [Env.contents_insert, henv, hname]
  | argument hdone hnone _ ih =>
    obtain ⟨id₀, f₀, args₀, rfl, hname, hargs⟩ := shape_eq_invoke he
    obtain ⟨done₀, e₀, rest₀, rfl, hdone₀, he₀, hrest₀⟩ := map_shape_eq_split hargs
    obtain ⟨x₀, t₀, h₀, hx, henv', hout⟩ := ih he₀
    refine ⟨_, _, .argument (settled_congr hdone₀ hdone) (constant?_congr he₀ hnone) h₀,
      ?_, henv', hout⟩
    simp [shapes_eq_map, hname, hdone₀, hx, hrest₀]
  | print hargs hf htext =>
    obtain ⟨id₀, f₀, args₀, rfl, hname, hargs₀⟩ := shape_eq_invoke he
    rw [← hname] at hf
    rw [← values_congr hargs₀] at htext
    exact ⟨_, _, .print (settled_congr hargs₀ hargs) hf htext, rfl, henv, rfl⟩

/-- Expressions of one shape are stuck alike in environments of the same contents. -/
theorem Blocked.alike (h : Blocked env e err) (he : e₀.shape = e.shape)
    (henv : env₀.contents = env.contents) : Blocked env₀ e₀ err := by
  have hcontains := Env.contains_eq_of_contents henv
  induction h generalizing e₀ with
  | read hfind =>
    obtain ⟨i₀, rfl, hname⟩ := shape_eq_identifier he
    rw [← hname] at hfind ⊢
    exact .read (Env.find?_none_congr henv.symm hfind)
  | left hl _ ih =>
    obtain ⟨id₀, l₀, r₀, rfl, hl₀, hr₀⟩ := shape_eq_binary he
    exact .left (constant?_congr hl₀ hl) (ih hl₀)
  | undecided hop =>
    obtain ⟨id₀, l₀, r₀, rfl, hl₀, hr₀⟩ := shape_eq_binary he
    obtain ⟨a₀, rfl, ha⟩ := shape_eq_constant hl₀
    exact .undecided (ha ▸ hop)
  | right hop hr _ ih =>
    obtain ⟨id₀, l₀, r₀, rfl, hl₀, hr₀⟩ := shape_eq_binary he
    obtain ⟨a₀, rfl, ha⟩ := shape_eq_constant hl₀
    exact .right (ha ▸ hop) (constant?_congr hr₀ hr) (ih hr₀)
  | apply hop happly =>
    obtain ⟨id₀, l₀, r₀, rfl, hl₀, hr₀⟩ := shape_eq_binary he
    obtain ⟨a₀, rfl, ha⟩ := shape_eq_constant hl₀
    obtain ⟨b₀, rfl, hb⟩ := shape_eq_constant hr₀
    exact .apply (ha ▸ hop) (ha ▸ hb ▸ happly)
  | unassignable hx =>
    obtain ⟨id₀, y₀, v₀, rfl, hname, hv₀⟩ := shape_eq_assign he
    rw [← hname] at hx ⊢
    exact .unassignable ((hcontains _).trans hx)
  | assigned hx hv _ ih =>
    obtain ⟨id₀, y₀, v₀, rfl, hname, hv₀⟩ := shape_eq_assign he
    rw [← hname, ← hcontains] at hx
    exact .assigned hx (constant?_congr hv₀ hv) (ih hv₀)
  | store hx hstore =>
    obtain ⟨id₀, y₀, v₀, rfl, hname, hv₀⟩ := shape_eq_assign he
    obtain ⟨c₀, rfl, hc⟩ := shape_eq_constant hv₀
    rw [← hname, ← hcontains] at hx
    rw [← hname, ← hc] at hstore
    exact .store hx hstore
  | unaddable hx =>
    obtain ⟨id₀, y₀, v₀, rfl, hname, hv₀⟩ := shape_eq_addAssign he
    rw [← hname] at hx ⊢
    exact .unaddable (Env.find?_none_congr henv.symm hx)
  | added hx hv _ ih =>
    obtain ⟨id₀, y₀, v₀, rfl, hname, hv₀⟩ := shape_eq_addAssign he
    obtain ⟨b₀, hb₀, -⟩ := Env.find?_congr henv.symm hx
    rw [← hname] at hb₀
    exact .added hb₀ (constant?_congr hv₀ hv) (ih hv₀)
  | base hx hm =>
    obtain ⟨id₀, y₀, v₀, rfl, hname, hv₀⟩ := shape_eq_addAssign he
    obtain ⟨c₀, rfl, hc⟩ := shape_eq_constant hv₀
    obtain ⟨b₀, hb₀, hvalue⟩ := Env.find?_congr henv.symm hx
    rw [← hname] at hb₀
    exact .base hb₀ (hvalue ▸ hm)
  | delta hx hm hn =>
    obtain ⟨id₀, y₀, v₀, rfl, hname, hv₀⟩ := shape_eq_addAssign he
    obtain ⟨c₀, rfl, hc⟩ := shape_eq_constant hv₀
    obtain ⟨b₀, hb₀, hvalue⟩ := Env.find?_congr henv.symm hx
    rw [← hname] at hb₀
    exact .delta hb₀ (hvalue ▸ hm) (hc ▸ hn)
  | unincrementable hx =>
    obtain ⟨id₀, y₀, rfl, hname⟩ := shape_eq_increment he
    rw [← hname] at hx ⊢
    exact .unincrementable (Env.find?_none_congr henv.symm hx)
  | increment hx hn =>
    obtain ⟨id₀, y₀, rfl, hname⟩ := shape_eq_increment he
    obtain ⟨b₀, hb₀, hvalue⟩ := Env.find?_congr henv.symm hx
    rw [← hname] at hb₀
    exact .increment hb₀ (hvalue ▸ hn)
  | argument hdone hnone _ ih =>
    obtain ⟨id₀, f₀, args₀, rfl, hname, hargs⟩ := shape_eq_invoke he
    obtain ⟨done₀, e₀, rest₀, rfl, hdone₀, he₀, hrest₀⟩ := map_shape_eq_split hargs
    exact .argument (settled_congr hdone₀ hdone) (constant?_congr he₀ hnone) (ih he₀)
  | function hargs hf =>
    obtain ⟨id₀, f₀, args₀, rfl, hname, hargs₀⟩ := shape_eq_invoke he
    rw [← hname] at hf ⊢
    exact .function (settled_congr hargs₀ hargs) hf
  | print hargs hf htext =>
    obtain ⟨id₀, f₀, args₀, rfl, hname, hargs₀⟩ := shape_eq_invoke he
    rw [← hname] at hf
    rw [← values_congr hargs₀] at htext
    exact .print (settled_congr hargs₀ hargs) hf htext

end Expr

end Stepwise
