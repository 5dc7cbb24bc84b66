import Stepwise.Proofs.Building
import Stepwise.Proofs.Environment
import Mathlib.Data.Set.Card
import Mathlib.Tactic.SplitIfs

/-!
# Proofs - Environments and their histories

An environment keeps no record of how it came about, but all that can be asked of it
is settled by the changes made to it: a name is bound if the last change of it is a
binding, and the names stand in the order in which they were bound first since they
were last unbound.

Main definitions:

- `Env.Change`, a binding or an unbinding, and `Env.replay`, the environment after a
  history of changes.
- `Env.lastChange?`, `Env.Bound` and `Env.openedAt`, what a history says of a name.
- `Env.Follows`, an environment that answers as its history says.

Main results:

- `Env.openedAt_lt_iff`: a name was opened by one of the changes if it is bound.
- `Env.Tracks.bind` and `Env.Tracks.unbind`: what one change keeps.
- `env_follows_history`: the environment after every history.
-/

namespace Stepwise

namespace Env

/-! ## Histories -/

/-- A change of an environment. -/
inductive Change where
  | bind (name : String) (value : Constant)
  | unbind (name : String)
  deriving DecidableEq, Repr

namespace Change

/-- The name that is bound or unbound. -/
def name : Change → String
  | bind name _ => name
  | unbind name => name

/-- The value that a name is bound to. -/
def value? : Change → Option Value
  | bind _ value => some value.value
  | unbind _ => none

/-- Whether a change binds a name. -/
def binds (target : String) : Change → Bool
  | bind name _ => name == target
  | unbind _ => false

/-- Whether a change unbinds a name. -/
def unbinds (target : String) : Change → Bool
  | bind .. => false
  | unbind name => name == target

/-- Make a change.  Unbinding a name that is not in scope hands back no environment, so
the one at hand stays. -/
def apply {ε : Type} (change : Change) (env : Env) : Build ε Env :=
  match change with
  | bind name value => env.bind name value
  | unbind name => pure ((env.unbind? name).getD env)

end Change

/-- The environment after a history of changes, the oldest change first. -/
def replay {ε : Type} (history : List Change) : Build ε Env :=
  history.foldlM (fun env change => change.apply env) .empty

/-- The last change of a name. -/
def lastChange? (history : List Change) (name : String) : Option Change :=
  history.reverse.find? (·.name == name)

/-- The value that the last change of a name binds it to. -/
def lastValue? (history : List Change) (name : String) : Option Value :=
  (lastChange? history name).bind Change.value?

/-- A name is bound if the last change of it is a binding. -/
def Bound (history : List Change) (name : String) : Prop :=
  ∃ value, lastChange? history name = some (.bind name value)

/-- The number of changes up to the last unbinding of a name, or zero. -/
def unboundUpTo (history : List Change) (name : String) : Nat :=
  history.length - history.reverse.findIdx (·.unbinds name)

/-- The place in a history of the first binding of a name since its last unbinding. -/
def openedAt (history : List Change) (name : String) : Nat :=
  unboundUpTo history name +
    (history.drop (unboundUpTo history name)).findIdx (·.binds name)

/-- An environment that answers as a history says. -/
structure Follows (env : Env) (history : List Change) : Prop where
  /-- No name occurs twice. -/
  distinct : env.names.Nodup
  /-- A name can be read if the last change of it is a binding, and has its value. -/
  read : ∀ {ε : Type} (name : String) (s : Supply), ∃ found s',
    (env.read name : Build ε (Option Constant)) s = .ok (found, s') ∧
      found.map (·.value) = lastValue? history name
  contains : ∀ name, env.contains name = true ↔ Bound history name
  /-- The names that are bound are listed, with their values. -/
  listed : ∀ name value, (name, value) ∈ env.contents ↔ lastValue? history name = some value
  /-- They are listed in the order of their first bindings since they were unbound last. -/
  ordered : (env.names.map (openedAt history)).Pairwise (· < ·)
  size : env.size = {name | Bound history name}.ncard
  /-- Unbinding is refused for a name that is not bound. -/
  refuses : ∀ name, env.unbind? name = none ↔ ¬ Bound history name
  /-- Unbinding leaves the environment as it is for a name that is not bound. -/
  keeps : ∀ name, (env.unbind? name).getD env = env ↔ ¬ Bound history name

/-! ## One more change -/

section Append

variable {history : List Change} {change : Change} {name : String}

/-- The last change of a name is the one just made. -/
theorem lastChange?_append_self (history : List Change) (change : Change) :
    lastChange? (history ++ [change]) change.name = some change := by
  simp [lastChange?]

/-- A change of another name does not count. -/
theorem lastChange?_append_of_ne (h : change.name ≠ name) :
    lastChange? (history ++ [change]) name = lastChange? history name := by
  simp [lastChange?, h]

/-- The last change of a name is about that name. -/
theorem name_of_lastChange? (h : lastChange? history name = some change) : change.name = name := by
  simpa using List.find?_some h

/-- A name is bound if it has a last value. -/
theorem bound_iff : Bound history name ↔ ∃ value, lastValue? history name = some value := by
  constructor
  · rintro ⟨value, h⟩
    exact ⟨value.value, by rw [lastValue?, h]; rfl⟩
  · rintro ⟨value, h⟩
    obtain ⟨change, hlast, hvalue⟩ := Option.bind_eq_some_iff.1 h
    have hname := name_of_lastChange? hlast
    cases change with
    | bind other c =>
      cases hname
      exact ⟨c, hlast⟩
    | unbind other => cases hvalue

/-- A change does not bind another name. -/
theorem Change.binds_of_ne (h : change.name ≠ name) : change.binds name = false := by
  cases change with
  | bind other value => exact beq_eq_false_iff_ne.2 h
  | unbind other => rfl

theorem Change.unbinds_of_ne (h : change.name ≠ name) : change.unbinds name = false := by
  cases change with
  | bind other value => rfl
  | unbind other => exact beq_eq_false_iff_ne.2 h

/-- The last time a name was unbound is now or before. -/
theorem unboundUpTo_append :
    unboundUpTo (history ++ [change]) name =
      if change.unbinds name = true then history.length + 1 else unboundUpTo history name := by
  simp only [unboundUpTo, List.reverse_append, List.reverse_singleton, List.singleton_append,
    List.findIdx_cons, List.length_append, List.length_singleton]
  cases change.unbinds name <;> simp

/-- A name that is unbound is opened by none of the changes so far. -/
theorem openedAt_append_of_unbinds (h : change.unbinds name = true) :
    openedAt (history ++ [change]) name = history.length + 1 := by
  simp [openedAt, unboundUpTo_append, h]

/-- A name that is opened stays so, and a binding opens one that is not. -/
theorem openedAt_append (h : change.unbinds name = false) :
    openedAt (history ++ [change]) name =
      if openedAt history name < history.length then openedAt history name
      else history.length + if change.binds name = true then 0 else 1 := by
  have hle : unboundUpTo history name ≤ history.length := Nat.sub_le ..
  have hsame : unboundUpTo (history ++ [change]) name = unboundUpTo history name := by
    simp [unboundUpTo_append, h]
  rw [openedAt, openedAt, hsame, List.drop_append_of_le_length hle, List.findIdx_append,
    List.length_drop, List.findIdx_singleton]
  split_ifs <;> omega

/-- The last change of a name tells whether the name was opened by one of the changes. -/
theorem openedAt_lt_iff (history : List Change) (name : String) :
    openedAt history name < history.length ↔ Bound history name := by
  induction history using List.reverseRecOn with
  | nil => simp [Bound, lastChange?]
  | append_singleton history change ih =>
    rw [List.length_append, List.length_singleton]
    by_cases hname : change.name = name
    · subst hname
      rw [Bound, lastChange?_append_self]
      cases change with
      | bind name value =>
        refine iff_of_true ?_ ⟨value, rfl⟩
        have hbinds : (Change.bind name value).binds name = true := beq_self_eq_true name
        rw [Change.name, openedAt_append rfl, if_pos hbinds]
        split <;> omega
      | unbind name =>
        rw [openedAt_append_of_unbinds (by simp [Change.name, Change.unbinds])]
        simp
    · rw [Bound, lastChange?_append_of_ne hname, ← Bound, ← ih,
        openedAt_append (Change.unbinds_of_ne hname), Change.binds_of_ne hname]
      split <;> simp <;> omega

end Append

/-! ## What a change keeps -/

/-- The values and the order of an environment are those of a history. -/
structure Tracks (env : Env) (history : List Change) : Prop where
  value : ∀ name, (env.find? name).map (·.value) = lastValue? history name
  ordered : (env.names.map (openedAt history)).Pairwise (· < ·)

namespace Tracks

variable {env : Env} {history : List Change} {name : String}

/-- No name occurs twice in an environment that tracks its history. -/
theorem nodup (h : env.Tracks history) : env.names.Nodup :=
  .of_map _ (h.ordered.imp Nat.ne_of_lt)

/-- The names in scope are those that are bound. -/
theorem mem_names_iff (h : env.Tracks history) : name ∈ env.names ↔ Bound history name := by
  rw [bound_iff, ← h.value, ← Option.isSome_iff_exists, Option.isSome_map,
    ← Option.ne_none_iff_isSome, Ne, find?_eq_none_iff, not_not]

/-- The empty environment tracks the empty history. -/
theorem empty : Tracks .empty [] :=
  ⟨fun _ => rfl, .nil⟩

/-- Names that keep their places in a history keep their order. -/
theorem ordered_of_sublist {names names' : List String} {history history' : List Change}
    (h : (names.map (openedAt history)).Pairwise (· < ·)) (hsub : names'.Sublist names)
    (hkept : ∀ name ∈ names', openedAt history' name = openedAt history name) :
    (names'.map (openedAt history')).Pairwise (· < ·) := by
  rw [List.map_congr_left hkept]
  exact h.sublist (hsub.map _)

/-- A name that is bound keeps its place when another change is made. -/
theorem openedAt_kept (h : env.Tracks history) {change : Change} (hname : name ∈ env.names)
    (hchange : change.unbinds name = false) :
    openedAt (history ++ [change]) name = openedAt history name := by
  rw [openedAt_append hchange, if_pos ((openedAt_lt_iff history name).2 (h.mem_names_iff.1 hname))]

/-- The values after a change that gives its name its value and keeps those of the others. -/
theorem value_append (h : env.Tracks history) {env' : Env} (change : Change)
    (hself : (env'.find? change.name).map (·.value) = change.value?)
    (hothers : ∀ other, other ≠ change.name → env'.find? other = env.find? other)
    (name : String) :
    (env'.find? name).map (·.value) = lastValue? (history ++ [change]) name := by
  by_cases hname : name = change.name
  · subst hname
    rw [hself, lastValue?, lastChange?_append_self]
    rfl
  · rw [hothers name hname, h.value, lastValue?, lastValue?,
      lastChange?_append_of_ne (Ne.symm hname)]

/-- Binding a name, in its place or at the end. -/
theorem bind (h : env.Tracks history) (name : String) (c : Constant) {k : Constant}
    (hk : k.value = c.value) : (env.insert name k).Tracks (history ++ [.bind name c]) := by
  constructor
  case value =>
    refine h.value_append (.bind name c) ?_ fun other => find?_insert_of_ne k
    rw [Change.name, find?_insert_self, Option.map_some, hk]
    rfl
  case ordered =>
    have hkept : ∀ other ∈ env.names,
        openedAt (history ++ [.bind name c]) other = openedAt history other := fun other hother =>
      h.openedAt_kept hother rfl
    have hold := ordered_of_sublist h.ordered (List.Sublist.refl _) hkept
    by_cases hname : name ∈ env.names
    · rwa [names_insert_of_mem k hname]
    · have hnew : openedAt (history ++ [.bind name c]) name = history.length := by
        have hclosed := mt (openedAt_lt_iff history name).1 (mt h.mem_names_iff.2 hname)
        rw [openedAt_append rfl, if_neg hclosed]
        simp [Change.binds]
      rw [names_insert_of_not_mem k hname, List.map_append, List.pairwise_append]
      refine ⟨hold, List.pairwise_singleton _ _, ?_⟩
      intro i hi j hj
      obtain ⟨other, hother, rfl⟩ := List.mem_map.1 hi
      rw [List.map_singleton, List.mem_singleton] at hj
      rw [hj, hnew, hkept other hother, openedAt_lt_iff]
      exact h.mem_names_iff.1 hother

/-- Unbinding a name, if it is bound. -/
theorem unbind (h : env.Tracks history) (name : String) :
    ((env.unbind? name).getD env).Tracks (history ++ [.unbind name]) := by
  have hkept : ∀ other ∈ env.names, other ≠ name →
      openedAt (history ++ [.unbind name]) other = openedAt history other := fun other hother hne =>
    h.openedAt_kept hother (by simpa [Change.unbinds] using Ne.symm hne)
  by_cases hname : name ∈ env.names
  · rw [unbind?_of_mem hname, Option.getD_some]
    constructor
    case value =>
      refine h.value_append (.unbind name) ?_ fun other => find?_erase_of_ne
      rw [Change.name, find?_erase_self h.nodup]
      rfl
    case ordered =>
      rw [names_erase]
      refine ordered_of_sublist h.ordered List.erase_sublist fun other hother => ?_
      rw [h.nodup.mem_erase_iff] at hother
      exact hkept other hother.2 hother.1
  · have hnone : env.unbind? name = none := by
      simp [unbind?, contains_eq_false_iff.2 hname]
    rw [hnone, Option.getD_none]
    constructor
    case value =>
      refine h.value_append (.unbind name) ?_ fun _ _ => rfl
      rw [Change.name, find?_eq_none_iff.2 hname]
      rfl
    case ordered =>
      refine ordered_of_sublist h.ordered (List.Sublist.refl _) fun other hother => ?_
      exact hkept other hother (ne_of_mem_of_not_mem hother hname)

/-! ## What can be asked -/

/-- All that can be asked of an environment is settled by its values and their order. -/
theorem follows (h : env.Tracks history) : env.Follows history := by
  constructor
  case distinct => exact h.nodup
  case read =>
    intro ε name s
    cases hfind : env.find? name with
    | none =>
      refine ⟨none, s, Build.read_apply_none hfind s, ?_⟩
      rw [← h.value, hfind]
    | some c =>
      refine ⟨some ⟨s.node, c.value⟩, s.next, Build.read_apply_some hfind s, ?_⟩
      rw [← h.value, hfind]
      rfl
  case contains =>
    intro name
    rw [contains_iff_mem_names, h.mem_names_iff]
  case listed =>
    intro name value
    rw [mem_contents_iff h.nodup, h.value]
  case ordered => exact h.ordered
  case size =>
    have hnames : {name | Bound history name} = ↑env.names.toFinset := by
      ext name
      simp [h.mem_names_iff]
    rw [hnames, Set.ncard_coe_finset, List.toFinset_card_of_nodup h.nodup, names, List.length_map,
      size]
  case refuses =>
    intro name
    rw [← h.mem_names_iff, ← contains_iff_mem_names, unbind?]
    split <;> simp_all
  case keeps =>
    intro name
    rw [← h.mem_names_iff]
    constructor
    · intro hsame hname
      rw [unbind?_of_mem hname, Option.getD_some] at hsame
      have herase : (env.erase name).names = env.names.erase name := names_erase
      rw [hsame] at herase
      exact h.nodup.not_mem_erase (herase ▸ hname)
    · intro hname
      simp [unbind?, contains_eq_false_iff.2 hname]

end Tracks

/-- The environment after a history has its values and its order. -/
theorem replay_tracks {ε : Type} (history : List Change) (s : Supply) :
    ∃ env s', (replay history : Build ε Env) s = .ok (env, s') ∧ env.Tracks history := by
  induction history using List.reverseRecOn with
  | nil => exact ⟨.empty, s, rfl, .empty⟩
  | append_singleton history change ih =>
    obtain ⟨env, s', hreplay, htracks⟩ := ih
    have hlast : (replay (history ++ [change]) : Build ε Env) s = change.apply env s' := by
      rw [replay, List.foldlM_append, Build.bind_apply]
      unfold replay at hreplay
      rw [hreplay]
      cases change <;> rfl
    rw [hlast]
    cases change with
    | bind name value => exact ⟨_, s'.next, rfl, htracks.bind name value rfl⟩
    | unbind name => exact ⟨_, s', rfl, htracks.unbind name⟩

end Env

/-- An environment is a map that keeps the order of insertion: after every history of bindings
and unbindings, from the empty environment on, it answers as the history says. -/
theorem env_follows_history {ε : Type} (history : List Env.Change) (s : Supply) :
    ∃ env s', (Env.replay history : Build ε Env) s = .ok (env, s') ∧ env.Follows history := by
  obtain ⟨env, s', hreplay, htracks⟩ := Env.replay_tracks history s
  exact ⟨env, s', hreplay, htracks.follows⟩

end Stepwise
