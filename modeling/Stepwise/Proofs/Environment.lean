import Stepwise.Machine.Env
import Mathlib.Data.List.Nodup

/-!
# Proofs - Environments by name and by value

An environment is looked at in two ways: as the list of names in scope, which is
what scopes are about, and as the list of names with their values, which is all
that evaluation can tell of it.  The constants an environment holds have
identities too, which evaluation never asks for.

Main results:

- `Env.names_insert_of_mem`, `Env.names_insert_of_not_mem` and
  `Env.names_erase`: what binding and unbinding do to the names in scope.
- `Env.contents_insert` and `Env.contents_erase`: what they do to the names with
  their values.
- `Env.find?_insert_self`, `Env.find?_insert_of_ne`, `Env.find?_erase_self` and
  `Env.find?_erase_of_ne`: what they do to lookups.
- `Env.find?_congr` and `Env.contains_eq_of_contents`: lookups depend on the
  names and values alone.
-/

namespace Stepwise

namespace Env

variable {env env' : Env} {name other : String}

/-! ## Names in scope -/

/-- A name is in scope exactly when it is among the names. -/
theorem contains_iff_mem_names : env.contains name = true ↔ name ∈ env.names := by
  simp only [contains, names, List.any_eq_true, List.mem_map, beq_iff_eq]

/-- A name is not contained in an environment when it is none of its names. -/
theorem contains_eq_false_iff : env.contains name = false ↔ name ∉ env.names := by
  rw [← contains_iff_mem_names, Bool.not_eq_true]

/-- A name that can be looked up is in scope. -/
theorem find?_eq_none_iff : env.find? name = none ↔ name ∉ env.names := by
  simp only [find?, names, Option.map_eq_none_iff, List.find?_eq_none, beq_iff_eq,
    List.mem_map, not_exists, not_and]

/-- A name that is found is one of the names. -/
theorem mem_names_of_find? {c : Constant} (h : env.find? name = some c) :
    name ∈ env.names := by
  by_contra hname
  rw [find?_eq_none_iff.mpr hname] at h
  cases h

/-- Binding a name again keeps the names in order. -/
private theorem map_name_insertBinding_of_mem (value : Constant) :
    ∀ {bs : List Binding}, name ∈ bs.map (·.name) →
      (insertBinding name value bs).map (·.name) = bs.map (·.name)
  | [], h => by simp at h
  | b :: bs, h => by
    by_cases hb : b.name = name
    · simp [insertBinding, hb]
    · have hmem : name ∈ bs.map (·.name) := by
        rcases List.mem_cons.mp h with heq | hmem
        · exact absurd heq.symm hb
        · exact hmem
      simp [insertBinding, hb, map_name_insertBinding_of_mem value hmem]

/-- Binding a new name adds it at the end. -/
private theorem map_name_insertBinding_of_not_mem (value : Constant) :
    ∀ {bs : List Binding}, name ∉ bs.map (·.name) →
      (insertBinding name value bs).map (·.name) = bs.map (·.name) ++ [name]
  | [], _ => rfl
  | b :: bs, h => by
    simp only [List.map_cons, List.mem_cons, not_or] at h
    simp [insertBinding, Ne.symm h.1, map_name_insertBinding_of_not_mem value h.2]

/-- Assigning to a variable keeps the names and their order. -/
theorem names_insert_of_mem (value : Constant) (h : name ∈ env.names) :
    (env.insert name value).names = env.names :=
  map_name_insertBinding_of_mem value h

/-- A new variable comes last. -/
theorem names_insert_of_not_mem (value : Constant) (h : name ∉ env.names) :
    (env.insert name value).names = env.names ++ [name] :=
  map_name_insertBinding_of_not_mem value h

/-- Unbinding removes the first, and so the only, occurrence of a name. -/
theorem names_erase : (env.erase name).names = env.names.erase name := by
  simp only [names, erase]
  induction env.bindings with
  | nil => rfl
  | cons b bs ih =>
    by_cases hb : b.name = name
    · simp [hb]
    · simp [hb, ih]

/-- A name in scope can be unbound. -/
theorem unbind?_of_mem (h : name ∈ env.names) : env.unbind? name = some (env.erase name) := by
  simp [unbind?, contains_iff_mem_names.mpr h]

/-- Only a name in scope can be unbound, and it is erased. -/
theorem unbind?_eq_some (h : env.unbind? name = some env') :
    name ∈ env.names ∧ env' = env.erase name := by
  unfold unbind? at h
  split at h
  · next hname =>
    cases h
    exact ⟨contains_iff_mem_names.1 hname, rfl⟩
  · cases h

/-! ## Names with their values -/

/-- The variables in scope with their values, the oldest first. -/
def contents (env : Env) : List (String × Value) :=
  env.bindings.map fun b => (b.name, b.value.value)

/-- Give a name a value in a list of variables, in its place or at the end. -/
def assign (name : String) (value : Value) : List (String × Value) → List (String × Value)
  | [] => [(name, value)]
  | v :: vs => if v.1 = name then (name, value) :: vs else v :: assign name value vs

/-- Remove a name from a list of variables. -/
def discard (name : String) (vars : List (String × Value)) : List (String × Value) :=
  vars.eraseP (·.1 == name)

/-- The names are those of the contents. -/
theorem names_eq_contents : env.names = env.contents.map (·.1) := by
  simp [names, contents]

/-- Binding is seen in the contents. -/
theorem contents_insert (value : Constant) :
    (env.insert name value).contents = assign name value.value env.contents := by
  simp only [contents, insert]
  induction env.bindings with
  | nil => rfl
  | cons b bs ih =>
    by_cases hb : b.name = name
    · simp [insertBinding, assign, hb]
    · simp [insertBinding, assign, hb, ih]

/-- Unbinding is seen in the contents. -/
theorem contents_erase : (env.erase name).contents = discard name env.contents := by
  simp only [contents, erase, discard]
  induction env.bindings with
  | nil => rfl
  | cons b bs ih =>
    by_cases hb : b.name = name
    · simp [hb]
    · simp [hb, ih]

/-- Environments with the same contents have the same names. -/
theorem names_eq_of_contents (h : env.contents = env'.contents) : env.names = env'.names := by
  rw [names_eq_contents, names_eq_contents, h]

/-- Environments with the same contents contain the same names. -/
theorem contains_eq_of_contents (h : env.contents = env'.contents) (name : String) :
    env.contains name = env'.contains name := by
  rw [Bool.eq_iff_iff, contains_iff_mem_names, contains_iff_mem_names, names_eq_of_contents h]

/-- The value found for a name can be read off the contents. -/
theorem find?_value (env : Env) (name : String) :
    (env.find? name).map (·.value) = (env.contents.find? (·.1 == name)).map (·.2) := by
  simp only [find?, contents, List.find?_map, Option.map_map]
  rfl

/-- A name is bound to what it was bound to last. -/
theorem find?_insert_self (env : Env) (name : String) (value : Constant) :
    (env.insert name value).find? name = some value := by
  simp only [find?, insert]
  induction env.bindings with
  | nil => simp [insertBinding]
  | cons b bs ih =>
    by_cases hb : b.name = name
    · simp [insertBinding, hb]
    · simpa [insertBinding, hb] using ih

/-- Binding a name keeps what the others are bound to. -/
theorem find?_insert_of_ne (value : Constant) (h : other ≠ name) :
    (env.insert name value).find? other = env.find? other := by
  simp only [find?, insert]
  congr 1
  induction env.bindings with
  | nil => simp [insertBinding, Ne.symm h]
  | cons b bs ih =>
    by_cases hb : b.name = name
    · simp [insertBinding, hb, Ne.symm h]
    · simp [insertBinding, hb, List.find?_cons, ih]

/-- Unbinding a name keeps what the others are bound to. -/
theorem find?_erase_of_ne (h : other ≠ name) : (env.erase name).find? other = env.find? other := by
  simp only [find?, erase]
  congr 1
  induction env.bindings with
  | nil => rfl
  | cons b bs ih =>
    by_cases hb : b.name = name
    · simp [hb, Ne.symm h]
    · simp [hb, List.find?_cons, ih]

/-- A name that is unbound is not in scope any more. -/
theorem find?_erase_self (h : env.names.Nodup) : (env.erase name).find? name = none := by
  rw [find?_eq_none_iff, names_erase]
  exact h.not_mem_erase

/-- Where no name occurs twice, the contents are what can be found. -/
theorem mem_contents_iff (h : env.names.Nodup) {value : Value} :
    (name, value) ∈ env.contents ↔ (env.find? name).map (·.value) = some value := by
  rw [names_eq_contents] at h
  rw [find?_value]
  generalize env.contents = vars at h ⊢
  induction vars with
  | nil => simp
  | cons v vs ih =>
    rw [List.map_cons, List.nodup_cons] at h
    by_cases hname : v.1 = name
    · have hrest : (name, value) ∉ vs := fun hmem =>
        h.1 (List.mem_map.2 ⟨(name, value), hmem, hname.symm⟩)
      simp [hrest, Prod.ext_iff, hname, eq_comm]
    · have hhead : (name, value) ≠ v := fun heq => hname (heq ▸ rfl)
      rw [List.mem_cons, or_iff_right hhead, ih h.2, List.find?_cons_of_neg (by simpa using hname)]

/-- Environments with the same contents give the same value for a name. -/
theorem find?_congr {c : Constant} (h : env.contents = env'.contents)
    (hc : env.find? name = some c) :
    ∃ c', env'.find? name = some c' ∧ c'.value = c.value := by
  have hvalue := find?_value env name
  rw [h, ← find?_value env' name, hc] at hvalue
  exact Option.map_eq_some_iff.mp hvalue.symm

/-- Environments with the same contents lack the same names. -/
theorem find?_none_congr (h : env.contents = env'.contents) (hn : env.find? name = none) :
    env'.find? name = none := by
  rw [find?_eq_none_iff] at hn ⊢
  rwa [← names_eq_of_contents h]

/-- A name that has no value yet is added at the end. -/
theorem assign_of_not_mem (value : Value) {vars : List (String × Value)}
    (h : name ∉ vars.map (·.1)) : assign name value vars = vars ++ [(name, value)] := by
  induction vars with
  | nil => rfl
  | cons v vs ih =>
    simp only [List.map_cons, List.mem_cons, not_or] at h
    simp [assign, Ne.symm h.1, ih h.2]

end Env

end Stepwise
