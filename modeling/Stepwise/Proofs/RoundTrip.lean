import Stepwise.Program.Decode
import Stepwise.Program.Encode
import Stepwise.Proofs.Building
import Stepwise.Proofs.Decimal
import Stepwise.Proofs.Identity

/-!
# Proofs - Programs survive being written and read

A program is written as a tree of nodes: each statement and each expression is a mapping with
one key, which names its kind, and some kinds have a mapping of parts below that key.  The keys
of the parts may be given in any order and among others.  Every way to write a program down is
read as that program again, with identities of its own, whatever the reader of integers makes of
other scalars than decimals.

Main definitions:

- `Yaml.IntReader.ReadsDecimal`, readers of integers that read decimals.
- `Yaml.Node.Presents`, the parts that a mapping has under the keys of a kind.
- `Expr.Written`, `Stmt.Written` and `ProgramWritten`, the ways to write a tree.
- `Decode.Gives`, what a computation gives whatever the supply is.
- `Describable`, nodes for which there is a way to write them.

Main results:

- `Decode.value?_eq_some`: a part is found whatever stands beside it.
- `Expr.Written.gives` and `Stmt.Written.gives`: what was written is read again.
- `Expr.written_encode` and `Stmt.written_encode`: encoding is a way to write a tree.
- `decode_encode`: decoding undoes encoding.
-/

namespace Stepwise

/-! ## Nodes that describe something -/

namespace Yaml.Node

/-- A mapping with one key, which names a kind, and a body below it. -/
def HasKind (n : Node) (kind : String) (body : Node) : Prop :=
  ∃ line tag key, n = .mapping line tag [key, body] ∧ key.text = kind

/-- A scalar with a text, whatever its tag is. -/
def Spells (n : Node) (text : String) : Prop :=
  ∃ line tag, n = .scalar line tag text

/-- The texts of the keys of a mapping, with the values. -/
def pairs (content : List Node) : List (String × Node) :=
  (entries content).map fun e => (e.1.text, e.2)

/-- The contents of a mapping have certain parts under the keys that are known.  These keys may
stand in any order, and others among them. -/
def Presents (content : List Node) (known : List String) (parts : List (String × Node)) : Prop :=
  ((pairs content).filter fun p => p.1 ∈ known).Perm parts

/-- A node of a kind whose body is a mapping with certain parts. -/
def HasParts (n : Node) (kind : String) (known : List String) (parts : List (String × Node)) :
    Prop :=
  ∃ line tag content, n.HasKind kind (.mapping line tag content) ∧ Presents content known parts

end Yaml.Node

/-- A reader of integers that reads the decimal digits of an integer of 64 bits, in a scalar
that is tagged as an integer, as that integer. -/
def Yaml.IntReader.ReadsDecimal (toInt : Yaml.IntReader) : Prop :=
  ∀ line (v : Int64), toInt (.scalar line "!!int" (toString v.toInt)) = .ok v

/-! ## Ways to write a program -/

/-- The ways to write a value; some values cannot be written. -/
def Value.Written (n : Yaml.Node) : Value → Prop
  | .int v => ∃ line, n.HasKind "int" (.scalar line "!!int" (toString v.toInt))
  | .string s => ∃ body, n.HasKind "string" body ∧ body.Spells s
  | .null => ∃ body, n.HasKind "nullstr" body
  | .void => False
  | .other _ => False

mutual

/-- The ways to write an expression. -/
def Expr.Written (n : Yaml.Node) : Expr → Prop
  | .identifier i => ∃ body, n.HasKind "ident" body ∧ body.Spells i.name
  | .constant c => c.value.Written n
  | .binary _ op l r => ∃ line tag left right,
      n.HasKind (Encode.operator op) (.sequence line tag [left, right]) ∧
        l.Written left ∧ r.Written right
  | .assign _ x v => ∃ name value,
      n.HasParts "assign" ["name", "value"] [("name", name), ("value", value)] ∧
        name.Spells x.name ∧ v.Written value
  | .addAssign _ x v => ∃ name value,
      n.HasParts "add_assign" ["name", "value"] [("name", name), ("value", value)] ∧
        name.Spells x.name ∧ v.Written value
  | .increment _ x => ∃ body, n.HasKind "inc" body ∧ body.Spells x.name
  | .invoke _ f args => ∃ name rest,
      n.HasParts "call" ["name", "args"] (("name", name) :: rest) ∧ name.Spells f.name ∧
        (args = [] ∧ rest = [] ∨ ∃ line tag items,
          rest = [("args", .sequence line tag items)] ∧ Expr.AllWritten items args)
  | .hole _ => False

/-- The ways to write a list of expressions. -/
def Expr.AllWritten (items : List Yaml.Node) : List Expr → Prop
  | [] => items = []
  | e :: es => ∃ n rest, items = n :: rest ∧ e.Written n ∧ Expr.AllWritten rest es

end

/-- The ways to write an optional value among the parts of a mapping. -/
def Expr.OptionWritten (parts : List (String × Yaml.Node)) : Option Expr → Prop
  | none => parts = []
  | some e => ∃ n, parts = [("value", n)] ∧ e.Written n

mutual

/-- The ways to write a source statement; other statements cannot be written. -/
def Stmt.Written (n : Yaml.Node) : Stmt → Prop
  | .expression _ none => ∃ body, n.HasKind "nop" body
  | .expression _ (some e) => ∃ body, n.HasKind "expr" body ∧ e.Written body
  | .declaration _ t x v => ∃ type name rest,
      n.HasParts "declare" ["type", "name", "value"] (("type", type) :: ("name", name) :: rest) ∧
        type.Spells t.text ∧ name.Spells x.name ∧ Expr.OptionWritten rest v
  | .block _ ss => ∃ line tag items,
      n.HasKind "block" (.sequence line tag items) ∧ Stmt.AllWritten items ss
  | .ifThen _ c b => ∃ cond body,
      n.HasParts "if" ["cond", "body"] [("cond", cond), ("body", body)] ∧
        c.Written cond ∧ b.Written body
  | .forLoop _ i c u b => ∃ init cond update body,
      n.HasParts "for" ["init", "cond", "update", "body"]
        [("init", init), ("cond", cond), ("update", update), ("body", body)] ∧
        i.Written init ∧ c.Written cond ∧ u.Written update ∧ b.Written body
  | _ => False

/-- The ways to write a list of source statements. -/
def Stmt.AllWritten (items : List Yaml.Node) : List Stmt → Prop
  | [] => items = []
  | s :: ss => ∃ n rest, items = n :: rest ∧ s.Written n ∧ Stmt.AllWritten rest ss

end

/-- The ways to write a program. -/
def ProgramWritten (n : Yaml.Node) (ss : List Stmt) : Prop :=
  ∃ line tag items, n = .sequence line tag items ∧ Stmt.AllWritten items ss

/-! ## Looking for parts -/

namespace Decode

open Yaml.Node

variable {toInt : Yaml.IntReader} {content : List Yaml.Node} {known : List String}
  {parts : List (String × Yaml.Node)} {key : String} {v : Yaml.Node}

/-- The value of a key is the last one that is given. -/
theorem value?_eq_find? (key : String) (content : List Yaml.Node) :
    value? key content = ((pairs content).reverse.find? (·.1 == key)).map (·.2) := by
  unfold value? pairs
  rw [← List.map_reverse, List.find?_map, Option.map_map]
  rfl

/-- A part is found, whatever stands beside it. -/
theorem value?_eq_some (h : Presents content known parts) (hnodup : (parts.map Prod.fst).Nodup)
    (hv : (key, v) ∈ parts) : value? key content = some v := by
  have hmem := List.mem_filter.1 (h.mem_iff.2 hv)
  rw [value?_eq_find?]
  cases hfind : (pairs content).reverse.find? (·.1 == key) with
  | none =>
    rw [List.find?_eq_none] at hfind
    exact absurd (beq_self_eq_true key) (hfind _ (List.mem_reverse.2 hmem.1))
  | some p =>
    have hp : p ∈ pairs content := List.mem_reverse.1 (List.mem_of_find?_eq_some hfind)
    have hfst : p.1 = key := by simpa using List.find?_some hfind
    have hpart : p ∈ parts := by
      apply h.mem_iff.1
      rw [List.mem_filter, hfst]
      exact ⟨hp, hmem.2⟩
    rw [List.inj_on_of_nodup_map hnodup hpart hv hfst]
    rfl

/-- A key that is known and has no part is not found. -/
theorem value?_eq_none (h : Presents content known parts) (hkey : key ∈ known)
    (hno : key ∉ parts.map Prod.fst) : value? key content = none := by
  rw [value?_eq_find?, Option.map_eq_none_iff, List.find?_eq_none]
  intro p hp hfst
  have hpart : p ∈ parts := by
    refine h.mem_iff.1 (List.mem_filter.2 ⟨List.mem_reverse.1 hp, ?_⟩)
    simpa [eq_of_beq hfst] using hkey
  exact hno (eq_of_beq hfst ▸ List.mem_map_of_mem hpart)

/-- A later value of a key is preferred to an earlier one. -/
theorem value?_cons (k v : Yaml.Node) (rest : List Yaml.Node) :
    value? key (k :: v :: rest) =
      (value? key rest).or (if k.text == key then some v else none) := by
  simp only [value?, entries, List.reverse_cons, List.find?_append, List.find?_singleton]
  cases (entries rest).reverse.find? (·.1.text == key) <;> simp

/-- A search that goes on with the rest first and then looks at the key finds the last value. -/
theorem eq_map_value? {α : Type} {f : List Yaml.Node → Option α} {read : Yaml.Node → α}
    (hnil : f [] = none) (hone : ∀ k, f [k] = none)
    (hcons : ∀ k v rest,
      f (k :: v :: rest) = (f rest).or (if k.text == key then some (read v) else none))
    (content : List Yaml.Node) : f content = (value? key content).map read := by
  induction content using entries.induct with
  | case1 k v rest ih =>
    rw [hcons, ih, value?_cons]
    cases value? key rest <;> simp
  | case2 content h =>
    cases content with
    | nil => exact hnil
    | cons k tail =>
      cases tail with
      | nil => exact hone k
      | cons v rest => exact absurd rfl (h k v rest)

/-- A part is the node under its key. -/
theorem part?_eq (key : String) (content : List Yaml.Node) :
    part? toInt key content = (value? key content).map (node toInt) := by
  refine eq_map_value? rfl (fun _ => rfl) (fun k v rest => ?_) content
  rw [part?]
  cases part? toInt key rest <;> rfl

/-- The arguments are the list under their key. -/
theorem arguments_eq (content : List Yaml.Node) :
    arguments toInt content = (value? "args" content).map (argumentList toInt) := by
  refine eq_map_value? rfl (fun _ => rfl) (fun k v rest => ?_) content
  rw [arguments]
  cases arguments toInt rest <;> rfl

/-! ## Computations that succeed -/

section Gives

variable {α β : Type} {d : Decode α} {f : α → Decode β} {P : α → Prop} {Q : β → Prop}

/-- A computation succeeds whatever the supply is, and gives something with a property. -/
def Gives (d : Decode α) (P : α → Prop) : Prop :=
  ∀ s, ∃ a s', d s = .ok (a, s') ∧ P a

theorem Gives.pure {a : α} (h : P a) : Gives (pure a) P :=
  fun s => ⟨a, s, rfl, h⟩

/-- Decoders in turn give what the second one gives. -/
theorem Gives.bind (h : Gives d P) (hf : ∀ a, P a → Gives (f a) Q) : Gives (d >>= f) Q := by
  intro s
  obtain ⟨a, s', hd, ha⟩ := h s
  obtain ⟨b, s'', hb, hq⟩ := hf a ha s'
  refine ⟨b, s'', ?_, hq⟩
  rw [Build.bind_apply, hd]
  exact hb

/-- A line is given to errors only. -/
theorem Gives.locating (h : Gives d P) (line : Nat) : Gives (locating line d) P := by
  intro s
  obtain ⟨a, s', hd, ha⟩ := h s
  refine ⟨a, s', ?_, ha⟩
  unfold Decode.locating Build.mapError
  rw [hd]
  rfl

/-- A builder that takes its operands gives what it builds. -/
theorem Gives.building {b : Build NodeError α}
    (h : ∀ s, ∃ a s', b s = .ok (a, s') ∧ P a) : Gives (building b) P := by
  intro s
  obtain ⟨a, s', hb, ha⟩ := h s
  refine ⟨a, s', ?_, ha⟩
  unfold Decode.building Build.mapError
  rw [hb]
  rfl

end Gives

variable {n : Yaml.Node} {x : Identifier}

/-- A name that is not empty is read as an identifier. -/
theorem gives_identifier (hx : x.Checked) :
    Gives (building (Build.identifier x.name)) fun i => i.shape = x.shape := by
  refine .building fun s => ⟨⟨s.node, x.name⟩, s.next, ?_, rfl⟩
  have hne : x.name.isEmpty = false := by simpa [Identifier.Checked] using hx
  simp [Build.identifier, hne]

/-- A scalar gives the text it spells. -/
theorem gives_scalar {what text : String} (h : n.Spells text) :
    Gives (scalar what n) fun s => s = text := by
  obtain ⟨line, tag, rfl⟩ := h
  exact .pure rfl

/-- A key gives the value that is found. -/
theorem gives_value {parent : Yaml.Node} (h : value? key content = some v) :
    Gives (value parent key content) fun m => m = v := by
  unfold value
  rw [h]
  exact .pure rfl

/-- A name is read back. -/
theorem gives_name {parent : Yaml.Node} (h : value? "name" content = some n)
    (hn : n.Spells x.name) (hx : x.Checked) :
    Gives (name parent content) fun i => i.shape = x.shape := by
  refine .bind (gives_value h) ?_
  rintro _ rfl
  refine .bind (gives_scalar hn) ?_
  rintro _ rfl
  exact gives_identifier hx

/-- A type is read back. -/
theorem gives_datatype {parent : Yaml.Node} {t : Datatype} (h : value? "type" content = some n)
    (hn : n.Spells t.text) (ht : t.declarable = true) :
    Gives (datatype parent content) fun t' => t' = t := by
  refine .bind (gives_value h) ?_
  rintro _ rfl
  refine .bind (gives_scalar hn) ?_
  rintro _ rfl
  cases t with
  | int | string => exact .pure rfl
  | void | other => cases ht

/-- A part gives what its node gives. -/
theorem gives_part {parent : Yaml.Node} {P : Node → Prop} (h : value? key content = some n)
    (hn : Gives (node toInt n) P) : Gives (required parent key (part? toInt key content)) P := by
  rw [part?_eq, h]
  exact hn

end Decode

/-! ## Reading what was written -/

open Decode

/-- A node that is an expression of the same shape. -/
def Expr.Recovers (e : Expr) (m : Node) : Prop :=
  ∃ e', m = .expr e' ∧ e'.shape = e.shape

/-- A node that is a statement of the same shape. -/
def Stmt.Recovers (st : Stmt) (m : Node) : Prop :=
  ∃ st', m = .stmt st' ∧ st'.shape = st.shape

variable {toInt : Yaml.IntReader}

/-- An expression that is built with the right shape is recovered. -/
theorem Expr.gives_built {b : Build NodeError Expr} {e : Expr}
    (h : ∀ s, ∃ e' s', b s = .ok (e', s') ∧ e'.shape = e.shape) :
    Gives (do return .expr (← building b)) e.Recovers :=
  .bind (.building h) fun e' he => .pure ⟨e', rfl, he⟩

theorem Stmt.gives_built {b : Build NodeError Stmt} {st : Stmt}
    (h : ∀ s, ∃ st' s', b s = .ok (st', s') ∧ st'.shape = st.shape) :
    Gives (do return .stmt (← building b)) st.Recovers :=
  .bind (.building h) fun st' hst => .pure ⟨st', rfl, hst⟩

/-- Expressions that are written in turn are read back in turn. -/
theorem Expr.AllWritten.gives {es : List Expr} {items : List Yaml.Node}
    (h : Expr.AllWritten items es)
    (hes : ∀ e ∈ es, ∀ n, e.Written n → Gives (node toInt n) e.Recovers) :
    Gives (Decode.nodes toInt items) fun ms =>
      ∃ es', ms = es'.map Node.expr ∧ Expr.shapes es' = Expr.shapes es := by
  induction es generalizing items with
  | nil =>
    obtain rfl : items = [] := h
    exact .pure ⟨[], rfl, rfl⟩
  | cons e es ih =>
    obtain ⟨n, rest, rfl, hn, hrest⟩ := h
    rw [Decode.nodes]
    refine .bind (hes e (List.mem_cons_self ..) n hn) ?_
    rintro _ ⟨e', rfl, he⟩
    refine .bind (ih hrest fun e' he' => hes e' (List.mem_cons_of_mem _ he')) ?_
    rintro _ ⟨es', rfl, hes'⟩
    exact .pure ⟨e' :: es', rfl, by rw [Expr.shapes, Expr.shapes, he, hes']⟩

/-- The two kinds of assignment are read alike. -/
theorem Expr.gives_update {parent name value : Yaml.Node} {content : List Yaml.Node}
    {x : Identifier} {e v : Expr} {build : Operand → Operand → Build NodeError Expr}
    {make : NodeId → Identifier → Expr → Expr}
    (hparts : Yaml.Node.Presents content ["name", "value"] [("name", name), ("value", value)])
    (hname : name.Spells x.name) (hx : x.Checked) (hv : Gives (node toInt value) v.Recovers)
    (hbuild : ∀ x v s, build (.ident x) (.filled (.expr v)) s = .ok (make s.node x v, s.next))
    (hmake : ∀ id x' v', x'.shape = x.shape → v'.shape = v.shape →
      (make id x' v').shape = e.shape) :
    Gives (do
      let x ← Decode.name parent content
      let v ← required parent "value" (part? toInt "value" content)
      return .expr (← building (build (operand x) (.filled v)))) e.Recovers := by
  refine .bind (gives_name (value?_eq_some hparts (by simp) (by simp)) hname hx) ?_
  intro x' hx'
  refine .bind (gives_part (value?_eq_some hparts (by simp) (by simp)) hv) ?_
  rintro _ ⟨v', rfl, hv'⟩
  exact Expr.gives_built fun s => ⟨_, _, hbuild x' v' s, hmake s.node x' v' hx' hv'⟩

/-- A value that can be written is read again. -/
theorem Value.Written.gives (hint : toInt.ReadsDecimal) {c : Constant} {n : Yaml.Node}
    (h : c.value.Written n) : Gives (node toInt n) (Expr.constant c).Recovers := by
  have hliteral : Gives (Build.literal c.value) fun e => e.shape = (Expr.constant c).shape :=
    fun s => ⟨_, _, rfl, rfl⟩
  obtain ⟨id, v⟩ := c
  cases v with
  | int v =>
    obtain ⟨line', line, tag, k, rfl, hk⟩ := h
    unfold node
    rw [hk, hint]
    refine .locating ?_ line
    exact .bind hliteral fun e he => .pure ⟨e, rfl, he⟩
  | string s =>
    obtain ⟨body, ⟨line, tag, k, rfl, hk⟩, hbody⟩ := h
    unfold node
    rw [hk]
    refine .locating ?_ line
    refine .bind (gives_scalar hbody) ?_
    rintro _ rfl
    exact .bind hliteral fun e he => .pure ⟨e, rfl, he⟩
  | null =>
    obtain ⟨body, line, tag, k, rfl, hk⟩ := h
    unfold node
    rw [hk]
    refine .locating ?_ line
    exact .bind hliteral fun e he => .pure ⟨e, rfl, he⟩
  | void | other => exact h.elim

/-- A checked expression is read as it was written. -/
theorem Expr.Written.gives (hint : toInt.ReadsDecimal) {e : Expr} {n : Yaml.Node}
    (he : e.Checked) (h : e.Written n) : Gives (node toInt n) e.Recovers := by
  induction e using Expr.induct generalizing n with
  | identifier i =>
    obtain ⟨body, ⟨line, tag, k, rfl, hk⟩, hbody⟩ := h
    unfold node
    rw [hk]
    refine .locating ?_ line
    refine .bind (gives_scalar hbody) ?_
    rintro _ rfl
    refine .bind (gives_identifier he) ?_
    intro i' hi
    exact .pure ⟨_, rfl, by rw [Expr.shape, Expr.shape, hi]⟩
  | constant c => exact Value.Written.gives hint h
  | binary id op l r ihl ihr =>
    obtain ⟨hop, hl, hr⟩ := he
    obtain ⟨line', tag', left, right, ⟨line, tag, k, rfl, hk⟩, hleft, hright⟩ := h
    have hpair : Gives (pair toInt op (Encode.operator op) (.sequence line' tag' [left, right]))
        (Expr.binary id op l r).Recovers := by
      rw [pair]
      refine .bind (ihl hl hleft) ?_
      rintro _ ⟨l', rfl, hl'⟩
      refine .bind (ihr hr hright) ?_
      rintro _ ⟨r', rfl, hr'⟩
      refine Expr.gives_built fun s => ⟨_, _, Build.binary_apply hop l' r' s, ?_⟩
      simp only [Expr.shape, hl', hr']
    unfold node
    rw [hk]
    refine .locating ?_ line
    cases op with
    | and | le | eq => exact hpair
    | other code => cases hop
  | assign id x v ih =>
    obtain ⟨hx, hv⟩ := he
    obtain ⟨name, value, ⟨line', tag', content, ⟨line, tag, k, rfl, hk⟩, hparts⟩, hname,
      hvalue⟩ := h
    unfold node
    rw [hk]
    refine .locating ?_ line
    refine Expr.gives_update hparts hname hx (ih hv hvalue) Build.assign_apply ?_
    intro id' x' v' hx' hv'
    simp only [Expr.shape, hx', hv']
  | addAssign id x v ih =>
    obtain ⟨hx, hv⟩ := he
    obtain ⟨name, value, ⟨line', tag', content, ⟨line, tag, k, rfl, hk⟩, hparts⟩, hname,
      hvalue⟩ := h
    unfold node
    rw [hk]
    refine .locating ?_ line
    refine Expr.gives_update hparts hname hx (ih hv hvalue) Build.addAssign_apply ?_
    intro id' x' v' hx' hv'
    simp only [Expr.shape, hx', hv']
  | increment id x =>
    obtain ⟨body, ⟨line, tag, k, rfl, hk⟩, hbody⟩ := h
    unfold node
    rw [hk]
    refine .locating ?_ line
    refine .bind (gives_scalar hbody) ?_
    rintro _ rfl
    refine .bind (gives_identifier he) ?_
    intro x' hx'
    refine Expr.gives_built fun s => ⟨.increment s.node x', s.next, rfl, ?_⟩
    simp only [Expr.shape, hx']
  | invoke id f args ih =>
    obtain ⟨hf, hargs⟩ := he
    obtain ⟨name, rest, ⟨line', tag', content, ⟨line, tag, k, rfl, hk⟩, hparts⟩, hname, hrest⟩ := h
    have hlist : Gives ((arguments toInt content).getD (pure [])) fun ms =>
        ∃ es', ms = es'.map Node.expr ∧ Expr.shapes es' = Expr.shapes args := by
      rw [arguments_eq]
      rcases hrest with ⟨rfl, rfl⟩ | ⟨line'', tag'', items, rfl, hitems⟩
      · rw [value?_eq_none hparts (by simp) (by simp)]
        exact .pure ⟨[], rfl, rfl⟩
      · have hargs' : value? "args" content = some (.sequence line'' tag'' items) :=
          value?_eq_some hparts (by simp) (by simp)
        rw [hargs']
        exact hitems.gives fun e he n => ih e he (Expr.allChecked_iff.1 hargs e he)
    have hnamed : value? "name" content = some name := by
      rcases hrest with ⟨-, rfl⟩ | ⟨_, _, _, rfl, -⟩ <;>
      exact value?_eq_some hparts (by simp) (by simp)
    unfold node
    rw [hk]
    refine .locating ?_ line
    refine .bind (gives_name hnamed hname hf) ?_
    intro f' hf'
    refine .bind hlist ?_
    rintro _ ⟨args', rfl, hargs'⟩
    refine Expr.gives_built fun s => ⟨.invoke s.node f' args', s.next, ?_, ?_⟩
    · rw [List.map_map]
      exact Build.invoke_apply f' args' s
    · simp only [Expr.shape, hf', hargs']
  | hole reserved => exact h.elim

theorem Stmt.AllWritten.gives {ss : List Stmt} {items : List Yaml.Node}
    (h : Stmt.AllWritten items ss)
    (hss : ∀ st ∈ ss, ∀ n, st.Written n → Gives (node toInt n) st.Recovers) :
    Gives (statementsOf toInt items) fun ss' => Stmt.shapes ss' = Stmt.shapes ss := by
  induction ss generalizing items with
  | nil =>
    obtain rfl : items = [] := h
    exact .pure rfl
  | cons st ss ih =>
    obtain ⟨n, rest, rfl, hn, hrest⟩ := h
    rw [statementsOf]
    refine .bind (hss st (List.mem_cons_self ..) n hn) ?_
    rintro _ ⟨st', rfl, hst⟩
    refine .bind (ih hrest fun st' hst' => hss st' (List.mem_cons_of_mem _ hst')) ?_
    intro ss' hss'
    exact .pure (by rw [Stmt.shapes, Stmt.shapes, hst, hss'])

/-- A checked statement is read as it was written. -/
theorem Stmt.Written.gives (hint : toInt.ReadsDecimal) {st : Stmt} {n : Yaml.Node}
    (hst : st.Checked) (h : st.Written n) : Gives (node toInt n) st.Recovers := by
  induction st using Stmt.induct generalizing n with
  | expression id v =>
    cases v with
    | none =>
      obtain ⟨body, line, tag, k, rfl, hk⟩ := h
      unfold node
      rw [hk]
      refine .locating ?_ line
      refine .bind (P := fun st' => st'.shape = (Stmt.expression id none).shape) ?_ ?_
      · exact fun s => ⟨_, _, rfl, rfl⟩
      · intro st' hst'
        exact .pure ⟨st', rfl, hst'⟩
    | some e =>
      obtain ⟨body, ⟨line, tag, k, rfl, hk⟩, hbody⟩ := h
      unfold node
      rw [hk]
      refine .locating ?_ line
      refine .bind (hbody.gives hint hst) ?_
      rintro _ ⟨e', rfl, he'⟩
      refine Stmt.gives_built fun s => ⟨_, _, Build.expression_apply e' s, ?_⟩
      simp only [Stmt.shape, Option.map_some, he']
  | declaration id t x v =>
    obtain ⟨ht, hx, hv⟩ := hst
    obtain ⟨type, name, rest, ⟨line', tag', content, ⟨line, tag, k, rfl, hk⟩, hparts⟩, htype, hname,
      hrest⟩ := h
    have hnodup : ((("type", type) :: ("name", name) :: rest).map Prod.fst).Nodup := by
      cases v with
      | none =>
        obtain rfl : rest = [] := hrest
        simp
      | some e =>
        obtain ⟨value, rfl, -⟩ := hrest
        simp
    unfold node
    rw [hk]
    refine .locating ?_ line
    refine .bind (gives_datatype (value?_eq_some hparts hnodup (by simp)) htype ht) ?_
    rintro _ rfl
    refine .bind (gives_name (value?_eq_some hparts hnodup (by simp)) hname hx) ?_
    intro x' hx'
    dsimp only
    rw [part?_eq]
    cases v with
    | none =>
      obtain rfl : rest = [] := hrest
      rw [value?_eq_none hparts (by simp) (by simp)]
      refine Stmt.gives_built fun s => ⟨_, _, Build.declaration_none_apply ht x' s, ?_⟩
      simp only [Stmt.shape, Option.map_none, hx']
    | some e =>
      obtain ⟨value, rfl, hvalue⟩ := hrest
      rw [value?_eq_some hparts hnodup (by simp : ("value", value) ∈ _)]
      refine .bind (hvalue.gives hint hv) ?_
      rintro _ ⟨e', rfl, he'⟩
      refine Stmt.gives_built fun s => ⟨_, _, Build.declaration_apply ht x' e' s, ?_⟩
      simp only [Stmt.shape, Option.map_some, hx', he']
  | block id ss ih =>
    obtain ⟨line', tag', items, ⟨line, tag, k, rfl, hk⟩, hitems⟩ := h
    unfold node
    rw [hk]
    refine .locating ?_ line
    refine .bind (hitems.gives fun st hst' n => ih st hst' (Stmt.allChecked_iff.1 hst st hst')) ?_
    intro ss' hss'
    refine Stmt.gives_built fun s => ⟨_, _, Build.block_apply ss' s, ?_⟩
    simp only [Stmt.shape, hss']
  | forLoop id i c u b ihi ihc ihu ihb =>
    obtain ⟨hi, hc, hu, hb⟩ := hst
    obtain ⟨init, cond, update, body, ⟨line', tag', content, ⟨line, tag, k, rfl, hk⟩, hparts⟩,
      hinit, hcond, hupdate, hbody⟩ := h
    unfold node
    rw [hk]
    refine .locating ?_ line
    refine .bind (gives_part (value?_eq_some hparts (by simp) (by simp)) (ihi hi hinit)) ?_
    rintro _ ⟨i', rfl, hi'⟩
    refine .bind (gives_part (value?_eq_some hparts (by simp) (by simp)) (ihc hc hcond)) ?_
    rintro _ ⟨c', rfl, hc'⟩
    refine .bind (gives_part (value?_eq_some hparts (by simp) (by simp)) (ihu hu hupdate)) ?_
    rintro _ ⟨u', rfl, hu'⟩
    refine .bind (gives_part (value?_eq_some hparts (by simp) (by simp)) (ihb hb hbody)) ?_
    rintro _ ⟨b', rfl, hb'⟩
    refine Stmt.gives_built fun s => ⟨_, _, Build.forLoop_apply i' c' u' b' s, ?_⟩
    simp only [Stmt.shape, hi', hc', hu', hb']
  | ifThen id c b ih =>
    obtain ⟨hc, hb⟩ := hst
    obtain ⟨cond, body, ⟨line', tag', content, ⟨line, tag, k, rfl, hk⟩, hparts⟩, hcond, hbody⟩ := h
    unfold node
    rw [hk]
    refine .locating ?_ line
    refine .bind (gives_part (value?_eq_some hparts (by simp) (by simp)) (hcond.gives hint hc)) ?_
    rintro _ ⟨c', rfl, hc'⟩
    refine .bind (gives_part (value?_eq_some hparts (by simp) (by simp)) (ih hb hbody)) ?_
    rintro _ ⟨b', rfl, hb'⟩
    refine Stmt.gives_built fun s => ⟨_, _, Build.ifThen_apply c' b' s, ?_⟩
    simp only [Stmt.shape, hc', hb']
  | label | jump | condJump | undeclaration => exact h.elim

/-! ## Writing programs -/

namespace Encode

open Yaml.Node

/-- The encoding of a text spells it. -/
theorem spells_text (s : String) : (text s).Spells s :=
  ⟨0, "!!str", rfl⟩

/-- The encoding of a kind has that kind. -/
theorem hasKind_node (kind : String) (body : Yaml.Node) : (node kind body).HasKind kind body :=
  ⟨0, "!!map", text kind, rfl, rfl⟩

/-- The pairs of an encoded mapping are its parts. -/
theorem pairs_flatMap (parts : List (String × Yaml.Node)) :
    pairs (parts.flatMap fun p => [text p.1, p.2]) = parts := by
  induction parts with
  | nil => rfl
  | cons p parts ih => exact congrArg (p :: ·) ih

/-- A mapping presents those of its entries that are known, in any order. -/
theorem hasParts_of_perm {kind : String} {known : List String}
    {given parts : List (String × Yaml.Node)} (h : (given.filter fun p => p.1 ∈ known).Perm parts) :
    (node kind (mapping given)).HasParts kind known parts := by
  refine ⟨0, "!!map", _, hasKind_node kind _, ?_⟩
  have hpairs := pairs_flatMap given
  unfold Presents
  rwa [hpairs]

/-- An encoded mapping has its parts, if all keys are known. -/
theorem hasParts_node {kind : String} {known : List String} {parts : List (String × Yaml.Node)}
    (h : ∀ p ∈ parts, p.1 ∈ known) : (node kind (mapping parts)).HasParts kind known parts := by
  apply hasParts_of_perm
  rw [List.filter_eq_self.2 (by simpa using h)]

end Encode

/-- The node of an integer, a string or the null string is a way to write it. -/
theorem Value.written_encode {v : Value} (h : v.datatype.declarable = true) :
    v.Written (Encode.constant v) := by
  cases v with
  | int n => exact ⟨0, Encode.hasKind_node ..⟩
  | string s => exact ⟨_, Encode.hasKind_node .., Encode.spells_text s⟩
  | null => exact ⟨_, Encode.hasKind_node ..⟩
  | void | other => cases h

/-- Encoded expressions are written in turn. -/
theorem Expr.allWritten_encodeAll {es : List Expr} (h : ∀ e ∈ es, e.Written e.encode) :
    Expr.AllWritten (Expr.encodeAll es) es := by
  induction es with
  | nil => rfl
  | cons e es ih =>
    exact ⟨_, _, rfl, h e (List.mem_cons_self ..),
      ih fun e' he' => h e' (List.mem_cons_of_mem _ he')⟩

/-- Nodes that can be described: the statements are source statements, and the constants are
integers, strings or the null string. -/
structure Describable (nodes : List Node) : Prop where
  source : ∀ st, Node.stmt st ∈ nodes → st.isSource = true
  constants : ∀ c, Node.expr (.constant c) ∈ nodes → c.value.datatype.declarable = true

/-- Some of the nodes that can be described can be described. -/
theorem Describable.mono {nodes more : List Node} (h : Describable more) (hsub : nodes ⊆ more) :
    Describable nodes :=
  ⟨fun st hst => h.source st (hsub hst), fun c hc => h.constants c (hsub hc)⟩

/-- The node of a checked expression is a way to write it. -/
theorem Expr.written_encode {e : Expr} (he : e.Checked) (hd : Describable e.nodes) :
    e.Written e.encode := by
  induction e using Expr.induct with
  | identifier i => exact ⟨_, Encode.hasKind_node .., Encode.spells_text i.name⟩
  | constant c => exact Value.written_encode (hd.constants c (List.mem_cons_self ..))
  | binary id op l r ihl ihr =>
    have hl := ihl he.2.1 (hd.mono (by simp [Expr.nodes]))
    have hr := ihr he.2.2 (hd.mono (by simp [Expr.nodes]))
    exact ⟨_, _, _, _, Encode.hasKind_node .., hl, hr⟩
  | assign id x v ih | addAssign id x v ih =>
    have hv := ih he.2 (hd.mono (by simp [Expr.nodes]))
    exact ⟨_, _, Encode.hasParts_node (by simp), Encode.spells_text x.name, hv⟩
  | increment id x => exact ⟨_, Encode.hasKind_node .., Encode.spells_text x.name⟩
  | invoke id f args ih =>
    have hargs : ∀ e ∈ args, e.Written e.encode := by
      intro e hmem
      refine ih e hmem (Expr.allChecked_iff.1 he.2 e hmem) (hd.mono fun n hn => ?_)
      rw [Expr.nodes, Expr.listNodes_eq_flatMap]
      exact List.mem_cons_of_mem _ (List.mem_cons_of_mem _ (List.mem_flatMap_of_mem hmem hn))
    cases args with
    | nil =>
      exact ⟨_, _, Encode.hasParts_node (by simp), Encode.spells_text f.name, .inl ⟨rfl, rfl⟩⟩
    | cons e es =>
      exact ⟨_, _, Encode.hasParts_node (by simp), Encode.spells_text f.name,
        .inr ⟨_, _, _, rfl, Expr.allWritten_encodeAll hargs⟩⟩
  | hole reserved => exact he.elim

theorem Stmt.allWritten_encodeAll {ss : List Stmt} (h : ∀ st ∈ ss, st.Written st.encode) :
    Stmt.AllWritten (Stmt.encodeAll ss) ss := by
  induction ss with
  | nil => rfl
  | cons st ss ih =>
    exact ⟨_, _, rfl, h st (List.mem_cons_self ..),
      ih fun st' hst' => h st' (List.mem_cons_of_mem _ hst')⟩

/-- The nodes of a statement are among those of a list that holds it. -/
theorem Stmt.nodes_subset_listNodes {st : Stmt} {ss : List Stmt} (h : st ∈ ss) :
    st.nodes ⊆ Stmt.listNodes ss := by
  intro n hn
  rw [Stmt.listNodes_eq_flatMap]
  exact List.mem_flatMap_of_mem h hn

/-- The node of a checked source statement is a way to write it. -/
theorem Stmt.written_encode {st : Stmt} (hst : st.Checked) (hd : Describable st.nodes) :
    st.Written st.encode := by
  induction st using Stmt.induct with
  | expression id v =>
    cases v with
    | none => exact ⟨_, Encode.hasKind_node ..⟩
    | some e =>
      have he := Expr.written_encode hst (hd.mono (by simp [Stmt.nodes, Expr.optionNodes]))
      exact ⟨_, Encode.hasKind_node .., he⟩
  | declaration id t x v =>
    cases v with
    | none =>
      exact ⟨_, _, _, Encode.hasParts_node (by simp [Expr.encodeOption]),
        Encode.spells_text t.text, Encode.spells_text x.name, rfl⟩
    | some e =>
      have he := Expr.written_encode hst.2.2 (hd.mono (by simp [Stmt.nodes, Expr.optionNodes]))
      exact ⟨_, _, _, Encode.hasParts_node (by simp [Expr.encodeOption]),
        Encode.spells_text t.text, Encode.spells_text x.name, _, rfl, he⟩
  | block id ss ih =>
    refine ⟨_, _, _, Encode.hasKind_node .., Stmt.allWritten_encodeAll fun st hmem => ?_⟩
    refine ih st hmem (Stmt.allChecked_iff.1 hst st hmem) (hd.mono ?_)
    exact List.subset_cons_of_subset _ (Stmt.nodes_subset_listNodes hmem)
  | forLoop id i c u b ihi ihc ihu ihb =>
    obtain ⟨hi, hc, hu, hb⟩ := hst
    have hsub : ∀ m, m ∈ i.nodes ∨ m ∈ c.nodes ∨ m ∈ u.nodes ∨ m ∈ b.nodes →
        m ∈ (Stmt.forLoop id i c u b).nodes := by
      intro m hm
      simp [Stmt.nodes, hm]
    have hi' := ihi hi (hd.mono fun m hm => hsub m (.inl hm))
    have hc' := ihc hc (hd.mono fun m hm => hsub m (.inr (.inl hm)))
    have hu' := ihu hu (hd.mono fun m hm => hsub m (.inr (.inr (.inl hm))))
    have hb' := ihb hb (hd.mono fun m hm => hsub m (.inr (.inr (.inr hm))))
    exact ⟨_, _, _, _, Encode.hasParts_node (by simp), hi', hc', hu', hb'⟩
  | ifThen id c b ih =>
    have hc := Expr.written_encode hst.1 (hd.mono (by simp [Stmt.nodes]))
    have hb := ih hst.2 (hd.mono (by simp [Stmt.nodes]))
    exact ⟨_, _, Encode.hasParts_node (by simp), hc, hb⟩
  | label | jump | condJump | undeclaration =>
    have hsource := hd.source _ (List.mem_cons_self ..)
    cases hsource

/-- Every checked program of source statements whose constants are integers, strings or the
null string can be written down.  What is read from its node, or from any other way to write it,
is the program again: the keys of parts may stand in any order and among unknown ones.  The
reader of integers only has to read decimals. -/
theorem decode_encode {toInt : Yaml.IntReader} (hint : toInt.ReadsDecimal) {ss : List Stmt}
    (hchecked : Stmt.AllChecked ss) (hd : Describable (Stmt.listNodes ss)) :
    ProgramWritten (encodeProgram ss) ss ∧
      Gives (statements toInt (encodeProgram ss)) (fun ss' => Stmt.shapes ss' = Stmt.shapes ss) ∧
      ∀ n, ProgramWritten n ss →
        Gives (statements toInt n) fun ss' => Stmt.shapes ss' = Stmt.shapes ss := by
  have hcheck : ∀ st ∈ ss, st.Checked := Stmt.allChecked_iff.1 hchecked
  have hwritten : ProgramWritten (encodeProgram ss) ss := by
    refine ⟨_, _, _, rfl, Stmt.allWritten_encodeAll fun st hst => ?_⟩
    exact Stmt.written_encode (hcheck st hst) (hd.mono (Stmt.nodes_subset_listNodes hst))
  have hread : ∀ n, ProgramWritten n ss →
      Gives (statements toInt n) fun ss' => Stmt.shapes ss' = Stmt.shapes ss := by
    rintro n ⟨line, tag, items, rfl, hitems⟩
    exact hitems.gives fun st hst n => Stmt.Written.gives hint (hcheck st hst)
  exact ⟨hwritten, hread _ hwritten, hread⟩

/-- The program `char* s = NULL; if (s == "a") f(-1);`. -/
def comparingProgram : List Stmt :=
  [.declaration 1 .string ⟨2, "s"⟩ (some (.constant ⟨3, .null⟩)),
    .ifThen 4 (.binary 5 .eq (.identifier ⟨6, "s"⟩) (.constant ⟨7, .string "a"⟩))
      (.expression 8 (some (.invoke 9 ⟨10, "f"⟩ [.constant ⟨11, .int (-1)⟩])))]

/-- A way to write it, with the keys of parts in another order and among unknown ones. -/
def comparingNode : Yaml.Node :=
  let null := Encode.node "nullstr" (.sequence 3 "" [])
  let call := Encode.node "call" (Encode.mapping
    [("args", Encode.list [Encode.node "int" (Encode.number (-1))]), ("value", Encode.present),
      ("name", Encode.text "f")])
  Encode.list
    [Encode.node "declare" (Encode.mapping
        [("value", null), ("name", Encode.text "s"), ("note", Encode.text "first"),
          ("type", Encode.text "char*")]),
      Encode.node "if" (Encode.mapping
        [("else", Encode.present), ("body", Encode.node "expr" call),
          ("cond", Encode.node "eq" (Encode.list
            [Encode.node "ident" (Encode.text "s"), Encode.node "string" (Encode.text "a")]))])]

/-- The program is read back from a description with its keys in another order and unknown keys. -/
theorem decode_encode_comparingProgram :
    Yaml.IntReader.ReadsDecimal Yaml.Node.readInt ∧ Stmt.AllChecked comparingProgram ∧
      Describable (Stmt.listNodes comparingProgram) ∧
      ProgramWritten comparingNode comparingProgram ∧
      Gives (statements Yaml.Node.readInt comparingNode) fun ss' =>
        Stmt.shapes ss' = Stmt.shapes comparingProgram := by
  have hchecked : Stmt.AllChecked comparingProgram := by
    simp [comparingProgram, Identifier.Checked, Datatype.declarable, BinaryOp.known]
  have hd : Describable (Stmt.listNodes comparingProgram) := by
    constructor
    · intro st hst
      simp [comparingProgram, Stmt.listNodes, Stmt.nodes, Expr.optionNodes, Expr.nodes,
        Expr.listNodes, Identifier.node] at hst
      rcases hst with rfl | rfl | rfl <;> rfl
    · intro c hc
      simp [comparingProgram, Stmt.listNodes, Stmt.nodes, Expr.optionNodes, Expr.nodes,
        Expr.listNodes, Identifier.node] at hc
      rcases hc with rfl | rfl | rfl <;> rfl
  have hwritten : ProgramWritten comparingNode comparingProgram := by
    refine ⟨_, _, _, rfl, _, _, rfl, ?_, _, _, rfl, ?_, rfl⟩
    · exact ⟨_, _, _, Encode.hasParts_of_perm (List.reverse_perm [("type", _), ("name", _), _]),
        Encode.spells_text "char*", Encode.spells_text "s", _, rfl, _, Encode.hasKind_node ..⟩
    · refine ⟨_, _, Encode.hasParts_of_perm (List.reverse_perm [("cond", _), ("body", _)]), ?_, ?_⟩
      · exact ⟨_, _, _, _, Encode.hasKind_node ..,
          ⟨_, Encode.hasKind_node .., Encode.spells_text "s"⟩,
          _, Encode.hasKind_node .., Encode.spells_text "a"⟩
      · exact ⟨_, Encode.hasKind_node .., _, _,
          Encode.hasParts_of_perm (List.reverse_perm [("name", _), _]), Encode.spells_text "f",
          .inr ⟨_, _, _, rfl, _, _, rfl, ⟨_, Encode.hasKind_node ..⟩, rfl⟩⟩
  have hint : Yaml.IntReader.ReadsDecimal Yaml.Node.readInt := Yaml.Node.readInt_decimal
  exact ⟨hint, hchecked, hd, hwritten, (decode_encode hint hchecked hd).2.2 _ hwritten⟩

end Stepwise
