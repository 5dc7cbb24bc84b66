import Stepwise.Session.Basic
import Stepwise.Text.Lines
import Stepwise.Text.Quoted
import Stepwise.View.Paint

/-!
# Session - Reports

What is printed about the current state of a session: the number of steps, the
view, what the next step is about, the variables and the output.

Main definitions:

- `Session.report`, the report of the current state.
- `Session.trace`, the reports of all states up to the end.
-/

namespace Stepwise

namespace Session

variable {Store : Type}

/-- A text in one line: its words with a blank between them. -/
def oneLine (s : String) : String := " ".intercalate (Text.words s)

/-- What the next step is about. -/
def nextText (s : Session Store) (v : View) : String :=
  if s.done then "terminated"
  else
    let subject :=
      match v.focus with
      | some r => v.textOf r
      | none => (s.state.current.get?.map fun c => (Node.stmt c).source).getD ""
    "next: " ++ oneLine subject

/-- The report of the current state, given its view. -/
def reportOf (s : Session Store) (colored : Bool) (v : View) : String :=
  paintIf colored (some .faint) ("-- step " ++ toString s.steps ++ " --") ++ "\n" ++
    v.paint colored ++ s.nextText v ++ "\n" ++
    "env: " ++ s.env.text ++ "\n" ++
    "output: " ++ Text.Escaped.quote s.output ++ "\n"

/-- The report of the current state. -/
def report [ViewStore Store] (s : Session Store) (colored : Bool) :
    Session Store × Except NodeError String :=
  match s.view with
  | (s', .ok v) => (s', .ok (s'.reportOf colored v))
  | (s', .error e) => (s', .error e)

/-- The end of a trace: the session, the reports and what stopped it. -/
structure Trace (Store : Type := ViewCache) where
  session : Session Store
  reports : Array String
  error : Option SessionError
  deriving Inhabited

/-- Report and step in turn until the program terminates or fails, or until a
positive limit of steps is reached.  There is no answer while `fuel` steps do not
suffice. -/
def traceFrom [ViewStore Store] (colored : Bool) (limit : Int) (reports : Array String)
    (s : Session Store) : Nat → Option (Trace Store)
  | 0 => none
  | fuel + 1 =>
    match s.report colored with
    | (s, .error e) => some ⟨s, reports, some (.node e)⟩
    | (s, .ok text) =>
      let reports := reports.push text
      if s.done then some ⟨s, reports, none⟩
      else if 0 < limit ∧ limit ≤ s.steps then
        some ⟨s, reports, some (.eval (.stepLimit s.steps))⟩
      else
        match s.step with
        | (s, some e) => some ⟨s, reports, some (.eval e)⟩
        | (s, none) => traceFrom colored limit reports s fuel

/-- The reports of all states up to the end. -/
def trace [ViewStore Store] (s : Session Store) (colored : Bool) (limit : Int) (fuel : Nat) :
    Option (Trace Store) :=
  s.traceFrom colored limit #[] fuel

end Session

end Stepwise
