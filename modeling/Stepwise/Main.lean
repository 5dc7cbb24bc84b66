import Stepwise.Command.Execute

/-!
# The command line

Reads the files that a call names, carries the call out and prints what it has to
say.  A dialogue is held line by line.
-/

namespace Stepwise.CommandLine

/-- The text of a file, if it can be read. -/
def readText? (path : String) : IO (Option String) := do
  try
    return some (← IO.FS.readFile path)
  catch _ =>
    return none

/-- The files among paths that can be read. -/
def snapshot (paths : List String) : IO Directory := do
  let found ← paths.filterMapM fun path => do
    return (← readText? path).map fun text => (path, text)
  return ⟨found⟩

/-- Tell of a failure. -/
def report (e : CommandError) : IO UInt32 := do
  IO.eprintln (programName ++ ": " ++ e.message)
  return 1

/-- Print what a call leaves behind. -/
def conclude (o : Outcome) : IO UInt32 := do
  IO.print o.text
  match o.error with
  | some e => report e
  | none => return 0

/-- Octets with more of the input after them, until their first line is complete or
the input ends. -/
partial def readMore (input : IO.FS.Stream) (pending : List UInt8) : IO (List UInt8) := do
  if Text.Line.isComplete pending then return pending
  let more ← input.read Text.Line.limit.toUSize
  if more.isEmpty then return pending
  readMore input (pending ++ more.toList)

/-- Hold a dialogue until it or the input ends; `pending` is what was read before. -/
partial def hold (input : IO.FS.Stream) (pending : List UInt8) (d : Dialogue) : IO Turn := do
  IO.print "step> "
  (← IO.getStdout).flush
  match Text.Line.next? (← readMore input pending) with
  | none => return ⟨d, "", .ended⟩
  | some (line, rest) =>
    match d.respond line.octets with
    | none => return ⟨d, "", .ended⟩
    | some turn =>
      IO.print turn.text
      match turn.status with
      | .going => hold input rest turn.dialogue
      | status => return ⟨turn.dialogue, "", status⟩

/-- Keep the lines of a dialogue, where a file for them is named. -/
def keepHistory (setup : Setup) (h : History) : IO Unit := do
  if setup.config.historyFile != "" then
    try
      IO.FS.writeBinFile setup.config.historyFile ⟨h.octets.toArray⟩
    catch _ =>
      return

/-- Step through a program by the commands that are entered. -/
def converse (setup : Setup) (files : Directory) (s : Session) : IO UInt32 := do
  let kept ← snapshot [setup.config.historyFile]
  let first := Command.opening setup kept s
  IO.print first.text
  let last ← match first.status with
    | .going => hold (← IO.getStdin) [] first.dialogue
    | _ => pure first
  keepHistory setup last.dialogue.history
  conclude { Command.closing setup files last with text := "" }

end Stepwise.CommandLine

open Stepwise in
open Stepwise.CommandLine in
/-- Carry out a call. -/
def main (words : List String) : IO UInt32 := do
  let files ← snapshot (mentionedPaths words)
  let carryOut : IO UInt32 :=
    match execute words files [] with
    | some o => conclude o
    | none => return 1
  match Invocation.ofWords words with
  | .ok (.command .step p) =>
    match Setup.ofParsed p files with
    | .error e => report e
    | .ok setup =>
      match load setup files (p.args.headD "") with
      | .error e => report e
      | .ok l => converse setup files l.session
  | _ => carryOut
