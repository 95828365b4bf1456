import DumpBridge.Command.Convert
import DumpBridge.Command.Enums

/-!
# Running a command

The result of a command is its exit status: nothing went wrong, something did, the arguments make no
sense, or the standard output broke off under a report.
-/

namespace DumpBridge.Command

open Disk (Host)

variable {m : Type → Type} [Monad m] [Host m]

/-- How a command ends. -/
inductive Status where
  | success
  | failure
  | badUsage
  /-- The standard output broke off. -/
  | crashed
  deriving DecidableEq, Repr

/-- The number of an exit status. -/
def Status.code : Status → Nat
  | success => 0
  | failure => 1
  | badUsage => 2
  | crashed => 101

/-- How the commands are used. -/
def usage : Text :=
  ("Usage: convert <FILE> [-o PATH] [-c PATH] [-p] [--strict] [--dry-run] [--json] " ++
    "[--fail-fast]\n       enums <FILE> [-c PATH] [--json]\n").toList

/-- Does what a command says.  The result says whether all went well. -/
def perform (unpackers : Source.Unpackers) : Args → Action m Bool
  | .convert args => convert unpackers args
  | .enums args => do
    listEnums unpackers args
    return true

/-- Runs the command that arguments stand for, with unpackers from outside. -/
def runWith (unpackers : Source.Unpackers) (args : List Text) : m Status := do
  match Args.parse? args with
  | none =>
    Host.err usage
    return .badUsage
  | some args =>
    match ← (perform unpackers args : Action m _).run with
    | .ok true => return .success
    | .ok false => return .failure
    | .error (.cannotReport cause) =>
      Host.err ((Failure.cannotReport cause).message ++ ['\n'])
      return .crashed
    | .error failure =>
      Host.err ("Error: ".toList ++ failure.fullMessage ++ ['\n'])
      return .failure

/-- Runs the command that arguments stand for. -/
def run (args : List Text) : m Status :=
  runWith .builtin args

end DumpBridge.Command
