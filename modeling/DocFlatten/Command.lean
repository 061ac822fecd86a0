import DocFlatten.Command.Includes
import DocFlatten.Command.Reduce
import DocFlatten.Command.ShowSettings

/-! # Commands

Running the program on a command line.
-/

namespace DocFlatten.Command

open DocFlatten.CommandLine

/-- Carry out what a command line asks for. -/
def perform (fuel : Nat) (w : Surroundings) : Invocation → Outcome
  | .overview => .done w.files usage
  | .reduce arguments => reduce fuel w arguments
  | .includes file json => includes w file json
  | .config key json root => showSettings w key json root

/-- The outcome of a command line that is not carried out. -/
def stopped (files : FileTree) : Stop → Outcome
  | .help => .done files usage
  | .version => .done files (programName ++ " " ++ programVersion ++ "\n")
  | .refused => { files, errors := usage, status := .ok 1 }

/-- Run the program. -/
def run (fuel : Nat) (w : Surroundings) (args : List String) : Outcome :=
  match Invocation.read args with
  | .ok invocation => perform fuel w invocation
  | .error stop => stopped w.files stop

end DocFlatten.Command
