import Milp.Demonstration

/-!
# The program

Runs the demonstration with the engines named on the command line, prints its course, and ends with
its exit code. A fault is printed apart and ends with code one.
-/

open Milp

def main (found : List String) : IO UInt32 := do
  let report := Demonstration.run found
  for line in report.lines do
    IO.println line
  match report.outcome with
  | .ok code => return code.toNat.toUInt32
  | .error f =>
    IO.eprintln (Demonstration.written f.message)
    return 1
