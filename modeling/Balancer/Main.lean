import Balancer.Demonstration

/-!
# The demonstration on the console

* `main` – runs the demonstration program with the settings of the process, on a clock of its
  own that begins with the year 1970, and writes its lines to the console; warnings and
  errors go to the error output. The exit code is that of the program.
-/

namespace Balancer.Demonstration

/-- A failure as the console shows it. -/
def failureText (f : Failure) : String :=
  let reason := f.reason.toOption.getD "[value without a text]"
  match f.name? with
  | some name => name ++ ": " ++ reason
  | none => reason

/-- The text of a line. -/
def lineText (l : Line) : String :=
  String.intercalate " " (l.text.toList ++ l.failure.toList.map failureText)

/-- **A line is written** to the output of its level. -/
def writeLine (l : Line) : IO Unit :=
  match l.level with
  | .info => IO.println (lineText l)
  | .warn | .error => IO.eprintln (lineText l)

/-- The settings of the process. -/
def readSettings : IO Settings := do
  let delay ← IO.getEnv TimingField.delay.setting
  let period ← IO.getEnv TimingField.period.setting
  return ⟨delay, period⟩

end Balancer.Demonstration

open Balancer in
/-- **The program**: the demonstration with the settings of the process. -/
def main : IO UInt32 := do
  let run := Demonstration.run (← Demonstration.readSettings) .zero
  run.lines.forM Demonstration.writeLine
  return (run.exitCode.getD 0).toUInt32
