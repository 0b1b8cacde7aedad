import Balancer.Calendar

/-!
# Log lines

* `Balancer.Level` – how grave a log line is.
* `Balancer.Line` – a line of the console: its level, its text and a failure beside it.
* `Balancer.Line.stamped` – **the console line of a log call**: time stamp, scope and
  message; an information shows no failure, and a failure that is nothing is not shown.
-/

namespace Balancer

/-- **How grave a log line is.** -/
inductive Level
  /-- The usual course. -/
  | info
  /-- Something to look at. -/
  | warn
  /-- Something went wrong. -/
  | error
  deriving DecidableEq

/-- **A line of the console.** -/
structure Line where
  /-- How grave it is. -/
  level : Level
  /-- What it begins with: a text, unless a failure stands alone. -/
  text : Option String
  /-- The failure shown beside the text. -/
  failure : Option Failure
  deriving DecidableEq

namespace Line

/-- A line that holds a text. -/
def plain (text : String) : Line := ⟨.info, some text, none⟩

/-- The failure that a line shows for a log call. -/
def shown (level : Level) (failure : Option Failure) : Option Failure :=
  if level = .info then none else failure.filter (· != .missing)

/-- **The console line of a log call**, if the clock shows a date. -/
def stamped (scope : String) (clock : Binary64) (level : Level) (message : String)
    (failure : Option Failure) : Except Failure Line := do
  let stamp ← Calendar.stamp clock
  return ⟨level, some ("[" ++ stamp ++ "] [" ++ scope ++ "] " ++ message), shown level failure⟩

end Line

end Balancer
