import Balancer.Number.Arithmetic

/-!
# Timers

* `Balancer.Session.Timer` – a registered timer.
* `Balancer.Session.Timer.earlier` – **the order in which timers fire**: by due time, and in
  the order of registration at the same time.
* `Balancer.Session.Timer.firstDue?` – the next timer to fire up to some time.
-/

namespace Balancer.Session

/-- What a timer is for. -/
inductive TimerOwner
  /-- The first poll of a refresher. -/
  | delay (refresher : Nat)
  /-- The later polls of a refresher. -/
  | period (refresher : Nat)
  /-- A wait of the program itself. -/
  | alarm
  deriving DecidableEq

/-- **A registered timer.** -/
structure Timer where
  /-- Its number, in the order of registration. -/
  id : Nat
  /-- When it fires. -/
  due : Binary64
  /-- The time between its firings, if it fires more than once. -/
  every : Option Binary64
  /-- What it is for. -/
  owner : TimerOwner
  deriving DecidableEq

namespace Timer

/-- Whether a timer lets the program end while it waits; only a wait of the program itself
does not. -/
def detached (t : Timer) : Bool := t.owner != .alarm

/-- **The order in which timers fire.** -/
def earlier (a b : Timer) : Bool :=
  a.due.lt b.due || (!b.due.lt a.due && a.id < b.id)

/-- The timer that fires first. -/
def first? : List Timer → Option Timer
  | [] => none
  | t :: ts => some (ts.foldl (fun best t => if t.earlier best then t else best) t)

/-- **The timer that fires next**, if one is due by some time. -/
def firstDue? (timers : List Timer) (time : Binary64) : Option Timer :=
  first? (timers.filter fun t => t.due.le time)

/-- The timers in the order in which they fire. -/
def inOrder (timers : List Timer) : List Timer :=
  timers.mergeSort fun a b => !b.earlier a

end Timer

end Balancer.Session
