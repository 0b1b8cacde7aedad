import Balancer.Session.Perform

/-!
# Transitions

* `Balancer.Session.Machine.answer` – a naming service answers its caller.
* `Balancer.Session.Machine.work` – **a piece of waiting work is done**.
* `Balancer.Session.Machine.resume` – what returned is taken up by the frame that waited for it.
* `Balancer.Session.Machine.next` – **one transition**; a machine that delivers to an empty
  stack has finished, and stays as it is.
-/

namespace Balancer.Session.Machine

/-! ### Answers to lookups -/

/-- **A naming service answers its caller.** The caller gets a number, if a step made the call;
what it waits for is open, is work that waits, or has failed. -/
def answer (w : World) (k : List Frame) (provider : String) (number : Nat)
    (services : List String) (caller : Caller) (answer : Answer) : Machine :=
  let call := w.callCount + 1
  let counted := { w with callCount := call }
  let wait (w : World) (waiter : Waiter) : World :=
    match answer with
    | .settled settlement =>
      w.enqueue (.answered waiter (settlementOf w provider services settlement))
    | .pending => { w with lookups := w.lookups ++ [⟨number, provider, services, waiter⟩] }
    | .throws failure =>
      match waiter with
      | .binding call service _ => w.endBinding call (.error (.ofLookup service failure))
      | .cycle refresher _ origin _ => w.failCycle refresher origin failure
  match caller with
  | .binding service => give (wait counted (.binding call service provider)) k (.call call)
  | .poll refresher generation => done (wait w (.cycle refresher generation .timer services)) k
  | .refresh refresher generation =>
    give (wait counted (.cycle refresher generation (.call call) services)) k (.call call)

/-! ### Waiting work -/

/-- **A piece of waiting work is done.** -/
def work (w : World) (k : List Frame) : Job → Machine
  | .answered (.binding call service _) (.error failure) =>
    done (w.endBinding call (.error (.ofLookup service failure))) k
  | .answered (.binding call service provider) (.ok listing) =>
    let endpoints := (listing.bind fun l => l.get? service).getD []
    let timings := w.runningTimings
    let w := w.stopPolling.modifyStrategy fun s => s.bind service provider
    reset w (.bound call timings :: k) service endpoints
  | .answered (.cycle refresher _ origin _) (.error failure) =>
    done (w.failCycle refresher origin failure) k
  | .answered (.cycle refresher generation origin services) (.ok listing) =>
    goOn w k ⟨refresher, generation, origin, services, listing.getD Table.empty⟩
  | .taken cycle (.ok _) => goOn w k cycle
  | .taken cycle (.error failure) => done (w.failCycle cycle.refresher cycle.origin failure) k
  | .rejected failure => done (w.log .error listenerFailed (some failure)).1 k
  | .released number => done (w.modifyRefresher number fun r => { r with inFlight := false }) k

/-! ### Resuming -/

/-- **What returned is taken up** by the frame that waited for it. -/
def resume (w : World) (k : List Frame) (outcome : Outcome) : Frame → Machine
  | .script rest => runScript (w.emit (.nested outcome)) k rest
  | .listener ending =>
    match ending with
    | .throws failure => finish (w.log .error listenerFailed (some failure)) k
    | .rejects failure => done (w.enqueue (.rejected failure)) k
    | .returns | .pending => done w k
    | .deferred => done { w with deferred := w.deferred + 1 } k
  | .lookup provider number services caller reply =>
    answer w k provider number services caller reply
  | .callback number cycle ending =>
    match ending with
    | .throws failure => done (w.failCycle cycle.refresher cycle.origin failure) k
    | .rejects failure => done (w.enqueue (.taken cycle (.error failure))) k
    | .returns => done (w.enqueue (.taken cycle (.ok ()))) k
    | .pending | .deferred =>
      done { w with callback := w.callback.map fun c =>
        { c with pending := c.pending ++ [⟨number, cycle⟩] } } k
  | .taken cycle =>
    match outcome with
    | .ok _ => done (w.enqueue (.taken cycle (.ok ()))) k
    | .error failure => done (w.failCycle cycle.refresher cycle.origin failure) k
  | .bound call timings =>
    match outcome, timings with
    | .error failure, _ => done (w.endBinding call (.error failure)) k
    | .ok _, none => done (w.endBinding call (.ok ())) k
    | .ok _, some timings =>
      let (w, started) := w.startPolling (some timings.delay) (some timings.period)
      done (w.endBinding call started) k
  | .arm refresher => done (w.armPeriod refresher) k
  | .advance time settling =>
    match settling, w.jobs with
    | true, job :: jobs => work { w with jobs := jobs } (.advance time settling :: k) job
    | _, _ =>
      match Timer.firstDue? w.timers time with
      | some t => fire w (.advance time settling :: k) t
      | none => give { w with clock := time } k (if settling then .nothing else .unawaited)
  | .settle first =>
    let first := first.getD outcome
    match w.jobs with
    | job :: jobs => work { w with jobs := jobs } (.settle (some first) :: k) job
    | [] => ⟨w, k, .deliver first⟩

/-- Whether nothing remains to be done. -/
def finished : Machine → Bool
  | ⟨_, [], .deliver _⟩ => true
  | _ => false

/-- **One transition**; a machine that has finished stays as it is. -/
def next : Machine → Machine
  | ⟨w, k, .perform step⟩ => perform w k step
  | ⟨w, frame :: k, .deliver outcome⟩ => resume w k outcome frame
  | ⟨w, [], .deliver outcome⟩ => ⟨w, [], .deliver outcome⟩

end Balancer.Session.Machine
