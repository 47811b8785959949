import Mathlib.Algebra.Group.Nat.Defs
import Macula.Lib.Runs
import Macula.Pool.State

/-!
# The steps of a pool

One function for the code of each kind of task, with one case for each program point.
What the code does not decide (whether a dial or a call succeeds, which branch a `select!`
takes, the order a shuffle gives, the rows a station answers) is the `Choice` that comes
with the step.

`step` is an event of the pool as a whole: an operation begins, a task takes its next
step, the future of a task is dropped, `Pool::close` is called or takes its next step.
-/

namespace Macula.Pool

inductive Choice where
  /-- The only way on, or success. -/
  | go
  | fails
  /-- `stop_rx.changed()` wins the `select!`. -/
  | changed
  /-- The order in which `select_links` returns the connected links. -/
  | order (ls : List LinkId)
  /-- The link of the pool that `has_link_for_node_id` looks at. -/
  | peek (l : LinkId)
  /-- A row with a seed that no link has. -/
  | row
deriving DecidableEq

inductive Event where
  | begin (op : Op)
  | run (t : TaskId) (c : Choice)
  /-- The future of `t` is dropped where it awaits. -/
  | drop (t : TaskId)
  | close
  | runClose
deriving DecidableEq

/-- `w` holds `link.state`. -/
def State.Granted (s : State) (l : LinkId) (w : Who) : Prop := Fifo.Granted (s.link l).lock w

def State.TasksGranted (s : State) (w : Who) : Prop := Fifo.Granted s.tasksLock w

instance (s : State) (l : LinkId) (w : Who) : Decidable (s.Granted l w) :=
  inferInstanceAs (Decidable (Fifo.Granted _ _))

instance (s : State) (w : Who) : Decidable (s.TasksGranted w) :=
  inferInstanceAs (Decidable (Fifo.Granted _ _))

variable (o : Options)

/-! ## Calls and publishes -/

/-- `ls` is a possible result of `select_links`. -/
def selectLinks (connected ls : List LinkId) : Bool :=
  if o.random then ls.isPerm connected else ls = connected

/-- How many of the candidates the operation tries. -/
def Op.targets (op : Op) (candidates : List LinkId) : List LinkId :=
  match op with
  | .call => candidates
  | .publish => candidates.take (max o.replicationFactor 1)

/-- `Pool::call` and `Pool::publish`, with `mark_disconnected`.  They differ in how many
candidates they try, and in that a call returns with the first answer. -/
def stepCaller (s : State) (w : Who) (op : Op) : CallerPc → Choice → Option (State × CallerPc)
  | .start, .go => some (s, .selecting s.links [])
  | .selecting (l :: todo) connected, .go =>
    some (s, .selecting todo (if (s.link l).connected then connected ++ [l] else connected))
  | .selecting [] connected, .order ls =>
    if selectLinks o connected ls then some (s, .next (op.targets o ls)) else none
  | .next [], .go => some (s, .done)
  | .next (l :: rest), .go => some (s.enqueue l w, .locking l rest)
  | .locking l rest, .go =>
    if s.Granted l w then
      match (s.link l).session with
      | none => some (s, .absent l rest)
      | some g => some (s, .calling l g rest)
    else none
  | .absent l rest, .go => some (s.leave l w, .next rest)
  | .calling l _ rest, .go => some (s, .answered l rest)
  | .calling l g rest, .fails => some (s, .failed l g rest)
  | .answered l rest, .go =>
    some (s.leave l w, match op with | .call => .done | .publish => .next rest)
  | .failed l g rest, .go => some (s.leave l w, .marking l g rest)
  | .marking l g rest, .go => some (s.enqueue l w, .markLocking l g rest)
  | .markLocking l _ rest, .go =>
    if s.Granted l w then some (s.setSession l none, .cleared l rest) else none
  | .cleared l rest, .go => some (s.setConnected l false, .flagged l rest)
  | .flagged l rest, .go => some (s.leave l w, .claiming l rest)
  -- `try_claim_redial`
  | .claiming l rest, .go =>
    if (s.link l).redialing then some (s, .next rest)
    else some (s.setRedialing l true, .claimed l rest)
  | .claimed l rest, .go => some (s.enqueueTasks w, .spawning l rest)
  | .spawning l rest, .go =>
    if s.TasksGranted w then some (s.spawn (.life l .start), .spawned rest) else none
  | .spawned rest, .go => some (s.leaveTasks w, .next rest)
  | _, _ => none

/-! ## Lifecycle tasks -/

/-- `link_lifecycle_future`, with `run_link_lifecycle`. -/
def stepLife (s : State) (w : Who) (l : LinkId) : LifePc → Choice → Option (State × LifePc)
  | .start, .go => some (s, .check)
  | .check, .go => some (s, if s.stop then .returning else .dialing)
  | .dialing, .go => some (s.newSession, .dialed s.nextSession)
  | .dialing, .fails => some (s, .failedDial)
  | .dialed g, .go => some (s.enqueue l w, .locking g)
  | .locking g, .go => if s.Granted l w then some (s.setSession l (some g), .installed) else none
  | .installed, .go => some (s.leave l w, .released)
  | .released, .go => some (s.setConnected l true, .connectedStored)
  | .connectedStored, .go => some (s.setFailures l 0, .returning)
  | .failedDial, .go =>
    -- `fetch_add` and the sum of a release build wrap around
    let failures := ((s.link l).consecutiveFailures + 1) % 2 ^ 32
    some (s.setFailures l failures,
      if shouldGiveUp (s.link l).origin failures then .givingUp else .sleeping)
  | .givingUp, .go => some (s.setGaveUp l, .returning)
  | .sleeping, .go => some (s, .check)
  -- the value is only ever sent by `close`, so a change is there to be seen once it is set
  | .sleeping, .changed => if s.stop then some (s, .woken) else none
  | .woken, .go => some (s, if s.stop then .returning else .check)
  | .returning, .go => some (s.setRedialing l false, .done)
  | _, _ => none

/-! ## The discovery loop -/

/-- `discover_stations_loop`.  It takes part in the locks, the call and the spawning like
any other task; what the records and rows it reads say is left to the choice. -/
def stepDisc (s : State) (w : Who) : DiscPc → Choice → Option (State × DiscPc)
  | .start, .go => some (s, if o.pinned then .done else .waiting)
  | .waiting, .go => some (s, if s.stop then .done else .probing s.links false)
  | .probing (l :: todo) healthy, .go =>
    some (s, .probing todo (healthy || (s.link l).connected))
  | .probing [] healthy, .go => some (s, if healthy then .check else .napping)
  | .napping, .go => some (s, .waiting)
  | .napping, .changed => if s.stop then some (s, .napWoken) else none
  | .napWoken, .go => some (s, if s.stop then .done else .waiting)
  | .check, .go => some (s, if s.stop then .done else .resolving s.links)
  | .resolving (l :: todo), .go =>
    some (s, if (s.link l).connected then .asking l else .resolving todo)
  | .resolving [], .go => some (s, .idle)
  | .asking l, .go => some (s.enqueue l w, .askLocking l)
  | .askLocking l, .go =>
    if s.Granted l w then
      some (s, if (s.link l).session.isSome then .scanning l else .askRelease l false)
    else none
  | .scanning l, .go => some (s, .askRelease l true)
  | .scanning l, .fails => some (s, .askRelease l false)
  | .askRelease l found, .go => some (s.leave l w, if found then .calling .start else .idle)
  | .calling .done, .go => some (s, .rows)
  | .calling .done, .fails => some (s, .idle)
  | .calling pc, c => (stepCaller o s w .call pc c).map (fun r => (r.1, .calling r.2))
  | .rows, .go => some (s, .idle)
  | .rows, .peek l =>
    if l ∈ s.links ∧ (s.link l).connected then some (s.enqueue l w, .peeking l) else none
  | .peeking l, .go => if s.Granted l w then some (s, .peeked l) else none
  | .peeked l, .go => some (s.leave l w, .rows)
  | .rows, .row =>
    if s.occupiedDiscoverySlots < o.maxLinks then some (s.pushLink, .claiming s.numLinks)
    else none
  | .claiming l, .go =>
    if (s.link l).redialing then some (s, .rows)
    else some (s.setRedialing l true, .claimed l)
  | .claimed l, .go => some (s.enqueueTasks w, .spawning l)
  | .spawning l, .go =>
    if s.TasksGranted w then some (s.spawn (.life l .start), .spawned) else none
  | .spawned, .go => some (s.leaveTasks w, .rows)
  | .idle, .go => some (s, .check)
  | .idle, .changed => if s.stop then some (s, .idleWoken) else none
  | .idleWoken, .go => some (s, if s.stop then .done else .check)
  | _, _ => none

/-! ## Closing -/

/-- `Pool::close`. -/
def stepClose (s : State) : ClosePc → Option (State × ClosePc)
  -- `watch::Sender::send` leaves the value alone when nobody receives
  | .start => some ({ s with stop := s.stop || s.hasReceiver }, .sent)
  | .sent => some (s.enqueueTasks .closer, .tasksLocking)
  | .tasksLocking => if s.TasksGranted .closer then some (s, .shutting) else none
  -- `JoinSet::shutdown` aborts the tasks (`drop`) and waits until all are finished
  | .shutting => if s.anyLive then none else some (s, .emptied)
  | .emptied => some (s.leaveTasks .closer, .draining)
  | .draining => some ({ s with links := [] }, .next s.links)
  | .next [] => some (s, .done)
  | .next (l :: rest) => some (s.enqueue l .closer, .locking l rest)
  | .locking l rest =>
    if s.Granted l .closer then
      some (s.setSession l none,
        if (s.link l).session.isSome then .closing l rest else .storing l rest)
    else none
  | .closing l rest => some (s, .storing l rest)
  | .storing l rest => some (s.setConnected l false, .releasing l rest)
  | .releasing l rest => some (s.leave l .closer, .next rest)
  | .idle | .done => none

/-! ## Dropping a future -/

/-- A call or publish dropped where it awaits leaves the queue it is in, or releases the
lock it holds. -/
def dropCaller (s : State) (w : Who) : CallerPc → Option State
  | .start => some s
  | .locking l _ | .calling l _ _ | .markLocking l _ _ => some (s.leave l w)
  | .spawning _ _ => some (s.leaveTasks w)
  | _ => none

def dropLife (s : State) (w : Who) (l : LinkId) : LifePc → Option State
  | .start | .dialing | .sleeping => some s
  | .locking _ => some (s.leave l w)
  | _ => none

def dropDisc (s : State) (w : Who) : DiscPc → Option State
  | .start | .waiting | .napping | .check | .rows | .idle => some s
  | .askLocking l | .scanning l | .peeking l => some (s.leave l w)
  | .calling pc => dropCaller s w pc
  | .spawning _ => some (s.leaveTasks w)
  | _ => none

/-- The futures of calls and publishes can be dropped by their owner at any time, those of
the `JoinSet` by `JoinSet::shutdown`. -/
def dropProc (s : State) (t : TaskId) : Option State :=
  match s.proc t with
  | .caller _ pc => dropCaller s (.task t) pc
  | .life l pc => if s.close = .shutting then dropLife s (.task t) l pc else none
  | .disc pc => if s.close = .shutting then dropDisc s (.task t) pc else none
  | .ended => none

/-! ## The pool -/

/-- The next step of task `t`. -/
def stepTask (s : State) (t : TaskId) (c : Choice) : Option State :=
  match s.proc t with
  | .caller op pc =>
    (stepCaller o s (.task t) op pc c).map (fun r => r.1.setProc t (.caller op r.2))
  | .life l pc => (stepLife s (.task t) l pc c).map (fun r => r.1.setProc t (.life l r.2))
  | .disc pc => (stepDisc o s (.task t) pc c).map (fun r => r.1.setProc t (.disc r.2))
  | .ended => none

def step (s : State) : Event → Option State
  | .begin op => some (s.spawn (.caller op .start))
  | .run t c => stepTask o s t c
  | .drop t => (dropProc s t).map (fun s' => s'.setProc t .ended)
  | .close => if s.close = .idle then some (s.setClose .start) else none
  | .runClose => (stepClose s s.close).map (fun r => r.1.setClose r.2)

/-- `Pool::connect` with `numSeeds` seeds: every link has its redial claimed and its
lifecycle task spawned before anything else runs. -/
def connect (numSeeds : Nat) : State where
  link l := { Link.new .bootstrap with redialing := decide (l < numSeeds) }
  numLinks := numSeeds
  links := List.range numSeeds
  stop := false
  tasksLock := []
  proc t :=
    if t < numSeeds then .life t .start
    else if t = numSeeds ∧ o.discovery then .disc .start
    else .ended
  numTasks := numSeeds + (if o.discovery then 1 else 0)
  close := .idle
  nextSession := 0

/-! ## Pieces of runs -/

/-- No shuffling, one target for a publish, no discovery. -/
def Options.plain : Options where
  random := false
  replicationFactor := 1
  discovery := false
  maxLinks := 0
  pinned := false

/-- A pool with one seed after the events. -/
def after (es : List Event) : State := runFrom (step .plain) (connect .plain 1) es

/-- `n` steps of `t` that leave no choice, or succeed. -/
def steps (t : TaskId) (n : Nat) : List Event := List.replicate n (.run t .go)

/-- The lifecycle task `t` connects its link. -/
def linkUp (t : TaskId) : List Event := steps t 9

/-- A call begins as task `t`, finds link 0 connected and arrives at its lock. -/
def callArrives (t : TaskId) : List Event :=
  .begin .call :: steps t 2 ++ .run t (.order [0]) :: steps t 1

/-- The call is granted the lock, its operation fails, and it releases the lock. -/
def callFails (t : TaskId) : List Event := steps t 1 ++ .run t .fails :: steps t 1

end Macula.Pool
