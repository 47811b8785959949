import Mathlib.Data.List.Basic
import Mathlib.Logic.Function.Basic
import Macula.Lib.Fifo

/-!
# The state of a pool

A pool is shared by tasks that run on several threads: those that make a `Pool::call` or a
`Pool::publish`, the lifecycle tasks that dial one link each, the discovery loop, and
whoever calls `Pool::close`.  The state is what they share, together with where each of
them is in its code.

Each task advances by one shared access at a time: the load, store or exchange of an
atomic, the arrival in the queue of a `Mutex`, the access to what the `Mutex` guards once
the queue has granted it, its release, the completion of a network operation.  A program
point names the access that comes *next*.

A `Session` is a number, fresh for each handshake, so that two sessions of one link can be
told apart.  Links are numbered in the order of their creation and keep their number, as
tasks keep their `Arc` of a link that `Pool::links` has dropped.  What the tasks never
read about a link (its seed, its trust, the NodeId of its peer) is left out.
-/

namespace Macula.Pool

abbrev LinkId := Nat
abbrev TaskId := Nat
abbrev SessionId := Nat

/-- `LinkOrigin`. -/
inductive LinkOrigin where
  | bootstrap
  | discovered
deriving DecidableEq

/-- `DISCOVERY_LINK_MAX_RESPAWN_ATTEMPTS` -/
def discoveryLinkMaxRespawnAttempts : Nat := 5

def shouldGiveUp (origin : LinkOrigin) (consecutiveFailures : Nat) : Bool :=
  origin = .discovered && decide (consecutiveFailures ≥ discoveryLinkMaxRespawnAttempts)

/-! ## Who takes part -/

/-- A party that queues for a lock: a task, or the caller of `Pool::close`. -/
inductive Who where
  | task (t : TaskId)
  | closer
deriving DecidableEq

/-- `Pool::call` or `Pool::publish`. -/
inductive Op where
  | call
  | publish
deriving DecidableEq

/-- The program points of `Pool::call` and `Pool::publish`.  `rest` are the candidates
still to be tried. -/
inductive CallerPc where
  | start
  /-- `select_connected_links`: `todo` are the links whose `connected` is still to be read. -/
  | selecting (todo connected : List LinkId)
  | next (rest : List LinkId)
  /-- In the queue of `link.state`. -/
  | locking (l : LinkId) (rest : List LinkId)
  /-- Holds `link.state`, with no session in it. -/
  | absent (l : LinkId) (rest : List LinkId)
  /-- Holds `link.state`, its operation on the session under way. -/
  | calling (l : LinkId) (g : SessionId) (rest : List LinkId)
  | answered (l : LinkId) (rest : List LinkId)
  /-- Holds `link.state`, its operation on session `g` failed. -/
  | failed (l : LinkId) (g : SessionId) (rest : List LinkId)
  /-- Inside `mark_disconnected`, from here to `spawned`. -/
  | marking (l : LinkId) (g : SessionId) (rest : List LinkId)
  | markLocking (l : LinkId) (g : SessionId) (rest : List LinkId)
  | cleared (l : LinkId) (rest : List LinkId)
  | flagged (l : LinkId) (rest : List LinkId)
  | claiming (l : LinkId) (rest : List LinkId)
  | claimed (l : LinkId) (rest : List LinkId)
  | spawning (l : LinkId) (rest : List LinkId)
  | spawned (rest : List LinkId)
  | done
deriving DecidableEq

/-- The program points of `link_lifecycle_future`. -/
inductive LifePc where
  /-- Spawned and not polled yet. -/
  | start
  | check
  /-- `connection::connect` is under way. -/
  | dialing
  | dialed (g : SessionId)
  | locking (g : SessionId)
  /-- Holds `link.state`, the session written. -/
  | installed
  | released
  | connectedStored
  | failedDial
  | givingUp
  | sleeping
  | woken
  /-- `run_link_lifecycle` has returned, `redialing` is still set. -/
  | returning
  | done
deriving DecidableEq

/-- The program points of `discover_stations_loop`. -/
inductive DiscPc where
  | start
  /-- `wait_for_any_healthy_link`, up to `napWoken`. -/
  | waiting
  | probing (todo : List LinkId) (healthy : Bool)
  | napping
  | napWoken
  | check
  /-- `resolve_list_stations_realm`, up to `askRelease`. -/
  | resolving (todo : List LinkId)
  | asking (l : LinkId)
  | askLocking (l : LinkId)
  | scanning (l : LinkId)
  | askRelease (l : LinkId) (found : Bool)
  | calling (pc : CallerPc)
  /-- `add_discovered_links`, up to `spawned`. -/
  | rows
  | peeking (l : LinkId)
  | peeked (l : LinkId)
  | claiming (l : LinkId)
  | claimed (l : LinkId)
  | spawning (l : LinkId)
  | spawned
  | idle
  | idleWoken
  | done
deriving DecidableEq

/-- The program points of `Pool::close`; `idle` before it is called. -/
inductive ClosePc where
  | idle
  | start
  | sent
  | tasksLocking
  /-- Holds `tasks`, inside `JoinSet::shutdown`. -/
  | shutting
  | emptied
  | draining
  | next (rest : List LinkId)
  | locking (l : LinkId) (rest : List LinkId)
  | closing (l : LinkId) (rest : List LinkId)
  | storing (l : LinkId) (rest : List LinkId)
  | releasing (l : LinkId) (rest : List LinkId)
  | done
deriving DecidableEq

/-- What a task runs. -/
inductive Proc where
  | caller (op : Op) (pc : CallerPc)
  | life (l : LinkId) (pc : LifePc)
  | disc (pc : DiscPc)
  | ended
deriving DecidableEq

/-- A `stop_rx` is alive: after `subscribe`, until the function that holds it returns. -/
def Proc.receiving : Proc → Bool
  | .life _ .start | .life _ .returning | .life _ .done => false
  | .life _ _ => true
  | .disc .start | .disc .done => false
  | .disc _ => true
  | _ => false

/-- The task was spawned on `Pool::tasks` and has not finished. -/
def Proc.live : Proc → Bool
  | .life _ pc => pc ≠ .done
  | .disc pc => pc ≠ .done
  | _ => false

/-! ## The shared state -/

/-- `PooledLink`.  `lock` is the queue of its `state`, `session` what `state` guards. -/
structure Link where
  origin : LinkOrigin
  session : Option SessionId
  lock : List Who
  connected : Bool
  consecutiveFailures : Nat
  gaveUp : Bool
  redialing : Bool
deriving DecidableEq

/-- `PooledLink::new` -/
def Link.new (origin : LinkOrigin) : Link where
  origin := origin
  session := none
  lock := []
  connected := false
  consecutiveFailures := 0
  gaveUp := false
  redialing := false

/-- `PoolOptions`, as far as the control flow depends on them.  `random` is the resolved
`LinkSelection`, `pinned` whether the pool's trust is `Trust::Pinned`. -/
structure Options where
  random : Bool
  replicationFactor : Nat
  discovery : Bool
  maxLinks : Nat
  pinned : Bool

structure State where
  /-- Every link ever made, by its number; those from `numLinks` on do not exist yet. -/
  link : LinkId → Link
  numLinks : Nat
  /-- `Pool::links` -/
  links : List LinkId
  /-- The value of the `watch` channel. -/
  stop : Bool
  /-- The queue of the `Mutex` around `Pool::tasks`. -/
  tasksLock : List Who
  /-- Where each task is; those from `numTasks` on do not exist yet. -/
  proc : TaskId → Proc
  numTasks : Nat
  close : ClosePc
  nextSession : SessionId

namespace State

/-! ## Accesses to it -/

def modify (s : State) (l : LinkId) (f : Link → Link) : State :=
  { s with link := Function.update s.link l (f (s.link l)) }

def enqueue (s : State) (l : LinkId) (w : Who) : State :=
  s.modify l (fun link => { link with lock := Fifo.enqueue link.lock w })

def leave (s : State) (l : LinkId) (w : Who) : State :=
  s.modify l (fun link => { link with lock := Fifo.leave link.lock w })

def setSession (s : State) (l : LinkId) (session : Option SessionId) : State :=
  s.modify l (fun link => { link with session := session })

def setConnected (s : State) (l : LinkId) (b : Bool) : State :=
  s.modify l (fun link => { link with connected := b })

def setRedialing (s : State) (l : LinkId) (b : Bool) : State :=
  s.modify l (fun link => { link with redialing := b })

def setFailures (s : State) (l : LinkId) (n : Nat) : State :=
  s.modify l (fun link => { link with consecutiveFailures := n })

def setGaveUp (s : State) (l : LinkId) : State :=
  s.modify l (fun link => { link with gaveUp := true })

def enqueueTasks (s : State) (w : Who) : State :=
  { s with tasksLock := Fifo.enqueue s.tasksLock w }

def leaveTasks (s : State) (w : Who) : State :=
  { s with tasksLock := Fifo.leave s.tasksLock w }

def setProc (s : State) (t : TaskId) (p : Proc) : State :=
  { s with proc := Function.update s.proc t p }

def setClose (s : State) (pc : ClosePc) : State := { s with close := pc }

@[simp] theorem setClose_close (s : State) (pc : ClosePc) : (s.setClose pc).close = pc := rfl

/-- A new task. -/
def spawn (s : State) (p : Proc) : State :=
  { s.setProc s.numTasks p with numTasks := s.numTasks + 1 }

/-- A handshake completed: its session has the next number. -/
def newSession (s : State) : State := { s with nextSession := s.nextSession + 1 }

/-- `links.push(PooledLink::new(..))` of a discovered link. -/
def pushLink (s : State) : State :=
  { s with
    link := Function.update s.link s.numLinks (Link.new .discovered)
    numLinks := s.numLinks + 1
    links := s.links ++ [s.numLinks] }

/-- The number of live receivers of the `watch` channel is positive. -/
def hasReceiver (s : State) : Bool := (List.range s.numTasks).any (fun t => (s.proc t).receiving)

/-- Some task of the `JoinSet` has not finished. -/
def anyLive (s : State) : Bool := (List.range s.numTasks).any (fun t => (s.proc t).live)

/-- `count_occupied_discovery_slots` -/
def occupiedDiscoverySlots (s : State) : Nat :=
  (s.links.filter (fun l => (s.link l).origin = .discovered && !(s.link l).gaveUp)).length

end State

end Macula.Pool
