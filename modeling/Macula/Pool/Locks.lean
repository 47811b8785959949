import Macula.Lib.LockOrder
import Macula.Lib.Runs
import Macula.Pool.State

/-!
# The locks of a pool

A pool has the `RwLock` around `Pool::links`, a `Mutex` around the state of each link and one
around `Pool::tasks`.  The model of `Macula.Pool.Step` reads `Pool::links` in one access; here
the readers and writers of `links` queue for it, and hold it for as long as their guards live.

Every operation of the pool is there with each program point at which it waits for a lock,
holds one, or awaits something else.  What the code decides from its data, and what comes
back from the network, is the `Choice` that comes with the step, so that there are more runs
here than in the code.  Any number of operations of each kind may be under way.

A queued writer of `links` keeps later readers waiting, `Pool::links` and the discovery loop
wait for the state of a link while they read `links`, `close` does while it writes them, and
waits for the background tasks while it has `tasks`.  Whoever has the state of a link, or
`tasks`, asks for no further lock, and what `close` waits for has been aborted.  So nobody
waits in a circle (`no_deadlock`), and somebody can always go on (`progress`).
-/

namespace Macula.Pool.Locks

open LockOrder

inductive Lock where
  | links
  | state (l : LinkId)
  | tasks
deriving DecidableEq

inductive Choice where
  /-- What is asked is so, what is awaited succeeds, or there is no other way on. -/
  | yes
  | no
  /-- Links of the pool that are connected. -/
  | pick (ls : List LinkId)
  /-- A row of stations that is passed over. -/
  | skip

/-! ## Program points -/

/-- `Pool::call` and `Pool::publish`, with `select_connected_links` and `mark_disconnected`. -/
inductive CallPc where
  | start
  /-- Waits for `links`. -/
  | selecting
  | selected
  | next (rest : List LinkId)
  | locking (l : LinkId) (rest : List LinkId)
  /-- Has `link.state`, with no session in it. -/
  | absent (l : LinkId) (rest : List LinkId)
  /-- Has `link.state`, its operation on the session under way. -/
  | calling (l : LinkId) (rest : List LinkId)
  | marking (l : LinkId) (rest : List LinkId)
  | markLocking (l : LinkId) (rest : List LinkId)
  | marked (l : LinkId) (rest : List LinkId)
  | claiming (l : LinkId) (rest : List LinkId)
  /-- Waits for `tasks`. -/
  | spawning (l : LinkId) (rest : List LinkId)
  | spawned (rest : List LinkId)
  | done

/-- `Pool::status` -/
inductive StatusPc where
  | start
  | reading
  | counting
  | done

/-- The loop over all links in `Pool::links` and `has_link_for_node_id`; `todo` are those still
to be looked at. -/
inductive ScanPc where
  | start
  | reading
  | scanning (todo : List LinkId)
  /-- In `peer_node_id`: waits for `link.state`. -/
  | peeking (l : LinkId) (todo : List LinkId)
  | peeked (todo : List LinkId) (l : LinkId)
  | done (found : Bool)

/-- `Pool::close` -/
inductive ClosePc where
  | start
  | tasksLocking
  /-- Has `tasks`, inside `JoinSet::shutdown`. -/
  | shutting
  | emptied
  | linksLocking
  | next (rest : List LinkId)
  | locking (l : LinkId) (rest : List LinkId)
  /-- Has `link.state` besides `links`; `Session::close` may be under way. -/
  | closing (l : LinkId) (rest : List LinkId)
  | done

/-- `link_lifecycle_future` -/
inductive LifePc where
  | start
  | check
  | dialing
  | locking
  | installed
  | failed
  | sleeping
  | done

/-- `discover_stations_loop` -/
inductive DiscPc where
  | start
  /-- `Pool::status`, called from `wait_for_any_healthy_link`. -/
  | probing (pc : StatusPc)
  | napping
  | check
  /-- `resolve_list_stations_realm`, up to `asked`. -/
  | resolving
  | resolved
  | asking (l : LinkId)
  | asked (l : LinkId)
  | calling (pc : CallPc)
  /-- `add_discovered_links`: before each row, and after the last. -/
  | rows
  | counting
  | counted
  | row
  /-- `has_link_for_node_id` -/
  | scanning (pc : ScanPc)
  /-- `spawn_seed_link_if_absent`, up to `spawned`. -/
  | pushing
  | pushed
  | claiming (l : LinkId)
  | spawning (l : LinkId)
  | spawned
  | idle
  | done

inductive Proc where
  | call (op : Op) (pc : CallPc)
  | status (pc : StatusPc)
  | links (pc : ScanPc)
  | close (pc : ClosePc)
  | life (l : LinkId) (pc : LifePc)
  | disc (pc : DiscPc)
  | ended

/-! ## Where the code goes -/

/-- `links` is what `Pool::links` has while the step has its lock. -/
def CallPc.step (links : List LinkId) (op : Op) : CallPc → Choice → Option CallPc
  | .start, .yes => some .selecting
  | .selecting, .yes => some .selected
  | .selected, .pick ls => if ls.all (· ∈ links) then some (.next ls) else none
  | .next [], .yes => some .done
  | .next (l :: rest), .yes => some (.locking l rest)
  | .locking l rest, .yes => some (.calling l rest)
  | .locking l rest, .no => some (.absent l rest)
  | .absent _ rest, .yes => some (.next rest)
  | .calling _ rest, .yes => some (match op with | .call => .done | .publish => .next rest)
  | .calling l rest, .no => some (.marking l rest)
  | .marking l rest, .yes => some (.markLocking l rest)
  | .markLocking l rest, .yes => some (.marked l rest)
  | .marked l rest, .yes => some (.claiming l rest)
  | .claiming l rest, .yes => some (.spawning l rest)
  | .claiming _ rest, .no => some (.next rest)
  | .spawning _ rest, .yes => some (.spawned rest)
  | .spawned rest, .yes => some (.next rest)
  | _, _ => none

def StatusPc.step : StatusPc → Choice → Option StatusPc
  | .start, .yes => some .reading
  | .reading, .yes => some .counting
  | .counting, .yes => some .done
  | _, _ => none

/-- `stops` when it returns at a match. -/
def ScanPc.step (links : List LinkId) (stops : Bool) : ScanPc → Choice → Option ScanPc
  | .start, .yes => some .reading
  | .reading, .yes => some (.scanning links)
  | .scanning (l :: todo), .yes => some (.peeking l todo)
  | .scanning (_ :: todo), .no => some (.scanning todo)
  | .scanning [], .yes => some (.done false)
  | .peeking l todo, .yes => some (.peeked todo l)
  | .peeked todo _, .no => some (.scanning todo)
  | .peeked _ _, .yes => if stops then some (.done true) else none
  | _, _ => none

def ClosePc.step (links : List LinkId) : ClosePc → Choice → Option ClosePc
  | .start, .yes => some .tasksLocking
  | .tasksLocking, .yes => some .shutting
  | .shutting, .yes => some .emptied
  | .emptied, .yes => some .linksLocking
  | .linksLocking, .yes => some (.next links)
  | .next [], .yes => some .done
  | .next (l :: rest), .yes => some (.locking l rest)
  | .locking l rest, .yes => some (.closing l rest)
  | .closing _ rest, .yes => some (.next rest)
  | _, _ => none

def LifePc.step : LifePc → Choice → Option LifePc
  | .start, .yes => some .check
  | .check, .yes => some .dialing
  | .check, .no => some .done
  | .dialing, .yes => some .locking
  | .dialing, .no => some .failed
  | .locking, .yes => some .installed
  | .installed, .yes => some .done
  | .failed, .yes => some .sleeping
  | .failed, .no => some .done
  | .sleeping, .yes => some .check
  | .sleeping, .no => some .done
  | _, _ => none

/-- `numLinks` is the number of the link that is pushed, if one is. -/
def DiscPc.step (links : List LinkId) (numLinks : Nat) : DiscPc → Choice → Option DiscPc
  | .start, .yes => some (.probing .start)
  | .start, .no => some .done
  | .probing .done, .yes => some .check
  | .probing .done, .no => some .napping
  | .probing pc, c => (pc.step c).map .probing
  | .napping, .yes => some (.probing .start)
  | .napping, .no => some .done
  | .check, .yes => some .resolving
  | .check, .no => some .done
  | .resolving, .yes => some .resolved
  | .resolved, .pick [l] => if l ∈ links then some (.asking l) else none
  | .resolved, .no => some .idle
  | .asking l, .yes => some (.asked l)
  | .asked _, .yes => some (.calling .start)
  | .asked _, .no => some .idle
  | .calling .done, .yes => some .rows
  | .calling .done, .no => some .idle
  | .calling pc, c => (pc.step links .call c).map .calling
  | .rows, .yes => some .counting
  | .rows, .no => some .idle
  | .counting, .yes => some .counted
  | .counted, .yes => some .row
  | .counted, .no => some .idle
  | .row, .skip => some .rows
  -- whether the row has a `node_id`
  | .row, .yes => some (.scanning .start)
  | .row, .no => some .pushing
  | .scanning (.done found), .yes => some (if found then .rows else .pushing)
  | .scanning pc, c => (pc.step links true c).map .scanning
  | .pushing, .yes => some .pushed
  | .pushed, .yes => some (.claiming numLinks)
  | .pushed, .no => some .rows
  | .claiming l, .yes => some (.spawning l)
  | .claiming _, .no => some .rows
  | .spawning _, .yes => some .spawned
  | .spawned, .yes => some .rows
  | .idle, .yes => some .check
  | .idle, .no => some .done
  | _, _ => none

def Proc.step (links : List LinkId) (numLinks : Nat) : Proc → Choice → Option Proc
  | .call op pc, c => (pc.step links op c).map (.call op)
  | .status pc, c => (pc.step c).map .status
  | .links pc, c => (pc.step links false c).map .links
  | .close pc, c => (pc.step links c).map .close
  | .life l pc, c => (pc.step c).map (.life l)
  | .disc pc, c => (pc.step links numLinks c).map .disc
  | .ended, _ => none

/-! ## The locks at a program point -/

def CallPc.asks : CallPc → Option (Lock × Mode)
  | .selecting => some (.links, .read)
  | .locking l _ | .markLocking l _ => some (.state l, .write)
  | .spawning _ _ => some (.tasks, .write)
  | _ => none

def CallPc.holds : CallPc → List (Lock × Mode)
  | .selected => [(.links, .read)]
  | .absent l _ | .calling l _ | .marked l _ => [(.state l, .write)]
  | .spawned _ => [(.tasks, .write)]
  | _ => []

def StatusPc.asks : StatusPc → Option (Lock × Mode)
  | .reading => some (.links, .read)
  | _ => none

def StatusPc.holds : StatusPc → List (Lock × Mode)
  | .counting => [(.links, .read)]
  | _ => []

def ScanPc.asks : ScanPc → Option (Lock × Mode)
  | .reading => some (.links, .read)
  | .peeking l _ => some (.state l, .write)
  | _ => none

def ScanPc.holds : ScanPc → List (Lock × Mode)
  | .scanning _ | .peeking _ _ => [(.links, .read)]
  | .peeked _ l => [(.links, .read), (.state l, .write)]
  | _ => []

def ClosePc.asks : ClosePc → Option (Lock × Mode)
  | .tasksLocking => some (.tasks, .write)
  | .linksLocking => some (.links, .write)
  | .locking l _ => some (.state l, .write)
  | _ => none

def ClosePc.holds : ClosePc → List (Lock × Mode)
  | .shutting => [(.tasks, .write)]
  | .next _ | .locking _ _ => [(.links, .write)]
  | .closing l _ => [(.links, .write), (.state l, .write)]
  | _ => []

def LifePc.asks (l : LinkId) : LifePc → Option (Lock × Mode)
  | .locking => some (.state l, .write)
  | _ => none

def LifePc.holds (l : LinkId) : LifePc → List (Lock × Mode)
  | .installed => [(.state l, .write)]
  | _ => []

def DiscPc.asks : DiscPc → Option (Lock × Mode)
  | .probing pc => pc.asks
  | .resolving | .counting => some (.links, .read)
  | .asking l => some (.state l, .write)
  | .calling pc => pc.asks
  | .scanning pc => pc.asks
  | .pushing => some (.links, .write)
  | .spawning _ => some (.tasks, .write)
  | _ => none

def DiscPc.holds : DiscPc → List (Lock × Mode)
  | .probing pc => pc.holds
  | .resolved | .counted => [(.links, .read)]
  | .asked l => [(.state l, .write)]
  | .calling pc => pc.holds
  | .scanning pc => pc.holds
  | .pushed => [(.links, .write)]
  | .spawned => [(.tasks, .write)]
  | _ => []

def Proc.asks : Proc → Option (Lock × Mode)
  | .call _ pc => pc.asks
  | .status pc => pc.asks
  | .links pc => pc.asks
  | .close pc => pc.asks
  | .life l pc => pc.asks l
  | .disc pc => pc.asks
  | .ended => none

def Proc.holds : Proc → List (Lock × Mode)
  | .call _ pc => pc.holds
  | .status pc => pc.holds
  | .links pc => pc.holds
  | .close pc => pc.holds
  | .life l pc => pc.holds l
  | .disc pc => pc.holds
  | .ended => []

/-- A party has no lock, or one, or `links` and the state of a link. -/
inductive Holding : List (Lock × Mode) → Prop where
  | none : Holding []
  | one (l : Lock) (m : Mode) : Holding [(l, m)]
  | both (m m' : Mode) (l : LinkId) : Holding [(.links, m), (.state l, m')]

/-- A party that asks for a lock has none, or it has `links` and asks for the state of a link. -/
inductive Asking : Option (Lock × Mode) → List (Lock × Mode) → Prop where
  | none (held : List (Lock × Mode)) : Asking none held
  | first (x : Lock × Mode) : Asking (some x) []
  | second (l : LinkId) (m m' : Mode) : Asking (some (.state l, m)) [(.links, m')]

theorem CallPc.holding (pc : CallPc) : Holding pc.holds := by
  cases pc <;> constructor

theorem CallPc.asking (pc : CallPc) : Asking pc.asks pc.holds := by
  cases pc <;> constructor

theorem StatusPc.holding (pc : StatusPc) : Holding pc.holds := by
  cases pc <;> constructor

theorem StatusPc.asking (pc : StatusPc) : Asking pc.asks pc.holds := by
  cases pc <;> constructor

theorem ScanPc.holding (pc : ScanPc) : Holding pc.holds := by
  cases pc <;> constructor

theorem ScanPc.asking (pc : ScanPc) : Asking pc.asks pc.holds := by
  cases pc <;> constructor

theorem Proc.holding (p : Proc) : Holding p.holds := by
  cases p with
  | call op pc => exact pc.holding
  | status pc => exact pc.holding
  | links pc => exact pc.holding
  | close pc => cases pc <;> constructor
  | life l pc => cases pc <;> constructor
  | disc pc =>
      cases pc with
      | probing pc => exact pc.holding
      | calling pc => exact pc.holding
      | scanning pc => exact pc.holding
      | _ => constructor
  | ended => exact .none

theorem Proc.asking (p : Proc) : Asking p.asks p.holds := by
  cases p with
  | call op pc => exact pc.asking
  | status pc => exact pc.asking
  | links pc => exact pc.asking
  | close pc => cases pc <;> constructor
  | life l pc => cases pc <;> constructor
  | disc pc =>
      cases pc with
      | probing pc => exact pc.asking
      | calling pc => exact pc.asking
      | scanning pc => exact pc.asking
      | _ => constructor
  | ended => exact .none _

/-- The order in which locks are asked for. -/
def Lock.rank : Lock → Nat
  | .links => 0
  | .state _ | .tasks => 1

def discipline : Discipline Proc Lock where
  asks := Proc.asks
  holds := Proc.holds
  rank := Lock.rank
  nodup p := by
    have h := p.holding
    generalize p.holds = held at h
    cases h <;> simp
  ordered p x hx y hy := by
    have h := p.asking
    rw [hx] at h
    generalize p.holds = held at h hy
    cases h with
    | first => cases hy
    | second =>
        obtain rfl := List.mem_singleton.mp hy
        exact Nat.zero_lt_one

/-! ## The pool -/

/-- Spawned on `Pool::tasks` and not finished. -/
def Proc.live : Proc → Bool
  | .life _ .done | .disc .done => false
  | .life _ _ | .disc _ => true
  | _ => false

def Proc.finished : Proc → Bool
  | .call _ .done | .status .done | .links (.done _) | .close .done | .life _ .done
  | .disc .done | .ended => true
  | _ => false

/-- The future of the party awaits something, or was not polled yet. -/
def CallPc.awaits : CallPc → Bool
  | .start | .selecting | .locking _ _ | .calling _ _ | .markLocking _ _ | .spawning _ _ => true
  | _ => false

def StatusPc.awaits : StatusPc → Bool
  | .start | .reading => true
  | _ => false

def ScanPc.awaits : ScanPc → Bool
  | .start | .reading | .peeking _ _ => true
  | _ => false

def Proc.awaits : Proc → Bool
  | .call _ pc => pc.awaits
  | .status pc => pc.awaits
  | .links pc => pc.awaits
  | .close pc =>
    match pc with
    | .start | .tasksLocking | .shutting | .linksLocking | .locking _ _ | .closing _ _ => true
    | _ => false
  | .life _ pc =>
    match pc with
    | .start | .dialing | .locking | .sleeping => true
    | _ => false
  | .disc pc =>
    match pc with
    | .probing pc => pc.awaits
    | .calling pc => pc.awaits
    | .scanning pc => pc.awaits
    | .start | .napping | .resolving | .asking _ | .asked _ | .counting | .pushing | .spawning _
    | .idle => true
    | _ => false
  | .ended => false

structure State where
  /-- Where each party is; those from `numTasks` on do not exist yet. -/
  proc : TaskId → Proc
  numTasks : Nat
  queue : Lock → Queue TaskId
  /-- `Pool::links` -/
  links : List LinkId
  numLinks : Nat
  /-- `JoinSet::abort_all` has been called on the task. -/
  aborted : TaskId → Bool

/-- An operation of the pool. -/
inductive Operation where
  | call
  | publish
  | status
  | links
  | close

def Operation.start : Operation → Proc
  | .call => .call .call .start
  | .publish => .call .publish .start
  | .status => .status .start
  | .links => .links .start
  | .close => .close .start

inductive Event where
  | begin (o : Operation)
  | move (t : TaskId) (c : Choice)
  /-- The future of `t` is dropped. -/
  | drop (t : TaskId)

namespace State

def spawn (s : State) (p : Proc) : State :=
  { s with proc := Function.update s.proc s.numTasks p, numTasks := s.numTasks + 1 }

/-- `t` comes to `p`, and releases or asks for locks as it does. -/
def goto (s : State) (t : TaskId) (p : Proc) : State :=
  { s with proc := Function.update s.proc t p, queue := discipline.requeue s.queue t p }

theorem spawn_self (s : State) (p : Proc) : (s.spawn p).proc s.numTasks = p :=
  Function.update_self ..

theorem spawn_of_ne (s : State) (p : Proc) {t : TaskId} (ht : t ≠ s.numTasks) :
    (s.spawn p).proc t = s.proc t :=
  Function.update_of_ne ht ..

theorem goto_self (s : State) (t : TaskId) (p : Proc) : (s.goto t p).proc t = p :=
  Function.update_self ..

theorem goto_of_ne (s : State) {t u : TaskId} (p : Proc) (hu : u ≠ t) :
    (s.goto t p).proc u = s.proc u :=
  Function.update_of_ne hu ..

def anyLive (s : State) : Bool := (List.range s.numTasks).any fun t => (s.proc t).live

/-- Whether `t` can go on: it has the lock it asks for, and nothing is left to join. -/
def ready (s : State) (t : TaskId) : Bool :=
  match s.proc t with
  | .close .shutting => !s.anyLive
  | p => p.asks.all fun x => decide (Granted (s.queue x.1) t)

end State

/-- A link whose lifecycle task is spawned next. -/
def Proc.spawns : Proc → Option LinkId
  | .call _ (.spawning l _) | .disc (.calling (.spawning l _)) | .disc (.spawning l) => some l
  | _ => none

/-- What a step from `p` does to the pool, besides moving its party. -/
def State.effect (s : State) (p : Proc) (c : Choice) : State :=
  match p.spawns with
  | some l => s.spawn (.life l .start)
  | none =>
    match p, c with
    | .close .tasksLocking, _ => { s with aborted := fun t => s.aborted t || (s.proc t).live }
    | .close .linksLocking, _ => { s with links := [] }
    | .disc .pushed, .yes =>
      { s with links := s.links ++ [s.numLinks], numLinks := s.numLinks + 1 }
    | _, _ => s

def step (s : State) : Event → Option State
  | .begin o => some (s.spawn o.start)
  | .move t c =>
    if s.ready t then
      ((s.proc t).step s.links s.numLinks c).map fun p => (s.effect (s.proc t) c).goto t p
    else none
  | .drop t =>
    if (s.proc t).awaits && (!(s.proc t).live || s.aborted t) then some (s.goto t .ended) else none

/-- `Pool::connect` with `numSeeds` seeds, with or without discovery. -/
def connect (numSeeds : Nat) (discovery : Bool) : State where
  proc t :=
    if t < numSeeds then .life t .start
    else if t = numSeeds ∧ discovery then .disc .start
    else .ended
  numTasks := numSeeds + (if discovery then 1 else 0)
  queue _ := []
  links := List.range numSeeds
  numLinks := numSeeds
  aborted _ := false

/-! ## What a step does to the locks -/

/-- A party comes to hold no lock that it has not asked for. -/
def Follows (asks : Option (Lock × Mode)) (held held' : List (Lock × Mode)) : Prop :=
  ∀ x ∈ held', asks = some x ∨ x ∈ held

theorem CallPc.follows {links : List LinkId} {op : Op} {pc pc' : CallPc} {c : Choice}
    (h : pc.step links op c = some pc') : Follows pc.asks pc.holds pc'.holds := by
  revert h
  fun_cases CallPc.step links op pc c
  all_goals intro h
  all_goals first | (obtain rfl := Option.some.inj h) | cases h
  case case10 => cases op <;> simp [Follows, holds]
  all_goals simp [Follows, holds, asks]

theorem StatusPc.follows {pc pc' : StatusPc} {c : Choice} (h : pc.step c = some pc') :
    Follows pc.asks pc.holds pc'.holds := by
  revert h
  fun_cases StatusPc.step pc c
  all_goals intro h
  all_goals first | (obtain rfl := Option.some.inj h) | cases h
  all_goals simp [Follows, holds, asks]

theorem ScanPc.follows {links : List LinkId} {stops : Bool} {pc pc' : ScanPc} {c : Choice}
    (h : pc.step links stops c = some pc') : Follows pc.asks pc.holds pc'.holds := by
  revert h
  fun_cases ScanPc.step links stops pc c
  all_goals intro h
  all_goals first | (obtain rfl := Option.some.inj h) | cases h
  all_goals simp [Follows, holds, asks]

theorem ClosePc.follows {links : List LinkId} {pc pc' : ClosePc} {c : Choice}
    (h : pc.step links c = some pc') : Follows pc.asks pc.holds pc'.holds := by
  revert h
  fun_cases ClosePc.step links pc c
  all_goals intro h
  all_goals first | (obtain rfl := Option.some.inj h) | cases h
  all_goals simp [Follows, holds, asks]

theorem LifePc.follows {l : LinkId} {pc pc' : LifePc} {c : Choice} (h : pc.step c = some pc') :
    Follows (pc.asks l) (pc.holds l) (pc'.holds l) := by
  revert h
  fun_cases LifePc.step pc c
  all_goals intro h
  all_goals first | (obtain rfl := Option.some.inj h) | cases h
  all_goals simp [Follows, holds, asks]

theorem DiscPc.follows {links : List LinkId} {numLinks : Nat} {pc pc' : DiscPc} {c : Choice}
    (h : pc.step links numLinks c = some pc') : Follows pc.asks pc.holds pc'.holds := by
  revert h
  fun_cases DiscPc.step links numLinks pc c
  all_goals intro h
  case case5 pc _ _ =>
    obtain ⟨pc', hpc, rfl⟩ := Option.map_eq_some_iff.mp h
    exact pc.follows hpc
  case case19 pc _ _ =>
    obtain ⟨pc', hpc, rfl⟩ := Option.map_eq_some_iff.mp h
    exact pc.follows hpc
  case case29 pc _ =>
    obtain ⟨pc', hpc, rfl⟩ := Option.map_eq_some_iff.mp h
    exact pc.follows hpc
  all_goals first | (obtain rfl := Option.some.inj h) | cases h
  case case28 found => cases found <;> simp [Follows, holds]
  all_goals
    simp [Follows, holds, asks, StatusPc.holds, CallPc.holds, ScanPc.holds]

theorem Proc.follows {links : List LinkId} {numLinks : Nat} {p p' : Proc} {c : Choice}
    (h : p.step links numLinks c = some p') : Follows p.asks p.holds p'.holds := by
  cases p with
  | call op pc =>
      obtain ⟨pc', hpc, rfl⟩ := Option.map_eq_some_iff.mp h
      exact pc.follows hpc
  | status pc =>
      obtain ⟨pc', hpc, rfl⟩ := Option.map_eq_some_iff.mp h
      exact pc.follows hpc
  | links pc =>
      obtain ⟨pc', hpc, rfl⟩ := Option.map_eq_some_iff.mp h
      exact pc.follows hpc
  | close pc =>
      obtain ⟨pc', hpc, rfl⟩ := Option.map_eq_some_iff.mp h
      exact pc.follows hpc
  | life l pc =>
      obtain ⟨pc', hpc, rfl⟩ := Option.map_eq_some_iff.mp h
      exact pc.follows hpc
  | disc pc =>
      obtain ⟨pc', hpc, rfl⟩ := Option.map_eq_some_iff.mp h
      exact pc.follows hpc
  | ended => cases h

/-! ### The background tasks -/

theorem Proc.asks_of_spawns {p : Proc} {l : LinkId} (h : p.spawns = some l) :
    p.asks = some (.tasks, .write) := by
  revert h
  fun_cases Proc.spawns p
  all_goals intro h
  case case4 => cases h
  all_goals rfl

/-- Whoever has finished, or ended, does not run again. -/
theorem Proc.live_of_step {links : List LinkId} {numLinks : Nat} {p p' : Proc} {c : Choice}
    (h : p.step links numLinks c = some p') (hlive : p'.live = true) : p.live = true := by
  cases p with
  | life l pc =>
      cases pc with
      | done => cases c <;> cases h
      | _ => rfl
  | disc pc =>
      cases pc with
      | done => cases c <;> cases h
      | _ => rfl
  | ended => cases h
  | _ =>
      obtain ⟨pc', -, rfl⟩ := Option.map_eq_some_iff.mp h
      cases hlive

/-- `close` comes to join the tasks from the point where it waits for `tasks`. -/
theorem Proc.tasksLocking_of_step {links : List LinkId} {numLinks : Nat} {p : Proc} {c : Choice}
    (h : p.step links numLinks c = some (.close .shutting)) : p = .close .tasksLocking := by
  cases p with
  | close pc =>
      obtain ⟨pc', hpc, heq⟩ := Option.map_eq_some_iff.mp h
      obtain rfl := Proc.close.inj heq
      cases pc with
      | tasksLocking => rfl
      | next rest => cases rest <;> cases c <;> cases hpc
      | _ => cases c <;> cases hpc
  | ended => cases h
  | _ =>
      obtain ⟨pc', -, heq⟩ := Option.map_eq_some_iff.mp h
      cases heq

variable {s s' : State} {t u : TaskId} {c : Choice}

/-- What a step does to the pool besides moving its party. -/
theorem effect_cases (s : State) (p : Proc) (c : Choice) :
    (∃ l, p.spawns = some l ∧ s.effect p c = s.spawn (.life l .start)) ∨
    (s.effect p c).proc = s.proc ∧ (s.effect p c).numTasks = s.numTasks ∧
      (s.effect p c).queue = s.queue ∧ ∀ t, (s.effect p c).aborted t = true ↔
        s.aborted t = true ∨ p = .close .tasksLocking ∧ (s.proc t).live = true := by
  unfold State.effect
  split
  next l hl => exact .inl ⟨l, hl, rfl⟩
  next hnone =>
    refine .inr ?_
    split
    · simp
    · simp
    · simp
    · next hother _ _ =>
        refine ⟨rfl, rfl, rfl, ?_⟩
        intro t
        refine (or_iff_left ?_).symm
        rintro ⟨rfl, -⟩
        exact hother rfl

/-! ## What every reachable state satisfies -/

structure Inv (s : State) : Prop where
  sound : discipline.Sound s.queue s.proc
  fresh : ∀ t, s.numTasks ≤ t → s.proc t = .ended
  /-- Whoever is joined has been aborted. -/
  aborted : ∀ t u, s.proc t = .close .shutting → (s.proc u).live = true → s.aborted u = true

theorem granted_of_ready {x : Lock × Mode} (h : s.ready t = true)
    (hx : (s.proc t).asks = some x) : Granted (s.queue x.1) t := by
  unfold State.ready at h
  split at h
  next hp =>
    rw [hp] at hx
    cases hx
  next =>
    rw [hx] at h
    simpa using h

theorem step_move (h : step s (.move t c) = some s') :
    s.ready t = true ∧ ∃ p, (s.proc t).step s.links s.numLinks c = some p ∧
      s' = (s.effect (s.proc t) c).goto t p := by
  simp only [step] at h
  split at h
  next hready =>
    obtain ⟨p, hp, rfl⟩ := Option.map_eq_some_iff.mp h
    exact ⟨hready, p, hp, rfl⟩
  next => cases h

namespace Inv

theorem connect (n : Nat) (discovery : Bool) : Inv (connect n discovery) where
  sound := by
    have hnone : ∀ t, discipline.footprint ((Locks.connect n discovery).proc t) = [] := by
      intro t
      simp only [Locks.connect]
      split
      · rfl
      · split <;> rfl
    refine ⟨?_, ?_⟩
    · intro t l m
      rw [hnone]
      exact ⟨nofun, nofun⟩
    · intro t l m hm
      have hmem : (l, m) ∈ discipline.footprint ((Locks.connect n discovery).proc t) :=
        Discipline.mem_footprint.mpr (.inr hm)
      rw [hnone] at hmem
      cases hmem
  fresh t ht := by
    simp only [Locks.connect] at ht ⊢
    have hn : n ≤ t := Nat.le_trans (Nat.le_add_right _ _) ht
    rw [if_neg (Nat.not_lt.mpr hn), if_neg]
    rintro ⟨rfl, hd⟩
    rw [if_pos hd] at ht
    exact Nat.not_succ_le_self _ ht
  aborted t u ht := by
    simp only [Locks.connect] at ht
    split at ht
    · cases ht
    · split at ht <;> cases ht

theorem spawn (h : Inv s) {p : Proc} (hp : discipline.footprint p = []) :
    discipline.Sound (s.spawn p).queue (s.spawn p).proc :=
  h.sound.appear (by rw [h.fresh _ (Nat.le_refl _)]; rfl) hp

theorem fresh_spawn (h : Inv s) {p : Proc} (ht : (s.spawn p).numTasks ≤ t) :
    (s.spawn p).proc t = .ended := by
  have hlt : s.numTasks < t := ht
  rw [s.spawn_of_ne p (Nat.ne_of_gt hlt)]
  exact h.fresh t (Nat.le_of_lt hlt)

theorem begin (h : Inv s) (o : Operation) : Inv (s.spawn o.start) where
  sound := h.spawn (by cases o <;> rfl)
  fresh _ ht := h.fresh_spawn ht
  aborted t u ht hu := by
    have hne : t ≠ s.numTasks := by
      rintro rfl
      rw [s.spawn_self] at ht
      cases o <;> cases ht
    have hne' : u ≠ s.numTasks := by
      rintro rfl
      rw [s.spawn_self] at hu
      cases o <;> cases hu
    rw [s.spawn_of_ne _ hne] at ht
    rw [s.spawn_of_ne _ hne'] at hu
    exact h.aborted t u ht hu

theorem drop (h : Inv s) : Inv (s.goto t .ended) where
  sound := by
    show discipline.Sound (discipline.requeue s.queue t .ended) (Function.update s.proc t .ended)
    refine h.sound.move ?_ ?_
    · intro x hx
      cases hx
    · intro x hx
      cases hx
  fresh u hu := by
    by_cases hut : u = t
    · rw [hut, s.goto_self]
    · rw [s.goto_of_ne _ hut]
      exact h.fresh u hu
  aborted u v hu hv := by
    have hne : u ≠ t := by
      rintro rfl
      rw [s.goto_self] at hu
      cases hu
    have hne' : v ≠ t := by
      rintro rfl
      rw [s.goto_self] at hv
      cases hv
    rw [s.goto_of_ne _ hne] at hu
    rw [s.goto_of_ne _ hne'] at hv
    exact h.aborted u v hu hv

/-- A party that takes a step exists. -/
theorem lt_of_step (h : Inv s) {p : Proc} (hp : (s.proc t).step s.links s.numLinks c = some p) :
    t < s.numTasks := by
  by_contra hge
  rw [h.fresh t (Nat.le_of_not_lt hge)] at hp
  cases hp

/-- The effect of a step, before its party moves. -/
theorem effect (h : Inv s) (hready : s.ready t = true) : Inv (s.effect (s.proc t) c) := by
  rcases effect_cases s (s.proc t) c with ⟨l, hl, heq⟩ | ⟨hproc, hnum, hqueue, haborted⟩
  · rw [heq]
    refine ⟨h.spawn rfl, fun _ ht => h.fresh_spawn ht, ?_⟩
    intro u v hu hv
    have hasks := Proc.asks_of_spawns hl
    have hne : u ≠ s.numTasks := by
      rintro rfl
      rw [s.spawn_self] at hu
      cases hu
    rw [s.spawn_of_ne _ hne] at hu
    -- `t` has been granted `tasks`, which `u` has
    have hheld : (Lock.tasks, Mode.write) ∈ discipline.holds (s.proc u) := by
      rw [hu]
      exact List.mem_singleton.mpr rfl
    have htu : t = u := h.sound.exclusive (Discipline.mem_footprint.mpr (.inl hasks))
      (Discipline.mem_footprint.mpr (.inr hheld)) (granted_of_ready hready hasks)
      (h.sound.granted u _ _ hheld)
    rw [htu, hu] at hl
    cases hl
  · refine ⟨?_, ?_, ?_⟩
    · rw [hproc, hqueue]
      exact h.sound
    · intro u hu
      rw [hproc]
      exact h.fresh u (hnum ▸ hu)
    · intro u v hu hv
      rw [hproc] at hu hv
      exact (haborted v).mpr (.inl (h.aborted u v hu hv))

theorem move (h : Inv s) (hs : step s (.move t c) = some s') : Inv s' := by
  obtain ⟨hready, p, hp, rfl⟩ := step_move hs
  have heff := h.effect (c := c) hready
  have hproc : (s.effect (s.proc t) c).proc t = s.proc t := by
    rcases effect_cases s (s.proc t) c with ⟨l, -, heq⟩ | ⟨heq, -⟩
    · rw [heq, s.spawn_of_ne _ (Nat.ne_of_lt (h.lt_of_step hp))]
    · rw [heq]
  have hqueue : (s.effect (s.proc t) c).queue = s.queue := by
    rcases effect_cases s (s.proc t) c with ⟨l, -, heq⟩ | ⟨-, -, heq, -⟩
    · rw [heq]
      rfl
    · exact heq
  refine ⟨?_, ?_, ?_⟩
  · refine heff.sound.move ?_ ?_
    · intro x hx
      rw [hproc]
      exact Discipline.mem_footprint.mpr (Proc.follows hp x hx)
    · intro x _ hasks
      rw [hproc] at hasks
      rw [hqueue]
      exact granted_of_ready hready hasks
  · intro u hu
    have hfresh := heff.fresh u hu
    have hne : u ≠ t := by
      rintro rfl
      rw [← hproc, hfresh] at hp
      cases hp
    rw [State.goto_of_ne _ _ hne]
    exact hfresh
  · intro u v hu hv
    show (s.effect (s.proc t) c).aborted v = true
    by_cases hut : u = t
    · -- `t` has aborted the tasks in this step
      subst hut
      rw [State.goto_self] at hu
      rw [hu] at hp
      have hlocking := Proc.tasksLocking_of_step hp
      have hne : v ≠ u := by
        rintro rfl
        rw [State.goto_self, hu] at hv
        cases hv
      rw [State.goto_of_ne _ _ hne] at hv
      rcases effect_cases s (s.proc u) c with ⟨l, hl, -⟩ | ⟨heq, -, -, haborted⟩
      · rw [hlocking] at hl
        cases hl
      · rw [heq] at hv
        exact (haborted v).mpr (.inr ⟨hlocking, hv⟩)
    · rw [State.goto_of_ne _ _ hut] at hu
      by_cases hvt : v = t
      · subst hvt
        rw [State.goto_self] at hv
        have hlive := Proc.live_of_step hp hv
        rw [← hproc] at hlive
        exact heff.aborted u v hu hlive
      · rw [State.goto_of_ne _ _ hvt] at hv
        exact heff.aborted u v hu hv

theorem step (h : Inv s) {e : Event} (hs : step s e = some s') : Inv s' := by
  cases e with
  | begin o =>
      cases hs
      exact h.begin o
  | move t c => exact h.move hs
  | drop t =>
      simp only [Locks.step] at hs
      split at hs
      next =>
        cases hs
        exact h.drop
      next => cases hs

theorem of_run {n : Nat} {discovery : Bool} {es : List Event}
    (hs : run Locks.step (Locks.connect n discovery) es = some s) : Inv s :=
  run_invariant_of_step Inv (fun _ _ _ h he => h.step he) (.connect n discovery) hs

end Inv

/-! ## Waiting -/

namespace State

/-- `t` is in the queue of a lock, behind `u`. -/
def WaitsForLock (s : State) : TaskId → TaskId → Prop :=
  WaitsFor s.queue fun t => (s.proc t).asks.map Prod.fst

/-- The lock that a party waits for, unless it was aborted: then it is dropped where it waits. -/
def asks (s : State) (t : TaskId) : Option Lock :=
  if s.aborted t then none else (s.proc t).asks.map Prod.fst

/-- `t` is inside `JoinSet::shutdown` and waits until the background task `u` has ended. -/
def Joins (s : State) (t u : TaskId) : Prop :=
  s.proc t = .close .shutting ∧ (s.proc u).live = true

/-- `t` cannot go on before `u` has released a lock, has got one and released it, or has ended. -/
def Waits (s : State) : TaskId → TaskId → Prop := LockOrder.Waits s.queue s.asks s.Joins

/-- The party can take its next step, or can be dropped since it was aborted. -/
def GoesOn (s : State) (t : TaskId) : Prop :=
  (∃ c, (step s (.move t c)).isSome) ∨ s.aborted t = true ∧ (step s (.drop t)).isSome

end State

namespace Inv

theorem ordered (h : Inv s) : Ordered Lock.rank s.queue s.asks := by
  refine h.sound.ordered ?_
  intro t l hl
  unfold State.asks at hl
  split at hl
  next => cases hl
  next =>
    obtain ⟨⟨l', m⟩, hasks, rfl⟩ := Option.map_eq_some_iff.mp hl
    exact ⟨m, hasks⟩

/-- What `close` joins waits for nobody. -/
theorem free_of_joins (h : Inv s) (hj : s.Joins t u) (v : TaskId) : ¬ s.Waits u v := by
  have haborted := h.aborted t u hj.1 hj.2
  rintro (⟨l, hl, -⟩ | ⟨hclose, -⟩)
  · rw [State.asks, if_pos haborted] at hl
    cases hl
  · have hlive := hj.2
    rw [hclose] at hlive
    cases hlive

end Inv

/-- *No deadlock.*  Whatever operations are under way, nobody waits for a lock in a circle, nor
with the tasks that `close` joins. -/
theorem no_deadlock {n : Nat} {discovery : Bool} {es : List Event}
    (h : run step (connect n discovery) es = some s) (t : TaskId) :
    ¬ Relation.TransGen s.WaitsForLock t t ∧ ¬ Relation.TransGen s.Waits t t := by
  have hinv := Inv.of_run h
  constructor
  · refine acyclic (hinv.sound.ordered ?_) t
    intro u l hl
    obtain ⟨⟨l', m⟩, hasks, rfl⟩ := Option.map_eq_some_iff.mp hl
    exact ⟨m, hasks⟩
  · exact acyclic_joins hinv.ordered (fun _ _ hj v => hinv.free_of_joins hj v) t

/-- `n` steps of `t` that leave no choice, or succeed. -/
def steps (t : TaskId) (n : Nat) : List Event := List.replicate n (.move t .yes)

/-- A call has the state of a link, `Pool::links` waits for it, `close` for `links`, and
`status` behind `close`. -/
def queueing : List Event :=
  .begin .call :: steps 1 2 ++ .move 1 (.pick [0]) :: steps 1 2 ++
    .begin .links :: steps 2 3 ++
    .begin .close :: steps 3 2 ++ .drop 0 :: steps 3 2 ++
    .begin .status :: steps 4 1

theorem no_deadlock_queueing :
    let s := runFrom step (connect 1 false) queueing
    s.Waits 4 3 ∧ s.Waits 3 2 ∧ s.Waits 2 1 ∧
      ¬ Relation.TransGen s.WaitsForLock 4 4 ∧ ¬ Relation.TransGen s.Waits 4 4 :=
  ⟨.inl ⟨.links, by decide, by decide, .write, by decide⟩,
    .inl ⟨.links, by decide, by decide, .read, by decide⟩,
    .inl ⟨.state 0, by decide, by decide, .write, by decide⟩,
    no_deadlock (n := 1) (run_eq_runFrom (by decide)) 4⟩

/-! ## Progress -/

/-- Code that has not finished has somewhere to go. -/
theorem Proc.exists_step (links : List LinkId) (numLinks : Nat) {p : Proc}
    (h : p.finished = false) : ∃ c, (p.step links numLinks c).isSome := by
  cases p with
  | call op pc =>
      cases pc with
      | selected => exact ⟨.pick [], rfl⟩
      | next rest => cases rest <;> exact ⟨.yes, rfl⟩
      | done => cases h
      | _ => exact ⟨.yes, rfl⟩
  | status pc =>
      cases pc with
      | done => cases h
      | _ => exact ⟨.yes, rfl⟩
  | links pc =>
      cases pc with
      | scanning todo => cases todo <;> exact ⟨.yes, rfl⟩
      | peeked todo l => exact ⟨.no, rfl⟩
      | done found => cases h
      | _ => exact ⟨.yes, rfl⟩
  | close pc =>
      cases pc with
      | next rest => cases rest <;> exact ⟨.yes, rfl⟩
      | done => cases h
      | _ => exact ⟨.yes, rfl⟩
  | life l pc =>
      cases pc with
      | done => cases h
      | _ => exact ⟨.yes, rfl⟩
  | disc pc =>
      cases pc with
      | probing pc => cases pc <;> exact ⟨.yes, rfl⟩
      | resolved => exact ⟨.no, rfl⟩
      | calling pc =>
          cases pc with
          | selected => exact ⟨.pick [], rfl⟩
          | next rest => cases rest <;> exact ⟨.yes, rfl⟩
          | _ => exact ⟨.yes, rfl⟩
      | scanning pc =>
          cases pc with
          | scanning todo => cases todo <;> exact ⟨.yes, rfl⟩
          | peeked todo l => exact ⟨.no, rfl⟩
          | _ => exact ⟨.yes, rfl⟩
      | done => cases h
      | _ => exact ⟨.yes, rfl⟩
  | ended => cases h

theorem Proc.footprint_of_finished {p : Proc} (h : p.finished = true) :
    discipline.footprint p = [] := by
  revert h
  fun_cases Proc.finished p
  case case8 => exact nofun
  all_goals
    intro _
    rfl

theorem Proc.finished_of_live {p : Proc} (h : p.live = true) : p.finished = false := by
  revert h
  fun_cases Proc.live p
  case case3 l pc hpc =>
    intro _
    cases pc <;> first | rfl | exact absurd rfl hpc
  case case4 pc hpc =>
    intro _
    cases pc <;> first | rfl | exact absurd rfl hpc
  all_goals exact nofun

theorem CallPc.awaits_of_asks {pc : CallPc} (h : pc.asks ≠ none) : pc.awaits = true := by
  cases pc <;> first | rfl | exact absurd rfl h

theorem StatusPc.awaits_of_asks {pc : StatusPc} (h : pc.asks ≠ none) : pc.awaits = true := by
  cases pc <;> first | rfl | exact absurd rfl h

theorem ScanPc.awaits_of_asks {pc : ScanPc} (h : pc.asks ≠ none) : pc.awaits = true := by
  cases pc <;> first | rfl | exact absurd rfl h

/-- Whoever waits for a lock can be dropped. -/
theorem Proc.awaits_of_asks {p : Proc} (h : p.asks ≠ none) : p.awaits = true := by
  cases p with
  | call op pc => exact pc.awaits_of_asks h
  | status pc => exact pc.awaits_of_asks h
  | links pc => exact pc.awaits_of_asks h
  | close pc => cases pc <;> first | rfl | exact absurd rfl h
  | life l pc => cases pc <;> first | rfl | exact absurd rfl h
  | disc pc =>
      cases pc with
      | probing pc => exact pc.awaits_of_asks h
      | calling pc => exact pc.awaits_of_asks h
      | scanning pc => exact pc.awaits_of_asks h
      | _ => first | rfl | exact absurd rfl h
  | ended => exact absurd rfl h

/-- A party whose lock was granted, and that has nobody to join, is ready. -/
theorem ready_of (hlock : ∀ x, (s.proc t).asks = some x → Granted (s.queue x.1) t)
    (hjoin : s.proc t = .close .shutting → s.anyLive = false) : s.ready t = true := by
  unfold State.ready
  split
  next hp => rw [hjoin hp]; rfl
  next =>
    rw [Option.all_eq_true]
    intro x hx
    exact decide_eq_true (hlock x hx)

theorem goesOn_of_ready (hready : s.ready t = true) (hp : (s.proc t).finished = false) :
    s.GoesOn t := by
  obtain ⟨c, hc⟩ := Proc.exists_step s.links s.numLinks hp
  refine .inl ⟨c, ?_⟩
  simpa [step, hready] using hc

namespace Inv

theorem anyLive_eq_false (hnone : ∀ u, (s.proc u).live ≠ true) : s.anyLive = false := by
  rw [State.anyLive, List.any_eq_false]
  intro u _
  exact hnone u

/-- Whoever waits for nobody goes on. -/
theorem goesOn (h : Inv s) (hp : (s.proc t).finished = false) (hfree : ∀ u, ¬ s.Waits t u) :
    s.GoesOn t := by
  have hjoin : s.proc t = .close .shutting → s.anyLive = false := by
    intro hclose
    refine anyLive_eq_false ?_
    intro u hu
    exact hfree u (.inr ⟨hclose, hu⟩)
  cases haborted : s.aborted t with
  | false =>
      refine goesOn_of_ready (ready_of ?_ hjoin) hp
      intro x hx
      by_contra hnot
      have hasks : s.asks t = some x.1 := by
        rw [State.asks, haborted, hx]
        rfl
      obtain ⟨⟨u, m⟩, hu⟩ := exists_ahead (h.ordered.queued t x.1 hasks) hnot
      exact hfree u (.inl ⟨x.1, hasks, hnot, m, hu⟩)
  | true =>
      by_cases hasks : (s.proc t).asks = none
      · refine goesOn_of_ready (ready_of ?_ hjoin) hp
        intro x hx
        rw [hasks] at hx
        cases hx
      · refine .inr ⟨haborted, ?_⟩
        simp [Locks.step, Proc.awaits_of_asks hasks, haborted]

/-- Whoever is waited for has not finished. -/
theorem unfinished_of_waits (h : Inv s) (hw : s.Waits t u) : (s.proc u).finished = false := by
  rcases hw with ⟨l, -, -, m, hm⟩ | ⟨-, hlive⟩
  · by_contra hfin
    rw [Bool.not_eq_false] at hfin
    obtain ⟨m', hq⟩ := queued_of_mem_ahead hm
    have hmem := (h.sound.mem_iff u l m').mp hq
    rw [Proc.footprint_of_finished hfin] at hmem
    cases hmem
  · exact Proc.finished_of_live hlive

end Inv

/-- *Progress.*  Behind every operation that has not finished there is one that goes on. -/
theorem progress {n : Nat} {discovery : Bool} {es : List Event}
    (h : run step (connect n discovery) es = some s) (ht : (s.proc t).finished = false) :
    ∃ u, Relation.ReflTransGen s.Waits t u ∧ s.GoesOn u := by
  have hinv := Inv.of_run h
  have hrank : ∀ l : Lock, l.rank ≤ 1 := by
    intro l
    cases l <;> simp [Lock.rank]
  obtain ⟨u, htu, hfree⟩ := exists_free_joins hinv.ordered hrank
    (fun _ _ hj v => hinv.free_of_joins hj v) t
  refine ⟨u, htu, hinv.goesOn ?_ hfree⟩
  rcases Relation.ReflTransGen.cases_tail htu with rfl | ⟨v, -, hvu⟩
  · exact ht
  · exact hinv.unfinished_of_waits hvu

end Macula.Pool.Locks
