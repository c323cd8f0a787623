import MediaPipeline.Sync.Threads

/-!
# Scripted threads

Threads that share mutexes, events and bare points of a wait graph. Each command is carried out by
one thread while all others stand still. A thread that is blocked or gone carries out none.
-/

namespace MediaPipeline.Script

inductive MutexCommand where
  | lock
  | tryLock
  | lockShared
  | unlock
  | add (n : Int)
  | read
  | owner
  | waitUnlocked (event : Nat)
  /-- Tries to take the mutex while it is released. -/
  | unlocked

inductive EventCommand where
  | signal (value : Int)
  | abandon
  | reset
  | wait
  | waitBriefly
  | status
  | provide (thread : Option ThreadId)

inductive PointCommand where
  | provide (thread : Option ThreadId)
  | changed
  | beginWait
  | endWait
  | reset
  | check
  | status

inductive ThreadCommand where
  | mutex (index : Nat) (command : MutexCommand)
  | event (index : Nat) (command : EventCommand)
  | point (index : Nat) (command : PointCommand)
  | teardown
  | exit

inductive ThreadAnswer where
  | nothing
  | unavailable
  | blocked
  | ended (callEnd : CallEnd)
  | busy
  | unlocked
  | notHeld
  | flag (value : Bool)
  | number (value : Int)
  | held (value : Int) (mutex : String)
  | owner (mutex : String) (owner : Option String)
  /-- Whether the mutex could be taken while it was released. -/
  | free (value : Bool)
  | eventStatus (name : String) (isSet isResolved : Bool) (provider : Option String)
  | pointStatus (name : String) (isResolved : Bool) (provider : Option String)
  | cycle (hops : List String) (report : String)
  | exited (name : String)

structure ThreadReport where
  answer : ThreadAnswer
  /-- Calls of other threads that ended, by name of the thread. -/
  ended : List (String × CallEnd)
  waiting : Nat

structure ThreadSetup where
  threads : List String
  mutexes : List String
  events : List String
  points : List String

structure ThreadStage where
  setup : ThreadSetup
  state : Threads Int Int
  gone : List ThreadId := []

namespace ThreadStage

/-- The points of the mutexes come first, then those of the events, then the bare ones. -/
def new (setup : ThreadSetup) : ThreadStage where
  setup
  state :=
    { graph :=
        { points := (setup.mutexes ++ setup.events ++ setup.points).map ({ name := · })
          names := setup.threads.zipIdx.map Prod.swap }
      mutexes := setup.mutexes.zipIdx.map fun (_, i) => { point := i, value := 0 }
      events := setup.events.zipIdx.map fun (_, i) => { point := setup.mutexes.length + i } }

def threadName (s : ThreadStage) (t : ThreadId) : String := s.setup.threads.getD t ""

def providerName (s : ThreadStage) (p : PointId) : Option String :=
  (s.state.graph.provider p).map s.threadName

def call (c : Threads.Call Int Int) : ThreadAnswer × Threads Int Int :=
  match c with
  | (none, state) => (.blocked, state)
  | (some callEnd, state) => (.ended callEnd, state)

def mutexStep (s : ThreadStage) (t : ThreadId) (i : Nat) (m : Mutex Int) :
    MutexCommand → ThreadAnswer × Threads Int Int
  | .lock => call (s.state.lock t i m)
  | .tryLock =>
    match s.state.tryLock t i m with
    | (none, state) => (.busy, state)
    | ended => call ended
  | .lockShared => call (s.state.lockShared t i m)
  | .unlock =>
    if m.isHeldBy t then (.unlocked, s.state.release t i m) else (.notHeld, s.state)
  | .add n =>
    if m.owner = some t then
      (.number (m.value + n), s.state.modifyMutex i fun m => { m with value := m.value + n })
    else (.notHeld, s.state)
  | .read =>
    (if m.owner = some t then .held m.value (s.state.graph.pointName m.point)
     else if m.isHeldBy t then .number m.value
     else .notHeld, s.state)
  | .owner => (.owner (s.state.graph.pointName m.point) (s.providerName m.point), s.state)
  | .waitUnlocked event =>
    match s.state.events[event]? with
    | some e =>
      if m.owner = some t then call (s.state.waitUnlocked t i m event e) else (.notHeld, s.state)
    | none => (.nothing, s.state)
  | .unlocked => (if m.owner = some t then .free true else .notHeld, s.state)

def eventStep (s : ThreadStage) (t : ThreadId) (i : Nat) (e : Event Int) :
    EventCommand → ThreadAnswer × Threads Int Int
  | .signal value => resolve (e.state.signal value)
  | .abandon => resolve e.state.abandon
  | .reset => (.nothing, s.state.resetEvent i e)
  | .wait => call (s.state.wait t i e none)
  | .waitBriefly => call (s.state.waitBriefly t i e)
  | .status =>
    (.eventStatus (s.state.graph.pointName e.point) e.state.isSet e.state.isResolved
      (s.providerName e.point), s.state)
  | .provide none => (.nothing, s.state)
  | .provide (some thread) =>
    let state := { s.state with graph := s.state.graph.setProvider e.point (some thread) }
    match state.graph.cycleOfProvider e.point with
    | some hops => (.ended (.failed (state.deadlock hops)), state)
    | none => (.nothing, state)
where
  resolve : Option (EventState Int) → ThreadAnswer × Threads Int Int
    | none => (.flag false, s.state)
    | some state => (.flag true, s.state.resolve i e state)

def pointStep (s : ThreadStage) (t : ThreadId) (p : PointId) :
    PointCommand → ThreadAnswer × Threads Int Int
  | .provide thread => (.nothing, withGraph (s.state.graph.setProvider p thread))
  | .changed => (failIf (s.state.graph.cycleOfProvider p), s.state)
  | .beginWait =>
    match s.state.graph.beginWait t p with
    | .error hops => (failIf (some hops), s.state)
    | .ok graph => (.nothing, withGraph graph)
  | .endWait => (.nothing, withGraph (s.state.graph.endWait t))
  | .reset => (.nothing, s.state)
  | .check =>
    match s.state.graph.findCycle p t with
    | some hops => (.cycle (hops.map s.state.graph.describe) (s.state.graph.report hops), s.state)
    | none => (.nothing, s.state)
  | .status =>
    (.pointStatus (s.state.graph.pointName p) (s.state.graph.isResolved p) (s.providerName p),
      s.state)
where
  withGraph (graph : WaitGraph) : Threads Int Int := { s.state with graph }
  failIf : Option (List Hop) → ThreadAnswer
    | some hops => .ended (.failed (s.state.deadlock hops))
    | none => .nothing

/-- A thread that ends releases all it holds. -/
def exit (s : ThreadStage) (t : ThreadId) : Threads Int Int :=
  let state := (List.range s.state.mutexes.length).foldl (fun state i =>
    match state.mutexes[i]? with
    | some m => if m.isHeldBy t then state.release t i m else state
    | none => state) s.state
  { state with graph := state.graph.forgetThread t }

def execute (s : ThreadStage) (t : ThreadId) (c : ThreadCommand) : ThreadAnswer × ThreadStage :=
  if s.gone.contains t then
    (match c with | .exit => .nothing | _ => .unavailable, s)
  else if s.state.blocked.any (·.1 == t) then (.unavailable, s)
  else
    let (answer, state) := match c with
      | .mutex i c =>
        match s.state.mutexes[i]? with
        | some m => s.mutexStep t i m c
        | none => (.nothing, s.state)
      | .event i c =>
        match s.state.events[i]? with
        | some e => s.eventStep t i e c
        | none => (.nothing, s.state)
      | .point i c =>
        s.pointStep t (s.setup.mutexes.length + s.setup.events.length + i) c
      | .teardown => (.nothing, { s.state with graph := s.state.graph.teardown })
      | .exit => (.exited (s.threadName t), s.exit t)
    (answer, { s with state, gone := match c with | .exit => t :: s.gone | _ => s.gone })

def step (s : ThreadStage) (t : ThreadId) (c : ThreadCommand) : ThreadReport × ThreadStage :=
  let (answer, s) := s.execute t c
  let ended := s.state.ended.map fun (t, callEnd) => (s.threadName t, callEnd)
  (⟨answer, ended.mergeSort fun a b => decide (a.1 ≤ b.1), s.state.graph.waiting.length⟩,
    { s with state := { s.state with ended := [] } })

end ThreadStage

/-- The reports of a script, whose commands name the thread by its number. -/
def runThreads (setup : ThreadSetup) (commands : List (ThreadId × ThreadCommand)) :
    List ThreadReport :=
  (commands.foldl (fun (s, reports) (t, c) => let (r, s) := s.step t c; (s, r :: reports))
    (ThreadStage.new setup, [])).2.reverse

end MediaPipeline.Script
