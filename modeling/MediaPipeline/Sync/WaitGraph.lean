/-!
# The wait graph

Threads wait on points, and a point may have a provider, the thread that is expected to let its
waiters go: a mutex is provided by the thread that holds it, an event by the thread that will signal
it. A thread that is about to wait follows the providers first. If they lead back to a thread that
was passed before, nobody on the way can go on.
-/

namespace MediaPipeline

abbrev ThreadId := Nat

abbrev PointId := Nat

structure WaitPoint where
  name : String
  provider : Option ThreadId := none
  /-- Its waiters are about to wake. -/
  resolved : Bool := false
  deriving DecidableEq, Repr

/-- A thread that waits on a point, and the point's provider. -/
structure Hop where
  waiter : ThreadId
  point : PointId
  provider : ThreadId
  deriving DecidableEq, Repr

structure WaitGraph where
  points : List WaitPoint
  /-- What each waiting thread waits on; no thread is in the list twice. -/
  waiting : List (ThreadId × PointId) := []
  names : List (ThreadId × String) := []
  deriving DecidableEq, Repr

namespace WaitGraph

def pointName (g : WaitGraph) (p : PointId) : String := (g.points[p]?.map (·.name)).getD ""

/-- A point that is not there has no provider. -/
def provider (g : WaitGraph) (p : PointId) : Option ThreadId := g.points[p]?.bind (·.provider)

def isResolved (g : WaitGraph) (p : PointId) : Bool := g.points[p]?.any (·.resolved)

/-! ## Cycles -/

/-- All waits but those of one thread. -/
def without (t : ThreadId) (waiting : List (ThreadId × PointId)) : List (ThreadId × PointId) :=
  waiting.filter (·.1 != t)

theorem length_without_lt {waiting : List (ThreadId × PointId)} {t : ThreadId}
    {p : PointId} (h : waiting.lookup t = some p) :
    (without t waiting).length < waiting.length := by
  simp only [without]
  induction waiting with
  | nil => cases h
  | cons entry waiting ih =>
    obtain ⟨t', p'⟩ := entry
    by_cases ht : t = t'
    · subst ht
      have := List.length_filter_le (fun e : ThreadId × PointId => e.1 != t) waiting
      simp only [List.filter, bne_self_eq_false, List.length_cons]
      omega
    · rw [List.lookup_cons, beq_false_of_ne ht] at h
      have hb : (t' != t) = true := bne_iff_ne.2 (Ne.symm ht)
      simpa [List.filter, hb] using ih h

/-- The hops from `current`, about to wait on `point`, up to the first provider in `seen`. There are
none if the way ends: at a resolved point, at one without a provider, at a thread that does not
wait, or past the first hop at a thread that provides what it waits on and is about to wake.
`waiting` leaves out threads in `seen`. -/
def walk (g : WaitGraph) (seen : List ThreadId) (waiting : List (ThreadId × PointId))
    (isFirst : Bool) (current : ThreadId) (point : PointId) : Option (List Hop) :=
  if g.isResolved point then none
  else
    match g.provider point with
    | none => none
    | some provider =>
      if !isFirst && provider == current then none
      else if provider ∈ seen then some [⟨current, point, provider⟩]
      else
        match h : waiting.lookup provider with
        | none => none
        | some next =>
          have := length_without_lt h
          (g.walk (provider :: seen) (without provider waiting) false provider next).map
            (⟨current, point, provider⟩ :: ·)
termination_by waiting.length

/-- The hops that would close a cycle if `waiter` waited on `point`. -/
def findCycle (g : WaitGraph) (point : PointId) (waiter : ThreadId) : Option (List Hop) :=
  g.walk [waiter] g.waiting true waiter point

/-! ## Changes -/

def setProvider (g : WaitGraph) (p : PointId) (provider : Option ThreadId) : WaitGraph :=
  { g with points := g.points.modify p ({ · with provider }) }

def setResolved (g : WaitGraph) (p : PointId) (resolved : Bool) : WaitGraph :=
  { g with points := g.points.modify p ({ · with resolved }) }

/-- Records that `t` waits on `p`, or returns the cycle that this would close. -/
def beginWait (g : WaitGraph) (t : ThreadId) (p : PointId) : Except (List Hop) WaitGraph :=
  match g.findCycle p t with
  | some hops => .error hops
  | none => .ok { g with waiting := (t, p) :: without t g.waiting }

def endWait (g : WaitGraph) (t : ThreadId) : WaitGraph :=
  { g with waiting := without t g.waiting }

/-- The cycle that the new provider of `p` closes, if it waits itself. -/
def cycleOfProvider (g : WaitGraph) (p : PointId) : Option (List Hop) := do
  let provider ← g.provider p
  let target ← g.waiting.lookup provider
  g.findCycle target provider

def forgetThread (g : WaitGraph) (t : ThreadId) : WaitGraph :=
  { g with names := g.names.filter (·.1 != t) }

def teardown (g : WaitGraph) : WaitGraph := { g with waiting := [], names := [] }

/-! ## Reports -/

/-- A thread without a name is called by its number; the first one is the process itself. -/
def threadName (g : WaitGraph) (t : ThreadId) : String :=
  (g.names.lookup t).getD ("ThreadId(" ++ toString (t + 2) ++ ")")

def describe (g : WaitGraph) (h : Hop) : String :=
  "\"" ++ g.threadName h.waiter ++ "\" waiting on \"" ++ g.pointName h.point ++
    "\" provided by \"" ++ g.threadName h.provider ++ "\""

def report (g : WaitGraph) (hops : List Hop) : String :=
  String.join (hops.map fun h => "  " ++ g.describe h ++ "\n")

end WaitGraph

end MediaPipeline
