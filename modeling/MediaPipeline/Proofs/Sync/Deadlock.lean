import Mathlib.Data.List.Basic
import Mathlib.Logic.Relation
import MediaPipeline.Sync.WaitGraph

/-!
# Deadlocks do not go unseen

Threads that wait for each other in a circle cannot go on. A circle is closed by its last edge, and
an edge comes into the graph in one of three ways: a thread begins to wait, a thread that does not
wait takes a mutex, or an event is given a provider. The first and the last are followed by a walk,
and the walk finds every circle through the thread it starts at. The second closes none.
-/

namespace MediaPipeline

open Relation

namespace WaitGraph

/-- `t` is recorded as waiting on `p`, which is not resolved and which `u` is to provide. -/
structure WaitsOn (g : WaitGraph) (t : ThreadId) (p : PointId) (u : ThreadId) : Prop where
  waiting : g.waiting.lookup t = some p
  unresolved : g.isResolved p = false
  provider : g.provider p = some u

def WaitsFor (g : WaitGraph) (t u : ThreadId) : Prop := ∃ p, g.WaitsOn t p u

variable {g : WaitGraph} {t u v : ThreadId} {p q : PointId}

theorem WaitsFor.eq (h : g.WaitsFor t u) (h' : g.WaitsFor t v) : u = v := by
  obtain ⟨p, hp⟩ := h
  obtain ⟨q, hq⟩ := h'
  obtain rfl : p = q := Option.some.inj (hp.waiting.symm.trans hq.waiting)
  exact Option.some.inj (hp.provider.symm.trans hq.provider)

theorem eq_of_reach_of_waitsFor_self (hself : g.WaitsFor t t)
    (hpath : ReflTransGen g.WaitsFor t u) : u = t := by
  induction hpath with
  | refl => rfl
  | tail _ hlast ih =>
      subst ih
      exact hlast.eq hself

theorem lookup_without_self (t : ThreadId) (waiting : List (ThreadId × PointId)) :
    (without t waiting).lookup t = none := by
  rw [without, List.lookup_eq_none_iff]
  intro entry hentry
  have hne := (List.mem_filter.mp hentry).2
  rw [bne_iff_ne] at hne
  simpa using Ne.symm hne

theorem lookup_without_of_ne (h : u ≠ t) (waiting : List (ThreadId × PointId)) :
    (without t waiting).lookup u = waiting.lookup u := by
  unfold without
  induction waiting with
  | nil => rfl
  | cons entry waiting ih =>
      obtain ⟨s, p⟩ := entry
      by_cases hs : s = t
      · have hb : (u == s) = false := beq_false_of_ne (hs ▸ h)
        simpa [hs, List.lookup_cons, hs ▸ hb] using ih
      · simp [hs, List.lookup_cons, ih]

/-! ## What a walk does not find is not there -/

/-- A walk that finds nothing comes back to none of the threads it has passed. Past the first hop
it may stop at a thread that provides what it waits on itself. -/
theorem not_reach_of_walk_eq_none {seen : List ThreadId} {waiting : List (ThreadId × PointId)}
    {isFirst : Bool} {current : ThreadId}
    (hwaiting : ∀ s, s ∉ seen → waiting.lookup s = g.waiting.lookup s)
    (hnone : g.walk seen waiting isFirst current p = none) (hopen : g.isResolved p = false)
    (hprovider : g.provider p = some u) (hv : v ∈ seen) (hpath : ReflTransGen g.WaitsFor u v) :
    isFirst = false ∧ u = current := by
  fun_induction walk g seen waiting isFirst current p generalizing u v with
  | case1 _ _ _ _ _ hresolved => simp [hresolved] at hopen
  | case2 _ _ _ _ _ _ hno => simp [hno] at hprovider
  | case3 seen waiting isFirst current p _ w hw hself =>
      obtain rfl : w = u := Option.some.inj (hw.symm.trans hprovider)
      simpa using hself
  | case4 => cases hnone
  | case5 seen waiting isFirst current p _ w hw _ hnew hidle =>
      obtain rfl : w = u := Option.some.inj (hw.symm.trans hprovider)
      rcases hpath.cases_head with rfl | ⟨next, ⟨q, hq⟩, -⟩
      · exact absurd hv hnew
      · rw [hwaiting w hnew, hq.waiting] at hidle
        cases hidle
  | case6 seen waiting isFirst current p _ w hw _ hnew q hq _ ih =>
      obtain rfl : w = u := Option.some.inj (hw.symm.trans hprovider)
      rw [Option.map_eq_none_iff] at hnone
      have hrest : ∀ s, s ∉ w :: seen →
          (without w waiting).lookup s = g.waiting.lookup s := by
        intro s hs
        rw [List.mem_cons, not_or] at hs
        rw [lookup_without_of_ne hs.1, hwaiting s hs.2]
      -- `w` waits on `q`, so the way goes on from the provider of `q`.
      rcases hpath.cases_head with rfl | ⟨next, hnext, hpath⟩
      · exact absurd hv hnew
      · obtain ⟨q', hq'⟩ := hnext
        obtain rfl : q = q' := by
          rw [hwaiting w hnew, hq'.waiting] at hq
          exact (Option.some.inj hq).symm
        obtain ⟨-, rfl⟩ := ih hrest hnone hq'.unresolved hq'.provider
          (List.mem_cons_of_mem _ hv) hpath
        exact absurd (eq_of_reach_of_waitsFor_self ⟨q, hq'⟩ hpath ▸ hv) hnew

/-- If no cycle is found, waiting for the point does not lead back to the thread. -/
theorem not_reach_of_findCycle_eq_none (hnone : g.findCycle p t = none)
    (hopen : g.isResolved p = false) (hprovider : g.provider p = some u) :
    ¬ ReflTransGen g.WaitsFor u t := by
  intro hpath
  have hfirst := not_reach_of_walk_eq_none (fun _ _ => rfl) hnone hopen hprovider
    (List.mem_singleton_self t) hpath
  exact absurd hfirst.1 (by decide)

end WaitGraph

/-! ## What a change does to the waits -/

namespace WaitGraph

variable {g g' : WaitGraph} {s t u : ThreadId} {p q : PointId}

theorem WaitsOn.of_endWait (h : (g.endWait s).WaitsOn t p u) : g.WaitsOn t p u := by
  have hwaiting := h.waiting
  have hne : t ≠ s := by
    rintro rfl
    simp [endWait, lookup_without_self] at hwaiting
  rw [endWait, lookup_without_of_ne hne] at hwaiting
  exact ⟨hwaiting, h.unresolved, h.provider⟩

@[simp] theorem isResolved_setProvider (provider : Option ThreadId) :
    (g.setProvider q provider).isResolved p = g.isResolved p := by
  simp only [isResolved, setProvider, List.getElem?_modify]
  split_ifs <;> simp [Option.any_map]

theorem provider_setProvider_eq_some {provider : Option ThreadId}
    (h : (g.setProvider q provider).provider p = some u) :
    g.provider p = some u ∨ p = q ∧ provider = some u := by
  by_cases hp : q = p
  · subst hp
    simp only [WaitGraph.provider, setProvider, List.getElem?_modify_eq] at h
    cases hpoint : g.points[q]? <;> simp_all
  · simp only [WaitGraph.provider, setProvider, List.getElem?_modify_ne _ _ hp] at h
    exact Or.inl h

@[simp] theorem provider_setResolved (resolved : Bool) :
    (g.setResolved q resolved).provider p = g.provider p := by
  simp only [WaitGraph.provider, setResolved, List.getElem?_modify]
  split_ifs
  · rw [Option.map_eq_map, Option.bind_map]
    rfl
  · simp

theorem isResolved_of_setResolved (h : (g.setResolved q true).isResolved p = false) :
    g.isResolved p = false := by
  by_cases hp : q = p
  · subst hp
    simp only [isResolved, setResolved, List.getElem?_modify_eq] at h ⊢
    cases hpoint : g.points[q]? <;> simp_all
  · simpa only [isResolved, setResolved, List.getElem?_modify_ne _ _ hp] using h

theorem WaitsOn.of_setProvider {provider : Option ThreadId}
    (h : (g.setProvider q provider).WaitsOn t p u) :
    g.WaitsOn t p u ∨ p = q ∧ provider = some u := by
  have hopen : g.isResolved p = false := by simpa using h.unresolved
  rcases provider_setProvider_eq_some h.provider with hold | hnew
  · exact Or.inl ⟨h.waiting, hopen, hold⟩
  · exact Or.inr hnew

theorem WaitsOn.of_setResolved (h : (g.setResolved q true).WaitsOn t p u) : g.WaitsOn t p u :=
  ⟨h.waiting, isResolved_of_setResolved h.unresolved, by simpa using h.provider⟩

theorem beginWait_eq_ok (hok : g.beginWait s q = .ok g') :
    g.findCycle q s = none ∧ g' = { g with waiting := (s, q) :: without s g.waiting } := by
  unfold beginWait at hok
  split at hok
  · cases hok
  · next hnone => exact ⟨hnone, (Except.ok.inj hok).symm⟩

theorem WaitsOn.of_beginWait (hok : g.beginWait s q = .ok g') (h : g'.WaitsOn t p u) :
    g.WaitsOn t p u ∨ t = s := by
  obtain ⟨-, rfl⟩ := beginWait_eq_ok hok
  by_cases ht : t = s
  · exact Or.inr ht
  · have hwaiting := h.waiting
    rw [List.lookup_cons, beq_false_of_ne ht] at hwaiting
    exact Or.inl ⟨(lookup_without_of_ne ht _).symm.trans hwaiting, h.unresolved, h.provider⟩

end WaitGraph

/-! ## Circles -/

theorem reflTransGen_until {α : Type} {R S : α → α → Prop} {a t : α}
    (hR : ∀ b c, R b c → b ≠ t → S b c) (h : ReflTransGen R a t) : ReflTransGen S a t := by
  induction h using ReflTransGen.head_induction_on with
  | refl => exact .refl
  | @head b c hbc _ ih =>
      by_cases hb : b = t
      · exact hb ▸ .refl
      · exact .head (hR b c hbc hb) ih

/-- All that is new begins or ends at `t`, so a new circle goes through `t`. -/
theorem not_transGen_of_through {α : Type} {R S : α → α → Prop} {t : α}
    (hnew : ∀ a b, S a b → R a b ∨ a = t ∨ b = t) (hR : ∀ a, ¬ TransGen R a a)
    (ht : ¬ TransGen S t t) (a : α) : ¬ TransGen S a a := by
  have hthrough : ∀ {a b}, TransGen S a b →
      TransGen R a b ∨ (ReflTransGen S a t ∧ ReflTransGen S t b) := by
    intro a b h
    induction h with
    | single hab =>
        rcases hnew _ _ hab with hab' | rfl | rfl
        · exact Or.inl (.single hab')
        · exact Or.inr ⟨.refl, .single hab⟩
        · exact Or.inr ⟨.single hab, .refl⟩
    | tail hab hbc ih =>
        rcases ih with hold | ⟨hat, htb⟩
        · rcases hnew _ _ hbc with hbc' | rfl | rfl
          · exact Or.inl (hold.tail hbc')
          · exact Or.inr ⟨hab.to_reflTransGen, .single hbc⟩
          · exact Or.inr ⟨hab.to_reflTransGen.tail hbc, .refl⟩
        · exact Or.inr ⟨hat, htb.tail hbc⟩
  intro h
  rcases hthrough h with hold | ⟨hat, hta⟩
  · exact hR a hold
  · exact ht (TransGen.trans_left (TransGen.trans_right hta h) hat)

/-! ## Steps -/

/-- The graph, and the points that were given a provider by a thread that has not looked yet whether
that closes a circle. -/
structure TrackedWaits where
  graph : WaitGraph
  unchecked : List PointId := []

namespace TrackedWaits

open WaitGraph

/-- `t` waits for `u`, and the provider of the point it waits on has been checked. -/
def Awaits (x : TrackedWaits) (t u : ThreadId) : Prop :=
  ∃ p, p ∉ x.unchecked ∧ x.graph.WaitsOn t p u

/-- A thread that waits does nothing but end its wait. No step here finds a circle. -/
inductive Step : TrackedWaits → TrackedWaits → Prop
  | beginWait {x : TrackedWaits} {g : WaitGraph} {t : ThreadId} {p : PointId}
      (hidle : x.graph.waiting.lookup t = none) (hok : x.graph.beginWait t p = .ok g) :
      Step x { x with graph := g }
  | endWait (x : TrackedWaits) (t : ThreadId) : Step x { x with graph := x.graph.endWait t }
  /-- A thread has got a mutex. -/
  | take {x : TrackedWaits} {t : ThreadId} (p : PointId)
      (hidle : x.graph.waiting.lookup t = none) :
      Step x { x with graph := x.graph.setProvider p (some t) }
  | release {x : TrackedWaits} {t : ThreadId} (p : PointId)
      (hidle : x.graph.waiting.lookup t = none) :
      Step x { x with graph := x.graph.setProvider p none }
  /-- Some thread names the provider of an event. -/
  | assign (x : TrackedWaits) (p : PointId) (t : ThreadId) :
      Step x ⟨x.graph.setProvider p (some t), p :: x.unchecked⟩
  | check {x : TrackedWaits} {p : PointId} (hp : p ∈ x.unchecked)
      (hok : x.graph.cycleOfProvider p = none) :
      Step x { x with unchecked := x.unchecked.erase p }
  | resolve (x : TrackedWaits) (p : PointId) :
      Step x { x with graph := x.graph.setResolved p true }

variable {x y : TrackedWaits} {t u : ThreadId}

theorem not_transGen_of_idle (hidle : x.graph.waiting.lookup t = none) :
    ¬ TransGen x.Awaits t t := by
  intro h
  obtain ⟨u, ⟨p, -, hp⟩, -⟩ := TransGen.head'_iff.mp h
  rw [hp.waiting] at hidle
  cases hidle

theorem acyclic_of_imp (hawaits : ∀ t u, y.Awaits t u → x.Awaits t u)
    (hx : ∀ t, ¬ TransGen x.Awaits t t) (t : ThreadId) : ¬ TransGen y.Awaits t t :=
  fun h => hx t (TransGen.mono hawaits t t h)

/-- No step closes a circle. -/
theorem Step.acyclic (h : Step x y) (hx : ∀ t, ¬ TransGen x.Awaits t t) (t : ThreadId) :
    ¬ TransGen y.Awaits t t := by
  cases h with
  | @beginWait g s p hidle hok =>
      refine not_transGen_of_through (t := s) ?_ hx ?_ t
      · rintro a b ⟨q, hq, hwait⟩
        rcases hwait.of_beginWait hok with hold | rfl
        · exact Or.inl ⟨q, hq, hold⟩
        · exact Or.inr (Or.inl rfl)
      · intro hcircle
        obtain ⟨b, ⟨q, -, hwait⟩, hpath⟩ := TransGen.head'_iff.mp hcircle
        -- The way back from `b` ends as soon as it comes to `s`, so it was there before.
        have hback : ReflTransGen x.graph.WaitsFor b s := by
          refine reflTransGen_until ?_ hpath
          rintro a c ⟨q', -, hwait'⟩ ha
          exact ⟨q', (hwait'.of_beginWait hok).resolve_right ha⟩
        obtain ⟨hnone, rfl⟩ := beginWait_eq_ok hok
        have hq : p = q := by simpa [List.lookup_cons] using hwait.waiting
        subst hq
        exact not_reach_of_findCycle_eq_none hnone hwait.unresolved hwait.provider hback
  | endWait s =>
      refine acyclic_of_imp ?_ hx t
      rintro a b ⟨q, hq, hwait⟩
      exact ⟨q, hq, hwait.of_endWait⟩
  | @take s p hidle =>
      refine not_transGen_of_through (t := s) ?_ hx ?_ t
      · rintro a b ⟨q, hq, hwait⟩
        rcases hwait.of_setProvider with hold | ⟨-, hs⟩
        · exact Or.inl ⟨q, hq, hold⟩
        · exact Or.inr (Or.inr (Option.some.inj hs).symm)
      · exact not_transGen_of_idle hidle
  | release p hidle =>
      refine acyclic_of_imp ?_ hx t
      rintro a b ⟨q, hq, hwait⟩
      rcases hwait.of_setProvider with hold | ⟨-, hnone⟩
      · exact ⟨q, hq, hold⟩
      · cases hnone
  | assign p s =>
      refine acyclic_of_imp ?_ hx t
      rintro a b ⟨q, hq, hwait⟩
      rw [List.mem_cons, not_or] at hq
      rcases hwait.of_setProvider with hold | ⟨rfl, -⟩
      · exact ⟨q, hq.2, hold⟩
      · exact absurd rfl hq.1
  | @check p hp hok =>
      have hold : ∀ {q}, q ∉ x.unchecked.erase p → q ≠ p → q ∉ x.unchecked :=
        fun hq hne hmem => hq ((List.mem_erase_of_ne hne).mpr hmem)
      cases hprovider : x.graph.provider p with
      | none =>
          refine acyclic_of_imp ?_ hx t
          rintro a b ⟨q, hq, hwait⟩
          have hne : q ≠ p := by
            rintro rfl
            simp [hwait.provider] at hprovider
          exact ⟨q, hold hq hne, hwait⟩
      | some s =>
          refine not_transGen_of_through (t := s) ?_ hx ?_ t
          · rintro a b ⟨q, hq, hwait⟩
            by_cases hne : q = p
            · subst hne
              exact Or.inr (Or.inr (Option.some.inj (hwait.provider.symm.trans hprovider)))
            · exact Or.inl ⟨q, hold hq hne, hwait⟩
          · intro hcircle
            obtain ⟨b, ⟨q, -, hwait⟩, hpath⟩ := TransGen.head'_iff.mp hcircle
            have hnone : x.graph.findCycle q s = none := by
              simpa [cycleOfProvider, hprovider, hwait.waiting] using hok
            have hback : ReflTransGen x.graph.WaitsFor b s :=
              ReflTransGen.mono (fun _ _ ⟨q', _, hq'⟩ => ⟨q', hq'⟩) b s hpath
            exact not_reach_of_findCycle_eq_none hnone hwait.unresolved hwait.provider hback
  | resolve p =>
      refine acyclic_of_imp ?_ hx t
      rintro a b ⟨q, hq, hwait⟩
      exact ⟨q, hq, hwait.of_setResolved⟩

theorem acyclic_of_reach (h : ReflTransGen Step x y) (hx : ∀ t, ¬ TransGen x.Awaits t t)
    (t : ThreadId) : ¬ TransGen y.Awaits t t := by
  induction h generalizing t with
  | refl => exact hx t
  | tail _ hstep ih => exact hstep.acyclic ih t

/-- As long as no deadlock is reported there is none: no threads wait for each other in a circle,
unless a provider has been named that is still to be checked. -/
theorem no_circle_of_unreported {g : WaitGraph} (hempty : g.waiting = [])
    (h : ReflTransGen Step ⟨g, []⟩ x) (hchecked : x.unchecked = []) (t : ThreadId) :
    ¬ TransGen x.graph.WaitsFor t t := by
  have hstart : ∀ t, ¬ TransGen (Awaits ⟨g, []⟩) t t :=
    fun t => not_transGen_of_idle (by simp [hempty])
  have hawaits : ∀ a b, x.graph.WaitsFor a b → x.Awaits a b :=
    fun a b ⟨p, hp⟩ => ⟨p, by simp [hchecked], hp⟩
  intro hcircle
  exact acyclic_of_reach h hstart t (TransGen.mono hawaits t t hcircle)

/-- A mutex and an event, before anything happens. -/
def twoPoints : WaitGraph := { points := [{ name := "state" }, { name := "done" }] }

/-- Thread 1 waits for the mutex of thread 0, which waits for an event of thread 2. -/
def threeInLine : WaitGraph where
  points := [{ name := "state", provider := some 0 }, { name := "done", provider := some 2 }]
  waiting := [(0, 1), (1, 0)]

/-- Thread 0 takes the mutex, thread 1 waits for it, the event is to be signalled by thread 2, and
thread 0 waits for it. -/
theorem reach_threeInLine : ReflTransGen Step ⟨twoPoints, []⟩ ⟨threeInLine, []⟩ := by
  let locked := twoPoints.setProvider 0 (some 0)
  let behind : WaitGraph := { locked with waiting := [(1, 0)] }
  have htake : Step ⟨twoPoints, []⟩ ⟨locked, []⟩ := .take 0 rfl
  have hbehind : Step ⟨locked, []⟩ ⟨behind, []⟩ := .beginWait (t := 1) (p := 0) rfl (by cbv)
  have hassign : Step ⟨behind, []⟩ ⟨behind.setProvider 1 (some 2), [1]⟩ := .assign _ 1 2
  have hcheck : Step ⟨behind.setProvider 1 (some 2), [1]⟩ ⟨behind.setProvider 1 (some 2), []⟩ :=
    .check (p := 1) (by decide) rfl
  have hlast : Step ⟨behind.setProvider 1 (some 2), []⟩ ⟨threeInLine, []⟩ :=
    .beginWait (t := 0) (p := 1) rfl (by cbv)
  exact ((((ReflTransGen.single htake).tail hbehind).tail hassign).tail hcheck).tail hlast

theorem no_circle_of_unreported_threeInLine :
    twoPoints.waiting = [] ∧ ReflTransGen Step ⟨twoPoints, []⟩ ⟨threeInLine, []⟩ ∧
      ∀ t, ¬ TransGen threeInLine.WaitsFor t t :=
  ⟨rfl, reach_threeInLine, no_circle_of_unreported rfl reach_threeInLine rfl⟩

end TrackedWaits

end MediaPipeline
