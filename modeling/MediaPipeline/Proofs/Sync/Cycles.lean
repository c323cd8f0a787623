import MediaPipeline.Proofs.Sync.Deadlock

/-!
# The cycles that a search finds

From a thread and the point it is about to wait on a way leads through the graph: from the point to
its provider, and from there to the point that the provider waits on. It may end, and it may come
back to a thread that it has passed, the first one or any other; from then on it would go round for
ever. A search follows it until it does either, and what it reports is the way up to its return.
-/

namespace MediaPipeline

namespace WaitGraph

/-! ## Ways -/

/-- From a thread over a point to the provider of the point. The way ends at a resolved point, at
one without a provider and, past the first hop, at a thread that is to provide what it waits on. -/
def hop? (g : WaitGraph) (isFirst : Bool) (t : ThreadId) (p : PointId) : Option Hop :=
  if g.isResolved p then none
  else ((g.provider p).filter fun u => isFirst || u != t).map fun u => ⟨t, p, u⟩

/-- The hop after another. The way ends also at a thread that does not wait. -/
def next? (g : WaitGraph) (h : Hop) : Option Hop :=
  (g.waiting.lookup h.provider).bind (g.hop? false h.provider)

def way (g : WaitGraph) (first : Option Hop) : ℕ → Option Hop
  | 0 => first
  | n + 1 => (g.way first n).bind g.next?

/-- The hop at `n` leads to one of the threads that were `passed` at the beginning, or to a thread
that an earlier hop has led to. -/
def Returns (g : WaitGraph) (passed : List ThreadId) (first : Option Hop) (n : ℕ) : Prop :=
  ∃ h, g.way first n = some h ∧
    (h.provider ∈ passed ∨ ∃ m < n, ∃ h', g.way first m = some h' ∧ h'.provider = h.provider)

/-- The way returns, and up to its first return it has these hops. -/
def ClosesWith (g : WaitGraph) (passed : List ThreadId) (first : Option Hop)
    (hops : List Hop) : Prop :=
  ∃ n, g.Returns passed first n ∧ (∀ m < n, ¬ g.Returns passed first m) ∧
    hops.map some = (List.range (n + 1)).map (g.way first)

variable {g : WaitGraph} {passed : List ThreadId} {h : Hop} {hops : List Hop} {n : ℕ}

theorem way_none : g.way none n = none := by
  induction n with
  | zero => rfl
  | succ n ih => rw [way, ih, Option.bind_none]

theorem way_some_succ : g.way (some h) (n + 1) = g.way (g.next? h) n := by
  induction n with
  | zero => rfl
  | succ n ih => rw [way, ih, way]

theorem not_returns_none : ¬ g.Returns passed none n := by
  rintro ⟨h, hway, -⟩
  rw [way_none] at hway
  cases hway

theorem returns_zero_iff : g.Returns passed (some h) 0 ↔ h.provider ∈ passed := by
  simp [Returns, way]

/-- Past a hop, the thread that it leads to has been passed. -/
theorem returns_succ_iff :
    g.Returns passed (some h) (n + 1) ↔ g.Returns (h.provider :: passed) (g.next? h) n := by
  simp only [Returns, way_some_succ, List.mem_cons, or_assoc, Nat.exists_lt_succ_left]
  refine exists_congr fun k => and_congr_right fun _ => ?_
  constructor
  · rintro (hpassed | ⟨h', hfirst, hsame⟩ | hlater)
    · exact .inr (.inl hpassed)
    · cases hfirst
      exact .inl hsame.symm
    · exact .inr (.inr hlater)
  · rintro (hsame | hpassed | hlater)
    · exact .inr (.inl ⟨h, rfl, hsame.symm⟩)
    · exact .inl hpassed
    · exact .inr (.inr hlater)

theorem not_closesWith_none : ¬ g.ClosesWith passed none hops :=
  fun ⟨_, hreturns, _⟩ => not_returns_none hreturns

theorem closesWith_of_mem (hmem : h.provider ∈ passed) :
    g.ClosesWith passed (some h) hops ↔ hops = [h] := by
  have hzero : g.Returns passed (some h) 0 := returns_zero_iff.mpr hmem
  constructor
  · rintro ⟨n, -, hbefore, hhops⟩
    obtain rfl : n = 0 := Nat.eq_zero_of_not_pos fun hn => hbefore 0 hn hzero
    exact List.map_injective_iff.mpr (fun _ _ => Option.some.inj) hhops
  · rintro rfl
    exact ⟨0, hzero, by simp, rfl⟩

theorem closesWith_of_not_mem (hnew : h.provider ∉ passed) :
    g.ClosesWith passed (some h) hops ↔
      ∃ rest, hops = h :: rest ∧ g.ClosesWith (h.provider :: passed) (g.next? h) rest := by
  have hzero : ¬ g.Returns passed (some h) 0 := mt returns_zero_iff.mp hnew
  constructor
  · rintro ⟨n, hreturns, hbefore, hhops⟩
    cases n with
    | zero => exact absurd hreturns hzero
    | succ n =>
        rw [List.range_succ_eq_map, List.map_cons, List.map_map] at hhops
        obtain ⟨h', rest, rfl, hfirst, hrest⟩ := List.map_eq_cons_iff.mp hhops
        cases hfirst
        refine ⟨rest, rfl, n, returns_succ_iff.mp hreturns, fun m hm hm' => ?_, ?_⟩
        · exact hbefore (m + 1) (Nat.succ_lt_succ hm) (returns_succ_iff.mpr hm')
        · rw [hrest]
          exact List.map_congr_left fun m _ => way_some_succ
  · rintro ⟨rest, rfl, n, hreturns, hbefore, hrest⟩
    refine ⟨n + 1, returns_succ_iff.mpr hreturns, fun m hm => ?_, ?_⟩
    · cases m with
      | zero => exact hzero
      | succ m =>
          rw [returns_succ_iff]
          exact hbefore m (Nat.lt_of_succ_lt_succ hm)
    · rw [List.range_succ_eq_map, List.map_cons, List.map_cons, List.map_map, hrest]
      exact congrArg _ (List.map_congr_left fun m _ => way_some_succ.symm)

/-! ## Searches -/

variable {seen : List ThreadId} {waiting : List (ThreadId × PointId)} {isFirst : Bool}
  {current : ThreadId} {p : PointId}

theorem hop?_eq_none_iff :
    g.hop? isFirst current p = none ↔
      g.isResolved p = true ∨ g.provider p = none ∨
        (isFirst = false ∧ g.provider p = some current) := by
  unfold hop?
  split_ifs with hresolved
  · simp [hresolved]
  · cases isFirst <;> cases g.provider p <;> simp [hresolved]

theorem hop?_of_provider {u : ThreadId} (hopen : ¬ g.isResolved p = true)
    (hprovider : g.provider p = some u) (honward : ¬ (!isFirst && u == current) = true) :
    g.hop? isFirst current p = some ⟨current, p, u⟩ := by
  have hkeep : (isFirst || u != current) = true := by
    cases isFirst <;> simp_all
  rw [hop?, if_neg hopen, hprovider, Option.filter_some, if_pos hkeep, Option.map_some]

theorem next?_of_lookup {q : PointId} (hwaits : g.waiting.lookup h.provider = some q) :
    g.next? h = g.hop? false h.provider q := by
  rw [next?, hwaits, Option.bind_some]

theorem next?_of_idle (hidle : g.waiting.lookup h.provider = none) : g.next? h = none := by
  rw [next?, hidle, Option.bind_none]

/-- A search forgets the waits of the threads that it has seen, so that it comes to an end, and does
not need them. -/
theorem lookup_without_of_not_mem {u : ThreadId}
    (hwaiting : ∀ s, s ∉ seen → waiting.lookup s = g.waiting.lookup s) (s : ThreadId)
    (hs : s ∉ u :: seen) : (without u waiting).lookup s = g.waiting.lookup s := by
  rw [List.mem_cons, not_or] at hs
  rw [lookup_without_of_ne hs.1, hwaiting s hs.2]

theorem hop?_of_self {u : ThreadId} (hprovider : g.provider p = some u)
    (hself : (!isFirst && u == current) = true) : g.hop? isFirst current p = none := by
  rw [Bool.and_eq_true, Bool.not_eq_true', beq_iff_eq] at hself
  exact hop?_eq_none_iff.mpr (.inr (.inr ⟨hself.1, hself.2 ▸ hprovider⟩))

theorem walk_eq_some_iff (hwaiting : ∀ s, s ∉ seen → waiting.lookup s = g.waiting.lookup s) :
    g.walk seen waiting isFirst current p = some hops ↔
      g.ClosesWith seen (g.hop? isFirst current p) hops := by
  fun_induction walk g seen waiting isFirst current p generalizing hops with
  | case1 _ _ _ _ _ hresolved =>
      rw [hop?_eq_none_iff.mpr (.inl hresolved)]
      exact iff_of_false (Option.some_ne_none _).symm not_closesWith_none
  | case2 _ _ _ _ _ _ hno =>
      rw [hop?_eq_none_iff.mpr (.inr (.inl hno))]
      exact iff_of_false (Option.some_ne_none _).symm not_closesWith_none
  | case3 _ _ _ _ _ _ u hu hself =>
      rw [hop?_of_self hu hself]
      exact iff_of_false (Option.some_ne_none _).symm not_closesWith_none
  | case4 _ _ _ _ _ hopen u hu honward hmem =>
      rw [hop?_of_provider hopen hu honward, closesWith_of_mem hmem, Option.some_inj]
      exact eq_comm
  | case5 _ _ _ _ _ hopen u hu honward hnew hidle =>
      rw [hop?_of_provider hopen hu honward, closesWith_of_not_mem hnew]
      rw [hwaiting u hnew] at hidle
      rw [next?_of_idle hidle]
      refine iff_of_false (Option.some_ne_none _).symm ?_
      rintro ⟨_, _, hrest⟩
      exact not_closesWith_none hrest
  | case6 _ _ _ _ _ hopen u hu honward hnew q hq _ ih =>
      rw [hop?_of_provider hopen hu honward, closesWith_of_not_mem hnew]
      rw [hwaiting u hnew] at hq
      rw [next?_of_lookup hq, Option.map_eq_some_iff]
      refine exists_congr fun rest => ?_
      rw [ih (lookup_without_of_not_mem hwaiting)]
      exact and_comm.trans (and_congr_left fun _ => eq_comm)

/-- A way ends or returns before it has made more hops than there are threads that wait, and one. -/
theorem exists_end_or_return
    (hwaiting : ∀ s, s ∉ seen → waiting.lookup s = g.waiting.lookup s) :
    ∃ n ≤ waiting.length + 1, g.way (g.hop? isFirst current p) n = none ∨
      g.Returns seen (g.hop? isFirst current p) n := by
  induction seen, waiting, isFirst, current, p using walk.induct g with
  | case1 _ _ _ _ _ hresolved =>
      exact ⟨0, Nat.zero_le _, .inl (hop?_eq_none_iff.mpr (.inl hresolved))⟩
  | case2 _ _ _ _ _ _ hno =>
      exact ⟨0, Nat.zero_le _, .inl (hop?_eq_none_iff.mpr (.inr (.inl hno)))⟩
  | case3 _ _ _ _ _ _ u hu hself =>
      exact ⟨0, Nat.zero_le _, .inl (hop?_of_self hu hself)⟩
  | case4 _ _ _ _ _ hopen u hu honward hmem =>
      rw [hop?_of_provider hopen hu honward]
      exact ⟨0, Nat.zero_le _, .inr (returns_zero_iff.mpr hmem)⟩
  | case5 _ _ _ _ _ hopen u hu honward hnew hidle =>
      rw [hop?_of_provider hopen hu honward]
      rw [hwaiting u hnew] at hidle
      refine ⟨1, Nat.le_add_left 1 _, .inl ?_⟩
      rw [way_some_succ, next?_of_idle hidle, way_none]
  | case6 _ waiting _ _ _ hopen u hu honward hnew q hq hshorter ih =>
      rw [hop?_of_provider hopen hu honward]
      obtain ⟨n, hn, hend⟩ := ih (lookup_without_of_not_mem hwaiting)
      rw [hwaiting u hnew] at hq
      refine ⟨n + 1, by omega, ?_⟩
      rw [way_some_succ, returns_succ_iff, next?_of_lookup hq]
      exact hend

/-- The search comes to an end, and it reports a cycle exactly if the way from the point comes back
to the thread or to another one that it has passed before it ends: the hops up to its return. -/
theorem findCycle_reports_first_return (g : WaitGraph) (p : PointId) (t : ThreadId) :
    (∃ n ≤ g.waiting.length + 1, g.way (g.hop? true t p) n = none ∨
        g.Returns [t] (g.hop? true t p) n) ∧
      ∀ hops, g.findCycle p t = some hops ↔
        ∃ n, g.Returns [t] (g.hop? true t p) n ∧
          (∀ m < n, ¬ g.Returns [t] (g.hop? true t p) m) ∧
          hops.map some = (List.range (n + 1)).map (g.way (g.hop? true t p)) :=
  ⟨exists_end_or_return fun _ _ => rfl, fun _ => walk_eq_some_iff fun _ _ => rfl⟩

/-- Thread 0 runs into a circle of which it is no part. -/
example :
    let g : WaitGraph :=
      { points := [⟨"a", some 1, false⟩, ⟨"b", some 2, false⟩, ⟨"c", some 1, false⟩]
        waiting := [(1, 1), (2, 2)] }
    g.findCycle 0 0 = some [⟨0, 0, 1⟩, ⟨1, 1, 2⟩, ⟨2, 2, 1⟩] := by
  cbv

end WaitGraph

end MediaPipeline
