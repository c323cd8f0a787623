import Mathlib.Data.List.Nodup
import MediaPipeline.Proofs.Playback.Bounds
import MediaPipeline.Proofs.Playback.Broadcast

/-!
# What a client is told

The changes of state that a client is told of while it is registered lead from the state at its
registration to the current one, without a gap and without a change that is none, and they are those
that the owner is told of in that time. A seek is made known first, to the owner and then to each
client, and the media time is the new one by then.
-/

namespace MediaPipeline

/-! ## Registrations -/

namespace Clients

variable {C : Type} {cs : Clients C} {id : ℕ}

def ids (cs : Clients C) : List ℕ := cs.entries.map Prod.fst

/-- Each client with the number of its registration. -/
def numbered (cs : Clients C) : Clients (ℕ × C) := ⟨cs.lastId, cs.entries.map fun e => (e.1, e)⟩

@[simp] theorem toList_numbered (cs : Clients C) : cs.numbered.toList = cs.entries := by
  simp [numbered, toList, Function.comp_def]

/-- Numbers are given out upwards. -/
structure IsNumbered (cs : Clients C) : Prop where
  nodup : cs.ids.Nodup
  le_lastId : ∀ id ∈ cs.ids, id ≤ cs.lastId

theorem ids_add (cs : Clients C) (client : C) :
    (cs.add client).2.ids = cs.ids ++ [cs.lastId + 1] := by
  simp [ids, add]

theorem mem_ids_remove {other : ℕ} : id ∈ (cs.remove other).ids ↔ id ∈ cs.ids ∧ id ≠ other := by
  simp only [ids, remove, List.mem_map, List.mem_filter]
  constructor
  · rintro ⟨e, ⟨he, hne⟩, rfl⟩
    exact ⟨⟨e, he, rfl⟩, by simpa using hne⟩
  · rintro ⟨⟨e, he, rfl⟩, hne⟩
    exact ⟨e, ⟨he, by simpa using hne⟩, rfl⟩

theorem isNumbered_empty : (empty : Clients C).IsNumbered :=
  ⟨List.nodup_nil, by simp [ids, empty]⟩

theorem IsNumbered.add (hcs : cs.IsNumbered) (client : C) : (cs.add client).2.IsNumbered := by
  constructor
  · rw [ids_add]
    refine List.nodup_append.mpr ⟨hcs.nodup, by simp, fun id hid new hnew => ?_⟩
    obtain rfl := List.mem_singleton.mp hnew
    exact (Nat.lt_succ_of_le (hcs.le_lastId id hid)).ne
  · rw [ids_add]
    intro id hid
    rcases List.mem_append.mp hid with hold | hlast
    · exact (hcs.le_lastId id hold).trans (Nat.le_succ _)
    · exact (List.mem_singleton.mp hlast).le

theorem IsNumbered.remove (hcs : cs.IsNumbered) (id : ℕ) : (cs.remove id).IsNumbered where
  nodup := hcs.nodup.sublist (List.filter_sublist.map Prod.fst)
  le_lastId other hother := hcs.le_lastId other (mem_ids_remove.mp hother).1

end Clients

/-! ## Changes of state -/

/-- The changes lead from one state to another, each from where the one before has led. -/
inductive StatePath : PlaybackState → List (PlaybackState × PlaybackState) → PlaybackState → Prop
  | nil (s : PlaybackState) : StatePath s [] s
  | cons {old new last : PlaybackState} {changes : List (PlaybackState × PlaybackState)}
      (hne : old ≠ new) (hrest : StatePath new changes last) :
    StatePath old ((old, new) :: changes) last

theorem StatePath.append {first mid last : PlaybackState}
    {changes rest : List (PlaybackState × PlaybackState)} (hchanges : StatePath first changes mid)
    (hrest : StatePath mid rest last) : StatePath first (changes ++ rest) last := by
  induction hchanges with
  | nil => exact hrest
  | cons hne _ ih => exact .cons hne (ih hrest)

namespace Delivery

variable {C D T : Type}

def map (f : C → D) : Delivery C T → Delivery D T
  | ownerSeeking => ownerSeeking
  | ownerState new => ownerState new
  | client c notice => client (f c) notice

def ownerState? : Delivery C T → Option PlaybackState
  | ownerState new => some new
  | _ => none

/-- The change of state that the registration `id` is told of. -/
def changeTo (id : ℕ) : Delivery (ℕ × C) T → Option (PlaybackState × PlaybackState)
  | client e (.stateChanged old new) => if e.1 = id then some (old, new) else none
  | _ => none

end Delivery

namespace Notice

variable {C T : Type} {cs : Clients C}

def change? : Notice T → Option (PlaybackState × PlaybackState)
  | stateChanged old new => some (old, new)
  | _ => none

theorem map_deliveries_numbered (cs : Clients C) (n : Notice T) :
    (n.deliveries cs.numbered).map (Delivery.map Prod.snd) = n.deliveries cs := by
  have howner : n.toOwner.map (Delivery.map (C := ℕ × C) Prod.snd) = n.toOwner := by
    cases n <;> rfl
  rw [deliveries, List.map_append, howner, Clients.toList_numbered]
  simp [deliveries, Clients.toList, Delivery.map, Function.comp_def]

theorem filterMap_ownerState?_deliveries (cs : Clients C) (n : Notice T) :
    (n.deliveries cs).filterMap Delivery.ownerState? = (n.change?.map Prod.snd).toList := by
  cases n <;> simp [deliveries, toOwner, change?, Delivery.ownerState?, Function.comp_def]

theorem ownerSeeking_mem_deliveries {n : Notice T} :
    .ownerSeeking ∈ n.deliveries cs ↔ n = .seeking := by
  cases n <;> simp [deliveries, toOwner]

theorem changeTo_client (id : ℕ) (e : ℕ × C) (n : Notice T) :
    Delivery.changeTo id (.client e n) = if e.1 = id then n.change? else none := by
  cases n <;> simp [Delivery.changeTo, change?]

/-- A registration is told of a change as often as it is there. -/
theorem filterMap_changeTo_deliveries (id : ℕ) (cs : Clients C) (n : Notice T) :
    (n.deliveries cs.numbered).filterMap (Delivery.changeTo id) =
      (List.replicate (cs.ids.count id) n.change?.toList).flatten := by
  have howner : (n.toOwner (C := ℕ × C)).filterMap (Delivery.changeTo id) = [] := by
    cases n <;> rfl
  rw [deliveries, List.filterMap_append, howner, Clients.toList_numbered, List.nil_append,
    List.filterMap_map, Clients.ids]
  induction cs.entries with
  | nil => rfl
  | cons e entries ih =>
      rw [List.filterMap_cons, Function.comp_apply, changeTo_client, ih, List.map_cons,
        List.count_cons]
      by_cases hid : e.1 = id
      · cases hchange : n.change? <;> simp [hid, List.replicate_succ]
      · simp [hid]

end Notice

/-! ## Runs -/

namespace Pipeline

variable {T : Type} {p q : Pipeline T} {notices : List (Notice T)}

theorem filterMap_change?_ofChange (old new : PlaybackState) :
    (Notice.ofChange old new : List (Notice T)).filterMap Notice.change? =
      if old = new then [] else [(old, new)] := by
  unfold Notice.ofChange
  split_ifs <;> rfl

/-- A call tells of the change of state that it makes, if it makes one. -/
theorem Announces.statePath (hcall : p.Announces (q, notices)) :
    StatePath p.status (notices.filterMap Notice.change?) q.status := by
  have hchange : StatePath p.status
      ((Notice.ofChange p.status q.status : List (Notice T)).filterMap Notice.change?)
      q.status := by
    rw [filterMap_change?_ofChange]
    split_ifs with hsame
    · exact hsame ▸ .nil _
    · exact .cons hsame (.nil _)
  cases hcall with
  | state => exact hchange
  | seek => exact hchange
  | rate _ hstatus => exact hstatus ▸ .nil _

end Pipeline

namespace Broadcast

variable {C T : Type} [MediaTime T] {x : Broadcast C T} {id : ℕ}

/-- What an action makes known, with the number of each client's registration. -/
def told (x : Broadcast C T) : BroadcastAction C T → List (Delivery (ℕ × C) T)
  | .call c => (x.pipeline.call x.now c).2.flatMap (Notice.deliveries x.clients.numbered)
  | .setClock _ | .addClient _ | .removeClient _ => []

def toldAll (x : Broadcast C T) : List (BroadcastAction C T) → List (Delivery (ℕ × C) T)
  | [] => []
  | a :: as => x.told a ++ (x.act a).1.toldAll as

theorem map_told (x : Broadcast C T) (a : BroadcastAction C T) :
    (x.told a).map (Delivery.map Prod.snd) = (x.act a).2 := by
  cases a with
  | call c => simp [told, act, List.map_flatMap, Notice.map_deliveries_numbered]
  | _ => rfl

theorem map_toldAll (x : Broadcast C T) (as : List (BroadcastAction C T)) :
    (x.toldAll as).map (Delivery.map Prod.snd) = (x.actAll as).2 := by
  induction as generalizing x with
  | nil => rfl
  | cons a as ih => rw [toldAll, actAll, List.map_append, map_told, ih]

/-- The changes of state that the registration `id` is told of. -/
def changesTo (id : ℕ) (x : Broadcast C T) (as : List (BroadcastAction C T)) :
    List (PlaybackState × PlaybackState) :=
  (x.toldAll as).filterMap (Delivery.changeTo id)

/-- The states that the owner is told of. -/
def statesToOwner (x : Broadcast C T) (as : List (BroadcastAction C T)) : List PlaybackState :=
  (x.actAll as).2.filterMap Delivery.ownerState?

/-- The changes of state that an action makes. -/
def changes (x : Broadcast C T) : BroadcastAction C T → List (PlaybackState × PlaybackState)
  | .call c => (x.pipeline.call x.now c).2.filterMap Notice.change?
  | .setClock _ | .addClient _ | .removeClient _ => []

theorem statePath_changes (x : Broadcast C T) (a : BroadcastAction C T) :
    StatePath x.pipeline.status (x.changes a) (x.act a).1.pipeline.status := by
  cases a with
  | call c => exact (Pipeline.announces_call x.pipeline x.now c).statePath
  | setClock | addClient | removeClient => exact .nil _

theorem statesToOwner_act (x : Broadcast C T) (a : BroadcastAction C T) :
    (x.act a).2.filterMap Delivery.ownerState? = (x.changes a).map Prod.snd := by
  cases a with
  | call c =>
      simp only [act, changes, List.filterMap_flatMap, Notice.filterMap_ownerState?_deliveries]
      rw [List.map_filterMap, List.filterMap_eq_flatMap_toList]
  | setClock | addClient | removeClient => rfl

theorem changeTo_told (hx : x.clients.IsNumbered) (hid : id ∈ x.clients.ids)
    (a : BroadcastAction C T) : (x.told a).filterMap (Delivery.changeTo id) = x.changes a := by
  cases a with
  | call c =>
      have hcount : x.clients.ids.count id = 1 := List.count_eq_one_of_mem hx.nodup hid
      simp only [told, changes, List.filterMap_flatMap, Notice.filterMap_changeTo_deliveries,
        hcount]
      rw [List.filterMap_eq_flatMap_toList]
      simp
  | setClock | addClient | removeClient => rfl

theorem changeTo_told_of_not_mem (hid : id ∉ x.clients.ids) (a : BroadcastAction C T) :
    (x.told a).filterMap (Delivery.changeTo id) = [] := by
  cases a with
  | call c =>
      have hcount : x.clients.ids.count id = 0 := List.count_eq_zero_of_not_mem hid
      simp [told, List.filterMap_flatMap, Notice.filterMap_changeTo_deliveries, hcount]
  | setClock | addClient | removeClient => rfl

theorem isNumbered_act (hx : x.clients.IsNumbered) (a : BroadcastAction C T) :
    (x.act a).1.clients.IsNumbered := by
  cases a with
  | call | setClock => exact hx
  | addClient client => exact hx.add client
  | removeClient id => exact hx.remove id

theorem isNumbered_actAll (hx : x.clients.IsNumbered) (as : List (BroadcastAction C T)) :
    (x.actAll as).1.clients.IsNumbered := by
  induction as generalizing x with
  | nil => exact hx
  | cons a as ih => exact ih (isNumbered_act hx a)

theorem mem_ids_act (hid : id ∈ x.clients.ids) {a : BroadcastAction C T}
    (hstays : a ≠ .removeClient id) : id ∈ (x.act a).1.clients.ids := by
  cases a with
  | call | setClock => exact hid
  | addClient client =>
      simp only [act, Clients.ids_add]
      exact List.mem_append_left _ hid
  | removeClient other =>
      apply Clients.mem_ids_remove.mpr
      refine ⟨hid, ?_⟩
      rintro rfl
      exact hstays rfl

/-- A registration that is gone does not come back, since its number is not given out again. -/
theorem gone_act (hid : id ∉ x.clients.ids) (hused : id ≤ x.clients.lastId)
    (a : BroadcastAction C T) :
    id ∉ (x.act a).1.clients.ids ∧ id ≤ (x.act a).1.clients.lastId := by
  cases a with
  | call | setClock => exact ⟨hid, hused⟩
  | addClient client =>
      simp only [act, Clients.ids_add, List.mem_append, List.mem_singleton, not_or]
      exact ⟨⟨hid, by omega⟩, Nat.le_succ_of_le hused⟩
  | removeClient other => exact ⟨fun hmem => hid (Clients.mem_ids_remove.mp hmem).1, hused⟩

theorem changesTo_of_gone (hid : id ∉ x.clients.ids) (hused : id ≤ x.clients.lastId)
    (as : List (BroadcastAction C T)) : x.changesTo id as = [] := by
  induction as generalizing x with
  | nil => rfl
  | cons a as ih =>
      obtain ⟨hgone, hlast⟩ := gone_act hid hused a
      have hrest : ((x.act a).1.toldAll as).filterMap (Delivery.changeTo id) = [] := ih hgone hlast
      rw [changesTo, toldAll, List.filterMap_append, changeTo_told_of_not_mem hid, hrest]
      rfl

theorem changesTo_of_registered (hx : x.clients.IsNumbered) (hid : id ∈ x.clients.ids)
    {as : List (BroadcastAction C T)} (hstays : .removeClient id ∉ as) :
    StatePath x.pipeline.status (x.changesTo id as) (x.actAll as).1.pipeline.status ∧
      (x.changesTo id as).map Prod.snd = x.statesToOwner as ∧
        id ∈ (x.actAll as).1.clients.ids := by
  induction as generalizing x with
  | nil => exact ⟨.nil _, rfl, hid⟩
  | cons a as ih =>
      rw [List.mem_cons, not_or] at hstays
      have hnext : id ∈ (x.act a).1.clients.ids := mem_ids_act hid (Ne.symm hstays.1)
      obtain ⟨hpath, hstates, hlast⟩ := ih (isNumbered_act hx a) hnext hstays.2
      have hchanges : x.changesTo id (a :: as) = x.changes a ++ (x.act a).1.changesTo id as := by
        rw [changesTo, toldAll, List.filterMap_append, changeTo_told hx hid]
        rfl
      have howner : x.statesToOwner (a :: as) =
          (x.changes a).map Prod.snd ++ (x.act a).1.statesToOwner as := by
        rw [statesToOwner, actAll, List.filterMap_append, statesToOwner_act]
        rfl
      rw [hchanges, howner, List.map_append, hstates]
      exact ⟨(statePath_changes x a).append hpath, rfl, hlast⟩

end Broadcast

/-! ## Seeks -/

namespace Pipeline

variable {T : Type} [MediaTime T] {p q : Pipeline T} {target : T} {now : ℕ}

/-- The call is taken as a seek, and `target` is where it goes. -/
inductive Seeks (p : Pipeline T) (now : ℕ) : PipelineCall T → T → Prop
  | seek (t : T) (haccept : p.AcceptsSeeks) :
    Seeks p now (.seek t) (p.clampToDuration (MediaTime.later t 0))
  | cut (d : T) (hstatus : p.status ≠ .errored) (hpast : ¬ p.currentTime now ≤ d) :
    Seeks p now (.setDuration (some d)) d
  | startOver (hended : p.status = .ended) : Seeks p now .play 0

/-- The seek is the first that is made known, and the time is the new one. -/
structure Lands (p : Pipeline T) (target : T) (r : Pipeline T × List (Notice T)) : Prop where
  notices : r.2 = .seeking :: Notice.ofChange p.status r.1.status
  time : ∀ now, r.1.currentTime now = target

theorem lands_enterSeeking {new : PlaybackState} (hstatus : q.status = p.status)
    (hmedia : q.syncMedia = target) (hnew : new ≠ .playing) :
    p.Lands target (q.enterSeeking new) := by
  constructor
  · rw [enterSeeking_status]
    simp only [enterSeeking, enter, Notice.ofChange, hstatus]
    split_ifs <;> rfl
  · intro now
    rw [currentTime_eq, enterSeeking_status, if_neg hnew, enterSeeking_clock]
    exact hmedia

theorem lands_moveTo (hstatus : q.status = p.status) (hmedia : q.syncMedia = target)
    (hp : p.status ≠ .playing) : p.Lands target (q, [.seeking]) := by
  constructor
  · rw [hstatus, Notice.ofChange_self]
  · intro now
    rw [currentTime_eq, hstatus, if_neg hp]
    exact hmedia

theorem lands_setDuration {d : T} (hstatus : p.status ≠ .errored)
    (hpast : ¬ p.currentTime now ≤ d) : p.Lands d (p.setDuration now (some d)) := by
  unfold setDuration
  rw [if_neg hstatus]
  simp only [hpast, if_false]
  split
  · exact lands_enterSeeking rfl rfl (by decide)
  · exact lands_enterSeeking rfl rfl (by decide)
  · exact lands_enterSeeking rfl rfl (by decide)
  · exact lands_enterSeeking rfl rfl (by decide)
  · next hplaying _ _ _ => exact lands_moveTo rfl rfl hplaying

theorem Seeks.lands {c : PipelineCall T} (hseeks : p.Seeks now c target) :
    p.Lands target (p.call now c) := by
  cases hseeks with
  | seek t haccept =>
      obtain ⟨hinit, herror⟩ := haccept
      simp only [call, Pipeline.seek]
      split
      · next hstatus => exact absurd hstatus hinit
      · next hstatus => exact absurd hstatus herror
      all_goals exact lands_enterSeeking rfl rfl (by decide)
  | cut d hstatus hpast => exact lands_setDuration hstatus hpast
  | startOver hended =>
      simp only [call, play, hended]
      exact lands_enterSeeking rfl rfl (by decide)

omit [MediaTime T] in
theorem seeking_not_mem_enter (q : Pipeline T) (new : PlaybackState) :
    Notice.seeking ∉ (q.enter new).2 := by
  unfold enter
  split_ifs <;> simp

/-- No other call makes a seek known. -/
theorem seeks_of_seeking_mem {c : PipelineCall T} (hmem : .seeking ∈ (p.call now c).2) :
    ∃ target, p.Seeks now c target := by
  cases c with
  | setDuration duration =>
      simp only [call, setDuration] at hmem
      split_ifs at hmem with herror
      · simp at hmem
      · cases duration with
        | none => simp at hmem
        | some d =>
            by_cases hfits : p.currentTime now ≤ d
            · simp [hfits] at hmem
            · exact ⟨d, .cut d herror hfits⟩
  | seek t =>
      refine ⟨_, .seek t ⟨?_, ?_⟩⟩ <;> intro hstatus <;> simp [call, seek, hstatus] at hmem
  | play =>
      simp only [call, play] at hmem
      split at hmem
      · simp at hmem
      · exact absurd hmem (seeking_not_mem_enter _ _)
      · next hended => exact ⟨0, .startOver hended⟩
      · exact absurd hmem (seeking_not_mem_enter _ _)
      all_goals simp at hmem
  | doneInitializing | setRate rate | pause | bufferingStarted | canPlay | reachedEnd | fail
  | reset =>
      simp only [call, doneInitializing, setRate, pause, bufferingStarted, canPlay, reachedEnd,
        fail, reset] at hmem
      split at hmem <;> simp [seeking_not_mem_enter] at hmem

end Pipeline

/-! ## Clients that come and go -/

namespace Broadcast

variable {C T : Type} [MediaTime T]

/-- In every run, from its registration up to its removal a client is told of the changes of state
that lead from the state at its registration to the current one, which are those that the owner is
told of in that time; once it has been removed it is told of none. A call that is taken as a seek
makes the seek known to the owner, then to each client, and then its change of state, and the media
time is the new one already. No other call makes a seek known. -/
theorem told_while_registered (start : ℕ) (before : List (BroadcastAction C T)) :
    let x := ((new start).actAll before).1
    (∀ client during,
      let id := (x.clients.add client).1
      let y := (x.act (.addClient client)).1
      let z := (y.actAll during).1
      .removeClient id ∉ during →
        (y.toldAll during).map (Delivery.map Prod.snd) = (y.actAll during).2 ∧
          StatePath x.pipeline.status (y.changesTo id during) z.pipeline.status ∧
          (y.changesTo id during).map Prod.snd = y.statesToOwner during ∧
          ∀ after, (z.act (.removeClient id)).1.changesTo id after = []) ∧
    (∀ c target, x.pipeline.Seeks x.now c target →
      let q := (x.pipeline.call x.now c).1
      (x.act (.call c)).2 =
        .ownerSeeking :: x.clients.toList.map (.client · .seeking) ++
          (Notice.ofChange x.pipeline.status q.status).flatMap (Notice.deliveries x.clients) ∧
        ∀ now, q.currentTime now = target) ∧
    ∀ c, .ownerSeeking ∈ (x.act (.call c)).2 → ∃ target, x.pipeline.Seeks x.now c target := by
  intro x
  have hx : x.clients.IsNumbered := isNumbered_actAll Clients.isNumbered_empty before
  refine ⟨?_, ?_, ?_⟩
  · intro client during id y z hstays
    have hids : y.clients.ids = x.clients.ids ++ [id] := Clients.ids_add x.clients client
    have hid : id ∈ y.clients.ids := by simp [hids]
    obtain ⟨hpath, hstates, hlast⟩ := changesTo_of_registered (hx.add client) hid hstays
    have hz : z.clients.IsNumbered := isNumbered_actAll (hx.add client) during
    refine ⟨map_toldAll y during, hpath, hstates, fun after => ?_⟩
    apply changesTo_of_gone
    · exact fun hmem => (Clients.mem_ids_remove.mp hmem).2 rfl
    · exact hz.le_lastId id hlast
  · intro c target hseeks q
    have hlands := hseeks.lands
    refine ⟨?_, hlands.time⟩
    simp only [act, hlands.notices, List.flatMap_cons]
    rfl
  · intro c hmem
    obtain ⟨n, hn, hseeking⟩ := List.mem_flatMap.mp hmem
    rw [Notice.ownerSeeking_mem_deliveries.mp hseeking] at hn
    exact Pipeline.seeks_of_seeking_mem hn

def arrival : List (BroadcastAction String ExactTime) :=
  [.addClient "view", .call .doneInitializing]

def departure : List (BroadcastAction String ExactTime) :=
  [.call .play, .removeClient 1, .call .canPlay, .setClock 2000000000]

/-- A meter is registered while a view is there, and then the view goes. Two seconds into playback
the media turns out to be one second long. -/
theorem told_while_registered_departure :
    let y := ((new 0).actAll (arrival ++ [.addClient "meter"])).1
    let z := (y.actAll departure).1
    let changes := [(PlaybackState.paused, .stalled), (.stalled, .playing)]
    .removeClient 2 ∉ departure ∧ y.changesTo 2 departure = changes ∧
      StatePath .paused changes .playing ∧ y.statesToOwner departure = [.stalled, .playing] ∧
      (z.act (.call (.setDuration (some 1)))).2 =
        [.ownerSeeking, .client "meter" .seeking, .ownerState .seekingPlay,
          .client "meter" (.stateChanged .playing .seekingPlay)] ∧
      ∀ now, (z.pipeline.call z.now (.setDuration (some 1))).1.currentTime now = 1 := by
  intro y z changes
  have hstays : .removeClient 2 ∉ departure := by simp [departure]
  have hchanges : y.changesTo 2 departure = changes := by decide +kernel
  obtain ⟨-, hpath, hstates, -⟩ :=
    (told_while_registered 0 arrival).1 "meter" departure hstays
  have hseeks : z.pipeline.Seeks z.now (.setDuration (some 1)) 1 :=
    .cut 1 (by decide +kernel) (by decide +kernel)
  obtain ⟨hdeliveries, htime⟩ :=
    (told_while_registered 0 (arrival ++ (.addClient "meter" :: departure))).2.1 _ 1 hseeks
  refine ⟨hstays, hchanges, ?_, ?_, ?_, htime⟩
  · exact hchanges ▸ hpath
  · exact hstates.symm.trans (congrArg (List.map Prod.snd) hchanges)
  · exact hdeliveries.trans (by decide +kernel)

end Broadcast

end MediaPipeline
