import Mathlib.Data.Finset.Card
import MediaPipeline.Proofs.FrameBuffer.Counting
import MediaPipeline.Proofs.FrameBuffer.Nearest
import MediaPipeline.Video.Renderer

/-!
# Drawn and dropped frames

A video renderer that is asked for frames at later and later times goes forward through the buffer.
Each time it counts the frame that it draws, if it is another one than before, and those that it has
passed over since. So the frames from the first drawn one to the last are counted once each.
-/

namespace MediaPipeline

open MediaTime LawfulMediaTime

/-- A call for the frame to draw now. -/
structure DrawCall (T : Type) where
  player : Option (PlayerView T)
  /-- The buffer is attached at this moment. -/
  attached : Bool
  deriving DecidableEq

/-- The media time at which the call looks for a frame. -/
def DrawCall.time? {T : Type} (c : DrawCall T) : Option T :=
  if c.attached then (c.player.filter (! ·.state.isSeeking)).map PlayerView.time else none

theorem FrameOrder.Ascending.nodup {F T : Type} [Frame F T] [MediaTime T] [LawfulMediaTime T]
    {order : FrameOrder} {fs : List F} (hfs : order.Ascending fs) : fs.Nodup := by
  refine hfs.pairwise.imp ?_
  rintro f g hlt rfl
  exact not_lt_of_lt hlt hlt

namespace FrameBuffer

variable {F T : Type} [Frame F T] [MediaTime T] [LawfulMediaTime T] {b : FrameBuffer F T}
  {before skipped after : List F} {first last : F}

theorem countBetween_of_split (hasc : b.order.Ascending b.toList)
    (hsplit : b.toList = before ++ first :: (skipped ++ last :: after)) :
    b.countBetween (b.order.key first) (b.order.key last) = skipped.length := by
  have hnumber : IsNumber (b.order.key last) := hasc.isNumber last (by simp [hsplit])
  have hpairwise := hasc.pairwise
  rw [hsplit] at hpairwise
  obtain ⟨-, hrest, hbefore⟩ := List.pairwise_append.mp hpairwise
  obtain ⟨hfirst, hrest⟩ := List.pairwise_cons.mp hrest
  obtain ⟨-, hlast, hskipped⟩ := List.pairwise_append.mp hrest
  have hafter := (List.pairwise_cons.mp hlast).1
  have hout : ∀ g : F, ¬ b.order.key g < b.order.key g := fun g hlt => not_lt_of_lt hlt hlt
  have hfront : before.countP (b.order.isBetween (b.order.key first) (b.order.key last)) = 0 :=
    FrameOrder.countP_isBetween_eq_zero fun g hg hlt =>
      absurd hlt (not_lt_of_lt (hbefore g hg first List.mem_cons_self))
  have hinside : skipped.countP (b.order.isBetween (b.order.key first) (b.order.key last)) =
      skipped.length :=
    FrameOrder.countP_isBetween_eq_length fun g hg =>
      ⟨hfirst g (List.mem_append_left _ hg), hskipped g hg last List.mem_cons_self⟩
  have hbehind : after.countP (b.order.isBetween (b.order.key first) (b.order.key last)) = 0 :=
    FrameOrder.countP_isBetween_eq_zero fun g hg _ => not_lt_of_lt (hafter g hg)
  rw [countBetween, countBetween?_eq hasc hnumber, Option.getD_some, hsplit]
  simp [List.countP_append, hfront, hinside, hbehind, FrameOrder.isBetween, hout]

omit [LawfulMediaTime T] in
theorem mem_of_near {t : T} {f : F} (hne : ∀ r ∈ b.runs, r.frames ≠ [])
    (hf : b.getFrame t .near = some f) : f ∈ b.toList := by
  by_cases hlist : b.toList = []
  · have hruns : b.runs = [] := by
      refine List.eq_nil_iff_forall_not_mem.mpr fun r hr => hne r hr ?_
      exact List.flatMap_eq_nil_iff.mp hlist r hr
    simp [getFrame, hruns, focus?, lastFocus?] at hf
  · obtain ⟨g, hg, hmem⟩ := exists_near t hne hlist
    rwa [Option.some.inj (hf.symm.trans hg)]

end FrameBuffer

namespace VideoRenderer

variable {F T : Type} [Frame F T] [MediaTime T]

/-- Answers the calls in turn, over one buffer, and gives the frames that were drawn. -/
def drawAll (v : VideoRenderer T) (b : FrameBuffer F T) (calls : List (DrawCall T)) :
    List F × VideoRenderer T :=
  calls.foldl
    (fun (drawn, v) c =>
      let (f, _, v) := v.draw c.player (if c.attached then some b else none)
      (drawn ++ f.toList, v))
    ([], v)

variable {b : FrameBuffer F T} {u v : VideoRenderer T} {drawn before mid after : List F}
  {f last : F}

/-- The frame that a call finds. -/
def found? (b : FrameBuffer F T) (c : DrawCall T) : Option F := c.time?.bind (b.getFrame · .near)

/-- A call draws the frame that it finds, or nothing at all. -/
theorem draw_cases (v : VideoRenderer T) (b : FrameBuffer F T) (c : DrawCall T) :
    (found? b c = none ∧
      v.draw c.player (if c.attached then some b else none) = (none, minDelay, v)) ∨
    ∃ t f, c.time? = some t ∧ b.getFrame t .near = some f ∧
      v.draw c.player (if c.attached then some b else none) =
        (some f, delayAfter b f t, v.count b f) := by
  obtain ⟨player, attached⟩ := c
  cases attached with
  | false => cases player <;> exact Or.inl ⟨rfl, rfl⟩
  | true =>
      cases player with
      | none => exact Or.inl ⟨rfl, rfl⟩
      | some player =>
          cases hseeking : player.state.isSeeking with
          | true => simp [draw, found?, DrawCall.time?, hseeking]
          | false =>
              cases hnear : b.getFrame player.time .near with
              | none => simp [draw, found?, DrawCall.time?, hseeking, hnear]
              | some f => simp [draw, DrawCall.time?, hseeking, hnear]

theorem drawAll_concat (v : VideoRenderer T) (b : FrameBuffer F T) (calls : List (DrawCall T))
    (c : DrawCall T) :
    v.drawAll b (calls ++ [c]) =
      let (drawn, w) := v.drawAll b calls
      let (f, _, w) := w.draw c.player (if c.attached then some b else none)
      (drawn ++ f.toList, w) := by
  rw [drawAll, List.foldl_concat]
  rfl

theorem fst_drawAll (v : VideoRenderer T) (b : FrameBuffer F T) (calls : List (DrawCall T)) :
    (v.drawAll b calls).1 = calls.filterMap (found? b) := by
  induction calls using List.reverseRecOn with
  | nil => rfl
  | append_singleton calls c ih =>
      rw [drawAll_concat, List.filterMap_append, ← ih]
      rcases draw_cases (v.drawAll b calls).2 b c with ⟨hnone, hdraw⟩ | ⟨t, f, htime, hf, hdraw⟩
      · simp [hdraw, hnone]
      · simp [hdraw, found?, htime, hf]

/-! ## One frame more -/

section Count

variable [LawfulMediaTime T]

/-- Drawing the last frame again counts nothing. -/
theorem count_of_same (hlast : v.lastDrawn = Frame.pts f) (hpts : 0 ≤ Frame.pts f) :
    v.count b f = v := by
  have hnumber : Frame.pts f ≤ Frame.pts f := (isNumber_of_le hpts).2
  have hsame : (Frame.pts f == v.lastDrawn) = true := by
    rw [hlast]
    exact beq_iff.mpr ⟨hnumber, hnumber⟩
  have hnone : b.countBetween v.lastDrawn (Frame.pts f) = 0 := by
    rw [FrameBuffer.countBetween, FrameBuffer.countBetween?, hlast, if_pos hnumber]
    rfl
  rw [count, if_pos (hlast ▸ hpts), hnone, hsame, ← hlast]
  rfl

omit [LawfulMediaTime T] in
theorem count_first (hstart : ¬ 0 ≤ v.lastDrawn) :
    v.count b f = { v with
      quality := { v.quality with total := v.quality.total + 1 }, lastDrawn := Frame.pts f } := by
  rw [count, if_neg hstart]

/-- The frames behind the last one up to `f` are counted, and all but `f` are dropped. -/
theorem count_later (horder : b.order = .pts) (hasc : b.order.Ascending b.toList)
    {skipped : List F} (hsplit : b.toList = before ++ last :: (skipped ++ f :: after))
    (hlast : v.lastDrawn = Frame.pts last) (hpts : 0 ≤ Frame.pts last) :
    v.count b f = { v with
      quality := { v.quality with
        total := v.quality.total + skipped.length + 1
        dropped := v.quality.dropped + skipped.length }
      lastDrawn := Frame.pts f } := by
  have hcount := FrameBuffer.countBetween_of_split hasc hsplit
  rw [horder] at hcount
  have hpairwise := hasc.pairwise
  rw [hsplit, horder] at hpairwise
  have hlater : Frame.pts last < Frame.pts f :=
    List.rel_of_pairwise_cons (List.pairwise_append.mp hpairwise).2.1 (by simp)
  have hother : (Frame.pts f == v.lastDrawn) = false := by
    rw [hlast]
    exact Bool.eq_false_iff.mpr fun heq => not_le_of_lt hlater (beq_iff.mp heq).1
  rw [count, if_pos (hlast ▸ hpts), hother, hlast]
  simp only [FrameOrder.key] at hcount
  rw [hcount]
  rfl

end Count

/-! ## All frames so far -/

section Tally

variable [DecidableEq F]

/-- What has been drawn since the counters stood as in `u`: the stored frames from the first drawn
one up to `last` have been counted, each of them as drawn or as dropped. -/
structure Tally (b : FrameBuffer F T) (u v : VideoRenderer T) (drawn before mid after : List F)
    (last : F) : Prop where
  split : b.toList = before ++ (mid ++ [last]) ++ after
  head? : drawn.head? = (mid ++ [last]).head?
  getLast? : drawn.getLast? = some last
  subset : drawn ⊆ mid ++ [last]
  lastDrawn : v.lastDrawn = Frame.pts last
  total : v.quality.total = u.quality.total + (mid ++ [last]).length
  dropped : v.quality.dropped + drawn.toFinset.card = u.quality.dropped + (mid ++ [last]).length
  corrupted : v.quality.corrupted = u.quality.corrupted

theorem Tally.first (hsplit : b.toList = before ++ f :: after) (hstart : ¬ 0 ≤ u.lastDrawn) :
    Tally b u (u.count b f) [f] before [] after f where
  split := by simpa using hsplit
  head? := rfl
  getLast? := rfl
  subset := List.Subset.refl _
  lastDrawn := rfl
  total := by rw [count_first hstart]; rfl
  dropped := by rw [count_first hstart]; rfl
  corrupted := by rw [count_first hstart]

variable [LawfulMediaTime T]

theorem Tally.same (h : Tally b u v drawn before mid after last) (hpts : 0 ≤ Frame.pts last) :
    Tally b u (v.count b last) (drawn ++ [last]) before mid after last := by
  have hmem : last ∈ drawn := List.mem_of_getLast? h.getLast?
  have hdrawn : (drawn ++ [last]).toFinset = drawn.toFinset := by
    simp [List.toFinset_append, hmem]
  rw [count_of_same h.lastDrawn hpts]
  refine ⟨h.split, ?_, by simp, ?_, h.lastDrawn, h.total, hdrawn ▸ h.dropped, h.corrupted⟩
  · rw [List.head?_append_of_ne_nil _ (List.ne_nil_of_mem hmem), h.head?]
  · exact List.append_subset.mpr ⟨h.subset, by simp⟩

/-- A later frame is behind the last one, and what is between them has been passed over. -/
theorem Tally.later (h : Tally b u v drawn before mid after last) (horder : b.order = .pts)
    (hasc : b.order.Ascending b.toList) (hpts : 0 ≤ Frame.pts last) (hf : f ∈ b.toList)
    (hlater : Frame.pts last < Frame.pts f) :
    ∃ skipped after', Tally b u (v.count b f) (drawn ++ [f]) before (mid ++ last :: skipped)
      after' f := by
  have hsplit : b.toList = (before ++ mid) ++ last :: after := by simp [h.split]
  -- Up to the last frame no frame is later than it.
  have hpassed : ∀ g ∈ before ++ (mid ++ [last]), ¬ Frame.pts last < Frame.pts g := by
    have hpairwise := hasc.pairwise
    rw [hsplit, horder] at hpairwise
    intro g hg hlt
    rw [← List.append_assoc, List.mem_append, List.mem_singleton] at hg
    rcases hg with hg | rfl
    · exact not_lt_of_lt hlt
        ((List.pairwise_append.mp hpairwise).2.2 g hg last List.mem_cons_self)
    · exact not_lt_of_lt hlt hlt
  have hbehind : f ∈ after := by
    rw [h.split] at hf
    exact (List.mem_append.mp hf).resolve_left fun hf => hpassed f hf hlater
  have hnew : f ∉ drawn := fun hf =>
    hpassed f (List.mem_append_right before (h.subset hf)) hlater
  obtain ⟨skipped, after', rfl⟩ := List.append_of_mem hbehind
  have hmem : last ∈ drawn := List.mem_of_getLast? h.getLast?
  have hcard : (drawn ++ [f]).toFinset.card = drawn.toFinset.card + 1 := by
    have hinsert : (drawn ++ [f]).toFinset = insert f drawn.toFinset := by
      ext g
      simp
    rw [hinsert, Finset.card_insert_of_notMem (by simpa using hnew)]
  have htotal := h.total
  have hdropped := h.dropped
  simp only [List.length_append, List.length_singleton] at htotal hdropped
  refine ⟨skipped, after', ?_⟩
  rw [count_later horder hasc hsplit h.lastDrawn hpts]
  refine ⟨by simp [h.split], ?_, by simp, ?_, rfl, ?_, ?_, h.corrupted⟩
  · rw [List.head?_append_of_ne_nil _ (List.ne_nil_of_mem hmem), h.head?]
    cases mid <;> rfl
  · intro g hg
    rcases List.mem_append.mp hg with hg | hg
    · have hg := h.subset hg
      simp only [List.mem_append, List.mem_cons] at hg ⊢
      tauto
    · exact List.mem_append_right _ hg
  · simp only [List.length_append, List.length_cons, List.length_nil]
    omega
  · simp only [hcard, List.length_append, List.length_cons, List.length_nil]
    omega

/-! ## Runs -/

variable [LawfulDifferences T] {calls : List (DrawCall T)}

theorem tally_drawAll (horder : b.order = .pts) (hb : b.Sorted)
    (hpts : ∀ f ∈ b.toList, 0 ≤ Frame.pts f) (hstart : ¬ 0 ≤ u.lastDrawn)
    (htimes : (calls.filterMap DrawCall.time?).Pairwise (· ≤ ·)) :
    u.drawAll b calls = ([], u) ∨
      ∃ before mid after last, ∃ t ∈ calls.filterMap DrawCall.time?,
        b.getFrame t .near = some last ∧
          Tally b u (u.drawAll b calls).2 (u.drawAll b calls).1 before mid after last := by
  have hasc : b.order.Ascending b.toList :=
    ⟨fun f hf => by rw [horder]; exact (isNumber_of_le (hpts f hf)).2, hb.2⟩
  induction calls using List.reverseRecOn with
  | nil => exact Or.inl rfl
  | append_singleton calls c ih =>
      rw [List.filterMap_append, List.pairwise_append] at htimes
      obtain ⟨htimes, -, hlater⟩ := htimes
      have ih := ih htimes
      rw [drawAll_concat]
      generalize u.drawAll b calls = reached at ih ⊢
      obtain ⟨drawn, v⟩ := reached
      dsimp only at ih ⊢
      rcases draw_cases v b c with ⟨-, hdraw⟩ | ⟨t, f, htime, hf, hdraw⟩
      · simp only [hdraw, Option.toList_none, List.append_nil]
        refine ih.imp_right ?_
        rintro ⟨before, mid, after, last, s, hs, hnear, htally⟩
        have hs : s ∈ (calls ++ [c]).filterMap DrawCall.time? := by
          rw [List.filterMap_append]
          exact List.mem_append_left _ hs
        exact ⟨before, mid, after, last, s, hs, hnear, htally⟩
      · rw [hdraw]
        have hmem := FrameBuffer.mem_of_near hb.1 hf
        refine Or.inr ?_
        rcases ih with hinit | ⟨before, mid, after, last, s, hs, hnear, htally⟩
        · cases hinit
          obtain ⟨before, after, hsplit⟩ := List.append_of_mem hmem
          exact ⟨before, [], after, f, t, by simp [htime], hf, .first hsplit hstart⟩
        · have hst : s ≤ t := hlater s hs t (by simp [htime])
          obtain ⟨x, y, hx, hy, hxy⟩ :=
            FrameBuffer.key_near_mono hb (List.ne_nil_of_mem hmem) hst
          cases hnear.symm.trans hx
          cases hf.symm.trans hy
          have hlast := hpts _ (FrameBuffer.mem_of_near hb.1 hnear)
          rcases hxy with rfl | hlt
          · exact ⟨before, mid, after, _, t, by simp [htime], hf, htally.same hlast⟩
          · rw [horder] at hlt
            obtain ⟨skipped, after', htally⟩ := htally.later horder hasc hlast hmem hlt
            exact ⟨before, _, after', f, t, by simp [htime], hf, htally⟩

omit [LawfulDifferences T] [DecidableEq F] in
theorem filter_stretch {fs stretch : List F} {first : F} {p : F → Bool}
    (hasc : FrameOrder.pts.Ascending fs) (hsplit : fs = before ++ stretch ++ after)
    (hfirst : first ∈ stretch.head?) (hlast : last ∈ stretch.getLast?)
    (hp : ∀ f, p f = true ↔ Frame.pts first ≤ Frame.pts f ∧ Frame.pts f ≤ Frame.pts last) :
    fs.filter p = stretch := by
  obtain ⟨hpairwise, -, hafter⟩ := List.pairwise_append.mp (hsplit ▸ hasc.pairwise)
  obtain ⟨-, hstretch, hbefore⟩ := List.pairwise_append.mp hpairwise
  have hnumber : ∀ f ∈ stretch, Frame.pts f ≤ Frame.pts f := fun f hf =>
    hasc.isNumber f (by simp [hsplit, hf])
  have hfront : before.filter p = [] := by
    refine List.filter_eq_nil_iff.mpr fun f hf hin => ?_
    have hlt : Frame.pts f < Frame.pts first := hbefore f hf first (List.mem_of_head? hfirst)
    exact not_le_of_lt hlt ((hp f).mp hin).1
  have hbehind : after.filter p = [] := by
    refine List.filter_eq_nil_iff.mpr fun f hf hin => ?_
    have hlt : Frame.pts last < Frame.pts f :=
      hafter last (List.mem_append_right _ (List.mem_of_getLast? hlast)) f hf
    exact not_le_of_lt hlt ((hp f).mp hin).2
  have hinside : stretch.filter p = stretch := by
    refine List.filter_eq_self.mpr fun f hf => (hp f).mpr ⟨?_, ?_⟩
    · obtain ⟨tail, rfl⟩ := List.head?_eq_some_iff.mp hfirst
      rcases List.mem_cons.mp hf with rfl | htail
      · exact hnumber _ hf
      · exact le_of_lt (List.rel_of_pairwise_cons hstretch htail)
    · obtain ⟨init, rfl⟩ := List.getLast?_eq_some_iff.mp hlast
      rcases List.mem_append.mp hf with hinit | hf'
      · exact le_of_lt ((List.pairwise_append.mp hstretch).2.2 f hinit last List.mem_cons_self)
      · rw [List.mem_singleton.mp hf'] at hf ⊢
        exact hnumber _ hf
  rw [hsplit, List.filter_append, List.filter_append, hfront, hinside, hbehind, List.nil_append,
    List.append_nil]

omit [LawfulMediaTime T] [LawfulDifferences T] [Frame F T] [MediaTime T] in
/-- Of different frames those that are in another list are as many as the different ones of that. -/
theorem card_add_countP {fs : List F} (hfs : fs.Nodup) (hdrawn : drawn ⊆ fs) :
    drawn.toFinset.card + fs.countP (fun f => decide (f ∉ drawn)) = fs.length := by
  have hsame : (fs.filter (· ∈ drawn)).toFinset = drawn.toFinset := by
    ext f
    simpa using fun hf => hdrawn hf
  rw [← hsame, List.toFinset_card_of_nodup (hfs.filter _), ← List.countP_eq_length_filter]
  have hsplit := List.length_eq_countP_add_countP (· ∈ drawn) (l := fs)
  simpa using hsplit.symm

end Tally

theorem not_nonneg_lastDrawn {v : VideoRenderer Float} (hstart : v = .new ∨ ∃ w, v = onSeeking w) :
    ¬ 0 ≤ v.lastDrawn := by
  have hnegative : ¬ (0 : Float) ≤ -1 := by decide +kernel
  rcases hstart with rfl | ⟨w, rfl⟩ <;> exact hnegative

/-- From a first draw on, at later and later times, the frames near these times are drawn, and every
stored frame from the first drawn one to the last is counted once, as drawn or as dropped. -/
theorem counted_once {F : Type} [Frame F Float] [DecidableEq F] (b : FrameBuffer F Float)
    (horder : b.order = .pts) (hb : b.Sorted) (hpts : ∀ f ∈ b.toList, 0 ≤ Frame.pts f)
    (v : VideoRenderer Float) (hstart : v = .new ∨ ∃ w, v = onSeeking w)
    (calls : List (DrawCall Float))
    (htimes : (calls.filterMap DrawCall.time?).Pairwise (· ≤ ·)) :
    let drawn := (v.drawAll b calls).1
    let w := (v.drawAll b calls).2
    drawn = (calls.filterMap DrawCall.time?).filterMap (b.getFrame · .near) ∧
    (drawn = [] → w = v) ∧
    ∀ first ∈ drawn.head?, ∀ last ∈ drawn.getLast?,
      let stretch := b.toList.filter fun f =>
        decide (Frame.pts first ≤ Frame.pts f) && decide (Frame.pts f ≤ Frame.pts last)
      drawn ⊆ stretch ∧
      drawn.toFinset.card + stretch.countP (fun f => decide (f ∉ drawn)) = stretch.length ∧
      w.quality = { v.quality with
        total := v.quality.total + stretch.length
        dropped := v.quality.dropped + (stretch.length - drawn.toFinset.card) } := by
  intro drawn w
  have hasc : FrameOrder.pts.Ascending b.toList :=
    ⟨fun f hf => (isNumber_of_le (hpts f hf)).2, horder ▸ hb.2⟩
  have hfound : drawn = (calls.filterMap DrawCall.time?).filterMap (b.getFrame · .near) := by
    rw [List.filterMap_filterMap]
    exact fst_drawAll v b calls
  rcases tally_drawAll horder hb hpts (not_nonneg_lastDrawn hstart) htimes with
    hnone | ⟨before, mid, after, last, t, -, -, htally⟩
  · have hnil : drawn = [] := congrArg Prod.fst hnone
    refine ⟨hfound, fun _ => congrArg Prod.snd hnone, fun first hfirst => ?_⟩
    simp [hnil] at hfirst
  · refine ⟨hfound, fun hnil => ?_, ?_⟩
    · have hlast : drawn.getLast? = some last := htally.getLast?
      simp [hnil] at hlast
    · intro first hfirst last' hlast' stretch
      obtain rfl : last = last' := Option.some.inj (htally.getLast?.symm.trans hlast')
      have hstretch : stretch = mid ++ [last] :=
        filter_stretch hasc htally.split (htally.head? ▸ hfirst) List.getLast?_concat (by simp)
      have hsubset : drawn ⊆ stretch := hstretch ▸ htally.subset
      have hcard : drawn.toFinset.card + stretch.countP (fun f => decide (f ∉ drawn)) =
          stretch.length := card_add_countP (hasc.nodup.filter _) hsubset
      have htotal : w.quality.total = v.quality.total + stretch.length := hstretch ▸ htally.total
      have hsum : w.quality.dropped + drawn.toFinset.card =
          v.quality.dropped + stretch.length := hstretch ▸ htally.dropped
      have hdropped : w.quality.dropped =
          v.quality.dropped + (stretch.length - drawn.toFinset.card) := by omega
      refine ⟨hsubset, hcard, ?_⟩
      calc
        w.quality = ⟨w.quality.total, w.quality.dropped, w.quality.corrupted⟩ := rfl
        _ = ⟨v.quality.total + stretch.length,
            v.quality.dropped + (stretch.length - drawn.toFinset.card), v.quality.corrupted⟩ := by
          rw [htotal, hdropped, htally.corrupted]

def picture (pts : Float) : DecodedFrame Float :=
  .video (.video 0 "h264" 1 1) pts pts 1 .rgb24 1 1 [] []

/-- Five seconds with a picture each. -/
def clip : DecodedBuffer Float := (FrameBuffer.empty .pts).addAll ([0, 1, 2, 3, 4].map picture)

/-- A seek is about to end, the player plays on, and the buffer is gone for a moment. -/
def viewing : List (DrawCall Float) :=
  [⟨some ⟨3, 1, .seekingPlay⟩, true⟩, ⟨some ⟨0, 1, .playing⟩, true⟩,
    ⟨some ⟨2.25, 1, .playing⟩, true⟩, ⟨some ⟨2.5, 1, .playing⟩, true⟩,
    ⟨some ⟨3.5, 1, .playing⟩, false⟩, ⟨some ⟨4.5, 1, .playing⟩, true⟩]

/-- Three pictures are drawn, one of them twice, and two are passed over. -/
theorem counted_once_clip :
    clip.Sorted ∧ (viewing.filterMap DrawCall.time?).Pairwise (· ≤ ·) ∧
      (new.drawAll clip viewing).1 = [0, 2, 2, 4].map picture ∧
      (new.drawAll clip viewing).2.quality = ⟨5, 2, 0⟩ := by
  have hb : clip.Sorted := by decide +kernel
  have hpts : ∀ f ∈ clip.toList, 0 ≤ Frame.pts f := by decide +kernel
  have htimes : (viewing.filterMap DrawCall.time?).Pairwise (· ≤ ·) := by decide +kernel
  obtain ⟨hfound, -, hcounted⟩ := counted_once clip rfl hb hpts new (Or.inl rfl) viewing htimes
  have hdrawn : (new.drawAll clip viewing).1 = [0, 2, 2, 4].map picture := by
    rw [hfound]
    decide +kernel
  have hquality := (hcounted (picture 0) (hdrawn ▸ rfl) (picture 4) (hdrawn ▸ rfl)).2.2
  refine ⟨hb, htimes, hdrawn, hquality.trans ?_⟩
  rw [hdrawn]
  decide +kernel

end VideoRenderer

end MediaPipeline
