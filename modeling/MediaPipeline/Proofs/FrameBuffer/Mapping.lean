import Mathlib.Data.List.InsertIdx
import MediaPipeline.FrameBuffer.Basic

/-!
# Buffers of other frames

A buffer sees only the timing of its frames. What is attached to the frames besides does not change
what it does: a map of frames that keeps their timing commutes with every edit.
-/

namespace MediaPipeline

/-- The buffer cannot tell a frame from its image. -/
structure Frame.KeepsTiming {F G T : Type} [Frame F T] [Frame G T] (φ : G → F) : Prop where
  pts (g : G) : Frame.pts (φ g) = Frame.pts g
  dts (g : G) : Frame.dts (φ g) = Frame.dts g
  duration (g : G) : Frame.duration (φ g) = Frame.duration g
  isKeyFrame (g : G) : Frame.isKeyFrame (φ g) = Frame.isKeyFrame g

def Run.map {F G T : Type} (φ : G → F) (r : Run G T) : Run F T :=
  ⟨r.frames.map φ, r.start, r.stop⟩

def FrameBuffer.map {F G T : Type} (φ : G → F) (b : FrameBuffer G T) : FrameBuffer F T :=
  ⟨b.order, b.runs.map (Run.map φ)⟩

variable {F G T : Type} [Frame F T] [Frame G T] [MediaTime T] {φ : G → F} {order : FrameOrder}

/-! ## Runs -/

namespace Frame.KeepsTiming

omit [MediaTime T] in
theorem key (hφ : KeepsTiming φ) (g : G) : order.key (φ g) = order.key g := by
  cases order
  · exact hφ.pts g
  · exact hφ.dts g

theorem presentationEnd (hφ : KeepsTiming φ) (g : G) :
    Frame.presentationEnd (φ g) = Frame.presentationEnd g := by
  simp only [Frame.presentationEnd, hφ.pts, hφ.duration]

theorem reaches (hφ : KeepsTiming φ) (f g : G) :
    order.reaches (φ f) (φ g) = order.reaches f g := by
  simp only [FrameOrder.reaches, hφ.key, hφ.duration]

theorem lowerBound_map (hφ : KeepsTiming φ) (gs : List G) (t : T) :
    order.lowerBound (gs.map φ) t = order.lowerBound gs t := by
  have hfirst : order.firstFrom (gs.map φ) t = order.firstFrom gs t := by
    simp only [FrameOrder.firstFrom, List.findIdx_map]
    exact congrArg (gs.findIdx ·) (funext fun g => by simp [hφ.key])
  have hlast : order.pastLastBefore (gs.map φ) t = order.pastLastBefore gs t := by
    simp only [FrameOrder.pastLastBefore, ← List.map_reverse, List.findIdx_map, List.length_map]
    exact congrArg (gs.length - gs.reverse.findIdx ·) (funext fun g => by simp [hφ.key])
  simp only [FrameOrder.lowerBound, List.head?_map, List.getLast?_map, hfirst, hlast]
  cases gs.head? <;> cases gs.getLast? <;> simp [hφ.key]

theorem insertFrame_map (hφ : KeepsTiming φ) (gs : List G) (g : G) :
    Run.insertFrame order (gs.map φ) (φ g) = (Run.insertFrame order gs g).map φ := by
  simp only [Run.insertFrame, hφ.key, hφ.lowerBound_map, List.getElem?_map, Option.any_map]
  split_ifs
  · simp
  · simp [List.map_insertIdx]

theorem map_singleton (hφ : KeepsTiming φ) (g : G) :
    (Run.singleton g : Run G T).map φ = .singleton (φ g) := by
  simp [Run.singleton, Run.map, hφ.pts, hφ.presentationEnd]

theorem map_insert (hφ : KeepsTiming φ) (r : Run G T) (g : G) :
    (r.insert order g).map φ = (r.map φ).insert order (φ g) := by
  simp only [Run.insert, Run.map, hφ.insertFrame_map, hφ.pts, hφ.presentationEnd]

theorem map_ofFrames (hφ : KeepsTiming φ) (gs : List G) :
    (Run.ofFrames gs : Run G T).map φ = .ofFrames (gs.map φ) := by
  simp only [Run.ofFrames, Run.map, List.foldl_map, hφ.pts, hφ.presentationEnd]

theorem reachesFrame_map (hφ : KeepsTiming φ) (r : Run G T) (g : G) :
    (r.map φ).reachesFrame order (φ g) = r.reachesFrame order g := by
  simp only [Run.reachesFrame, Run.map, List.getLast?_map, Option.any_map]
  cases r.frames.getLast? <;> simp [hφ.reaches]

theorem reachedBy_map (hφ : KeepsTiming φ) (r : Run G T) (g : G) :
    (r.map φ).reachedBy order (φ g) = r.reachedBy order g := by
  simp only [Run.reachedBy, Run.map, List.head?_map, Option.any_map]
  cases r.frames.head? <;> simp [hφ.reaches]

end Frame.KeepsTiming

omit [Frame F T] [Frame G T] in
theorem Run.map_append (r s : Run G T) : (r.append s).map φ = (r.map φ).append (s.map φ) := by
  simp [Run.append, Run.map]

/-! ## Buffers -/

namespace Frame.KeepsTiming

open FrameBuffer

theorem place_map (hφ : KeepsTiming φ) (g : G) (rs : List (Run G T)) :
    place order (φ g) (rs.map (Run.map φ)) = (place order g rs).map (Run.map φ) := by
  induction rs with
  | nil => simp [place, hφ.map_singleton]
  | cons r rs ih =>
      simp only [List.map_cons, place, hφ.reachesFrame_map, hφ.reachedBy_map]
      split_ifs <;> simp [ih, hφ.map_singleton, hφ.map_insert]

theorem touches_map (hφ : KeepsTiming φ) (r s : Run G T) :
    touches order (r.map φ) (s.map φ) = touches order r s := by
  have hframes : (s.map φ).frames = s.frames.map φ := rfl
  simp only [touches, hframes, List.head?_map, Option.any_map]
  cases s.frames.head? <;> simp [hφ.reachesFrame_map]

theorem mergeFrom_map (hφ : KeepsTiming φ) (r : Run G T) (rs : List (Run G T)) :
    mergeFrom order (r.map φ) (rs.map (Run.map φ)) = (mergeFrom order r rs).map (Run.map φ) := by
  induction rs generalizing r with
  | nil => rfl
  | cons next rs ih =>
      simp only [List.map_cons, mergeFrom, hφ.touches_map, ← Run.map_append, ih]
      split_ifs <;> simp

theorem mergeRuns_map (hφ : KeepsTiming φ) (rs : List (Run G T)) :
    mergeRuns order (rs.map (Run.map φ)) = (mergeRuns order rs).map (Run.map φ) := by
  cases rs with
  | nil => rfl
  | cons r rs => exact hφ.mergeFrom_map r rs

theorem map_add (hφ : KeepsTiming φ) (b : FrameBuffer G T) (g : G) :
    (b.add g).map φ = (b.map φ).add (φ g) := by
  simp [FrameBuffer.map, add, hφ.place_map, hφ.mergeRuns_map]

theorem cut_map (hφ : KeepsTiming φ) (start stop : T) (removing : Bool) (gs : List G) :
    cut start stop removing (gs.map φ) =
      ((cut start stop removing gs).1.map φ, (cut start stop removing gs).2.1.map φ,
        (cut start stop removing gs).2.2) := by
  have hends (gs : List G) : (gs.map φ).dropWhile (! endsRemoval stop ·) =
      (gs.dropWhile (! endsRemoval stop ·)).map φ := by
    simp only [List.dropWhile_map, Function.comp_def, endsRemoval, hφ.pts, hφ.isKeyFrame]
  have hkept : (gs.map φ).takeWhile (! within start stop ·) =
      (gs.takeWhile (! within start stop ·)).map φ := by
    simp only [List.takeWhile_map, Function.comp_def, within, hφ.pts]
  have hrest : (gs.map φ).dropWhile (! within start stop ·) =
      (gs.dropWhile (! within start stop ·)).map φ := by
    simp only [List.dropWhile_map, Function.comp_def, within, hφ.pts]
  cases removing with
  | true => simp [cut, hends]
  | false =>
      simp only [cut, hkept, hrest]
      cases gs.dropWhile (! within start stop ·) with
      | nil => simp
      | cons g gs => simp [hends]

theorem removeRuns_map (hφ : KeepsTiming φ) (start stop : T) (removing : Bool)
    (rs : List (Run G T)) :
    removeRuns start stop removing (rs.map (Run.map φ)) =
      (removeRuns start stop removing rs).map (Run.map φ) := by
  induction rs generalizing removing with
  | nil => rfl
  | cons r rs ih =>
      have hcut := hφ.cut_map start stop removing r.frames
      rw [List.map_cons, removeRuns, removeRuns]
      rw [show (r.map φ).frames = r.frames.map φ from rfl, hcut]
      obtain ⟨kept, rest, goesOn⟩ := cut start stop removing r.frames
      simp only [ih, List.map_append]
      cases kept <;> cases rest <;> simp [hφ.map_ofFrames]

theorem map_remove (hφ : KeepsTiming φ) (b : FrameBuffer G T) (start stop : T) :
    (b.remove start stop).map φ = (b.map φ).remove start stop := by
  simp [FrameBuffer.map, remove, hφ.removeRuns_map]

end Frame.KeepsTiming

end MediaPipeline
