import MediaPipeline.Proofs.FrameBuffer.Adding

/-!
# Removing frames from a sorted buffer

Removal deletes frames and splits runs, but it never moves a frame and never leaves an empty run.
It does not look at the gaps: the two halves of a split run may still be within the tolerance.
-/

namespace MediaPipeline

open MediaTime LawfulMediaTime

variable {F T : Type} [Frame F T] [MediaTime T]

theorem Run.wellFormed_ofFrames [LawfulMediaTime T] {fs : List F} (hne : fs ≠ [])
    (hfs : ∀ f ∈ fs, Frame.IsTimed f) : (Run.ofFrames fs).WellFormed where
  frames_ne_nil := hne
  start_le_stop := by
    have hpts : ∀ f ∈ fs, IsNumber (Frame.pts f) := fun f hf =>
      isNumber_of_isFinite (hfs f hf).pts
    have hend : ∀ f ∈ fs, Frame.pts f ≤ Frame.presentationEnd f := fun f hf =>
      le_add (hpts f hf) (hfs f hf).duration (hfs f hf).duration_nonneg
    obtain ⟨f, hf⟩ := List.exists_mem_of_ne_nil fs hne
    have hpos : IsNumber (posInf : T) := (isNumber_of_le (le_posInf (hpts f hf))).2
    have hneg : IsNumber (negInf : T) := (isNumber_of_le (negInf_le (hpts f hf))).1
    exact le_trans ((foldl_earlier_le hpos hpts).2 f hf) (le_trans (hend f hf)
      ((le_foldl_later hneg fun f hf => (isNumber_of_le (hend f hf)).2).2 f hf))

namespace FrameBuffer

variable {start stop : T} {removing : Bool} {rs : List (Run F T)} {s : Run F T}

theorem cut_sublist (start stop : T) (removing : Bool) (fs : List F) :
    ((cut start stop removing fs).1 ++ (cut start stop removing fs).2.1).Sublist fs := by
  cases removing with
  | true => simpa [cut] using List.dropWhile_sublist _
  | false =>
      simp only [cut, Bool.false_eq_true, if_false]
      split
      · simpa using List.takeWhile_sublist _
      · next g gs hrest =>
        have hsplit := List.takeWhile_append_dropWhile
          (p := (! within start stop ·)) (l := fs)
        rw [hrest] at hsplit
        conv_rhs => rw [← hsplit]
        refine List.Sublist.append_left ?_ _
        exact List.sublist_cons_of_sublist _ (List.dropWhile_sublist _)

theorem flatMap_ofFrames_filter (kept rest : List F) :
    (([kept, rest].filter (! ·.isEmpty)).map Run.ofFrames).flatMap (Run.frames (T := T)) =
      kept ++ rest := by
  cases kept <;> cases rest <;> simp [Run.ofFrames]

theorem removeRuns_sublist :
    ((removeRuns start stop removing rs).flatMap Run.frames).Sublist (rs.flatMap Run.frames) := by
  induction rs generalizing removing with
  | nil => simp [removeRuns]
  | cons r rs ih =>
      have hcut := cut_sublist start stop removing r.frames
      simp only [removeRuns, List.flatMap_append, flatMap_ofFrames_filter, List.flatMap_cons]
      exact hcut.append ih

/-- What is left are parts of the runs, one by one. -/
theorem exists_cut_of_mem_removeRuns (hs : s ∈ removeRuns start stop removing rs) :
    ∃ r ∈ rs, ∃ goesOn, ∃ part ∈ [(cut start stop goesOn r.frames).1,
      (cut start stop goesOn r.frames).2.1], part ≠ [] ∧ s = Run.ofFrames part := by
  induction rs generalizing removing with
  | nil => simp [removeRuns] at hs
  | cons r rs ih =>
      rcases List.mem_append.mp hs with hhere | hlater
      · obtain ⟨part, hpart, rfl⟩ := List.mem_map.mp hhere
        obtain ⟨hmem, hne⟩ := List.mem_filter.mp hpart
        exact ⟨r, List.mem_cons_self, removing, part, hmem, by simpa using hne, rfl⟩
      · obtain ⟨r', hr', hpart⟩ := ih hlater
        exact ⟨r', List.mem_cons_of_mem r hr', hpart⟩

theorem exists_ofFrames_of_mem_removeRuns (hs : s ∈ removeRuns start stop removing rs) :
    ∃ fs, fs ≠ [] ∧ (∀ f ∈ fs, f ∈ rs.flatMap Run.frames) ∧ s = Run.ofFrames fs := by
  obtain ⟨r, hr, goesOn, part, hpart, hne, rfl⟩ := exists_cut_of_mem_removeRuns hs
  refine ⟨part, hne, fun f hf => List.mem_flatMap.mpr ⟨r, hr, ?_⟩, rfl⟩
  apply (cut_sublist start stop goesOn r.frames).subset
  rcases List.mem_pair.mp hpart with rfl | rfl
  · exact List.mem_append_left _ hf
  · exact List.mem_append_right _ hf

theorem toList_remove_sublist (b : FrameBuffer F T) (start stop : T) :
    (b.remove start stop).toList.Sublist b.toList :=
  removeRuns_sublist

variable [LawfulMediaTime T]

theorem wellFormed_removeRuns (htimed : ∀ f ∈ rs.flatMap Run.frames, Frame.IsTimed f) :
    ∀ s ∈ removeRuns start stop removing rs, s.WellFormed := by
  intro s hs
  obtain ⟨fs, hne, hmem, rfl⟩ := exists_ofFrames_of_mem_removeRuns hs
  exact Run.wellFormed_ofFrames hne fun f hf => htimed f (hmem f hf)

theorem IsCoherent.remove {b : FrameBuffer F T} (hb : b.IsCoherent) (start stop : T) :
    (b.remove start stop).IsCoherent where
  wellFormed := wellFormed_removeRuns hb.timed
  timed f hf := hb.timed f (removeRuns_sublist.subset hf)
  ascending := hb.ascending.of_sublist removeRuns_sublist

end FrameBuffer

end MediaPipeline
