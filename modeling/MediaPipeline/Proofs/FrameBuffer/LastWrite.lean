import Mathlib.Data.List.Induction
import MediaPipeline.Proofs.FrameBuffer.History
import MediaPipeline.Proofs.FrameBuffer.Separated

/-!
# The last write wins

A buffer from which nothing is removed is a finite map from sort keys to frames: after any history
of additions and clears it holds, for each key that has been added since the buffer was last clear,
the frame that was added last.
-/

namespace MediaPipeline

open MediaTime LawfulMediaTime

variable {F T : Type} [Frame F T] [MediaTime T]

namespace FrameBuffer

variable {order : FrameOrder} {es : List (BufferEdit F T)} {f g : F}

/-- Since `f` was added the buffer has not been cleared. -/
def IsWritten (es : List (BufferEdit F T)) (f : F) : Prop :=
  ∃ past later, es = past ++ .add f :: later ∧ .clear ∉ later

/-- Since `f` was added the buffer has not been cleared, and no frame with its key been added. -/
def IsLastWrite (order : FrameOrder) (es : List (BufferEdit F T)) (f : F) : Prop :=
  ∃ past later, es = past ++ .add f :: later ∧ .clear ∉ later ∧
    ∀ g, .add g ∈ later → (order.key g == order.key f) = false

/-! ## One more edit -/

theorem concat_eq_append_cons_iff {α : Type} {xs past later : List α} {x y : α} :
    xs ++ [y] = past ++ x :: later ↔
      (later = [] ∧ xs = past ∧ y = x) ∨ ∃ ys, later = ys ++ [y] ∧ xs = past ++ x :: ys := by
  constructor
  · intro h
    rcases List.eq_nil_or_concat' later with rfl | ⟨ys, z, rfl⟩
    · obtain ⟨rfl, hyx⟩ := List.append_inj' h rfl
      exact Or.inl ⟨rfl, rfl, List.singleton_inj.mp hyx⟩
    · rw [← List.cons_append, ← List.append_assoc] at h
      obtain ⟨rfl, hyz⟩ := List.append_inj' h rfl
      exact Or.inr ⟨ys, by rw [List.singleton_inj.mp hyz], rfl⟩
  · rintro (⟨rfl, rfl, rfl⟩ | ⟨ys, rfl, rfl⟩)
    · rfl
    · simp

omit [Frame F T] [MediaTime T] in
theorem isWritten_concat_add : IsWritten (es ++ [.add g]) f ↔ f = g ∨ IsWritten es f := by
  constructor
  · rintro ⟨past, later, hes, hclear⟩
    rcases concat_eq_append_cons_iff.mp hes with ⟨-, -, hgf⟩ | ⟨ys, rfl, rfl⟩
    · exact Or.inl (BufferEdit.add.inj hgf).symm
    · exact Or.inr ⟨past, ys, rfl, fun hys => hclear (List.mem_append_left _ hys)⟩
  · rintro (rfl | ⟨past, later, rfl, hclear⟩)
    · exact ⟨es, [], rfl, List.not_mem_nil⟩
    · exact ⟨past, later ++ [.add g], by simp, by simpa using hclear⟩

omit [Frame F T] [MediaTime T] in
theorem not_isWritten_concat_clear : ¬ IsWritten (es ++ [.clear]) f := by
  rintro ⟨past, later, hes, hclear⟩
  rcases concat_eq_append_cons_iff.mp hes with ⟨-, -, hcf⟩ | ⟨ys, rfl, -⟩
  · cases hcf
  · exact hclear (by simp)

theorem IsLastWrite.isWritten (h : IsLastWrite order es f) : IsWritten es f := by
  obtain ⟨past, later, hes, hclear, -⟩ := h
  exact ⟨past, later, hes, hclear⟩

theorem isLastWrite_concat_add :
    IsLastWrite order (es ++ [.add g]) f ↔
      f = g ∨ IsLastWrite order es f ∧ (order.key g == order.key f) = false := by
  constructor
  · rintro ⟨past, later, hes, hclear, hkeys⟩
    rcases concat_eq_append_cons_iff.mp hes with ⟨-, -, hgf⟩ | ⟨ys, rfl, rfl⟩
    · exact Or.inl (BufferEdit.add.inj hgf).symm
    · refine Or.inr ⟨⟨past, ys, rfl, ?_, ?_⟩, hkeys g (by simp)⟩
      · exact fun hys => hclear (List.mem_append_left _ hys)
      · exact fun h hys => hkeys h (List.mem_append_left _ hys)
  · rintro (rfl | ⟨⟨past, later, rfl, hclear, hkeys⟩, hg⟩)
    · exact ⟨es, [], rfl, List.not_mem_nil, by simp⟩
    · refine ⟨past, later ++ [.add g], by simp, by simpa using hclear, ?_⟩
      intro h hh
      rcases List.mem_append.mp hh with hlater | hlast
      · exact hkeys h hlater
      · rw [BufferEdit.add.inj (List.mem_singleton.mp hlast)]
        exact hg

/-! ## Histories -/

variable [LawfulMediaTime T]

/-- What is known of a buffer after a history without removals. -/
structure Remembers (order : FrameOrder) (es : List (BufferEdit F T)) (b : FrameBuffer F T) :
    Prop where
  order_eq : b.order = order
  isSeparated : b.IsSeparated
  mem_iff : ∀ f, f ∈ b.toList ↔ IsLastWrite order es f
  covered : ∀ f, IsWritten es f → ∃ g ∈ b.toList, (order.key g == order.key f) = true

variable {b : FrameBuffer F T}

theorem Remembers.add (hb : Remembers order es b) (hf : Frame.IsTimed f) :
    Remembers order (es ++ [.add f]) (b.add f) := by
  obtain ⟨rfl, hseparated, hmem, hcovered⟩ := hb
  have hnumber : IsNumber (b.order.key f) := FrameOrder.isNumber_key hf
  have hlist := hseparated.toList_add hf
  have hupdate (g : F) : g ∈ b.order.update f b.toList ↔
      g = f ∨ g ∈ b.toList ∧ (b.order.key f == b.order.key g) = false :=
    hseparated.coherent.ascending.mem_update_iff hnumber
  refine ⟨rfl, hseparated.add hf, ?_, ?_⟩
  · intro g
    rw [hlist, hupdate, isLastWrite_concat_add]
    exact or_congr_right (and_congr_left fun _ => hmem g)
  · intro g hg
    rw [hlist]
    rcases isWritten_concat_add.mp hg with rfl | hg
    · exact ⟨g, (hupdate g).mpr (Or.inl rfl), beq_iff.mpr ⟨hnumber, hnumber⟩⟩
    · obtain ⟨h, hh, hhg⟩ := hcovered g hg
      cases hfh : b.order.key f == b.order.key h with
      | false => exact ⟨h, (hupdate h).mpr (Or.inr ⟨hh, hfh⟩), hhg⟩
      | true =>
          -- `f` takes the place of the frame that stood for the key of `g`.
          obtain ⟨hfh, hhf⟩ := beq_iff.mp hfh
          obtain ⟨hhg, hgh⟩ := beq_iff.mp hhg
          refine ⟨f, (hupdate f).mpr (Or.inl rfl), beq_iff.mpr ⟨?_, ?_⟩⟩
          · exact le_trans hfh hhg
          · exact le_trans hgh hhf

omit [LawfulMediaTime T] in
theorem remembers_clear (hb : b.order = order) :
    Remembers order (es ++ [.clear]) b.clear where
  order_eq := hb
  isSeparated := isSeparated_of_runs_eq_nil rfl
  mem_iff f := by
    constructor
    · intro hf
      simp [toList, clear] at hf
    · intro hf
      exact absurd hf.isWritten not_isWritten_concat_clear
  covered f hf := absurd hf not_isWritten_concat_clear

omit [LawfulMediaTime T] in
theorem remembers_empty (order : FrameOrder) :
    Remembers order ([] : List (BufferEdit F T)) (empty order) where
  order_eq := rfl
  isSeparated := isSeparated_of_runs_eq_nil rfl
  mem_iff f := by simp [toList, empty, IsLastWrite]
  covered f := by simp [IsWritten]

theorem remembers_editAll (order : FrameOrder) (hes : Proper es)
    (hkeep : ∀ start stop, .remove start stop ∉ es) :
    Remembers order es ((empty order).editAll es) := by
  induction es using List.reverseRecOn with
  | nil => exact remembers_empty order
  | append_singleton es e ih =>
      have hpast := ih (fun f hf => hes f (List.mem_append_left _ hf))
        (fun start stop h => hkeep start stop (List.mem_append_left _ h))
      rw [editAll_concat]
      cases e with
      | add f => exact hpast.add (hes f (by simp))
      | remove start stop => exact absurd (by simp) (hkeep start stop)
      | clear => exact remembers_clear hpast.order_eq

/-- After additions and clears a buffer reads in strictly increasing order of the keys, and holds
exactly the last write of each key. -/
theorem holds_last_writes (order : FrameOrder) (es : List (BufferEdit F T)) (hes : Proper es)
    (hkeep : ∀ start stop, .remove start stop ∉ es) :
    ((empty order).editAll es).Sorted ∧
    (∀ f, f ∈ ((empty order).editAll es).toList ↔ IsLastWrite order es f) ∧
    ∀ f, IsWritten es f →
      ∃! g, g ∈ ((empty order).editAll es).toList ∧ (order.key g == order.key f) = true := by
  have hb := remembers_editAll order hes hkeep
  refine ⟨hb.isSeparated.coherent.sorted, hb.mem_iff, ?_⟩
  intro f hf
  obtain ⟨g, hg, hgf⟩ := hb.covered f hf
  refine ⟨g, ⟨hg, hgf⟩, ?_⟩
  rintro h ⟨hh, hhf⟩
  obtain ⟨hgf, hfg⟩ := beq_iff.mp hgf
  obtain ⟨hhf, hfh⟩ := beq_iff.mp hhf
  apply hb.isSeparated.coherent.ascending.eq_of_key_le hh hg
  · rw [hb.order_eq]
    exact le_trans hhf hfg
  · rw [hb.order_eq]
    exact le_trans hgf hfh

/-- A frame that is cleared away, a long one, one in front of it, and a short one with the key of
the long one. -/
def rewrites : List (BufferEdit (EncodedFrame Float) Float) :=
  [.add (beat 5), .clear, .add { beat 0.2 with duration := 1 }, .add (beat 0), .add (beat 0.2)]

theorem proper_rewrites : Proper rewrites := by
  intro f hf
  simp only [rewrites, List.mem_cons, BufferEdit.add.injEq, reduceCtorEq, List.not_mem_nil,
    or_false, false_or] at hf
  rcases hf with rfl | rfl | rfl | rfl
  all_goals exact ⟨by decide, by decide, by decide, by decide⟩

theorem holds_last_writes_rewrites :
    (Proper rewrites ∧ ∀ start stop, .remove start stop ∉ rewrites) ∧
    ((empty .dts).editAll rewrites).Sorted ∧
    (∀ f, f ∈ ((empty .dts).editAll rewrites).toList ↔ IsLastWrite .dts rewrites f) ∧
    ∀ f, IsWritten rewrites f → ∃! g, g ∈ ((empty .dts).editAll rewrites).toList ∧
      (FrameOrder.dts.key g == FrameOrder.dts.key f) = true := by
  have hkeep : ∀ start stop, .remove start stop ∉ rewrites := by
    intro start stop
    simp [rewrites]
  exact ⟨⟨proper_rewrites, hkeep⟩, holds_last_writes .dts rewrites proper_rewrites hkeep⟩

end FrameBuffer

end MediaPipeline
