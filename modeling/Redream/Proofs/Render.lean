import Redream.Tr.Convert

/-!
# What the render driver draws

`tr_render_context_until` draws the opaque, punch-through and translucent lists one after the
other, and the flag it threads through the three calls of `tr_render_list` stops the walk after
the first entry equal to `end_surf`. `trRenderContextUntil_draws` states the calls as one prefix
of the three lists joined, `drawnUntil`.
-/

namespace Redream

variable {F : Type}

/-- Whether entry `s` is `end_surf`. -/
def isEnd (endSurf : Int) (s : Nat) : Bool := (s : Int) == endSurf

/-- The entries of `l` up to and including the first equal to `endSurf`, or all of them. -/
def drawnUntil (endSurf : Int) (l : List Nat) : List Nat :=
  l.take (l.findIdx (isEnd endSurf) + 1)

/-- Whether `endSurf` occurs in `l`. -/
def meetsEnd (endSurf : Int) (l : List Nat) : Bool := decide (l.findIdx (isEnd endSurf) < l.length)

theorem drawnUntil_append (endSurf : Int) (l₁ l₂ : List Nat) :
    drawnUntil endSurf (l₁ ++ l₂) =
      if meetsEnd endSurf l₁ then drawnUntil endSurf l₁ else l₁ ++ drawnUntil endSurf l₂ := by
  unfold drawnUntil meetsEnd
  rw [List.findIdx_append]
  by_cases h : l₁.findIdx (isEnd endSurf) < l₁.length
  · simp only [h, decide_True, if_true, List.take_append_of_le_length h]
  · simp only [h, decide_False, Bool.false_eq_true, if_false]
    rw [Nat.add_right_comm, Nat.add_comm _ l₁.length, List.take_append]

theorem drawnUntil_of_not_meetsEnd {endSurf : Int} {l : List Nat} (h : meetsEnd endSurf l = false) :
    drawnUntil endSurf l = l := by
  unfold meetsEnd at h
  unfold drawnUntil
  rw [List.take_of_length_le]
  simp only [decide_eq_false_iff_not, Nat.not_lt] at h
  omega

/-- The loop of `tr_render_list` draws the list's prefix through `end_surf` and reports whether it
met it. -/
theorem trRenderSurfs_eq (endSurf : Int) :
    ∀ (l : List Nat) (calls : List RenderCall), trRenderSurfs endSurf l calls =
      (meetsEnd endSurf l, calls ++ (drawnUntil endSurf l).map .drawTaSurface)
  | [], calls => by simp [trRenderSurfs, meetsEnd, drawnUntil]
  | s :: ss, calls => by
    unfold trRenderSurfs
    by_cases hs : (s : Int) = endSurf
    · simp [hs, meetsEnd, drawnUntil, List.findIdx_cons, isEnd]
    · have he : isEnd endSurf s = false := by simp [isEnd, hs]
      rw [if_neg hs, trRenderSurfs_eq endSurf ss]
      simp only [meetsEnd, drawnUntil, List.findIdx_cons, he, cond_false, List.length_cons,
        Nat.add_lt_add_iff_right, List.take_succ_cons, List.map_cons, List.append_assoc,
        List.singleton_append]

/-- `tr_render_context_until` opens the pass, draws the opaque, punch-through and translucent
entries through the first equal to `end_surf`, and closes the pass; `tr_render_context`, which
passes `-1`, draws every entry. -/
theorem trRenderContextUntil_draws (rc : TrContext F) (endSurf : Int) :
    let E := (rc.lists TA_LIST_OPAQUE).entries ++ (rc.lists TA_LIST_PUNCH_THROUGH).entries ++
      (rc.lists TA_LIST_TRANSLUCENT).entries
    let begin := RenderCall.beginTaSurfaces rc.width rc.height rc.numVerts rc.numIndices
    trRenderContextUntil rc endSurf =
        begin :: (drawnUntil endSurf E).map .drawTaSurface ++ [.endTaSurfaces] ∧
      trRenderContext rc = begin :: E.map .drawTaSurface ++ [.endTaSurfaces] := by
  intro E begin
  have huntil : ∀ e : Int, trRenderContextUntil rc e =
      begin :: (drawnUntil e E).map .drawTaSurface ++ [.endTaSurfaces] := fun e => by
    simp only [trRenderContextUntil, trRenderList, Bool.false_eq_true, if_false, trRenderSurfs_eq,
      E, List.append_assoc, drawnUntil_append]
    cases h₁ : meetsEnd e (rc.lists TA_LIST_OPAQUE).entries <;>
      cases h₂ : meetsEnd e (rc.lists TA_LIST_PUNCH_THROUGH).entries <;>
      simp [trRenderSurfs_eq, drawnUntil_of_not_meetsEnd, h₁, h₂, begin]
  refine ⟨huntil endSurf, ?_⟩
  rw [trRenderContext, huntil, drawnUntil_of_not_meetsEnd]
  simp [meetsEnd, List.findIdx_eq_length_of_false, isEnd]

end Redream
