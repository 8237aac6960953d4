import Redream.Tr.Types

/-!
# Staging and committing surfaces

A surface is staged at `rc.surfs[rc.num_surfs]` by `tr_reserve_surf`, grows one vertex at a time
by `tr_reserve_vert`, and is committed to the current list by `tr_commit_surf`: whole in an
opaque list, one surface per triangle in a translucent or punch-through one.

`trCommitTris_eq` gives the triangle loop in closed form: triangle `k` of a strip staged at
surface `N` over vertices from `b` on becomes surface `N + k` with strip offset `k`, vertices
`b + k ..`, and the staged surface's params.
-/

namespace Redream

variable {F : Type} (lim : TrLimits)

/-- Append `x` to the list, as `list->surfs[list->num_surfs++] = x`. -/
def TrList.push (l : TrList) (x : Nat) : TrList :=
  { l with surfs := Function.update l.surfs l.numSurfs x, numSurfs := l.numSurfs + 1 }

@[simp] theorem TrList.push_numSurfs (l : TrList) (x : Nat) : (l.push x).numSurfs = l.numSurfs + 1 :=
  rfl

@[simp] theorem TrList.push_numOrigSurfs (l : TrList) (x : Nat) :
    (l.push x).numOrigSurfs = l.numOrigSurfs := rfl

theorem TrList.entries_push (l : TrList) (x : Nat) : (l.push x).entries = l.entries ++ [x] := by
  simp only [entries, push, List.range_succ, List.map_append, List.map_cons, List.map_nil,
    Function.update_same, List.append_cancel_right_eq]
  exact List.map_congr_left fun k hk =>
    Function.update_noteq (Nat.ne_of_lt (List.mem_range.1 hk)) _ _

/-- The surface `tr_reserve_surf` stages: a copy of the surface before it or a zeroed one, with
no vertices yet, from `num_verts` on. -/
def stagedSurf (rc : TrContext F) (copyFromPrev : Bool) : TaSurface :=
  let surf := if copyFromPrev then rc.surfs (rc.numSurfs - 1) else TaSurface.zero
  { surf with firstVert := rc.numVerts, numVerts := 0 }

/-- Stage a surface at `num_surfs`. -/
def trReserveSurf (rc : TrContext F) (copyFromPrev : Bool) : Except Fault (TrContext F) :=
  if rc.numSurfs < lim.maxSurfs then
    if copyFromPrev = true ∧ rc.numSurfs = 0 then .error .check
    else .ok { rc with surfs := Function.update rc.surfs rc.numSurfs (stagedSurf rc copyFromPrev) }
  else .error .check

/-- Reserve the staged surface's next vertex, zeroed, at `num_verts` plus the surface's count. -/
def trReserveVert (fp : FloatOps F) (rc : TrContext F) : Except Fault (Nat × TrContext F) :=
  let curr := rc.surfs rc.numSurfs
  let vertIndex := rc.numVerts + curr.numVerts
  if vertIndex < lim.maxVerts then
    .ok (vertIndex, { rc with
      verts := Function.update rc.verts vertIndex (TaVertex.zero fp)
      surfs := Function.update rc.surfs rc.numSurfs { curr with numVerts := curr.numVerts + 1 } })
  else .error .check

/-- The loop of `tr_commit_surf` over a translucent strip's triangles, from triangle `i` with `n`
left: each gets a surface (the staged one first, then copies of the surface before), three
vertices from `num_verts` on, and the list's next entry. -/
def trCommitTris : (n i : Nat) → TrContext F → TrList → Except Fault (TrContext F × TrList)
  | 0, _, rc, list => .ok (rc, list)
  | n + 1, i, rc, list =>
    (if i = 0 then .ok rc else trReserveSurf lim rc true) >>= fun rc =>
      let surf := { rc.surfs rc.numSurfs with
        stripOffset := i, firstVert := rc.numVerts, numVerts := 3 }
      trCommitTris n (i + 1)
        { rc with
          surfs := Function.update rc.surfs rc.numSurfs surf
          numVerts := rc.numVerts + 1, numSurfs := rc.numSurfs + 1 }
        (list.push rc.numSurfs)

/-- Commit the staged surface to `tr.list_type`'s list. Nothing in `tr.c` guards the list index;
the model stops with `.outOfBounds` where it is past the five lists
(`trCommitSurf_outOfBounds_iff`). -/
def trCommitSurf (tr : Tr) (rc : TrContext F) : Except Fault (TrContext F) :=
  if tr.listType < TA_NUM_LISTS then
    let list := rc.lists tr.listType
    let list := { list with numOrigSurfs := list.numOrigSurfs + 1 }
    let newSurf := rc.surfs rc.numSurfs
    if tr.listType = TA_LIST_TRANSLUCENT ∨ tr.listType = TA_LIST_PUNCH_THROUGH then do
      let (rc, list) ← trCommitTris lim (newSurf.numVerts - 2) 0 rc list
      pure { rc with numVerts := rc.numVerts + 2, lists := Function.update rc.lists tr.listType list }
    else
      .ok { rc with
        lists := Function.update rc.lists tr.listType (list.push rc.numSurfs)
        numVerts := rc.numVerts + newSurf.numVerts, numSurfs := rc.numSurfs + 1 }
  else .error .outOfBounds

/-! ## What each operation does -/

theorem trReserveSurf_eq_ok {rc rc' : TrContext F} {c : Bool} :
    trReserveSurf lim rc c = .ok rc' ↔
      rc.numSurfs < lim.maxSurfs ∧ (c = true → 0 < rc.numSurfs) ∧
      rc' = { rc with surfs := Function.update rc.surfs rc.numSurfs (stagedSurf rc c) } := by
  unfold trReserveSurf
  split_ifs with h1 h2 <;> simp_all [Nat.pos_iff_ne_zero, eq_comm]

theorem trReserveVert_eq_ok {fp : FloatOps F} {rc rc' : TrContext F} {v : Nat} :
    trReserveVert lim fp rc = .ok (v, rc') ↔
      v = rc.numVerts + (rc.surfs rc.numSurfs).numVerts ∧ v < lim.maxVerts ∧
      rc' = { rc with
        verts := Function.update rc.verts v (TaVertex.zero fp)
        surfs := Function.update rc.surfs rc.numSurfs
          { rc.surfs rc.numSurfs with numVerts := (rc.surfs rc.numSurfs).numVerts + 1 } } := by
  unfold trReserveVert
  dsimp only
  split_ifs with h <;> simp only [Except.ok.injEq, Prod.mk.injEq, reduceCtorEq, false_iff]
  · constructor
    · rintro ⟨rfl, rfl⟩; exact ⟨rfl, h, rfl⟩
    · rintro ⟨rfl, -, rfl⟩; exact ⟨rfl, rfl⟩
  · omega

/-- The triangle loop in closed form. `P` is the params the copies inherit: the staged surface's
when the loop starts at `i = 0`, the previous surface's otherwise. -/
theorem trCommitTris_eq (P : SurfaceParams) :
    ∀ (n i : Nat) (rc rc' : TrContext F) (list list' : TrList),
      (if i = 0 then (rc.surfs rc.numSurfs).params else (rc.surfs (rc.numSurfs - 1)).params) = P →
      (i ≠ 0 → 0 < rc.numSurfs) →
      trCommitTris lim n i rc list = .ok (rc', list') →
      rc' = { rc with
        surfs := fun x => if rc.numSurfs ≤ x ∧ x < rc.numSurfs + n then
          ⟨P, i + (x - rc.numSurfs), rc.numVerts + (x - rc.numSurfs), 3⟩ else rc.surfs x
        numSurfs := rc.numSurfs + n, numVerts := rc.numVerts + n } ∧
      list'.entries = list.entries ++ (List.range n).map (rc.numSurfs + ·) ∧
      list'.numOrigSurfs = list.numOrigSurfs
  | 0, i, rc, rc', list, list', _, _, h => by
    simp only [trCommitTris, Except.ok.injEq, Prod.mk.injEq] at h
    obtain ⟨rfl, rfl⟩ := h
    refine ⟨?_, by simp, rfl⟩
    cases rc; simp only [TrContext.mk.injEq, Nat.add_zero, and_true, true_and]
    funext x; split_ifs <;> first | rfl | omega
  | n + 1, i, rc, rc', list, list', hP, hpos, h => by
    simp only [trCommitTris] at h
    rcases hr : (if i = 0 then .ok rc else trReserveSurf lim rc true : Except Fault _) with
      e | rc₁ <;> rw [hr] at h
    · exact absurd h (by simp [bind, Except.bind])
    simp only [bind, Except.bind] at h
    obtain ⟨s₁, hs₁, rfl⟩ : ∃ s₁ : TaSurface, s₁.params = P ∧
        rc₁ = { rc with surfs := Function.update rc.surfs rc.numSurfs s₁ } := by
      split_ifs at hr hP with hi
      · exact ⟨rc.surfs rc.numSurfs, hP, by simp [← Except.ok.inj hr]⟩
      · exact ⟨stagedSurf rc true, by simpa [stagedSurf] using hP,
          ((trReserveSurf_eq_ok lim).1 hr).2.2⟩
    obtain ⟨h1, h2, h3⟩ := trCommitTris_eq P n (i + 1) _ rc' _ list' (by simp [hs₁])
      (fun _ => Nat.succ_pos _) h
    refine ⟨?_, ?_, by simpa using h3⟩
    · subst h1
      simp only [TrContext.mk.injEq, true_and, and_true]
      refine ⟨funext fun x => ?_, by omega, by omega⟩
      by_cases hx : x = rc.numSurfs
      · subst hx; simp [hs₁]
      · simp only [Function.update_noteq hx]
        split_ifs <;> first | rfl | omega | (congr 1 <;> omega)
    · rw [h2, TrList.entries_push, List.range_succ_eq_map]
      simp [Function.comp_def, Nat.add_assoc, Nat.add_comm 1]

/-- An opaque commit: the staged surface is the list's next entry, whole. -/
theorem trCommitSurf_opaque {tr : Tr} {rc rc' : TrContext F} (h : trCommitSurf lim tr rc = .ok rc')
    (ht : ¬(tr.listType = TA_LIST_TRANSLUCENT ∨ tr.listType = TA_LIST_PUNCH_THROUGH)) :
    tr.listType < TA_NUM_LISTS ∧
      rc' = { rc with
        lists := Function.update rc.lists tr.listType
          ({ rc.lists tr.listType with
              numOrigSurfs := (rc.lists tr.listType).numOrigSurfs + 1 }.push rc.numSurfs)
        numVerts := rc.numVerts + (rc.surfs rc.numSurfs).numVerts
        numSurfs := rc.numSurfs + 1 } := by
  unfold trCommitSurf at h
  split_ifs at h with h1
  exact ⟨h1, (Except.ok.inj h).symm⟩

/-- A translucent or punch-through commit: a strip of `m` vertices staged at surface `N` from
vertex `b` on becomes the `m - 2` surfaces `N + k`, each over the three vertices from `b + k`
with strip offset `k`, and `num_verts` moves past all `m - 2 + 2` of them. -/
theorem trCommitSurf_translucent {tr : Tr} {rc rc' : TrContext F}
    (h : trCommitSurf lim tr rc = .ok rc')
    (ht : tr.listType = TA_LIST_TRANSLUCENT ∨ tr.listType = TA_LIST_PUNCH_THROUGH) :
    let n := (rc.surfs rc.numSurfs).numVerts - 2
    tr.listType < TA_NUM_LISTS ∧
      ∃ list' : TrList,
        list'.entries = (rc.lists tr.listType).entries ++ (List.range n).map (rc.numSurfs + ·) ∧
        list'.numOrigSurfs = (rc.lists tr.listType).numOrigSurfs + 1 ∧
        rc' = { rc with
          surfs := fun x => if rc.numSurfs ≤ x ∧ x < rc.numSurfs + n then
            ⟨(rc.surfs rc.numSurfs).params, x - rc.numSurfs, rc.numVerts + (x - rc.numSurfs), 3⟩
            else rc.surfs x
          numSurfs := rc.numSurfs + n, numVerts := rc.numVerts + n + 2
          lists := Function.update rc.lists tr.listType list' } := by
  unfold trCommitSurf at h
  split_ifs at h with h1
  simp only [bind, Except.bind] at h
  rcases hl : trCommitTris lim _ 0 rc _ with e | ⟨rc₁, list₁⟩ <;> rw [hl] at h
  · cases h
  obtain ⟨rfl, he, ho⟩ :=
    trCommitTris_eq lim (rc.surfs rc.numSurfs).params _ 0 rc rc₁ _ list₁ (by simp) (by simp) hl
  refine ⟨h1, list₁, he, ho, ?_⟩
  simp only [pure, Except.pure, Except.ok.injEq] at h
  simp [← h, Nat.zero_add]


theorem trReserveSurf_error {rc : TrContext F} {c : Bool} {e : Fault}
    (h : trReserveSurf lim rc c = .error e) : e = .check := by
  unfold trReserveSurf at h
  split_ifs at h <;> cases h <;> rfl

/-- The triangle loop faults only where `tr_reserve_surf` checks. -/
theorem trCommitTris_error : ∀ {n i : Nat} {rc : TrContext F} {list : TrList} {e : Fault},
    trCommitTris lim n i rc list = .error e → e = .check
  | 0, _, _, _, _, h => by cases h
  | n + 1, i, rc, list, e, h => by
    simp only [trCommitTris] at h
    rcases hr : (if i = 0 then .ok rc else trReserveSurf lim rc true : Except Fault _) with
      e' | rc₁ <;> simp only [hr, bind, Except.bind] at h
    · cases h
      split_ifs at hr
      exact trReserveSurf_error lim hr
    · exact trCommitTris_error h

/-- `tr_commit_surf` indexes `rc->lists[tr->list_type]` without a check; the model stops with
`.outOfBounds` exactly where that index is past the five lists. -/
theorem trCommitSurf_outOfBounds_iff {tr : Tr} {rc : TrContext F} :
    trCommitSurf lim tr rc = .error .outOfBounds ↔ TA_NUM_LISTS ≤ tr.listType := by
  unfold trCommitSurf
  split_ifs with hL ht
  · refine iff_of_false (fun h => ?_) (Nat.not_le.2 hL)
    simp only [bind, Except.bind] at h
    split at h
    next hc => cases h; cases trCommitTris_error lim hc
    next => cases h
  · exact iff_of_false (fun h => by cases h) (Nat.not_le.2 hL)
  · exact iff_of_true rfl (Nat.not_lt.1 hL)

end Redream
