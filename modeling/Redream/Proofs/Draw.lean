import Redream.Proofs.Refinement

/-!
# What the backend draws

A surface of a converted context is drawn as a triangle list: its `num_verts` indices from
`first_vert` on, three at a time, each triangle with the surface's pipeline state (`drawnTris`).
Before index generation a surface means the triangles of its strip, `(surfView rc x).tris`.

Index generation merges each run of surfaces with equal pipeline state into one draw call.
`trGenerateIndices_draws` says this changes how many draw calls there are and not what they draw:
a list's draw calls give the triangles of its strips, in order. With the refinement of the walk
and the sort, which only reorders, this says what a whole conversion hands the backend: the
triangles of the strip machine's lists.
-/

namespace Redream

variable {F : Type} (lim : TrLimits) (fp : FloatOps F) (host : TexHost) (fe : TaFrontEnd)

/-- The index slots a draw call reads: `n` of them from `first` on. -/
def readIdx (idx : Nat → Nat) (first n : Nat) : List Nat := (List.range n).map fun i => idx (first + i)

/-- The triangles an index list draws, three indices at a time, with pipeline state `p`. -/
def idxTris (V : Nat → TaVertex F) (p : SurfaceParams) : List Nat → List (DrawnTri F)
  | a :: b :: c :: l => (p, V a, V b, V c) :: idxTris V p l
  | _ => []

/-- What the backend draws for surface `x`: its index range as a triangle list. -/
def drawnTris (rc : TrContext F) (x : Nat) : List (DrawnTri F) :=
  idxTris rc.verts (rc.surfs x).params
    (readIdx rc.indices (rc.surfs x).firstVert (rc.surfs x).numVerts)

/-- The corners of an index triangle. -/
def triVerts (V : Nat → TaVertex F) (t : Nat × Nat × Nat) : TaVertex F × TaVertex F × TaVertex F :=
  (V t.1, V t.2.1, V t.2.2)

/-! ## Triangles of strips and of index lists -/

section Tris

variable (V : Nat → TaVertex F) (p : SurfaceParams)

theorem idxTris_append : ∀ (n : Nat) (l₁ l₂ : List Nat), l₁.length = 3 * n →
    idxTris V p (l₁ ++ l₂) = idxTris V p l₁ ++ idxTris V p l₂
  | 0, [], _, _ => rfl
  | n + 1, a :: b :: c :: l₁, l₂, h => by
    simp only [List.cons_append, idxTris, List.cons.injEq, true_and]
    exact idxTris_append n l₁ l₂ (by simp at h; omega)

theorem idxTris_flatMap {α : Type} (g : α → List Nat) (h : ∀ x, 3 ∣ (g x).length) :
    ∀ l : List α, idxTris V p (l.flatMap g) = l.flatMap fun x => idxTris V p (g x)
  | [] => rfl
  | x :: l => by
    obtain ⟨n, hn⟩ := h x
    rw [List.flatMap_cons, idxTris_append V p n _ _ hn, idxTris_flatMap g h l, List.flatMap_cons]

theorem idxTris_triIndices (ts : List (Nat × Nat × Nat)) :
    idxTris V p (ts.flatMap triIndices) = ts.map fun t => (p, triVerts V t) := by
  induction ts with
  | nil => rfl
  | cons t ts ih =>
    rw [List.flatMap_cons, List.map_cons, ← ih]
    rfl

/-- The triangles of a strip read from `f 0, f 1, ...`. -/
theorem stripTris_map_range (f : Nat → TaVertex F) :
    ∀ (m o : Nat), stripTris p o ((List.range (m + 2)).map f) = (List.range m).map fun j =>
      (p, if (o + j) % 2 = 1 then (f j, f (j + 1), f (j + 2)) else (f j, f (j + 2), f (j + 1)))
  | 0, o => by simp [List.range_succ, stripTris]
  | m + 1, o => by
    rw [List.range_succ_eq_map, List.map_cons, List.map_map, List.range_succ_eq_map, List.map_cons,
      List.map_map]
    have ih := stripTris_map_range (f ∘ Nat.succ) m (o + 1)
    rw [List.range_succ_eq_map, List.map_cons, List.map_map] at ih
    rw [stripTris.eq_def]
    simp only [Function.comp_apply, Nat.succ_eq_add_one, List.range_succ_eq_map, List.map_cons,
      List.map_map] at ih ⊢
    rw [ih]
    simp only [Nat.add_zero, List.cons.injEq, true_and]
    refine List.map_congr_left fun j _ => ?_
    simp only [Function.comp_apply, Nat.succ_eq_add_one, Nat.add_assoc, Nat.add_comm 1, Nat.add_left_comm]

end Tris

/-- A surface's strip, read through its slots, has the triangles `tr_generate_indices` emits for
it. -/
theorem surfView_tris (rc : TrContext F) (x : Nat) :
    (surfView rc x).tris = idxTris rc.verts (rc.surfs x).params (surfIndices (rc.surfs x)) := by
  rw [surfIndices, trisFrom, ← List.flatMap_map, idxTris_triIndices, surfView, StripSurf.tris]
  dsimp only [surfVerts]
  obtain hn | ⟨m, hm⟩ : (rc.surfs x).numVerts < 2 ∨ ∃ m, (rc.surfs x).numVerts = m + 2 :=
    (Nat.lt_or_ge _ 2).imp_right fun h => ⟨_, (Nat.sub_add_cancel h).symm⟩
  · obtain h | h : (rc.surfs x).numVerts = 0 ∨ (rc.surfs x).numVerts = 1 := by omega
    all_goals simp [h, stripTris]
  · rw [hm, stripTris_map_range, Nat.add_sub_cancel, List.range_eq_range', List.map_map]
    refine List.map_congr_left fun j _ => ?_
    simp only [Function.comp_apply, triVerts, stripTri]
    split_ifs <;> simp only [Nat.add_assoc]

theorem readIdx_writeIdx (idx : Nat → Nat) (n : Nat) (l₁ l₂ : List Nat) :
    readIdx (writeIdx idx n (l₁ ++ l₂)) n l₁.length = l₁ :=
  List.ext_getElem (by simp [readIdx]) fun i h₁ h₂ => by
    simp only [readIdx, List.length_map, List.length_range] at h₁
    simp only [readIdx, List.getElem_map, List.getElem_range, writeIdx_apply, List.length_append,
      if_pos (⟨Nat.le_add_right _ _, by omega⟩ : n ≤ n + i ∧ n + i < n + (l₁.length + l₂.length)),
      Nat.add_sub_cancel_left, List.getD_eq_getElem?_getD, List.getElem?_append_left h₂,
      List.getElem?_eq_getElem h₂, Option.getD_some]

/-- Index generation draws what the list's strips mean: after it the list's draw calls give the
triangles of its surfaces' strips before it, in list order, however the list was merged. -/
theorem trGenerateIndices_draws (rc rc' : TrContext F) (L : Nat) (hnd : (rc.lists L).entries.Nodup)
    (h : trGenerateIndices lim rc L = .ok rc') :
    (rc'.lists L).entries.flatMap (drawnTris rc') =
      (rc.lists L).entries.flatMap fun x => (surfView rc x).tris := by
  obtain ⟨list', hent, -, rfl⟩ := trGenerateIndices_eq lim rc rc' L hnd h
  set runs := mergeRuns (fun x => (rc.surfs x).params) (rc.lists L).entries
  have hflat : runs.flatten = (rc.lists L).entries := flatten_mergeRuns _ _
  have hmem : ∀ run ∈ runs, run ≠ [] ∧
      ∀ x ∈ run, (rc.surfs x).params = (rc.surfs (run.headD 0)).params :=
    fun run hr => mem_mergeRuns _ hr
  obtain ⟨h1, -, -, h4⟩ := foldl_applyRun runs rc (fun run hr => (hmem run hr).1) (hflat ▸ hnd)
  have hV := congrArg TrContext.verts (foldl_applyRun_frame runs rc)
  simp only [Function.update_same, hent, List.flatMap_map]
  rw [← hflat, List.flatten_eq_flatMap, List.flatMap_assoc]
  refine List.flatMap_congr fun run hr => ?_
  obtain ⟨t, ht, rfl⟩ := List.mem_iff_getElem.1 hr
  have hsplit : listIndices rc runs.flatten = listIndices rc (runs.take t).flatten ++
      (listIndices rc runs[t] ++ listIndices rc (runs.drop (t + 1)).flatten) := by
    conv_lhs => rw [← List.take_append_drop t runs, ← List.getElem_cons_drop runs t ht]
    simp only [List.flatten_append, List.flatten_cons, listIndices, List.flatMap_append]
  simp only [drawnTris, h4 t ht, h1, hV]
  rw [hsplit, writeIdx_append, readIdx_writeIdx, listIndices, idxTris_flatMap _ _ (fun x => surfIndices (rc.surfs x))
    (fun x => ⟨_, length_trisFrom _ _ _⟩)]
  exact List.flatMap_congr fun x hx => by
    rw [surfView_tris, (hmem _ (List.getElem_mem ht)).2 x hx]

/-! ## The five lists -/

/-- A surface draws the same triangles in a context that keeps its record, the vertex array and
the index slots it reads. -/
theorem drawnTris_congr {rc rc' : TrContext F} {x : Nat} (hs : rc'.surfs x = rc.surfs x)
    (hV : rc'.verts = rc.verts)
    (hI : ∀ i < (rc.surfs x).firstVert + (rc.surfs x).numVerts, rc'.indices i = rc.indices i) :
    drawnTris rc' x = drawnTris rc x := by
  unfold drawnTris readIdx
  rw [hs, hV, List.map_congr_left fun i hi => hI _ (by simp only [List.mem_range] at hi; omega)]

variable {W : Nat → Prop} {rc rc' : TrContext F}

/-- The lists `done`, generated from `rc₀`, draw the triangles of their strips in `rc₀`. -/
def DrawsStrips (rc₀ : TrContext F) (done : List Nat) (rc : TrContext F) : Prop :=
  ∀ L ∈ done, (rc.lists L).entries.flatMap (drawnTris rc) =
    (rc₀.lists L).entries.flatMap fun x => (surfView rc₀ x).tris

/-- Generating one more list draws its strips and leaves what the lists done before draw: their
entries and surfaces are not its own, and the indices they read lie below where it writes. -/
theorem DrawsStrips.step {rc₀ : TrContext F} {done : List Nat} (hi₀ : ListsInv W rc₀)
    (hg : GenInv rc₀ done rc) (hd : DrawsStrips rc₀ done rc) {L : Nat} (hL : L < TA_NUM_LISTS)
    (hnew : L ∉ done) (h : trGenerateIndices lim rc L = .ok rc') :
    DrawsStrips rc₀ (done ++ [L]) rc' := by
  have hl : rc.lists L = rc₀.lists L := hg.pending L hnew
  have hnd : (rc.lists L).entries.Nodup := hl ▸ hi₀.nodup L hL
  obtain ⟨-, hother, hsurf, -, -, -, hvs⟩ := trGenerateIndices_listed lim rc rc' L hnd h
  have hidx := (trGenerateIndices_indices lim rc rc' L hnd h).1
  intro L' hL'
  rcases List.mem_append.1 hL' with hdone | hL'
  case inl =>
    have hne : L' ≠ L := fun he => hnew (he ▸ hdone)
    rw [hother L' hne, ← hd L' hdone]
    refine List.flatMap_congr fun x hx => drawnTris_congr (hsurf x fun hx' => ?_) hvs fun i hi => ?_
    · exact hi₀.disjoint L' (hg.lt L' hdone) L hL hne x ((hg.sublist L').subset hx) (hl ▸ hx')
    · have := hg.bounded L' hdone x hx
      rw [hidx, writeIdx_apply, if_neg (by omega)]
  case inr =>
    rw [List.mem_singleton.1 hL', trGenerateIndices_draws lim rc rc' L hnd h, hl]
    exact List.flatMap_congr fun x hx => by
      rw [surfView_congr (hg.surfs L hL hnew x hx) fun v _ => congrFun hg.verts v]

/-- The sort reorders the translucent and punch-through lists when the frame asks for it, and
changes nothing else. -/
theorem trSortLists_perm (ctx : TaContext F) (hi : ListsInv W rc) {m m' : Nat → F}
    {rc₂ : TrContext F} (h : trSortLists fp ctx rc m = .ok (rc₂, m')) :
    rc₂ = { rc with lists := rc₂.lists } ∧ (∀ L, (rc₂.lists L).entries.Perm (rc.lists L).entries) ∧
      (ctx.autosort = false → rc₂ = rc) := by
  by_cases ha : ctx.autosort = true
  case pos =>
    obtain ⟨l₁, m₁, h₁, hp₁⟩ := trSortSurfaces_perm fp rc _ m (hi.triangles _ (.inl rfl))
    obtain ⟨l₂, m₂, h₂, hp₂⟩ :=
      trSortSurfaces_perm fp _ _ m₁ ((hi.perm hp₁).triangles _ (.inr rfl))
    have hp₂' : l₂.entries.Perm (rc.lists TA_LIST_PUNCH_THROUGH).entries := by
      simpa only [Function.update_noteq (by decide : TA_LIST_PUNCH_THROUGH ≠ TA_LIST_TRANSLUCENT)]
        using hp₂
    simp only [trSortLists, ha, if_true, bind, Except.bind, h₁, h₂, Except.ok.injEq,
      Prod.mk.injEq] at h
    obtain ⟨rfl, -⟩ := h
    refine ⟨rfl, fun L => ?_, fun h' => absurd h' (by simp [ha])⟩
    rw [entries_update, entries_update]
    split_ifs with h4 h2
    · subst h4; exact hp₂'
    · subst h2; exact hp₁
    · exact List.Perm.refl _
  case neg =>
    simp only [trSortLists, ha, if_false, Bool.false_eq_true, Except.ok.injEq, Prod.mk.injEq] at h
    obtain ⟨rfl, -⟩ := h
    exact ⟨rfl, fun _ => List.Perm.refl _, fun _ => rfl⟩

/-! ## The render pass -/

end Redream
