import Redream.Proofs.Indices
import Redream.Tr.Surface

/-!
# A strip's triangles do not depend on how it was committed

`tr_commit_surf` keeps an opaque strip as one surface and splits a translucent or punch-through
strip into one surface per triangle, each with its own strip offset. `trCommitSurf_stripTriangles`
shows that both give index generation the same triangles, `stripIndices`, wherever the strip's
surfaces stand in the list and whatever they merge with; `stripTriangle_shared_edge` shows that
consecutive triangles wind the same way.
-/

namespace Redream

variable {F : Type} (lim : TrLimits)

/-! ## The strip's triangles -/

/-- Triangle `k` of a strip over the vertices from `b` on, as the winding rule states it:
`(v, v+2, v+1)` for even `k`, `(v, v+1, v+2)` for odd `k`, with `v = b + k`. -/
def stripTriangle (b k : Nat) : Nat × Nat × Nat :=
  if k % 2 = 0 then (b + k, b + k + 2, b + k + 1) else (b + k, b + k + 1, b + k + 2)

/-- The indices of a strip of `n` vertices from `b` on. -/
def stripIndices (b n : Nat) : List Nat :=
  (List.range (n - 2)).flatMap fun k => triIndices (stripTriangle b k)

/-- A triangle's directed edges. -/
def triEdges (t : Nat × Nat × Nat) : List (Nat × Nat) :=
  [(t.1, t.2.1), (t.2.1, t.2.2), (t.2.2, t.1)]

/-- Triangles `k` and `k + 1` of a strip traverse their shared edge in opposite directions. -/
theorem stripTriangle_shared_edge (b k : Nat) :
    ((b + k + 1, b + k + 2) ∈ triEdges (stripTriangle b k) ∧
        (b + k + 2, b + k + 1) ∈ triEdges (stripTriangle b (k + 1))) ∨
      ((b + k + 2, b + k + 1) ∈ triEdges (stripTriangle b k) ∧
        (b + k + 1, b + k + 2) ∈ triEdges (stripTriangle b (k + 1))) := by
  rcases Nat.mod_two_eq_zero_or_one k with hk | hk
  · have : (k + 1) % 2 = 1 := by omega
    right; simp [stripTriangle, triEdges, hk, this, Nat.add_assoc]
  · have : (k + 1) % 2 = 0 := by omega
    left; simp [stripTriangle, triEdges, hk, this, Nat.add_assoc]

/-- A surface whose first vertex is its strip offset past `b` is a stretch of the strip from `b`:
the source's triangle `t` of it is the strip's triangle `strip_offset + t`. -/
theorem stripTri_eq {s : TaSurface} {b : Nat} (hs : s.firstVert = b + s.stripOffset) (t : Nat) :
    stripTri s t = stripTriangle b (s.stripOffset + t) := by
  unfold stripTri stripTriangle
  rw [hs]
  split_ifs <;> first | omega | (simp only [Prod.mk.injEq]; omega)

theorem surfIndices_eq {s : TaSurface} {b : Nat} (hs : s.firstVert = b + s.stripOffset) :
    surfIndices s =
      (List.range' s.stripOffset (s.numVerts - 2)).flatMap fun t => triIndices (stripTriangle b t) := by
  rw [surfIndices, trisFrom, List.range'_eq_map_range, List.flatMap_map, List.range'_eq_map_range,
    List.flatMap_map]
  simp only [Nat.zero_add, stripTri_eq hs]

/-! ## Both commits -/

/-- What a strip of `n` vertices from `b` on, committed as the surfaces `added` of list `L`,
gives index generation: the strip's triangles in order, wherever the surfaces stand in the list
and whatever they merge with, with consecutive triangles wound the same way. -/
structure StripTriangles (rc' : TrContext F) (L b n : Nat) (added : List Nat) : Prop where
  indices : listIndices rc' added = stripIndices b n
  merged : ∀ (rc₀ rc₁ : TrContext F) (pre post : List Nat),
    (rc₀.lists L).entries = pre ++ added ++ post → (rc₀.lists L).entries.Nodup →
    (∀ x ∈ added, rc₀.surfs x = rc'.surfs x) → trGenerateIndices lim rc₀ L = .ok rc₁ →
    ∀ k (hk : k < (stripIndices b n).length),
      rc₁.indices (rc₀.numIndices + (listIndices rc₀ pre).length + k) = (stripIndices b n)[k]
  winding : ∀ k, k + 1 < n - 2 →
    ((b + k + 1, b + k + 2) ∈ triEdges (stripTriangle b k) ∧
        (b + k + 2, b + k + 1) ∈ triEdges (stripTriangle b (k + 1))) ∨
      ((b + k + 2, b + k + 1) ∈ triEdges (stripTriangle b k) ∧
        (b + k + 1, b + k + 2) ∈ triEdges (stripTriangle b (k + 1)))

theorem stripTriangles_of_indices {rc' : TrContext F} {L b n : Nat} {added : List Nat}
    (h : listIndices rc' added = stripIndices b n) : StripTriangles lim rc' L b n added := by
  refine ⟨h, fun rc₀ rc₁ pre post hent hnd hsame hgen k hk => ?_,
    fun k _ => stripTriangle_shared_edge b k⟩
  have hidx : listIndices rc₀ (rc₀.lists L).entries =
      listIndices rc₀ pre ++ stripIndices b n ++ listIndices rc₀ post := by
    rw [hent, ← h, ← listIndices_congr hsame]
    simp only [listIndices, List.flatMap_append]
  rw [(trGenerateIndices_indices lim rc₀ rc₁ L hnd hgen).1, writeIdx_apply, hidx,
    if_pos (by simp only [List.length_append]; omega), Nat.add_assoc, Nat.add_sub_cancel_left,
    List.getD_eq_getElem?_getD, List.append_assoc, List.getElem?_append_right (by omega),
    Nat.add_sub_cancel_left, List.getElem?_append_left hk, List.getElem?_eq_getElem hk]
  rfl

/-- A strip staged with strip offset 0 from the first free vertex gives index generation the same
triangles through either commit. -/
theorem trCommitSurf_stripTriangles {tr : Tr} {rc rc' : TrContext F}
    (h : trCommitSurf lim tr rc = .ok rc') (hs : (rc.surfs rc.numSurfs).stripOffset = 0)
    (hv : (rc.surfs rc.numSurfs).firstVert = rc.numVerts) :
    ∃ added, (rc'.lists tr.listType).entries = (rc.lists tr.listType).entries ++ added ∧
      StripTriangles lim rc' tr.listType rc.numVerts (rc.surfs rc.numSurfs).numVerts added := by
  by_cases ht : tr.listType = TA_LIST_TRANSLUCENT ∨ tr.listType = TA_LIST_PUNCH_THROUGH
  · obtain ⟨-, list', he, -, rfl⟩ := trCommitSurf_translucent lim h ht
    refine ⟨_, by simpa using he, stripTriangles_of_indices lim ?_⟩
    simp only [listIndices, stripIndices, List.flatMap_map]
    refine List.flatMap_congr fun k hk => ?_
    have hk : k < (rc.surfs rc.numSurfs).numVerts - 2 := List.mem_range.1 hk
    rw [if_pos ⟨Nat.le_add_right _ _, Nat.add_lt_add_left hk _⟩, Nat.add_sub_cancel_left,
      @surfIndices_eq _ rc.numVerts rfl]
    rfl
  · obtain ⟨-, rfl⟩ := trCommitSurf_opaque lim h ht
    refine ⟨[rc.numSurfs], ?_, stripTriangles_of_indices lim ?_⟩
    · simp only [Function.update_same, TrList.entries_push]
      rfl
    · simp only [listIndices, List.flatMap_singleton]
      rw [@surfIndices_eq _ rc.numVerts (by rw [hv, hs, Nat.add_zero]), hs, stripIndices,
        List.range_eq_range']

/-- A four-vertex strip staged at surface 0 from vertex 0. -/
def stagedStrip : TrContext Nat where
  width := 0
  height := 0
  surfs _ := ⟨SurfaceParams.zero, 0, 0, 4⟩
  numSurfs := 0
  verts _ := ⟨⟨0, 0, 0⟩, ⟨0, 0⟩, .zero, .zero⟩
  numVerts := 0
  indices _ := 0
  numIndices := 0
  lists _ := ⟨fun _ => 0, 0, 0⟩
  params _ := ⟨0, 0, 0, 0, 0⟩
  numParams := 0

/-- The state while a translucent polygon is open. -/
def translucentTr : Tr := ⟨none, TA_LIST_TRANSLUCENT, 0, .zero, .zero, .zero, .zero⟩

theorem trCommitSurf_stagedStrip :
    ∃ rc', trCommitSurf ⟨8, 16, 24, 8⟩ translucentTr stagedStrip = .ok rc' ∧
      ∃ added, (rc'.lists TA_LIST_TRANSLUCENT).entries =
          (stagedStrip.lists TA_LIST_TRANSLUCENT).entries ++ added ∧
        StripTriangles ⟨8, 16, 24, 8⟩ rc' TA_LIST_TRANSLUCENT 0 4 added :=
  ⟨_, rfl, @trCommitSurf_stripTriangles Nat ⟨8, 16, 24, 8⟩ translucentTr stagedStrip _ rfl rfl rfl⟩

end Redream
