import Redream.Tr.Convert

/-!
# The sort is a stable sort by least depth

`tr_sort_surfaces` stores each listed surface's least vertex depth in `sort_minz` and merge-sorts
the entries with `tr_compare_surf`, the comparison `<=` of those depths. When the depths of the
list's vertices are ordered linearly (no NaN among them), `trSortSurfaces_sorts` shows the list
ends up a permutation of itself, ordered by depth, with entries in order kept in order, and that
nothing but the list and `sort_minz` changes.

The comparator is only a preorder on the list's entries, while core's merge-sort lemmas ask for one
on every index; `memFirst` extends it by placing every other index after the entries.
-/

namespace Redream

variable {F : Type} (fp : FloatOps F)

/-- The depths of a surface's first three vertices. -/
def vertZs (rc : TrContext F) (s : Nat) : List F :=
  let surf := rc.surfs s
  [(rc.verts surf.firstVert).xyz.z, (rc.verts (surf.firstVert + 1)).xyz.z,
    (rc.verts (surf.firstVert + 2)).xyz.z]

/-- The order the depths `Z` are taken in: `le` total and transitive on them, and `lt` its strict
part, as for single-precision values none of which is a NaN. -/
structure KeyOrder (Z : List F) : Prop where
  total : ∀ a ∈ Z, ∀ b ∈ Z, fp.le a b ∨ fp.le b a
  trans : ∀ a ∈ Z, ∀ b ∈ Z, ∀ c ∈ Z, fp.le a b → fp.le b c → fp.le a c
  lt_iff : ∀ a ∈ Z, ∀ b ∈ Z, fp.lt a b = !fp.le b a

/-! ## The least depth -/

theorem fmin_mem (a b : F) : fmin fp a b = a ∨ fmin fp a b = b := by
  unfold fmin; split_ifs <;> simp

section Min

variable {fp} {Z : List F} (hZ : KeyOrder fp Z)
include hZ

theorem le_refl_of_keyOrder {a : F} (ha : a ∈ Z) : fp.le a a := (hZ.total a ha a ha).elim id id

theorem fmin_le {a b : F} (ha : a ∈ Z) (hb : b ∈ Z) :
    fp.le (fmin fp a b) a ∧ fp.le (fmin fp a b) b := by
  unfold fmin
  split_ifs with h
  · rw [hZ.lt_iff a ha b hb, Bool.not_eq_true'] at h
    exact ⟨le_refl_of_keyOrder hZ ha, (hZ.total a ha b hb).resolve_right (by simp [h])⟩
  · rw [hZ.lt_iff a ha b hb] at h
    exact ⟨by simpa using h, le_refl_of_keyOrder hZ hb⟩

/-- The stored depth is one of the three and at most each of them. -/
theorem surfMinz_min (rc : TrContext F) (s : Nat) (hs : vertZs rc s ⊆ Z) :
    surfMinz fp rc (rc.surfs s) ∈ vertZs rc s ∧
      ∀ z ∈ vertZs rc s, fp.le (surfMinz fp rc (rc.surfs s)) z := by
  have h0 := hs (List.mem_cons_self _ _)
  have h1 := hs (List.mem_cons_of_mem _ (List.mem_cons_self _ _))
  have h2 := hs (List.mem_cons_of_mem _ (List.mem_cons_of_mem _ (List.mem_cons_self _ _)))
  simp only [vertZs] at h0 h1 h2 ⊢
  simp only [surfMinz, Nat.add_zero]
  set z0 := (rc.verts (rc.surfs s).firstVert).xyz.z
  set z1 := (rc.verts ((rc.surfs s).firstVert + 1)).xyz.z
  set z2 := (rc.verts ((rc.surfs s).firstVert + 2)).xyz.z
  have hm : fmin fp z0 z1 ∈ Z := by rcases fmin_mem fp z0 z1 with h | h <;> rw [h] <;> assumption
  obtain ⟨hm0, hm1⟩ := fmin_le hZ h0 h1
  obtain ⟨hmm, hm2⟩ := fmin_le hZ hm h2
  have hmz : fmin fp (fmin fp z0 z1) z2 ∈ Z := by
    rcases fmin_mem fp (fmin fp z0 z1) z2 with h | h <;> rw [h] <;> assumption
  refine ⟨?_, ?_⟩
  · rcases fmin_mem fp (fmin fp z0 z1) z2 with h | h <;> rw [h]
    · rcases fmin_mem fp z0 z1 with h' | h' <;> simp [h']
    · simp
  · simp only [List.mem_cons, List.mem_singleton, List.not_mem_nil, or_false, forall_eq_or_imp,
      forall_eq]
    exact ⟨hZ.trans _ hmz _ hm _ h0 hmm hm0, hZ.trans _ hmz _ hm _ h1 hmm hm1, hm2⟩

end Min

/-! ## Storing the depths -/

/-- The first loop stores each entry's least depth, when every entry has three vertices. -/
theorem trStoreMinz_eq (rc : TrContext F) :
    ∀ (l : List Nat) (m : Nat → F), (∀ s ∈ l, (rc.surfs s).numVerts = 3) →
      trStoreMinz fp rc l m = .ok fun x => if x ∈ l then surfMinz fp rc (rc.surfs x) else m x
  | [], m, _ => by simp [trStoreMinz]
  | s :: ss, m, h => by
    rw [trStoreMinz, if_pos (h s (List.mem_cons_self _ _)),
      trStoreMinz_eq rc ss _ fun x hx => h x (List.mem_cons_of_mem _ hx)]
    congr 1; funext x
    by_cases hx : x = s
    · subst hx; simp
    · simp [hx, Function.update_noteq hx]

/-! ## Sorting -/

/-- `le` on the members of `E`, with every other index after them and all of those equal. -/
def memFirst (E : List Nat) (le : Nat → Nat → Bool) (i j : Nat) : Bool :=
  if i ∈ E then (if j ∈ E then le i j else true) else j ∉ E

theorem mergeSort_congr {l : List Nat} {r s : Nat → Nat → Bool} (h : ∀ a ∈ l, ∀ b ∈ l, r a b = s a b) :
    l.mergeSort r = l.mergeSort s := by
  simpa using @List.map_mergeSort Nat Nat r s id l h

/-- What sorting list `L` of `rc` gives: `rc'`, whose list `L` is a permutation of the old one
ordered by the stored depths, with entries in order kept in order, and `sort_minz` holding each
entry's least depth; nothing else changes. -/
structure SortedBy (rc : TrContext F) (L : Nat) (sortMinz : Nat → F) (rc' : TrContext F)
    (sortMinz' : Nat → F) : Prop where
  frame : rc' = { rc with
    lists := Function.update rc.lists L { rc.lists L with surfs := (rc'.lists L).surfs } }
  tail : ∀ k, (rc.lists L).numSurfs ≤ k → (rc'.lists L).surfs k = (rc.lists L).surfs k
  perm : (rc'.lists L).entries.Perm (rc.lists L).entries
  sorted : (rc'.lists L).entries.Pairwise fun a b => fp.le (sortMinz' a) (sortMinz' b)
  stable : ∀ a b, fp.le (sortMinz' a) (sortMinz' b) →
    List.Sublist [a, b] (rc.lists L).entries → List.Sublist [a, b] (rc'.lists L).entries
  minz : ∀ s ∈ (rc.lists L).entries,
    sortMinz' s ∈ vertZs rc s ∧ ∀ z ∈ vertZs rc s, fp.le (sortMinz' s) z
  minz_other : ∀ x ∉ (rc.lists L).entries, sortMinz' x = sortMinz x

theorem trSortSurfaces_sorts (rc : TrContext F) (L : Nat) (sortMinz : Nat → F)
    (h3 : ∀ s ∈ (rc.lists L).entries, (rc.surfs s).numVerts = 3)
    (hkey : KeyOrder fp ((rc.lists L).entries.flatMap (vertZs rc))) :
    ∃ rc' sortMinz', trSortSurfaces fp rc L sortMinz = .ok (rc', sortMinz') ∧
      SortedBy fp rc L sortMinz rc' sortMinz' := by
  set E := (rc.lists L).entries with hE
  let key := fun x => surfMinz fp rc (rc.surfs x)
  let m' := fun x => if x ∈ E then key x else sortMinz x
  let le := memFirst E fun i j => fp.le (key i) (key j)
  have hmin : ∀ a ∈ E, key a ∈ vertZs rc a ∧ ∀ z ∈ vertZs rc a, fp.le (key a) z := fun a ha =>
    surfMinz_min hkey rc a fun z hz => List.mem_flatMap.2 ⟨a, ha, hz⟩
  have hZ : ∀ a ∈ E, key a ∈ E.flatMap (vertZs rc) := fun a ha =>
    List.mem_flatMap.2 ⟨a, ha, (hmin a ha).1⟩
  have htrans : ∀ a b c, le a b → le b c → le a c := fun a b c hab hbc => by
    by_cases ha : a ∈ E <;> by_cases hb : b ∈ E <;> by_cases hc : c ∈ E <;>
      simp_all only [le, memFirst, if_true, if_false, decide_True, decide_False,
        not_false_eq_true, not_true_eq_false, Bool.false_eq_true]
    exact hkey.trans _ (hZ a ha) _ (hZ b hb) _ (hZ c hc) hab hbc
  have htotal : ∀ a b, le a b || le b a := fun a b => by
    by_cases ha : a ∈ E <;> by_cases hb : b ∈ E <;> simp only [le, memFirst, ha, hb, if_true,
      if_false, decide_True, decide_False, not_false_eq_true, Bool.or_true, Bool.true_or]
    simpa using hkey.total _ (hZ a ha) _ (hZ b hb)
  have hsort : msortNoalloc E (trCompareSurf fp m') = E.mergeSort le :=
    mergeSort_congr fun a ha b hb => by simp [le, memFirst, trCompareSurf, m', ha, hb]
  set S := E.mergeSort le
  have hperm : S.Perm E := List.mergeSort_perm E le
  have hlen : S.length = (rc.lists L).numSurfs := by rw [hperm.length_eq, hE, TrList.length_entries]
  have hent : TrList.entries ⟨fun k => if k < (rc.lists L).numSurfs then S.getD k 0
      else (rc.lists L).surfs k, (rc.lists L).numSurfs, (rc.lists L).numOrigSurfs⟩ = S :=
    TrList.entries_eq_of hlen fun k hk => if_pos hk
  refine ⟨{ rc with lists := Function.update rc.lists L ⟨fun k => if k < (rc.lists L).numSurfs
      then S.getD k 0 else (rc.lists L).surfs k, (rc.lists L).numSurfs, (rc.lists L).numOrigSurfs⟩ },
    m', ?_, ⟨?_, fun k hk => ?_, ?_, ?_, fun a b hab hs => ?_, fun s hs => ?_, fun x hx => ?_⟩⟩
  · simp only [trSortSurfaces, bind, Except.bind, trStoreMinz_eq fp rc _ _ h3, ← hE, hsort, pure,
      Except.pure]
  · simp only [Function.update_same]
  · simp only [Function.update_same]; exact if_neg (Nat.not_lt.2 hk)
  · simp only [Function.update_same, hent]; exact hperm
  · simp only [Function.update_same, hent]
    refine (List.sorted_mergeSort htrans htotal E).imp_of_mem fun ha hb h => ?_
    have ha := hperm.subset ha
    have hb := hperm.subset hb
    simpa [le, memFirst, m', ha, hb] using h
  · simp only [Function.update_same, hent]
    have ha := hs.subset (List.mem_cons_self _ _)
    have hb := hs.subset (List.mem_cons_of_mem _ (List.mem_cons_self _ _))
    exact List.pair_sublist_mergeSort htrans htotal (by simpa [le, memFirst, m', ha, hb] using hab) hs
  · simpa [m', hs] using hmin s hs
  · simp [m', hx]

/-- Two triangles in the translucent list, over the vertices with depths 5, 3, 4 and 1, 2, 7. -/
def twoTriangles : TrContext Int where
  width := 0
  height := 0
  surfs x := ⟨SurfaceParams.zero, 0, 3 * x, 3⟩
  numSurfs := 2
  verts v := ⟨⟨0, 0, [5, 3, 4, 1, 2, 7].getD v 0⟩, ⟨0, 0⟩, .zero, .zero⟩
  numVerts := 6
  indices _ := 0
  numIndices := 0
  lists _ := ⟨id, 2, 2⟩
  params _ := ⟨0, 0, 0, 0, 0⟩
  numParams := 0

theorem trSortSurfaces_twoTriangles :
    ∃ rc' sortMinz', trSortSurfaces intOps twoTriangles TA_LIST_TRANSLUCENT (fun _ => 0) =
      .ok (rc', sortMinz') ∧ SortedBy intOps twoTriangles TA_LIST_TRANSLUCENT (fun _ => 0) rc' sortMinz' :=
  trSortSurfaces_sorts intOps twoTriangles _ _ (by decide) ⟨by decide, by decide, by decide⟩

/-! ## What the rest of the conversion sees -/

/-- Sorting a list of triangles succeeds, permutes the list's entries, and changes nothing else. -/
theorem trSortSurfaces_perm (rc : TrContext F) (L : Nat) (m : Nat → F)
    (h3 : ∀ s ∈ (rc.lists L).entries, (rc.surfs s).numVerts = 3) :
    ∃ list' m', trSortSurfaces fp rc L m =
        .ok ({ rc with lists := Function.update rc.lists L list' }, m') ∧
      list'.entries.Perm (rc.lists L).entries := by
  refine ⟨_, _, by simp only [trSortSurfaces, bind, Except.bind, trStoreMinz_eq fp rc _ _ h3]; rfl, ?_⟩
  set S := msortNoalloc (rc.lists L).entries (trCompareSurf fp fun x =>
    if x ∈ (rc.lists L).entries then surfMinz fp rc (rc.surfs x) else m x)
  have hlen : S.length = (rc.lists L).numSurfs :=
    (List.length_mergeSort _).trans (TrList.length_entries _)
  have hent : TrList.entries ⟨fun k => if k < (rc.lists L).numSurfs then S.getD k 0
      else (rc.lists L).surfs k, (rc.lists L).numSurfs, (rc.lists L).numOrigSurfs⟩ = S :=
    TrList.entries_eq_of hlen fun k hk => if_pos hk
  rw [hent]
  exact List.mergeSort_perm _ _

/-- The depths stored for entries whose first three vertices agree in `V` are the same. -/
theorem trStoreMinz_verts (rc : TrContext F) (V : Nat → TaVertex F) :
    ∀ (l : List Nat) (m : Nat → F), (∀ s ∈ l, (rc.surfs s).numVerts = 3 →
      ∀ k < 3, V ((rc.surfs s).firstVert + k) = rc.verts ((rc.surfs s).firstVert + k)) →
      trStoreMinz fp { rc with verts := V } l m = trStoreMinz fp rc l m
  | [], _, _ => rfl
  | s :: ss, m, h => by
    simp only [trStoreMinz]
    split_ifs with h3
    · have hz : surfMinz fp { rc with verts := V } (rc.surfs s) = surfMinz fp rc (rc.surfs s) := by
        have hs := h s (List.mem_cons_self _ _) h3
        simp only [surfMinz, hs 0 (by omega), hs 1 (by omega), hs 2 (by omega)]
      rw [hz]
      exact trStoreMinz_verts rc V ss _ fun x hx => h x (List.mem_cons_of_mem _ hx)
    · rfl

/-- Sorting from a context with another vertex array that agrees on the entries' first three
vertices does the same. -/
theorem trSortSurfaces_verts (rc : TrContext F) (L : Nat) (m : Nat → F) (V : Nat → TaVertex F)
    (hV : ∀ s ∈ (rc.lists L).entries, (rc.surfs s).numVerts = 3 →
      ∀ k < 3, V ((rc.surfs s).firstVert + k) = rc.verts ((rc.surfs s).firstVert + k)) :
    trSortSurfaces fp { rc with verts := V } L m =
      (trSortSurfaces fp rc L m).map fun r => ({ r.1 with verts := V }, r.2) := by
  simp only [trSortSurfaces]
  rw [trStoreMinz_verts fp rc V _ m hV]
  cases trStoreMinz fp rc _ m <;> rfl

end Redream
