import Redream.Proofs.Convert

/-!
# The index buffer's layout

After a conversion the surfaces the lists hold draw consecutive ranges of `indices`: list by
list in the order `tr_generate_indices` ran, each listed surface's range
`[first_vert, first_vert + num_verts)` begins where the one before it ends, the first at 0 and the
last ending at `num_indices` (`trConvertContext_tiles`). The buffer the backend gets holds the
listed surfaces' indices and nothing else, and no two draws share an index slot.

Each run of merged surfaces appends its indices where the runs before it ended and points its
first surface at them (`foldl_applyRun_tiles`); a later list rewrites only its own surfaces,
none of which an earlier list holds (`Tiles.step`).
-/

namespace Redream

variable {F : Type} (lim : TrLimits) (fp : FloatOps F) (host : TexHost) (fe : TaFrontEnd)
variable {W : Nat → Prop} {rc rc' : TrContext F}

/-- The surfaces `xs` draw consecutive ranges of the index buffer from `n` to `n'`: each range
begins where the one before it ends. -/
def Tiles (surfs : Nat → TaSurface) : Nat → List Nat → Nat → Prop
  | n, [], n' => n = n'
  | n, x :: xs, n' => (surfs x).firstVert = n ∧ Tiles surfs (n + (surfs x).numVerts) xs n'

namespace Tiles

variable {s s' : Nat → TaSurface}

theorem append : ∀ {a b c : Nat} {l₁ l₂ : List Nat}, Tiles s a l₁ b → Tiles s b l₂ c →
    Tiles s a (l₁ ++ l₂) c
  | _, _, _, [], _, rfl, h₂ => h₂
  | _, _, _, _ :: _, _, ⟨hx, h₁⟩, h₂ => ⟨hx, append h₁ h₂⟩

/-- Only the surfaces on the ranges matter. -/
theorem congr : ∀ {a b : Nat} {l : List Nat}, (∀ x ∈ l, s' x = s x) → Tiles s a l b →
    Tiles s' a l b
  | _, _, [], _, h => h
  | _, _, x :: _, he, ⟨hx, h⟩ => by
    rw [← he x (List.mem_cons_self _ _)] at hx h
    exact ⟨hx, congr (fun y hy => he y (List.mem_cons_of_mem _ hy)) h⟩

end Tiles

/-- Runs with distinct entries point their first surfaces at consecutive ranges, from where the
indices ended before them to where they end after. -/
theorem foldl_applyRun_tiles : ∀ (runs : List (List Nat)) (rc : TrContext F),
    (∀ run ∈ runs, run ≠ []) → runs.flatten.Nodup →
      Tiles (runs.foldl applyRun rc).surfs rc.numIndices (runs.map (·.headD 0))
        (runs.foldl applyRun rc).numIndices
  | [], _, _, _ => rfl
  | run :: runs, rc, hne, hnd => by
    rw [List.flatten_cons, List.nodup_append] at hnd
    have hne' : ∀ r ∈ runs, r ≠ [] := fun r hr => hne r (List.mem_cons_of_mem _ hr)
    have hhead : run.headD 0 ∈ run := by
      cases run with
      | nil => exact absurd rfl (hne _ (List.mem_cons_self _ _))
      | cons a _ => exact List.mem_cons_self _ _
    -- the later runs leave this run's first surface alone
    have hkeep := (foldl_applyRun runs (applyRun rc run) hne' hnd.2.1).2.2.1 (run.headD 0)
      fun hm => hnd.2.2 hhead ((map_headD_sublist hne').subset hm)
    rw [List.foldl_cons, List.map_cons, Tiles, hkeep, applyRun_surfs, Function.update_same]
    exact ⟨rfl, foldl_applyRun_tiles runs (applyRun rc run) hne' hnd.2.1⟩

/-- One list's generation points its entries at consecutive ranges, from where the indices ended
before it to where they end after it. -/
theorem trGenerateIndices_tiles {L : Nat} (hnd : (rc.lists L).entries.Nodup)
    (h : trGenerateIndices lim rc L = .ok rc') :
    Tiles rc'.surfs rc.numIndices (rc'.lists L).entries rc'.numIndices := by
  obtain ⟨list', hent, -, rfl⟩ := trGenerateIndices_eq lim rc rc' L hnd h
  have hflat := flatten_mergeRuns (fun x => (rc.surfs x).params) (rc.lists L).entries
  dsimp only
  rw [Function.update_same, hent]
  exact foldl_applyRun_tiles _ rc (fun run hr => (mem_mergeRuns _ hr).1) (by rw [hflat]; exact hnd)

/-- Generating one more list keeps the lists done before on their ranges and puts its own right
after them. -/
theorem Tiles.step {rc₀ : TrContext F} {done : List Nat} (hi₀ : ListsInv W rc₀)
    (hg : GenInv rc₀ done rc)
    (ht : Tiles rc.surfs 0 (done.flatMap fun L => (rc.lists L).entries) rc.numIndices)
    {L : Nat} (hL : L < TA_NUM_LISTS) (hnew : L ∉ done) (h : trGenerateIndices lim rc L = .ok rc') :
    Tiles rc'.surfs 0 ((done ++ [L]).flatMap fun L => (rc'.lists L).entries) rc'.numIndices := by
  have hl : rc.lists L = rc₀.lists L := hg.pending L hnew
  have hnd : (rc.lists L).entries.Nodup := hl ▸ hi₀.nodup L hL
  obtain ⟨-, hother, hsurf, -⟩ := trGenerateIndices_listed lim rc rc' L hnd h
  have hdone : (done.flatMap fun L => (rc'.lists L).entries) =
      done.flatMap fun L => (rc.lists L).entries :=
    List.flatMap_congr fun L' hL' => by rw [hother L' fun he => hnew (he ▸ hL')]
  rw [List.flatMap_append, List.flatMap_singleton, hdone]
  refine (ht.congr fun x hx => hsurf x fun hx' => ?_).append (trGenerateIndices_tiles lim hnd h)
  obtain ⟨L', hL', hx⟩ := List.mem_flatMap.1 hx
  exact hi₀.disjoint L' (hg.lt L' hL') L hL (fun he => hnew (he ▸ hL')) x
    ((hg.sublist L').subset hx) (hl ▸ hx')

theorem trGenerateAllIndices_tiles (hi : ListsInv W rc) (h : trGenerateAllIndices lim rc = .ok rc') :
    Tiles rc'.surfs 0 ((List.range TA_NUM_LISTS).flatMap fun L => (rc'.lists L).entries)
      rc'.numIndices :=
  trGenerateAllIndices_rec lim hi
    (fun done rc => Tiles rc.surfs 0 (done.flatMap fun L => (rc.lists L).entries) rc.numIndices)
    (fun hg ht hL hnew h => ht.step lim hi hg hL hnew h) hi.numIndices.symm h

/-- After a conversion that returns, the listed surfaces, list by list, draw consecutive ranges
that tile `indices[0, num_indices)`. -/
theorem trConvertContext_tiles {ctx : TaContext F} {m m' : Nat → F} {w w' : TexWorld}
    (h : trConvertContext lim fp host fe ctx rc m w = .ok (rc', m', w')) :
    Tiles rc'.surfs 0 ((List.range TA_NUM_LISTS).flatMap fun L => (rc'.lists L).entries)
      rc'.numIndices :=
  let ⟨_, _, _, _, _, h₃, _, hi₂, _⟩ := trConvertContext_parts lim fp host fe h
  trGenerateAllIndices_tiles lim hi₂ h₃

theorem trConvertContext_tiles_translucentStrip :
    ∃ rc' m' w', trConvertContext ⟨8, 16, 24, 8⟩ intOps countingHost specFrontEnd
        (frameOf translucentStrip) (staleContext 0) (fun _ => 0) freshWorld = .ok (rc', m', w') ∧
      Tiles rc'.surfs 0 ((List.range TA_NUM_LISTS).flatMap fun L => (rc'.lists L).entries)
        rc'.numIndices :=
  let h : trConvertContext ⟨8, 16, 24, 8⟩ intOps countingHost specFrontEnd (frameOf translucentStrip)
      (staleContext 0) (fun _ => 0) freshWorld = _ := rfl
  ⟨_, _, _, h, trConvertContext_tiles _ _ _ _ h⟩

end Redream
