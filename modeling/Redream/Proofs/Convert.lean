import Redream.Proofs.Stream
import Redream.Proofs.Sort
import Redream.Proofs.Indices
import Redream.Tr.FrontEnd

/-!
# What a conversion guarantees

The walk ends in `StreamInv`; the sort permutes the translucent and punch-through lists of
triangles; index generation keeps a sublist of each list and appends indices into the surfaces
listed when it started (`GenInv`). Put together, `trConvertContext_safe` says what every
conversion that returns guarantees: the lists name distinct surfaces below `num_surfs`, the sort's
check holds, listed surfaces lie below `num_verts` and `num_indices`, and every index names a
vertex below `num_verts` that this conversion wrote, so that the vertices the indices reach do not
depend on what the render context held before.

The guarantee stops at the indices. Below it stand three streams on which the conversion does
what the source's comments and the spec say it should not: a degenerate sprite that loses the
global parameters, a one-vertex strip that counts an unwritten vertex, and a list type outside
the five lists.
-/

namespace Redream
variable {F : Type} (lim : TrLimits) (fp : FloatOps F) (host : TexHost) (fe : TaFrontEnd)
variable {S : Nat → Prop} {rc rc' : TrContext F}

theorem ListsInv.perm (hi : ListsInv S rc) {L : Nat} {list' : TrList}
    (hp : list'.entries.Perm (rc.lists L).entries) :
    ListsInv S { rc with lists := Function.update rc.lists L list' } := by
  have hmem : ∀ L' s, s ∈ (Function.update rc.lists L list' L').entries ↔ s ∈ (rc.lists L').entries :=
    fun L' s => by
      by_cases hL : L' = L
      · subst hL; rw [Function.update_same]; exact hp.mem_iff
      · rw [Function.update_noteq hL]
  refine ⟨fun L' hL' => ?_, fun L₁ hL₁ L₂ hL₂ hne s h₁ h₂ =>
      hi.disjoint L₁ hL₁ L₂ hL₂ hne s ((hmem L₁ s).1 h₁) ((hmem L₂ s).1 h₂),
    fun L' hL' s h => hi.lt_numSurfs L' hL' s ((hmem L' s).1 h),
    fun L' hL' s h => hi.triangles L' hL' s ((hmem L' s).1 h),
    fun L' hL' s h => hi.le_numVerts L' hL' s ((hmem L' s).1 h),
    fun L' hL' s h => hi.written L' hL' s ((hmem L' s).1 h), hi.numIndices⟩
  show (Function.update rc.lists L list' L').entries.Nodup
  by_cases hL : L' = L
  · subst hL; rw [Function.update_same]; exact hp.nodup_iff.2 (hi.nodup L' hL')
  · rw [Function.update_noteq hL]; exact hi.nodup L' hL'

/-- Sorting a translucent or punch-through list of the walk's result keeps the invariant, never
fails, and from a context whose vertex array agrees on the written slots does the same. -/
theorem trSortSurfaces_inv (hi : ListsInv S rc) {L : Nat}
    (hL : L = TA_LIST_TRANSLUCENT ∨ L = TA_LIST_PUNCH_THROUGH) (m : Nat → F) :
    ∃ list' m', trSortSurfaces fp rc L m =
        .ok ({ rc with lists := Function.update rc.lists L list' }, m') ∧
      ListsInv S { rc with lists := Function.update rc.lists L list' } ∧
      ∀ V, AgreeOn S V rc.verts → trSortSurfaces fp { rc with verts := V } L m =
        .ok ({ rc with lists := Function.update rc.lists L list', verts := V }, m') := by
  obtain ⟨list', m', h, hp⟩ := trSortSurfaces_perm fp rc L m (hi.triangles L hL)
  have hL5 : L < TA_NUM_LISTS := by rcases hL with rfl | rfl <;> decide
  refine ⟨list', m', h, hi.perm hp, fun V hV => ?_⟩
  rw [trSortSurfaces_verts fp rc L m V fun s hs h3 k hk =>
    hV _ (hi.written L hL5 s hs _ ⟨Nat.le_add_right _ _, by omega⟩), h]
  rfl

/-- The sort step of a conversion, on the walk's result: it never fails, keeps the invariant, only
reorders lists, and from a context whose vertex array agrees on the written slots does the same. -/
theorem trSortLists_inv (ctx : TaContext F) (hi : ListsInv S rc) (m : Nat → F) :
    ∃ rc₂ m', trSortLists fp ctx rc m = .ok (rc₂, m') ∧ ListsInv S rc₂ ∧
      rc₂ = { rc with lists := rc₂.lists } ∧ ∀ V, AgreeOn S V rc.verts →
        trSortLists fp ctx { rc with verts := V } m = .ok ({ rc₂ with verts := V }, m') := by
  by_cases ha : ctx.autosort = true
  · obtain ⟨l₁, m₁, h₁, hi₁, hV₁⟩ := trSortSurfaces_inv fp hi (.inl rfl) m
    obtain ⟨l₂, m₂, h₂, hi₂, hV₂⟩ := trSortSurfaces_inv fp hi₁ (.inr rfl) m₁
    refine ⟨_, m₂, ?_, hi₂, rfl, fun V hV => ?_⟩
    · simp only [trSortLists, ha, if_true, bind, Except.bind, h₁, h₂]
    · simp only [trSortLists, ha, if_true, bind, Except.bind, hV₁ V hV]
      exact hV₂ V hV
  · refine ⟨rc, m, by simp [trSortLists, ha], hi, rfl, fun V _ => by simp [trSortLists, ha]⟩

/-- Index generation of the lists `done`, from `rc₀`: each list keeps a sublist of its entries,
the lists still to go and their surfaces are as they were, each done list's entries point inside
the indices, every index names a vertex of a surface listed in `rc₀`, and nothing else changed. -/
structure GenInv (rc₀ : TrContext F) (done : List Nat) (rc : TrContext F) : Prop where
  lt : ∀ L ∈ done, L < TA_NUM_LISTS
  sublist : ∀ L, (rc.lists L).entries.Sublist (rc₀.lists L).entries
  pending : ∀ L, L ∉ done → rc.lists L = rc₀.lists L
  surfs : ∀ L < TA_NUM_LISTS, L ∉ done → ∀ s ∈ (rc₀.lists L).entries, rc.surfs s = rc₀.surfs s
  bounded : ∀ L ∈ done, ∀ s ∈ (rc.lists L).entries,
    (rc.surfs s).firstVert + (rc.surfs s).numVerts ≤ rc.numIndices
  indices : ∀ i < rc.numIndices, ∃ L < TA_NUM_LISTS, ∃ s ∈ (rc₀.lists L).entries,
    SurfSlots (rc₀.surfs s) (rc.indices i)
  numSurfs : rc.numSurfs = rc₀.numSurfs
  numVerts : rc.numVerts = rc₀.numVerts
  verts : rc.verts = rc₀.verts

theorem GenInv.init (hi : ListsInv S rc) : GenInv rc [] rc :=
  ⟨fun _ h => absurd h (List.not_mem_nil _), fun _ => List.Sublist.refl _, fun _ _ => rfl,
    fun _ _ _ _ _ => rfl, fun _ h => absurd h (List.not_mem_nil _),
    fun i hi' => absurd hi' (by rw [hi.numIndices]; exact Nat.not_lt_zero _), rfl, rfl, rfl⟩

theorem GenInv.step {rc₀ : TrContext F} {done : List Nat} (hi₀ : ListsInv S rc₀)
    (hg : GenInv rc₀ done rc) {L : Nat} (hL : L < TA_NUM_LISTS) (hd : L ∉ done)
    (h : trGenerateIndices lim rc L = .ok rc') :
    GenInv rc₀ (done ++ [L]) rc' := by
  have hl : rc.lists L = rc₀.lists L := hg.pending L hd
  have hnd : (rc.lists L).entries.Nodup := hl ▸ hi₀.nodup L hL
  obtain ⟨hsub, hother, hsurf, hbound, hnS, hnV, hvs⟩ := trGenerateIndices_listed lim rc rc' L hnd h
  obtain ⟨hidx, hnum⟩ := trGenerateIndices_indices lim rc rc' L hnd h
  have hkeep : ∀ L' < TA_NUM_LISTS, L' ≠ L → ∀ s ∈ (rc₀.lists L').entries, rc'.surfs s = rc.surfs s :=
    fun L' hL' hne s hs => hsurf s (by rw [hl]; exact hi₀.disjoint L' hL' L hL hne s hs)
  refine ⟨fun L' hL' => ?_, fun L' => ?_, fun L' hL' => ?_, fun L' hL' hd' s hs => ?_,
    fun L' hL' s hs => ?_, fun i hi => ?_, hnS.trans hg.numSurfs, hnV.trans hg.numVerts,
    hvs.trans hg.verts⟩
  · rcases List.mem_append.1 hL' with h' | h'
    · exact hg.lt L' h'
    · rw [List.mem_singleton.1 h']; exact hL
  · by_cases hL' : L' = L
    · subst hL'; exact hsub.trans (hl ▸ List.Sublist.refl _)
    · rw [hother L' hL']; exact hg.sublist L'
  · simp only [List.mem_append, List.mem_singleton, not_or] at hL'
    rw [hother L' hL'.2]; exact hg.pending L' hL'.1
  · simp only [List.mem_append, List.mem_singleton, not_or] at hd'
    rw [hkeep L' hL' hd'.2 s hs]; exact hg.surfs L' hL' hd'.1 s hs
  · rcases List.mem_append.1 hL' with hL' | hL'
    · have hne : L' ≠ L := fun he => hd (he ▸ hL')
      rw [hother L' hne] at hs
      rw [hkeep L' (hg.lt L' hL') hne s ((hg.sublist L').subset hs), hnum]
      exact (hg.bounded L' hL' s hs).trans (Nat.le_add_right _ _)
    · obtain rfl := List.mem_singleton.1 hL'
      exact hbound s hs
  · rw [hidx, writeIdx_apply]
    split_ifs with hin
    · have hlt : i - rc.numIndices < (listIndices rc (rc.lists L).entries).length := by omega
      rw [List.getD_eq_getElem?_getD, List.getElem?_eq_getElem hlt, Option.getD_some]
      obtain ⟨s, hs, hv⟩ := List.mem_flatMap.1 (List.getElem_mem hlt)
      rw [hl] at hs
      refine ⟨L, hL, s, hs, ?_⟩
      rw [← hg.surfs L hL hd s hs]
      exact mem_surfIndices hv
    · exact hg.indices i (by omega)

/-- Generating the lists `Ls` in order, none of them done before, keeps `GenInv`. -/
theorem GenInv.foldlM {rc₀ : TrContext F} (hi₀ : ListsInv S rc₀) :
    ∀ (Ls done : List Nat) (rc rc' : TrContext F), GenInv rc₀ done rc →
      (∀ L ∈ Ls, L < TA_NUM_LISTS) → Ls.Nodup → (∀ L ∈ Ls, L ∉ done) →
      Ls.foldlM (trGenerateIndices lim) rc = .ok rc' → GenInv rc₀ (done ++ Ls) rc'
  | [], done, rc, rc', hg, _, _, _, h => by
    cases h; rw [List.append_nil]; exact hg
  | L :: Ls, done, rc, rc', hg, hlt, hnd, hd, h => by
    obtain ⟨rc₁, h₁, h₂⟩ := Except.bind_eq_ok.1 h
    have hg₁ := GenInv.step lim hi₀ hg (hlt L (List.mem_cons_self _ _))
      (hd L (List.mem_cons_self _ _)) h₁
    have hnd' := List.nodup_cons.1 hnd
    rw [← List.singleton_append, ← List.append_assoc]
    refine GenInv.foldlM hi₀ Ls _ rc₁ rc' hg₁ (fun L' h' => hlt L' (List.mem_cons_of_mem _ h'))
      hnd'.2 (fun L' h' hm => ?_) h₂
    rcases List.mem_append.1 hm with hm | hm
    · exact hd L' (List.mem_cons_of_mem _ h') hm
    · exact hnd'.1 (List.mem_singleton.1 hm ▸ h')

theorem trGenerateAllIndices_inv (hi : ListsInv S rc) (h : trGenerateAllIndices lim rc = .ok rc') :
    GenInv rc (List.range TA_NUM_LISTS) rc' :=
  GenInv.foldlM lim hi (List.range TA_NUM_LISTS) [] rc rc' (GenInv.init hi)
    (fun _ => List.mem_range.1) (List.nodup_range _) (fun _ _ => List.not_mem_nil _) h

/-- What one generation step keeps, given `GenInv` of the lists done before, holds after the
whole generation: the induction over the five lists, once. -/
theorem GenInv.foldlM_rec {rc₀ : TrContext F} (hi₀ : ListsInv S rc₀) (P : List Nat → TrContext F → Prop)
    (hP : ∀ {done rc rc' L}, GenInv rc₀ done rc → P done rc → L < TA_NUM_LISTS → L ∉ done →
      trGenerateIndices lim rc L = .ok rc' → P (done ++ [L]) rc') :
    ∀ (Ls done : List Nat) (rc rc' : TrContext F), GenInv rc₀ done rc → P done rc →
      (∀ L ∈ Ls, L < TA_NUM_LISTS) → Ls.Nodup → (∀ L ∈ Ls, L ∉ done) →
      Ls.foldlM (trGenerateIndices lim) rc = .ok rc' → P (done ++ Ls) rc'
  | [], done, rc, rc', _, hp, _, _, _, h => by
    cases h; rw [List.append_nil]; exact hp
  | L :: Ls, done, rc, rc', hg, hp, hlt, hnd, hd, h => by
    obtain ⟨rc₁, h₁, h₂⟩ := Except.bind_eq_ok.1 h
    have hL := hlt L (List.mem_cons_self _ _)
    have hL' := hd L (List.mem_cons_self _ _)
    have hnd' := List.nodup_cons.1 hnd
    rw [← List.singleton_append, ← List.append_assoc]
    refine GenInv.foldlM_rec hi₀ P hP Ls _ rc₁ rc' (hg.step lim hi₀ hL hL' h₁) (hP hg hp hL hL' h₁)
      (fun L' h' => hlt L' (List.mem_cons_of_mem _ h')) hnd'.2 (fun L' h' hm => ?_) h₂
    rcases List.mem_append.1 hm with hm | hm
    · exact hd L' (List.mem_cons_of_mem _ h') hm
    · exact hnd'.1 (List.mem_singleton.1 hm ▸ h')

theorem trGenerateAllIndices_rec (hi : ListsInv S rc) (P : List Nat → TrContext F → Prop)
    (hP : ∀ {done rc₁ rc₂ L}, GenInv rc done rc₁ → P done rc₁ → L < TA_NUM_LISTS → L ∉ done →
      trGenerateIndices lim rc₁ L = .ok rc₂ → P (done ++ [L]) rc₂)
    (h₀ : P [] rc) (h : trGenerateAllIndices lim rc = .ok rc') : P (List.range TA_NUM_LISTS) rc' :=
  GenInv.foldlM_rec lim hi P hP (List.range TA_NUM_LISTS) [] rc rc' (GenInv.init hi) h₀
    (fun _ => List.mem_range.1) (List.nodup_range _) (fun _ _ => List.not_mem_nil _) h

theorem foldlM_trGenerateIndices_verts (V : Nat → TaVertex F) :
    ∀ (Ls : List Nat) (rc : TrContext F), Ls.foldlM (trGenerateIndices lim) { rc with verts := V } =
      (Ls.foldlM (trGenerateIndices lim) rc).map ({ · with verts := V })
  | [], _ => rfl
  | L :: Ls, rc => by
    simp only [List.foldlM_cons, trGenerateIndices_verts]
    cases trGenerateIndices lim rc L with
    | error e => rfl
    | ok r => exact foldlM_trGenerateIndices_verts V Ls r

theorem trGenerateAllIndices_verts (rc : TrContext F) (V : Nat → TaVertex F) :
    trGenerateAllIndices lim { rc with verts := V } =
      (trGenerateAllIndices lim rc).map ({ · with verts := V }) :=
  foldlM_trGenerateIndices_verts lim V _ rc

/-- A conversion that returns, in its three parts, with the lists' invariant that the walk ends in
and the sort keeps. -/
theorem trConvertContext_parts {ctx : TaContext F} {m m' : Nat → F} {w w' : TexWorld}
    (h : trConvertContext lim fp host fe ctx rc m w = .ok (rc', m', w')) :
    ∃ (rc₁ rc₂ : TrContext F) (S : Nat → Prop), trConvertStream lim fp host fe ctx rc w = .ok (rc₁, w') ∧
      trSortLists fp ctx rc₁ m = .ok (rc₂, m') ∧ trGenerateAllIndices lim rc₂ = .ok rc' ∧
      ListsInv S rc₁ ∧ ListsInv S rc₂ ∧ rc₂ = { rc₁ with lists := rc₂.lists } := by
  obtain ⟨⟨rc₁, w₁⟩, h₁, h⟩ := Except.bind_eq_ok.1 h
  obtain ⟨⟨rc₂, m₂⟩, h₂, h⟩ := Except.bind_eq_ok.1 h
  obtain ⟨rc₃, h₃, h⟩ := Except.bind_eq_ok.1 h
  simp only [pure, Except.pure, Except.ok.injEq, Prod.mk.injEq] at h
  obtain ⟨rfl, rfl, rfl⟩ := h
  obtain ⟨S, _, hi, -⟩ := trConvertStream_inv lim fp host fe h₁
  obtain ⟨_, _, h₂', hi₂, hrc₂, -⟩ := trSortLists_inv fp ctx hi.lists m
  rw [h₂, Except.ok.injEq, Prod.mk.injEq] at h₂'
  obtain ⟨rfl, rfl⟩ := h₂'
  exact ⟨rc₁, rc₂, S, h₁, h₂, h₃, hi.lists, hi₂, hrc₂⟩

/-- The surfaces the five lists name, list after list. -/
def listedSurfs (rc : TrContext F) : List Nat :=
  (List.range TA_NUM_LISTS).flatMap fun L => (rc.lists L).entries

theorem mem_listedSurfs {rc : TrContext F} {s : Nat} :
    s ∈ listedSurfs rc ↔ ∃ L < TA_NUM_LISTS, s ∈ (rc.lists L).entries := by
  simp only [listedSurfs, List.mem_flatMap, List.mem_range]

theorem nodup_listedSurfs {rc₀ : TrContext F} (hi : ListsInv S rc₀)
    (hsub : ∀ L, (rc.lists L).entries.Sublist (rc₀.lists L).entries) : (listedSurfs rc).Nodup := by
  refine List.nodup_flatMap.2 ⟨fun L hL => (hi.nodup L (List.mem_range.1 hL)).sublist (hsub L),
    (List.nodup_range _).pairwise_of_forall_ne fun L₁ h₁ L₂ h₂ hne s hs₁ hs₂ => ?_⟩
  exact hi.disjoint L₁ (List.mem_range.1 h₁) L₂ (List.mem_range.1 h₂) hne s
    ((hsub L₁).subset hs₁) ((hsub L₂).subset hs₂)

/-- What a conversion that returns guarantees, stage by stage. The walk leaves only triangles in
the translucent and punch-through lists, so the sort's check holds and it cannot fail; listed
surfaces lie below `num_verts` before index generation and below `num_indices` after it; the lists
name distinct surfaces below `num_surfs`; and every index names a vertex below `num_verts` written
during this conversion: from any vertex array at all the conversion returns the same, but for a
vertex array that agrees on every slot an index names. -/
structure ConvertSafe (ctx : TaContext F) (rc : TrContext F) (m : Nat → F) (w : TexWorld)
    (rc' : TrContext F) (m' : Nat → F) (w' : TexWorld) : Prop where
  stages : ∃ rc₁ rc₂, trConvertStream lim fp host fe ctx rc w = .ok (rc₁, w') ∧
    trSortLists fp ctx rc₁ m = .ok (rc₂, m') ∧ trGenerateAllIndices lim rc₂ = .ok rc' ∧
    (∀ L, L = TA_LIST_TRANSLUCENT ∨ L = TA_LIST_PUNCH_THROUGH →
      ∀ s ∈ (rc₁.lists L).entries, (rc₁.surfs s).numVerts = 3) ∧
    (∀ m₀, ∃ r, trSortLists fp ctx rc₁ m₀ = .ok r) ∧
    ∀ L < TA_NUM_LISTS, ∀ s ∈ (rc₂.lists L).entries,
      (rc₂.surfs s).firstVert + (rc₂.surfs s).numVerts ≤ rc₂.numVerts
  nodup : (listedSurfs rc').Nodup
  lt_numSurfs : ∀ s ∈ listedSurfs rc', s < rc'.numSurfs
  le_numIndices : ∀ L < TA_NUM_LISTS, ∀ s ∈ (rc'.lists L).entries,
    (rc'.surfs s).firstVert + (rc'.surfs s).numVerts ≤ rc'.numIndices
  indices_lt : ∀ i < rc'.numIndices, rc'.indices i < rc'.numVerts
  written : ∀ V, ∃ V', trConvertContext lim fp host fe ctx { rc with verts := V } m w =
      .ok ({ rc' with verts := V' }, m', w') ∧
    ∀ i < rc'.numIndices, V' (rc'.indices i) = rc'.verts (rc'.indices i)

theorem trConvertContext_safe {ctx : TaContext F} {m m' : Nat → F} {w w' : TexWorld}
    (h : trConvertContext lim fp host fe ctx rc m w = .ok (rc', m', w')) :
    ConvertSafe lim fp host fe ctx rc m w rc' m' w' := by
  obtain ⟨⟨rc₁, w₁⟩, h₁, h⟩ := Except.bind_eq_ok.1 h
  obtain ⟨⟨rc₂, m₂⟩, h₂, h⟩ := Except.bind_eq_ok.1 h
  obtain ⟨rc₃, h₃, h⟩ := Except.bind_eq_ok.1 h
  cases h
  obtain ⟨S, _, hs, hV₁⟩ := trConvertStream_inv lim fp host fe h₁
  obtain ⟨rc₂', m₂', h₂', hi₂, hrc₂, hV₂⟩ := trSortLists_inv fp ctx hs.lists m
  rw [h₂'] at h₂
  obtain ⟨rfl, rfl⟩ := Prod.mk.inj (Except.ok.inj h₂)
  have hg := trGenerateAllIndices_inv lim hi₂ h₃
  have hidx : ∀ i < rc'.numIndices, S (rc'.indices i) ∧ rc'.indices i < rc'.numVerts := by
    intro i hi
    obtain ⟨L, hL, s, hs', hv⟩ := hg.indices i hi
    exact ⟨hi₂.written L hL s hs' _ hv, hg.numVerts ▸ hv.2.trans_le (hi₂.le_numVerts L hL s hs')⟩
  refine ⟨⟨rc₁, rc₂', h₁, h₂', h₃, hs.lists.triangles, fun m₀ => ?_, hi₂.le_numVerts⟩,
    nodup_listedSurfs hi₂ hg.sublist, fun s hs' => ?_,
    fun L hL => hg.bounded L (List.mem_range.2 hL), fun i hi => (hidx i hi).2, fun V => ?_⟩
  · obtain ⟨r, m'', hr, -⟩ := trSortLists_inv fp ctx hs.lists m₀
    exact ⟨_, hr⟩
  · obtain ⟨L, hL, hs'⟩ := mem_listedSurfs.1 hs'
    rw [hg.numSurfs]
    exact hi₂.lt_numSurfs L hL s ((hg.sublist L).subset hs')
  · obtain ⟨V', hA, hV⟩ := hV₁ V
    refine ⟨V', ?_, fun i hi => ?_⟩
    · have h₃' := trGenerateAllIndices_verts lim rc₂' V'
      rw [h₃] at h₃'
      simp only [trConvertContext, bind, Except.bind, hV, hV₂ V' hA, h₃']
      rfl
    · rw [hg.verts, hrc₂]
      exact hA _ (hidx i hi).1

/-- A translucent strip of three vertices. -/
def translucentStrip : List (TaParam Int) :=
  [blankParam ⟨false, false, false, false, 2, 4, false, 0⟩,
    blankParam ⟨false, false, false, false, 2, 7, false, 0⟩,
    blankParam ⟨false, false, false, false, 2, 7, false, 0⟩,
    blankParam ⟨false, false, false, false, 2, 7, true, 0⟩]

theorem trConvertContext_safe_translucentStrip :
    ∃ rc' m' w', trConvertContext ⟨8, 16, 24, 8⟩ intOps countingHost specFrontEnd
        (frameOf translucentStrip) (staleContext 0) (fun _ => 0) freshWorld =
        .ok (rc', m', w') ∧
      ConvertSafe ⟨8, 16, 24, 8⟩ intOps countingHost specFrontEnd
        (frameOf translucentStrip) (staleContext 0) (fun _ => 0) freshWorld
        rc' m' w' :=
  ⟨_, _, _, rfl, trConvertContext_safe _ _ _ _ rfl⟩

/-! ## Where the conversion departs from its comments -/

/-- A sprite global parameter in the opaque list that disables depth writes. -/
def spriteGlobal : TaParam Int :=
  { blankParam ⟨false, false, false, false, 0, 5, false, 0⟩ with isp := ⟨true, 0, 0, false, false, 0⟩ }

/-- The sprite global parameter, a sprite whose corners coincide, and a proper sprite. -/
def degenerateSpriteStream : List (TaParam Int) :=
  [spriteGlobal,
    blankParam ⟨false, false, false, false, 0, 7, true, 0⟩,
    { blankParam ⟨false, false, false, false, 0, 7, true, 0⟩ with
      spriteXyz := ![⟨0, 0, 0⟩, ⟨0, 1, 0⟩, ⟨1, 1, 0⟩, ⟨1, 0, 0⟩] }]

/-- The degenerate sprite returns before its surface is committed, so the proper sprite's surface
copies the background's parameters, not the ones its global parameter set. -/
theorem trConvertStream_degenerateSprite :
    ∃ rc' w', trConvertStream ⟨8, 16, 24, 8⟩ intOps countingHost specFrontEnd
        (frameOf degenerateSpriteStream) (staleContext 0) freshWorld = .ok (rc', w') ∧
      (rc'.lists TA_LIST_OPAQUE).entries = [0, 1] ∧ (rc'.surfs 1).params = (rc'.surfs 0).params ∧
      (rc'.surfs 1).params ≠
        polyParams (frameOf degenerateSpriteStream) TA_LIST_OPAQUE spriteGlobal SurfaceParams.zero :=
  ⟨_, _, rfl, by decide, by decide, by decide⟩

/-- A translucent strip of one vertex. -/
def oneVertexStrip : List (TaParam Int) :=
  [blankParam ⟨false, false, false, false, 2, 4, false, 0⟩,
    blankParam ⟨false, false, false, false, 2, 7, true, 0⟩]

/-- Committing a one-vertex translucent strip advances `num_verts` by two, past the one vertex
written and, with room for five vertices, past the capacity. -/
theorem trConvertContext_oneVertexStrip_overflows :
    ∃ r, trConvertContext ⟨8, 5, 24, 8⟩ intOps countingHost specFrontEnd (frameOf oneVertexStrip)
        (staleContext 7) (fun _ => 0) freshWorld = .ok r ∧
      r.1.numVerts = 6 ∧ 5 < r.1.numVerts ∧ r.1.verts 5 = (staleContext 7).verts 5 :=
  ⟨_, rfl, rfl, by decide, rfl⟩

/-- The slot counted but never written keeps what the render context held before, so two stale
contexts give two outputs. -/
theorem trConvertContext_oneVertexStrip_stale :
    ∃ a b, trConvertContext ⟨8, 16, 24, 8⟩ intOps countingHost specFrontEnd (frameOf oneVertexStrip)
        (staleContext 7) (fun _ => 0) freshWorld = .ok a ∧
      trConvertContext ⟨8, 16, 24, 8⟩ intOps countingHost specFrontEnd (frameOf oneVertexStrip)
        (staleContext 8) (fun _ => 0) freshWorld = .ok b ∧
      a.1.numVerts = 6 ∧ b.1.numVerts = 6 ∧ a.1.verts 5 ≠ b.1.verts 5 :=
  ⟨_, _, rfl, rfl, rfl, rfl, by decide⟩

/-- A polygon parameter with list type 7, then a vertex that ends its strip. -/
def listSevenStream : List (TaParam Int) :=
  [blankParam ⟨false, false, false, false, 7, 4, false, 0⟩,
    blankParam ⟨false, false, false, false, 0, 7, true, 0⟩]

/-- List type 7 is adopted, and committing the strip reaches past the five lists. -/
theorem trConvertContext_listSeven :
    trConvertContext ⟨8, 16, 24, 8⟩ intOps countingHost specFrontEnd (frameOf listSevenStream)
      (staleContext 0) (fun _ => 0) freshWorld = .error .outOfBounds := rfl

end Redream
