import Redream.Proofs.Capacity

/-!
# Writes stay inside the arrays

The arrays whose writes `tr.c` guards with a `CHECK` have capacities: `TR_MAX_SURFS` surfaces,
as many entries in each of the five lists and depths in `sort_minz`, `TR_MAX_VERTS` vertices and
`TR_MAX_INDICES` indices. `KeepsPastCaps lim rc rc'` says that `rc'` holds what `rc` held in every
slot of these arrays at or past its capacity. The trace entry and the list index are written
without a check, so they are not among them.

A conversion that returns keeps them all (`trConvertContext_keepsPastCaps`): every write to them
is checked first, or goes to the staged surface, which a check reserved. `Room` is what the walk
keeps for that: `num_surfs` within its capacity, and strictly below it while a strip is open;
each list no longer than `num_surfs`; and `num_verts` at most one past its capacity. That slack is
the translucent commit's fixed two vertices after a one-vertex strip, and the vertex it counts is
never written. Index generation checks where a surface's indices end in `size_t`, so a count that
wrapped `2 ^ 64` could pass it; capacities far below that rule it out.
-/

namespace Redream

variable {F : Type} (lim : TrLimits) (fp : FloatOps F) (host : TexHost) (fe : TaFrontEnd)

/-- `rc'` holds what `rc` held in every slot of the checked arrays at or past its capacity in
`lim`. -/
structure KeepsPastCaps (rc rc' : TrContext F) : Prop where
  surfs : ∀ x, lim.maxSurfs ≤ x → rc'.surfs x = rc.surfs x
  verts : ∀ v, lim.maxVerts ≤ v → rc'.verts v = rc.verts v
  indices : ∀ i, lim.maxIndices ≤ i → rc'.indices i = rc.indices i
  slots : ∀ L < TA_NUM_LISTS, ∀ k, lim.maxSurfs ≤ k → (rc'.lists L).surfs k = (rc.lists L).surfs k

variable {lim} {rc rc' : TrContext F}

theorem KeepsPastCaps.refl (rc : TrContext F) : KeepsPastCaps lim rc rc :=
  ⟨fun _ _ => rfl, fun _ _ => rfl, fun _ _ => rfl, fun _ _ _ _ => rfl⟩

theorem KeepsPastCaps.trans {rc₁ rc₂ rc₃ : TrContext F} (h₁ : KeepsPastCaps lim rc₁ rc₂)
    (h₂ : KeepsPastCaps lim rc₂ rc₃) : KeepsPastCaps lim rc₁ rc₃ :=
  ⟨fun x hx => (h₂.surfs x hx).trans (h₁.surfs x hx), fun v hv => (h₂.verts v hv).trans (h₁.verts v hv),
    fun i hi => (h₂.indices i hi).trans (h₁.indices i hi),
    fun L hL k hk => (h₂.slots L hL k hk).trans (h₁.slots L hL k hk)⟩

/-- Writing a surface below its capacity and vertices below theirs. -/
theorem KeepsPastCaps.surf_verts (rc : TrContext F) {x : Nat} (hx : x < lim.maxSurfs) (s : TaSurface)
    (X : Nat → TaVertex F) {lo hi : Nat} (hhi : hi ≤ lim.maxVerts) :
    KeepsPastCaps lim rc
      { rc with surfs := Function.update rc.surfs x s, verts := overwrite rc.verts X lo hi } :=
  ⟨fun _ hy => Function.update_noteq (by omega) _ _, fun _ hv => overwrite_of_le (by omega),
    fun _ _ => rfl, fun _ _ _ _ => rfl⟩

theorem KeepsPastCaps.surf (rc : TrContext F) {x : Nat} (hx : x < lim.maxSurfs) (s : TaSurface) :
    KeepsPastCaps lim rc { rc with surfs := Function.update rc.surfs x s } :=
  KeepsPastCaps.surf_verts rc hx s rc.verts (Nat.zero_le _) |>.trans (by
    rw [show overwrite rc.verts rc.verts 0 0 = rc.verts from overwrite_self rc.verts rc.verts 0]
    exact KeepsPastCaps.refl _)

/-! ## Committing -/

/-- The triangle loop writes surfaces `N .. N + n - 1`, each checked or, first, the staged one,
and pushes the list's next `n` slots. -/
theorem trCommitTris_caps : ∀ (n i : Nat) (rc rc' : TrContext F) (list list' : TrList),
    (i = 0 → rc.numSurfs < lim.maxSurfs) → trCommitTris lim n i rc list = .ok (rc', list') →
    (n = 0 ∨ rc.numSurfs + n ≤ lim.maxSurfs) ∧ list'.numSurfs = list.numSurfs + n ∧
      ∀ k, list.numSurfs + n ≤ k → list'.surfs k = list.surfs k
  | 0, _, rc, rc', list, list', _, h => by
    simp only [trCommitTris, Except.ok.injEq, Prod.mk.injEq] at h
    obtain ⟨rfl, rfl⟩ := h
    exact ⟨.inl rfl, rfl, fun _ _ => rfl⟩
  | n + 1, i, rc, rc', list, list', h0, h => by
    simp only [trCommitTris] at h
    obtain ⟨rc₁, hr, h⟩ := Except.bind_eq_ok.1 h
    have hlt : rc.numSurfs < lim.maxSurfs ∧ rc₁.numSurfs = rc.numSurfs := by
      split_ifs at hr with hi
      · cases hr; exact ⟨h0 hi, rfl⟩
      · obtain ⟨h1, -, rfl⟩ := (trReserveSurf_eq_ok lim).1 hr; exact ⟨h1, rfl⟩
    obtain ⟨h1, h2, h3⟩ := trCommitTris_caps n (i + 1) _ rc' _ list' (fun h => absurd h i.succ_ne_zero) h
    simp only [TrList.push_numSurfs, hlt.2] at h1 h2 h3
    refine ⟨.inr (by omega), by omega, fun k hk => ?_⟩
    rw [h3 k (by omega)]
    exact Function.update_noteq (by omega) _ _

/-- Replacing list `L` by one that holds the old list's slots from the surface capacity on and is
no longer than `n`, when the other lists are not either. -/
theorem lists_update (lim : TrLimits) (lists : Nat → TrList) (L n : Nat) {l : TrList}
    (hs : ∀ k, lim.maxSurfs ≤ k → l.surfs k = (lists L).surfs k) (hn : l.numSurfs ≤ n)
    (hl : ∀ L' < TA_NUM_LISTS, (lists L').numSurfs ≤ n) :
    (∀ L' < TA_NUM_LISTS, ∀ k, lim.maxSurfs ≤ k →
      (Function.update lists L l L').surfs k = (lists L').surfs k) ∧
      ∀ L' < TA_NUM_LISTS, (Function.update lists L l L').numSurfs ≤ n := by
  constructor <;> intro L' hL' <;> by_cases h : L' = L
  · subst h; simpa using hs
  · simp [Function.update_noteq h]
  · subst h; simpa using hn
  · simpa [Function.update_noteq h] using hl L' hL'

/-- A commit of a staged surface that a check reserved, over vertices that checks reserved, keeps
the slots past the capacities, and `num_verts` at most one past its own. -/
theorem trCommitSurf_caps {tr : Tr} (h : trCommitSurf lim tr rc = .ok rc')
    (hs : rc.numSurfs < lim.maxSurfs) (hl : ∀ L < TA_NUM_LISTS, (rc.lists L).numSurfs ≤ rc.numSurfs)
    (hm : 1 ≤ (rc.surfs rc.numSurfs).numVerts)
    (hv : rc.numVerts + (rc.surfs rc.numSurfs).numVerts ≤ lim.maxVerts) :
    KeepsPastCaps lim rc rc' ∧ rc'.numSurfs ≤ lim.maxSurfs ∧ rc'.numVerts ≤ lim.maxVerts + 1 ∧
      ∀ L < TA_NUM_LISTS, (rc'.lists L).numSurfs ≤ rc'.numSurfs := by
  unfold trCommitSurf at h
  split_ifs at h with hL ht
  case pos =>
    obtain ⟨⟨rc₁, list₁⟩, hc, h⟩ := Except.bind_eq_ok.1 h
    simp only [pure, Except.pure, Except.ok.injEq] at h
    subst h
    obtain ⟨hsurfs, -, -⟩ := trCommitTris_eq lim (rc.surfs rc.numSurfs).params _ 0 rc rc₁ _ list₁
      (by simp) (by simp) hc
    obtain ⟨hn, hnum, hslot⟩ := trCommitTris_caps _ 0 rc rc₁ _ list₁ (fun _ => hs) hc
    subst hsurfs
    have hlist := hl _ hL
    obtain ⟨hS, hN⟩ := lists_update lim rc.lists tr.listType
      (rc.numSurfs + ((rc.surfs rc.numSurfs).numVerts - 2))
      (fun k hk => hslot k (by dsimp only; omega)) (by dsimp only at hnum ⊢; omega)
      fun L hL' => (hl L hL').trans (Nat.le_add_right _ _)
    exact ⟨⟨fun x hx => if_neg (by omega), fun _ _ => rfl, fun _ _ => rfl, hS⟩,
      by dsimp only; omega, by dsimp only; omega, hN⟩
  case neg =>
    cases h
    let l := { rc.lists tr.listType with numOrigSurfs := (rc.lists tr.listType).numOrigSurfs + 1 }
    have hlist : l.numSurfs ≤ rc.numSurfs := hl _ hL
    obtain ⟨hS, hN⟩ := lists_update lim rc.lists tr.listType (rc.numSurfs + 1) (l := l.push rc.numSurfs)
      (fun k hk => Function.update_noteq (by omega) _ _) (by rw [TrList.push_numSurfs]; omega)
      fun L hL' => (hl L hL').trans (Nat.le_succ _)
    exact ⟨⟨fun _ _ => rfl, fun _ _ => rfl, fun _ _ => rfl, hS⟩, by dsimp only; omega,
      by dsimp only; omega, hN⟩

/-! ## The walk -/

/-- What the walk keeps so that its writes stay inside the arrays: `num_surfs` within its
capacity, and strictly below it while a strip is open, whose staged surface is written in place;
`num_verts` at most one past its capacity; each of the five lists no longer than `num_surfs`. -/
structure Room (lim : TrLimits) (tr : Tr) (rc : TrContext F) : Prop where
  numSurfs : rc.numSurfs ≤ lim.maxSurfs
  staged : StripOpen tr → rc.numSurfs < lim.maxSurfs
  numVerts : rc.numVerts ≤ lim.maxVerts + 1
  lists : ∀ L < TA_NUM_LISTS, (rc.lists L).numSurfs ≤ rc.numSurfs

variable {tr tr' : Tr}

theorem Room.of_strip (hr : Room lim tr rc) (hv : tr'.vertType = tr.vertType)
    (hl : tr'.lastVertex = tr.lastVertex) : Room lim tr' rc :=
  ⟨hr.numSurfs, fun ⟨h₁, h₂, h₃⟩ => hr.staged ⟨hv ▸ h₁, hv ▸ h₂, hl ▸ h₃⟩, hr.numVerts, hr.lists⟩

/-- A step that stages a surface below the capacity, or leaves the strip closed, and changes no
count and no list. -/
theorem Room.stage (hr : Room lim tr rc) (hs : rc'.numSurfs = rc.numSurfs)
    (hv : rc'.numVerts = rc.numVerts) (hl : rc'.lists = rc.lists)
    (hst : StripOpen tr' → rc.numSurfs < lim.maxSurfs) : Room lim tr' rc' :=
  ⟨hs ▸ hr.numSurfs, fun ho => hs ▸ hst ho, hv ▸ hr.numVerts, fun L hL => hs ▸ hl ▸ hr.lists L hL⟩

variable {ctx : TaContext F} {p : TaParam F} {w w' : TexWorld}

theorem trParsePolyParam_room (hr : Room lim tr rc)
    (h : trParsePolyParam lim fp host fe ctx p tr rc w = .ok (tr', rc', w')) :
    Room lim tr' rc' ∧ KeepsPastCaps lim rc rc' := by
  obtain ⟨-, hv, -, hrc, -⟩ := trParsePolyParam_spec lim fp host fe h
  rcases hrc with ⟨h6, rfl⟩ | ⟨hs, P, rfl⟩
  · exact ⟨hr.stage rfl rfl rfl fun ho => absurd (hv.trans (fe.vertType_of_modvol _ h6)) ho.1,
      KeepsPastCaps.refl _⟩
  · exact ⟨hr.stage rfl rfl rfl fun _ => hs, KeepsPastCaps.surf rc hs _⟩

theorem trParseVertParam_room (hr : Room lim tr rc)
    (h : trParseVertParam lim fp p tr rc = .ok (tr', rc')) :
    Room lim tr' rc' ∧ KeepsPastCaps lim rc rc' := by
  rcases trParseVertParam_spec lim fp h with
    ⟨-, rfl, rfl⟩ | ⟨h17, h18, rfl, rc₀, rc₁, keep, k, X, hs, hk, hmax, hrc₁, hc, -⟩
  · exact ⟨hr, KeepsPastCaps.refl _⟩
  -- the staged surface lies below the capacity: reserved now, or open since a check reserved it
  have h₀ : rc₀.numSurfs < lim.maxSurfs ∧ rc₀.numSurfs = rc.numSurfs ∧ rc₀.numVerts = rc.numVerts ∧
      rc₀.lists = rc.lists ∧ KeepsPastCaps lim rc rc₀ := by
    rcases hs with ⟨hn, rfl⟩ | ⟨-, hr₀⟩
    · exact ⟨hr.staged ⟨h17, h18, hn⟩, rfl, rfl, rfl, KeepsPastCaps.refl _⟩
    · obtain ⟨hlt, -, rfl⟩ := (trReserveSurf_eq_ok lim).1 hr₀
      exact ⟨hlt, rfl, rfl, rfl, KeepsPastCaps.surf rc hlt _⟩
  obtain ⟨hlt, hn, hv, hl, hK₀⟩ := h₀
  have hK₁ : KeepsPastCaps lim rc rc₁ := hK₀.trans (hrc₁ ▸ KeepsPastCaps.surf_verts rc₀ hlt _ X hmax)
  have hk1 : 1 ≤ k := by omega
  subst hrc₁
  rcases hc with ⟨-, he, hcm⟩ | ⟨-, rfl⟩
  · obtain ⟨hK, hS, hV, hL⟩ := trCommitSurf_caps hcm hlt (fun L hL' => hl ▸ hn ▸ hr.lists L hL')
      (by dsimp only; rw [Function.update_same]; dsimp only; omega)
      (by dsimp only; rw [Function.update_same]; dsimp only; omega)
    exact ⟨⟨hS, fun ho => absurd ho (not_stripOpen_of_endOfStrip rfl he), hV, hL⟩, hK₁.trans hK⟩
  · exact ⟨⟨by dsimp only; omega, fun _ => hlt, by dsimp only; omega,
      fun L hL' => by dsimp only; rw [hl, hn]; exact hr.lists L hL'⟩, hK₁⟩

theorem trDispatchParam_room (hr : Room lim tr rc)
    (h : trDispatchParam lim fp host fe ctx p tr rc w = .ok (tr', rc', w')) :
    Room lim tr' rc' ∧ KeepsPastCaps lim rc rc' := by
  unfold trDispatchParam at h
  split_ifs at h with h₁ h₂ h₃ h₄ h₅
  · obtain ⟨rfl, rfl, rfl⟩ : _ = tr' ∧ rc = rc' ∧ w = w' := by simpa using h
    exact ⟨hr.stage rfl rfl rfl fun ho => absurd rfl ho.2.1, KeepsPastCaps.refl _⟩
  · obtain ⟨rfl, rfl, rfl⟩ : tr = tr' ∧ rc = rc' ∧ w = w' := by simpa using h
    exact ⟨hr, KeepsPastCaps.refl _⟩
  · exact trParsePolyParam_room fp host fe hr h
  · rcases hv : trParseVertParam lim fp p tr rc with _ | ⟨tr₁, rc₁⟩ <;> rw [hv] at h
    · cases h
    obtain ⟨rfl, rfl, rfl⟩ : tr₁ = tr' ∧ rc₁ = rc' ∧ w = w' := by simpa [Except.map] using h
    exact trParseVertParam_room fp hr hv
  · obtain ⟨rfl, rfl, rfl⟩ : tr = tr' ∧ rc = rc' ∧ w = w' := by simpa using h
    exact ⟨hr, KeepsPastCaps.refl _⟩

theorem trParseParam_room {offset : Nat} (hr : Room lim tr rc)
    (h : trParseParam lim fp host fe ctx offset p (tr, rc, w) = .ok (tr', rc', w')) :
    Room lim tr' rc' ∧ KeepsPastCaps lim rc rc' := by
  unfold trParseParam at h
  obtain ⟨⟨tr₁, rc₁, w₁⟩, hd, h⟩ := Except.bind_eq_ok.1 h
  have hrA : Room lim (if fe.taPcwListTypeValid p.pcw tr.listType then
      { tr with listType := p.pcw.listType.val } else tr) rc := by
    split_ifs
    · exact hr.of_strip rfl rfl
    · exact hr
  obtain ⟨hr₁, hK₁⟩ := trDispatchParam_room fp host fe hrA hd
  dsimp only at h
  split_ifs at h with hp
  simp only [pure, Except.pure, Except.ok.injEq, Prod.mk.injEq] at h
  obtain ⟨rfl, rfl, rfl⟩ := h
  -- the trace entry is in none of the checked arrays
  exact ⟨hr₁.stage rfl rfl rfl hr₁.staged, ⟨hK₁.surfs, hK₁.verts, hK₁.indices, hK₁.slots⟩⟩

theorem trParseParams_room :
    ∀ (ps : List (TaParam F)) (offset : Nat) (tr tr' : Tr) (rc rc' : TrContext F) (w w' : TexWorld),
      Room lim tr rc → trParseParams lim fp host fe ctx ps offset (tr, rc, w) = .ok (tr', rc', w') →
      Room lim tr' rc' ∧ KeepsPastCaps lim rc rc'
  | [], _, tr, tr', rc, rc', w, w', hr, h => by
    simp only [trParseParams, Except.ok.injEq, Prod.mk.injEq] at h
    obtain ⟨rfl, rfl, rfl⟩ := h
    exact ⟨hr, KeepsPastCaps.refl _⟩
  | p :: ps, offset, tr, tr', rc, rc', w, w', hr, h => by
    obtain ⟨⟨tr₁, rc₁, w₁⟩, h₁, h⟩ := Except.bind_eq_ok.1 h
    obtain ⟨hr₁, hK₁⟩ := trParseParam_room fp host fe hr h₁
    obtain ⟨hr', hK'⟩ := trParseParams_room ps _ tr₁ tr' rc₁ rc' w₁ w' hr₁ h
    exact ⟨hr', hK₁.trans hK'⟩

/-- The background's surface and its four vertices were reserved by checks. -/
theorem trParseBg_fits (h : trParseBg lim fp host fe ctx tr rc w = .ok (tr', rc', w')) :
    rc.numSurfs < lim.maxSurfs ∧ rc.numVerts + 4 ≤ lim.maxVerts := by
  unfold trParseBg at h
  obtain ⟨rc₁, hr, h⟩ := Except.bind_eq_ok.1 h
  obtain ⟨hlt, -, rfl⟩ := (trReserveSurf_eq_ok lim).1 hr
  dsimp only at h
  obtain ⟨⟨ia, rc₂⟩, hr₁, h⟩ := Except.bind_eq_ok.1 h
  obtain ⟨⟨ib, rc₃⟩, hr₂, h⟩ := Except.bind_eq_ok.1 h
  obtain ⟨⟨ic, rc₄⟩, hr₃, h⟩ := Except.bind_eq_ok.1 h
  obtain ⟨⟨id, rc₅⟩, hr₄, -⟩ := Except.bind_eq_ok.1 h
  obtain ⟨-, -, -, -, hv, -⟩ := trReserveVert_four lim fp hr₁ hr₂ hr₃ hr₄
  simp only [Function.update_same, stagedSurf, Bool.false_eq_true, if_false, Nat.add_zero] at hv
  exact ⟨hlt, hv⟩

theorem trParseBg_room (hr : Room lim tr rc) (hno : ¬StripOpen tr)
    (h : trParseBg lim fp host fe ctx tr rc w = .ok (tr', rc', w')) :
    Room lim tr' rc' ∧ KeepsPastCaps lim rc rc' := by
  obtain ⟨hs, hv⟩ := trParseBg_fits fp host fe h
  obtain ⟨P, X, rc₁, hc, hV⟩ := trParseBg_spec lim fp host fe h
  have he := Except.ok.inj ((hV rc.verts).symm.trans h)
  simp only [Prod.mk.injEq] at he
  obtain ⟨rfl, rfl, -⟩ := he
  obtain ⟨hK, hS, hN, hL⟩ := trCommitSurf_caps hc hs hr.lists
    (by dsimp only; rw [Function.update_same]; dsimp only; omega)
    (by dsimp only; rw [Function.update_same]; dsimp only; omega)
  have hv₁ : rc₁.verts = rc.verts := (trCommitSurf_verts_eq lim hc).trans rfl
  refine ⟨⟨hS, fun ho => absurd ho hno, hN, hL⟩,
    (KeepsPastCaps.surf rc hs _).trans (hK.trans ⟨fun _ _ => rfl, fun v hv' => ?_, fun _ _ => rfl,
      fun _ _ _ _ => rfl⟩)⟩
  rw [hv₁]
  exact overwrite_of_le (by omega)

/-- `tr_reset` empties the five lists and zeroes the counts, and writes no slot. -/
theorem trReset_room (lim : TrLimits) (rc : TrContext F) (width height : Nat) :
    Room lim (trReset rc).1 { (trReset rc).2 with width := width, height := height } ∧
      KeepsPastCaps lim rc { (trReset rc).2 with width := width, height := height } := by
  exact ⟨⟨Nat.zero_le _, fun ho => absurd rfl ho.2.1, Nat.zero_le _, fun L hL => by simp [trReset, hL]⟩,
    ⟨fun _ _ => rfl, fun _ _ => rfl, fun _ _ => rfl, fun L hL _ _ => by simp only [trReset, if_pos hL]⟩⟩

/-- The stream part of a conversion writes nothing past the capacities, and ends with `Room`. -/
theorem trConvertStream_room (h : trConvertStream lim fp host fe ctx rc w = .ok (rc', w')) :
    (∃ tr, Room lim tr rc') ∧ KeepsPastCaps lim rc rc' := by
  unfold trConvertStream at h
  obtain ⟨⟨tr₁, rc₁, w₁⟩, hb, h⟩ := Except.bind_eq_ok.1 h
  obtain ⟨⟨tr₂, rc₂, w₂⟩, hp, h⟩ := Except.bind_eq_ok.1 h
  simp only [pure, Except.pure, Except.ok.injEq, Prod.mk.injEq] at h
  obtain ⟨rfl, rfl⟩ := h
  obtain ⟨hr₀, hK₀⟩ := trReset_room lim rc ctx.videoWidth ctx.videoHeight
  obtain ⟨hr₁, hK₁⟩ := trParseBg_room fp host fe hr₀ (fun ho => ho.2.1 rfl) hb
  obtain ⟨hr₂, hK₂⟩ := trParseParams_room fp host fe _ _ _ _ _ _ _ _ hr₁ hp
  exact ⟨⟨_, hr₂⟩, hK₀.trans (hK₁.trans hK₂)⟩

/-! ## Sorting -/

variable {W : Nat → Prop}

theorem ListsInv.numSurfs_le (hi : ListsInv W rc) {L : Nat} (hL : L < TA_NUM_LISTS) :
    (rc.lists L).numSurfs ≤ rc.numSurfs := by
  simpa using ((hi.nodup L hL).subperm fun s hs =>
    List.mem_range.2 (hi.lt_numSurfs L hL s hs)).length_le

/-- The depths are stored at the entries only. -/
theorem trStoreMinz_frame (rc : TrContext F) : ∀ (l : List Nat) (m m' : Nat → F),
    trStoreMinz fp rc l m = .ok m' → ∀ x ∉ l, m' x = m x
  | [], m, m', h, _, _ => by cases h; rfl
  | s :: ss, m, m', h, x, hx => by
    rw [trStoreMinz] at h
    split_ifs at h
    rw [trStoreMinz_frame rc ss _ m' h x fun h' => hx (List.mem_cons_of_mem _ h'),
      Function.update_noteq fun h' => hx (by rw [h']; exact List.mem_cons_self _ _)]

theorem trSortSurfaces_caps {L : Nat} {m m' : Nat → F} (hL : L < TA_NUM_LISTS)
    (hn : (rc.lists L).numSurfs ≤ lim.maxSurfs) (hlt : ∀ s ∈ (rc.lists L).entries, s < lim.maxSurfs)
    (h : trSortSurfaces fp rc L m = .ok (rc', m')) :
    KeepsPastCaps lim rc rc' ∧ (∀ x, lim.maxSurfs ≤ x → m' x = m x) ∧
      rc'.numSurfs = rc.numSurfs ∧ ∀ L', L' ≠ L → rc'.lists L' = rc.lists L' := by
  unfold trSortSurfaces at h
  obtain ⟨m₁, hm, h⟩ := Except.bind_eq_ok.1 h
  simp only [pure, Except.pure, Except.ok.injEq, Prod.mk.injEq] at h
  obtain ⟨rfl, rfl⟩ := h
  refine ⟨⟨fun _ _ => rfl, fun _ _ => rfl, fun _ _ => rfl, fun L' _ k hk => ?_⟩,
    fun x hx => trStoreMinz_frame fp rc _ m m₁ hm x fun hx' => absurd (hlt x hx') (by omega), rfl,
    fun L' hL' => Function.update_noteq hL' _ _⟩
  dsimp only
  rw [Function.update_apply]
  split_ifs with hL'
  · subst hL'; exact if_neg (by omega)
  · rfl

/-- The sort step writes list slots below the lists' lengths and depths at the listed surfaces. -/
theorem trSortLists_caps (hi : ListsInv W rc) (hn : rc.numSurfs ≤ lim.maxSurfs) {m m' : Nat → F}
    {rc₂ : TrContext F} (h : trSortLists fp ctx rc m = .ok (rc₂, m')) :
    KeepsPastCaps lim rc rc₂ ∧ ∀ x, lim.maxSurfs ≤ x → m' x = m x := by
  have hlist : ∀ L < TA_NUM_LISTS, (rc.lists L).numSurfs ≤ lim.maxSurfs ∧
      ∀ s ∈ (rc.lists L).entries, s < lim.maxSurfs := fun L hL =>
    ⟨(hi.numSurfs_le hL).trans hn, fun s hs => (hi.lt_numSurfs L hL s hs).trans_le hn⟩
  unfold trSortLists at h
  split_ifs at h with ha
  · obtain ⟨⟨rc₁, m₁⟩, h₁, h₂⟩ := Except.bind_eq_ok.1 h
    obtain ⟨hK₁, hm₁, hn₁, hl₁⟩ := trSortSurfaces_caps fp (by decide) (hlist _ (by decide)).1
      (hlist _ (by decide)).2 h₁
    have h4 := hlist TA_LIST_PUNCH_THROUGH (by decide)
    rw [← hl₁ _ (by decide)] at h4
    obtain ⟨hK₂, hm₂, -, -⟩ := trSortSurfaces_caps fp (by decide) h4.1 h4.2 h₂
    exact ⟨hK₁.trans hK₂, fun x hx => (hm₂ x hx).trans (hm₁ x hx)⟩
  · obtain ⟨rfl, rfl⟩ : rc = rc₂ ∧ m = m' := by simpa using h
    exact ⟨KeepsPastCaps.refl _, fun _ _ => rfl⟩

/-! ## Index generation -/

/-- When the checks pass from `n ≤ cap` on, over surfaces whose index ends cannot wrap `size_t`,
the indices they add end strictly below the capacity, or there are none. -/
theorem indicesChecks_end (cap : Nat) : ∀ (n : Nat) (vs : List Nat), n ≤ cap →
    (∀ v ∈ vs, cap + 3 * v < 2 ^ 64) → indicesChecks cap n vs = true →
      (vs.map (· - 2)).sum = 0 ∨ n + 3 * (vs.map (· - 2)).sum < cap
  | _, [], _, _, _ => .inl rfl
  | n, v :: vs, hn, hw, h => by
    rw [indicesChecks, Bool.and_eq_true] at h
    have hv := hw v (List.mem_cons_self _ _)
    have hstep : v - 2 = 0 ∨ n + 3 * (v - 2) < cap := by
      rcases Nat.lt_or_ge v 3 with h3 | h3
      · exact .inl (by omega)
      · have hcast : ((n : Int) + ((v : Int) - 2) * 3) = ((n + 3 * (v - 2) : Nat) : Int) := by omega
        rw [hcast, intLtSize_natCast cap (by omega), decide_eq_true_iff] at h
        exact .inr h.1
    have ih := indicesChecks_end cap (n + 3 * (v - 2)) vs (by omega)
      (fun w hw' => hw w (List.mem_cons_of_mem _ hw')) h.2
    simp only [List.map_cons, List.sum_cons]
    omega

/-- Index generation moves the list's entries within its first `num_surfs` slots. -/
theorem trGenerateIndices_slots {L : Nat} (hnd : (rc.lists L).entries.Nodup)
    (h : trGenerateIndices lim rc L = .ok rc') :
    ∀ k, (rc.lists L).numSurfs ≤ k → (rc'.lists L).surfs k = (rc.lists L).surfs k := by
  intro k hk
  obtain ⟨⟨m', rc₁, list₁⟩, hg, h⟩ := Except.bind_eq_ok.1 h
  have hes : (List.range' 0 ((rc.lists L).numSurfs - 0)).map (rc.lists L).surfs =
      (rc.lists L).entries := by
    rw [Nat.sub_zero, ← List.range_eq_range']; rfl
  have hlen := length_mergeRuns_le (fun x => (rc.surfs x).params) (rc.lists L).entries
  obtain ⟨-, -, -, hs⟩ := trGenerateRuns_eq lim _ _ _ _ _ _ _ _ _
    (by rw [hes]; exact hnd) (by rw [hes]; exact hlen.trans (by simp [TrList.entries]))
    (Nat.zero_le _) hg
  simp only [pure, Except.pure, Except.ok.injEq] at h
  subst h
  simp only [Function.update_same]
  rw [hs k, if_neg]
  rw [hes]
  simp only [TrList.length_entries] at hlen
  omega

theorem trGenerateIndices_caps {L : Nat} (hL : L < TA_NUM_LISTS) (hnd : (rc.lists L).entries.Nodup)
    (hn : (rc.lists L).numSurfs ≤ lim.maxSurfs) (hlt : ∀ s ∈ (rc.lists L).entries, s < lim.maxSurfs)
    (hI : rc.numIndices ≤ lim.maxIndices)
    (hw : ∀ s ∈ (rc.lists L).entries, lim.maxIndices + 3 * (rc.surfs s).numVerts < 2 ^ 64)
    (h : trGenerateIndices lim rc L = .ok rc') :
    KeepsPastCaps lim rc rc' ∧ rc'.numIndices ≤ lim.maxIndices := by
  have hend := indicesChecks_end lim.maxIndices rc.numIndices _ hI
    (by simpa only [List.mem_map, forall_exists_index, and_imp, forall_apply_eq_imp_iff₂] using hw)
    ((trGenerateIndices_ok_iff lim rc L hnd).1 ⟨_, h⟩)
  simp only [List.map_map, Function.comp_def] at hend
  obtain ⟨hidx, hnum⟩ := trGenerateIndices_indices lim rc rc' L hnd h
  rw [length_listIndices] at hnum
  obtain ⟨-, hother, hsurf, -, -, -, hvs⟩ := trGenerateIndices_listed lim rc rc' L hnd h
  refine ⟨⟨fun x hx => hsurf x fun hx' => absurd (hlt x hx') (by omega),
    fun v _ => congrFun hvs v, fun i hi => ?_, fun L' _ k hk => ?_⟩, by rw [hnum]; omega⟩
  · rw [hidx, writeIdx_apply, if_neg]
    rw [length_listIndices]
    omega
  · by_cases hL' : L' = L
    · subst hL'; exact trGenerateIndices_slots hnd h k (by omega)
    · rw [hother L' hL']

/-- Index generation over the five lists writes nothing past a capacity. -/
theorem trGenerateAllIndices_caps {rc₀ : TrContext F} (hi₀ : ListsInv W rc₀)
    (hn : rc₀.numSurfs ≤ lim.maxSurfs)
    (hw : ∀ L < TA_NUM_LISTS, ∀ s ∈ (rc₀.lists L).entries,
      lim.maxIndices + 3 * (rc₀.surfs s).numVerts < 2 ^ 64)
    (h : trGenerateAllIndices lim rc₀ = .ok rc') : KeepsPastCaps lim rc₀ rc' :=
  (trGenerateAllIndices_rec lim hi₀ (fun _ rc => KeepsPastCaps lim rc₀ rc ∧ rc.numIndices ≤ lim.maxIndices)
    (fun {_ rc _ L} hg hp hL hL' h₁ => by
      have hl : rc.lists L = rc₀.lists L := hg.pending L hL'
      obtain ⟨hK, hI⟩ := trGenerateIndices_caps hL (hl ▸ hi₀.nodup L hL)
        (hl ▸ (hi₀.numSurfs_le hL).trans hn)
        (fun s hs => (hi₀.lt_numSurfs L hL s (hl ▸ hs)).trans_le hn) hp.2
        (fun s hs => hg.surfs L hL hL' s (hl ▸ hs) ▸ hw L hL s (hl ▸ hs)) h₁
      exact ⟨hp.1.trans hK, hI⟩)
    ⟨.refl _, by rw [hi₀.numIndices]; exact Nat.zero_le _⟩ h).1

/-! ## A whole conversion -/

/-- A conversion that returns writes no slot of a checked array at or past its capacity: every
surface, vertex, index and slot of the five lists from its array's capacity on, and every stored
depth from the surface capacity on, hold what they held before. The capacities only need
to leave `size_t` room for where a surface's indices end. -/
theorem trConvertContext_keepsPastCaps {m m' : Nat → F}
    (hcap : lim.maxIndices + 3 * lim.maxVerts + 3 < 2 ^ 64)
    (h : trConvertContext lim fp host fe ctx rc m w = .ok (rc', m', w')) :
    KeepsPastCaps lim rc rc' ∧ ∀ x, lim.maxSurfs ≤ x → m' x = m x := by
  obtain ⟨rc₁, rc₂, W, h₁, h₂, h₃, hi₁, hi₂, hrc₂⟩ := trConvertContext_parts lim fp host fe h
  obtain ⟨⟨tr, hr⟩, hK₁⟩ := trConvertStream_room fp host fe h₁
  obtain ⟨hK₂, hm⟩ := trSortLists_caps fp hi₁ hr.numSurfs h₂
  have hn₂ : rc₂.numSurfs = rc₁.numSurfs := by rw [hrc₂]
  have hv₂ : rc₂.numVerts = rc₁.numVerts := by rw [hrc₂]
  have hK₃ := trGenerateAllIndices_caps hi₂ (hn₂ ▸ hr.numSurfs) (fun L hL s hs => by
      have := hi₂.le_numVerts L hL s hs
      have := hr.numVerts
      omega) h₃
  exact ⟨hK₁.trans (hK₂.trans hK₃), hm⟩

theorem trConvertContext_keepsPastCaps_translucentStrip :
    ∃ rc' m' w', trConvertContext ⟨8, 16, 24, 8⟩ intOps countingHost specFrontEnd
        (frameOf translucentStrip) (staleContext 0) (fun _ => 0) freshWorld = .ok (rc', m', w') ∧
      KeepsPastCaps ⟨8, 16, 24, 8⟩ (staleContext 0) rc' ∧ ∀ x, 8 ≤ x → m' x = 0 :=
  let h : trConvertContext ⟨8, 16, 24, 8⟩ intOps countingHost specFrontEnd (frameOf translucentStrip)
      (staleContext 0) (fun _ => 0) freshWorld = _ := rfl
  ⟨_, _, _, h, trConvertContext_keepsPastCaps _ _ _ (by decide) h⟩

end Redream
