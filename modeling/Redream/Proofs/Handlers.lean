import Redream.Tr.Parse

/-!
# What the handlers do

One lemma for each handler of the stream, saying all it does: what it checks, what it does to the
counters, the surfaces and the lists, and which vertex slots it writes. Each is stated for the
context with its vertex array replaced by any `V`: the handler takes the same path, does the same
to everything else, and writes the same values to the same slots, `overwrite V X lo hi`. So what
a handler leaves in a slot it writes never depends on what was there, and the slots it does not
write keep whatever they held (`trEmitVertex_spec`, `trParseBg_spec`).

The handlers that stage and commit surfaces never read the vertex array at all
(`trCommitSurf_verts`, `trParsePolyParam_verts`).
-/

namespace Redream

variable {F : Type} (lim : TrLimits) (fp : FloatOps F) (host : TexHost) (fe : TaFrontEnd)

/-- `V` with the slots `lo .. hi - 1` taken from `X`. -/
def overwrite (V X : Nat → TaVertex F) (lo hi : Nat) (v : Nat) : TaVertex F :=
  if lo ≤ v ∧ v < hi then X v else V v

theorem overwrite_of_lt {V X : Nat → TaVertex F} {lo hi v : Nat} (h : v < lo) :
    overwrite V X lo hi v = V v := if_neg fun h' => by omega

theorem overwrite_of_le {V X : Nat → TaVertex F} {lo hi v : Nat} (h : hi ≤ v) :
    overwrite V X lo hi v = V v := if_neg fun h' => by omega

theorem overwrite_of_mem {V X : Nat → TaVertex F} {lo hi v : Nat} (h₁ : lo ≤ v) (h₂ : v < hi) :
    overwrite V X lo hi v = X v := if_pos ⟨h₁, h₂⟩

/-! ## Staging -/

theorem trReserveSurf_verts {rc rc' : TrContext F} {c : Bool} (h : trReserveSurf lim rc c = .ok rc')
    (V : Nat → TaVertex F) :
    trReserveSurf lim { rc with verts := V } c = .ok { rc' with verts := V } := by
  obtain ⟨h₁, h₂, rfl⟩ := (trReserveSurf_eq_ok lim).1 h
  exact (trReserveSurf_eq_ok lim).2 ⟨h₁, h₂, rfl⟩

theorem trReserveVert_verts {rc rc' : TrContext F} {i : Nat} (h : trReserveVert lim fp rc = .ok (i, rc'))
    (V : Nat → TaVertex F) :
    trReserveVert lim fp { rc with verts := V } =
      .ok (i, { rc' with verts := Function.update V i (TaVertex.zero fp) }) := by
  obtain ⟨rfl, h₁, rfl⟩ := (trReserveVert_eq_ok lim).1 h
  exact (trReserveVert_eq_ok lim).2 ⟨rfl, h₁, rfl⟩

theorem trCommitTris_verts (V : Nat → TaVertex F) :
    ∀ (n i : Nat) (rc rc' : TrContext F) (list list' : TrList),
      trCommitTris lim n i rc list = .ok (rc', list') →
      trCommitTris lim n i { rc with verts := V } list = .ok ({ rc' with verts := V }, list')
  | 0, _, _, _, _, _, h => by
    simp only [trCommitTris, Except.ok.injEq, Prod.mk.injEq] at h ⊢
    exact ⟨by rw [h.1], h.2⟩
  | n + 1, i, rc, rc', list, list', h => by
    obtain ⟨rc₁, hr, h⟩ := Except.bind_eq_ok.1 h
    have hr' : (if i = 0 then .ok { rc with verts := V }
        else trReserveSurf lim { rc with verts := V } true :
        Except Fault _) = .ok { rc₁ with verts := V } := by
      split_ifs at hr ⊢
      · rw [← Except.ok.inj hr]
      · exact trReserveSurf_verts lim hr V
    rw [trCommitTris, hr']
    exact trCommitTris_verts V n (i + 1) { rc₁ with surfs := _, numVerts := _, numSurfs := _ } _ _ _ h

/-- Committing never reads or writes the vertex array. -/
theorem trCommitSurf_verts {tr : Tr} {rc rc' : TrContext F} (h : trCommitSurf lim tr rc = .ok rc')
    (V : Nat → TaVertex F) :
    trCommitSurf lim tr { rc with verts := V } = .ok { rc' with verts := V } := by
  unfold trCommitSurf at h ⊢
  split_ifs at h ⊢ with h₁ h₂
  · dsimp only at h ⊢
    obtain ⟨⟨rc₁, list₁⟩, hr, h⟩ := Except.bind_eq_ok.1 h
    obtain rfl := Except.ok.inj h
    rw [trCommitTris_verts lim V _ _ _ _ _ _ hr]
    rfl
  · rw [← Except.ok.inj h]

theorem trCommitSurf_verts_eq {tr : Tr} {rc rc' : TrContext F} (h : trCommitSurf lim tr rc = .ok rc') :
    rc'.verts = rc.verts := by
  have h' : Except.ok rc' = (.ok { rc' with verts := rc.verts } : Except Fault _) :=
    h.symm.trans (trCommitSurf_verts lim h rc.verts)
  have := congrArg TrContext.verts (Except.ok.inj h')
  exact this

theorem overwrite_self (V X : Nat → TaVertex F) (b : Nat) : overwrite V X b b = V :=
  funext fun _ => if_neg fun h => by omega

theorem overwrite_overwrite (V X Y : Nat → TaVertex F) (lo hi : Nat) :
    overwrite (overwrite V X lo hi) Y lo hi = overwrite V Y lo hi := by
  funext v
  simp only [overwrite]
  split_ifs <;> rfl

theorem overwrite_inner (V W X : Nat → TaVertex F) (lo hi : Nat) :
    overwrite V (overwrite W X lo hi) lo hi = overwrite V X lo hi := by
  funext v
  simp only [overwrite]
  split_ifs <;> rfl

/-- Writing the slot just past an overwritten range extends the range. -/
theorem update_overwrite {V X : Nat → TaVertex F} {lo hi k : Nat} (h : lo ≤ hi) (hk : hi = k)
    (x : TaVertex F) :
    Function.update (overwrite V X lo hi) k x = overwrite V (Function.update X k x) lo (k + 1) := by
  funext v
  simp only [overwrite, Function.update_apply]
  split_ifs <;> first | rfl | omega

/-- Writing the slots `b .. b + 3` in order overwrites that range, with what was written. -/
theorem update_four (V X : Nat → TaVertex F) (b : Nat) (x₀ x₁ x₂ x₃ : TaVertex F) :
    Function.update (Function.update (Function.update (Function.update V b x₀) (b + 1) x₁)
      (b + 2) x₂) (b + 3) x₃ =
      overwrite V (Function.update (Function.update (Function.update (Function.update X b x₀)
        (b + 1) x₁) (b + 2) x₂) (b + 3) x₃) b (b + 4) := by
  conv_lhs => rw [← overwrite_self V X b]
  rw [update_overwrite, update_overwrite, update_overwrite, update_overwrite] <;> omega

theorem update_four_zero (V : Nat → TaVertex F) (b : Nat) :
    Function.update (Function.update (Function.update (Function.update V b (TaVertex.zero fp))
      (b + 1) (TaVertex.zero fp)) (b + 2) (TaVertex.zero fp)) (b + 3) (TaVertex.zero fp) =
      overwrite V (fun _ => TaVertex.zero fp) b (b + 4) := by
  rw [update_four V fun _ => TaVertex.zero fp]
  refine congrArg (fun X => overwrite V X b (b + 4)) (funext fun v => ?_)
  simp only [Function.update_apply, ite_self]

theorem trReserveVert_four {rc rc₁ rc₂ rc₃ rc₄ : TrContext F} {ia ib ic id : Nat}
    (h₁ : trReserveVert lim fp rc = .ok (ia, rc₁)) (h₂ : trReserveVert lim fp rc₁ = .ok (ib, rc₂))
    (h₃ : trReserveVert lim fp rc₂ = .ok (ic, rc₃)) (h₄ : trReserveVert lim fp rc₃ = .ok (id, rc₄)) :
    let s := rc.surfs rc.numSurfs
    let b := rc.numVerts + s.numVerts
    ia = b ∧ ib = b + 1 ∧ ic = b + 2 ∧ id = b + 3 ∧ b + 4 ≤ lim.maxVerts ∧
      rc₄ = { rc with
        verts := overwrite rc.verts (fun _ => TaVertex.zero fp) b (b + 4)
        surfs := Function.update rc.surfs rc.numSurfs { s with numVerts := s.numVerts + 4 } } := by
  intro s b
  obtain ⟨rfl, -, rfl⟩ := (trReserveVert_eq_ok lim).1 h₁
  obtain ⟨rfl, -, rfl⟩ := (trReserveVert_eq_ok lim).1 h₂
  obtain ⟨rfl, -, rfl⟩ := (trReserveVert_eq_ok lim).1 h₃
  obtain ⟨rfl, hlt, rfl⟩ := (trReserveVert_eq_ok lim).1 h₄
  simp only [Function.update_same, Function.update_idem, b, s, true_and] at hlt ⊢
  refine ⟨by omega, by omega, by omega, by omega, ?_⟩
  simp only [TrContext.mk.injEq, true_and, and_true, ← Nat.add_assoc]
  exact update_four_zero fp _ _

/-! ## Global parameters -/

theorem polyColors_strip {tr tr' : Tr} {p : TaParam F} {n : Nat} (h : polyColors fp tr p n = some tr') :
    tr'.lastVertex = tr.lastVertex ∧ tr'.listType = tr.listType ∧ tr'.vertType = tr.vertType := by
  match n, h with
  | 0, h | 1, h | 2, h | 5, h => cases h; exact ⟨rfl, rfl, rfl⟩

/-- A global parameter resets the strip state and, unless it is a modifier volume, stages a fresh
surface at `num_surfs`, with no vertices yet, from `num_verts` on. It never reads or writes the
vertex array. -/
theorem trParsePolyParam_spec {ctx : TaContext F} {p : TaParam F} {tr tr' : Tr}
    {rc rc' : TrContext F} {w w' : TexWorld}
    (h : trParsePolyParam lim fp host fe ctx p tr rc w = .ok (tr', rc', w')) :
    tr'.lastVertex = none ∧ tr'.vertType = fe.taVertType p.pcw ∧ tr'.listType = tr.listType ∧
      (fe.taPolyType p.pcw = 6 ∧ rc' = rc ∨
        rc.numSurfs < lim.maxSurfs ∧ ∃ P, rc' = { rc with
          surfs := Function.update rc.surfs rc.numSurfs ⟨P, 0, rc.numVerts, 0⟩ }) ∧
      ∀ V, trParsePolyParam lim fp host fe ctx p tr { rc with verts := V } w =
        .ok (tr', { rc' with verts := V }, w') := by
  unfold trParsePolyParam at h ⊢
  dsimp only at h ⊢
  by_cases h6 : fe.taPolyType p.pcw = 6
  · simp only [if_pos h6] at h ⊢
    obtain ⟨rfl, rfl, rfl⟩ : _ = tr' ∧ rc = rc' ∧ w = w' := by simpa using h
    exact ⟨rfl, rfl, rfl, .inl ⟨h6, rfl⟩, fun V => rfl⟩
  simp only [if_neg h6] at h ⊢
  rcases hc : polyColors fp { tr with lastVertex := none, vertType := fe.taVertType p.pcw } p
    (fe.taPolyType p.pcw) with _ | tr₁ <;> simp only [hc] at h
  · cases h
  obtain ⟨rc₁, hr, h⟩ := Except.bind_eq_ok.1 h
  obtain ⟨h₁, -, rfl⟩ := (trReserveSurf_eq_ok lim).1 hr
  obtain ⟨hl, hL, hv⟩ := polyColors_strip fp hc
  simp only [pure, Except.pure, Except.ok.injEq, Prod.mk.injEq] at h
  obtain ⟨rfl, rfl, rfl⟩ := h
  refine ⟨hl, hv, hL, .inr ⟨h₁, _, by simp only [Function.update_same, Function.update_idem]; rfl⟩,
    fun V => ?_⟩
  · simp only [hc]
    simp only [trReserveSurf_verts lim hr V]
    rfl
/-! ## The background -/

/-- The background quad: a fresh surface with the background's params and four vertices is staged
at `num_surfs`, its vertices written at `num_verts .. num_verts + 3`, and it is committed to the
opaque list. -/
theorem trParseBg_spec {ctx : TaContext F} {tr tr' : Tr} {rc rc' : TrContext F} {w w' : TexWorld}
    (h : trParseBg lim fp host fe ctx tr rc w = .ok (tr', rc', w')) :
    let b := rc.numVerts
    ∃ P X rc₁, trCommitSurf lim { tr with listType := TA_LIST_OPAQUE }
        { rc with surfs := Function.update rc.surfs rc.numSurfs ⟨P, 0, b, 4⟩ } = .ok rc₁ ∧
      ∀ V, trParseBg lim fp host fe ctx tr { rc with verts := V } w =
        .ok ({ tr with listType := TA_NUM_LISTS }, { rc₁ with verts := overwrite V X b (b + 4) },
          w') := by
  intro b
  unfold trParseBg at h
  obtain ⟨rc₁, hr, h⟩ := Except.bind_eq_ok.1 h
  dsimp only at h
  obtain ⟨⟨ia, rc₂⟩, hr₁, h⟩ := Except.bind_eq_ok.1 h
  obtain ⟨⟨ib, rc₃⟩, hr₂, h⟩ := Except.bind_eq_ok.1 h
  obtain ⟨⟨ic, rc₄⟩, hr₃, h⟩ := Except.bind_eq_ok.1 h
  obtain ⟨⟨id, rc₅⟩, hr₄, h⟩ := Except.bind_eq_ok.1 h
  obtain ⟨rc₆, hc, h⟩ := Except.bind_eq_ok.1 h
  obtain ⟨hia, hib, hic, hid, -, hrc₅⟩ := trReserveVert_four lim fp hr₁ hr₂ hr₃ hr₄
  obtain ⟨-, -, rfl⟩ := (trReserveSurf_eq_ok lim).1 hr
  simp only [Function.update_same, stagedSurf, Bool.false_eq_true, if_false, Nat.add_zero,
    Function.update_idem] at hia hib hic hid hrc₅
  subst hia hib hic hid hrc₅
  simp only [pure, Except.pure, Except.ok.injEq, Prod.mk.injEq] at h
  obtain ⟨rfl, rfl, rfl⟩ := h
  have hX := trCommitSurf_verts_eq lim hc
  refine ⟨_, rc₆.verts, _, trCommitSurf_verts lim hc rc.verts, fun V => ?_⟩
  unfold trParseBg
  rw [trReserveSurf_verts lim hr V]
  simp only [bind, Except.bind]
  rw [trReserveVert_verts lim fp hr₁]
  simp only [bind, Except.bind]
  rw [trReserveVert_verts lim fp hr₂]
  simp only [bind, Except.bind]
  rw [trReserveVert_verts lim fp hr₃]
  simp only [bind, Except.bind]
  rw [trReserveVert_verts lim fp hr₄]
  simp only [bind, Except.bind]
  rw [trCommitSurf_verts lim hc, hX]
  simp (disch := omega) only [pure, Except.pure, Except.ok.injEq, Prod.mk.injEq, TrContext.mk.injEq,
    true_and, and_true, Function.update_noteq, Function.update_same, update_four_zero, overwrite_of_mem]
  conv_lhs => rw [update_four _ (fun _ => TaVertex.zero fp), overwrite_overwrite]
  conv_rhs => rw [update_four _ (fun _ => TaVertex.zero fp), overwrite_inner]


/-! ## Vertex parameters -/

/-- The emitting part of a vertex parameter appends `k` vertices to the staged surface, one for a
vertex type 0 to 8 and four for a sprite, at the slots from `num_verts` plus the surface's count.
What it writes there, `X`, depends only on the parameter and `tr`. -/
theorem trEmitVertex_spec {tr : Tr} {p : TaParam F} {rc rc' : TrContext F} {keep : Bool}
    (h : trEmitVertex lim fp tr p rc = .ok (rc', keep)) :
    let s := rc.surfs rc.numSurfs
    let b := rc.numVerts + s.numVerts
    ∃ k X, (k = 1 ∧ keep = true ∨ k = 4 ∧ p.pcw.endOfStrip = true) ∧ b + k ≤ lim.maxVerts ∧
      ∀ V, trEmitVertex lim fp tr p { rc with verts := V } =
        .ok ({ rc with
          verts := overwrite V X b (b + k)
          surfs := Function.update rc.surfs rc.numSurfs { s with numVerts := s.numVerts + k } },
          keep) := by
  intro s b
  unfold trEmitVertex at h
  rcases hd : trDecodeVert fp tr p tr.vertType with _ | v <;> simp only [hd] at h
  · split_ifs at h with h₁ h₂
    obtain ⟨⟨ia, rc₁⟩, hr₁, h⟩ := Except.bind_eq_ok.1 h
    obtain ⟨⟨ib, rc₂⟩, hr₂, h⟩ := Except.bind_eq_ok.1 h
    obtain ⟨⟨id, rc₃⟩, hr₃, h⟩ := Except.bind_eq_ok.1 h
    obtain ⟨⟨ic, rc₄⟩, hr₄, h⟩ := Except.bind_eq_ok.1 h
    have hk := (Prod.mk.inj (Except.ok.inj h)).2
    obtain ⟨rfl, rfl, rfl, rfl, hlt, rfl⟩ := trReserveVert_four lim fp hr₁ hr₂ hr₃ hr₄
    refine ⟨4, Function.update (Function.update (Function.update (Function.update
      (fun _ => TaVertex.zero fp) b (trSpriteVerts fp tr p).1.1) (b + 1) (trSpriteVerts fp tr p).1.2.1)
      (b + 2) (trSpriteVerts fp tr p).1.2.2.1) (b + 3) (trSpriteVerts fp tr p).1.2.2.2, .inr ⟨rfl, h₂⟩,
      hlt, fun V => ?_⟩
    simp only [trEmitVertex, hd, if_pos h₁, if_pos h₂, bind, Except.bind,
      trReserveVert_verts lim fp hr₁ V,
      trReserveVert_verts lim fp hr₂, trReserveVert_verts lim fp hr₃, trReserveVert_verts lim fp hr₄]
    rw [update_four_zero, update_four _ (fun _ => TaVertex.zero fp), overwrite_overwrite, hk]
    rfl
  · obtain ⟨⟨i, rc₁⟩, hr, h⟩ := Except.bind_eq_ok.1 h
    have hk := (Prod.mk.inj (Except.ok.inj h)).2
    obtain ⟨rfl, hlt, rfl⟩ := (trReserveVert_eq_ok lim).1 hr
    refine ⟨1, Function.update rc.verts b v, .inl ⟨rfl, hk.symm⟩, hlt, fun V => ?_⟩
    simp only [trEmitVertex, hd]
    rw [trReserveVert_verts lim fp hr V]
    simp only [bind, Except.bind, pure, Except.pure, Except.ok.injEq, Prod.mk.injEq, ← hk, and_true,
      TrContext.mk.injEq, true_and, Function.update_idem, b, s]
    funext x
    simp only [overwrite, Function.update_apply]
    split_ifs <;> first | rfl | omega

/-- Only a vertex type that emits lets the emitting part succeed. -/
theorem trEmitVertex_vertType {tr : Tr} {p : TaParam F} {rc : TrContext F} {r : TrContext F × Bool}
    (h : trEmitVertex lim fp tr p rc = .ok r) : tr.vertType ≠ TA_NUM_VERTS := by
  intro hv
  simp [trEmitVertex, hv, trDecodeVert, TA_NUM_VERTS] at h

/-- A vertex parameter is skipped in a modifier volume. Otherwise, after an end-of-strip vertex the
next strip is staged as a copy of the surface before it; the vertex (or the sprite's four) is
emitted at slots `b .. b + k - 1` after the staged surface's; and an end-of-strip vertex that is
kept commits the strip. -/
theorem trParseVertParam_spec {p : TaParam F} {tr tr' : Tr} {rc rc' : TrContext F}
    (h : trParseVertParam lim fp p tr rc = .ok (tr', rc')) :
    tr.vertType = 17 ∧ tr' = tr ∧ rc' = rc ∨
    tr.vertType ≠ 17 ∧ tr.vertType ≠ TA_NUM_VERTS ∧ tr' = { tr with lastVertex := some p.pcw } ∧
      ∃ rc₀ rc₁ keep k X,
        (tr.lastVertex.any (·.endOfStrip) = false ∧ rc₀ = rc ∨
          tr.lastVertex.any (·.endOfStrip) = true ∧ trReserveSurf lim rc true = .ok rc₀) ∧
        let s := rc₀.surfs rc₀.numSurfs
        let b := rc₀.numVerts + s.numVerts
        (k = 1 ∧ keep = true ∨ k = 4 ∧ p.pcw.endOfStrip = true) ∧ b + k ≤ lim.maxVerts ∧
        rc₁ = { rc₀ with
          verts := overwrite rc₀.verts X b (b + k)
          surfs := Function.update rc₀.surfs rc₀.numSurfs { s with numVerts := s.numVerts + k } } ∧
        (keep = true ∧ p.pcw.endOfStrip = true ∧ trCommitSurf lim tr' rc₁ = .ok rc' ∨
          ¬(keep = true ∧ p.pcw.endOfStrip = true) ∧ rc' = rc₁) ∧
        ∀ V, trParseVertParam lim fp p tr { rc with verts := V } =
          .ok (tr', { rc' with verts := overwrite V X b (b + k) }) := by
  unfold trParseVertParam at h
  by_cases h17 : tr.vertType = 17
  · simp only [if_pos h17, Except.ok.injEq, Prod.mk.injEq] at h
    exact .inl ⟨h17, h.1.symm, h.2.symm⟩
  rw [if_neg h17] at h
  obtain ⟨rc₀, hs, h⟩ := Except.bind_eq_ok.1 h
  obtain ⟨⟨rc₁, keep⟩, he, h⟩ := Except.bind_eq_ok.1 h
  obtain ⟨k, X, hk, hmax, hV⟩ := trEmitVertex_spec lim fp he
  have hrc₁ := (Prod.mk.inj (Except.ok.inj ((hV rc₀.verts).symm.trans he))).1
  have hrun₀ : ∀ V, (if tr.lastVertex.any (·.endOfStrip) then trReserveSurf lim { rc with verts := V } true
      else pure { rc with verts := V } : Except Fault _) = .ok { rc₀ with verts := V } := fun V => by
    split_ifs at hs ⊢
    · exact trReserveSurf_verts lim hs V
    · rw [← Except.ok.inj hs]; rfl
  have hstage : tr.lastVertex.any (·.endOfStrip) = false ∧ rc₀ = rc ∨
      tr.lastVertex.any (·.endOfStrip) = true ∧ trReserveSurf lim rc true = .ok rc₀ := by
    split_ifs at hs with hy
    · exact .inr ⟨hy, hs⟩
    · exact .inl ⟨by simpa using hy, (Except.ok.inj hs).symm⟩
  refine .inr ⟨h17, trEmitVertex_vertType lim fp he, ?_⟩
  dsimp only at h
  by_cases hc : keep = true ∧ p.pcw.endOfStrip = true
  · rw [if_pos hc] at h
    obtain ⟨rc₂, hcm, h⟩ := Except.bind_eq_ok.1 h
    obtain ⟨rfl, rfl⟩ := Prod.mk.inj (Except.ok.inj h)
    refine ⟨rfl, rc₀, rc₁, keep, k, X, hstage, hk, hmax, hrc₁.symm, .inl ⟨hc.1, hc.2, hcm⟩, fun V => ?_⟩
    unfold trParseVertParam
    rw [if_neg h17, hrun₀ V]
    simp only [bind, Except.bind, hV V, if_pos hc]
    subst hrc₁
    rw [trCommitSurf_verts lim hcm]
    rfl
  · rw [if_neg hc] at h
    obtain ⟨rfl, rfl⟩ := Prod.mk.inj (Except.ok.inj h)
    refine ⟨rfl, rc₀, rc₁, keep, k, X, hstage, hk, hmax, hrc₁.symm, .inr ⟨hc, rfl⟩, fun V => ?_⟩
    unfold trParseVertParam
    rw [if_neg h17, hrun₀ V]
    simp only [bind, Except.bind, hV V, if_neg hc]
    subst hrc₁
    rfl

end Redream
