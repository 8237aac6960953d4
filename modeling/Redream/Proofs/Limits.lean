import Redream.Proofs.Trace

/-!
# Capacities only gate

The three checked capacities reach the conversion only through its checks: `tr_reserve_surf`,
`tr_reserve_vert` and the index check of `tr_generate_indices` compare a count with
`TR_MAX_SURFS`, `TR_MAX_VERTS` or `TR_MAX_INDICES` and fault past it, and nothing else reads one.
So for a stream that fits the trace, a conversion that returns under some capacities returns the
same context, depths and texture world under any larger ones (`trConvertContext_mono_limits`):
raising a checked capacity changes which frames fault, never what a frame that fits converts to.
`TR_MAX_PARAMS` is no check in `tr.c` (the trace entry is written without one); the stream's
length within it is a hypothesis, and the walk's parameter count, one per parameter, keeps every
trace write below it.

`OkLe x x'` says that `x'` returns whatever `x` returns. It is closed under `>>=`, under a branch
both sides take alike, and under a guard the larger capacities weaken; each function of the
conversion gets one lemma, built from its callees' the way the function is built from them.
-/

namespace Redream

/-- Every checked capacity of `lim'` is at least the one of `lim`. -/
structure TrLimits.Le (lim lim' : TrLimits) : Prop where
  surfs : lim.maxSurfs ≤ lim'.maxSurfs
  verts : lim.maxVerts ≤ lim'.maxVerts
  indices : lim.maxIndices ≤ lim'.maxIndices

/-- `x'` returns whatever `x` returns: the two agree unless `x` faults. -/
def OkLe {α : Type} (x x' : Except Fault α) : Prop := ∀ r, x = .ok r → x' = .ok r

namespace OkLe

variable {α β : Type} {x x' : Except Fault α}

theorem refl (x : Except Fault α) : OkLe x x := fun _ => id

theorem bind {f f' : α → Except Fault β} (hx : OkLe x x')
    (hf : ∀ a, x = .ok a → OkLe (f a) (f' a)) : OkLe (x >>= f) (x' >>= f') := fun r h => by
  obtain ⟨a, ha, hr⟩ := Except.bind_eq_ok.1 h
  rw [hx a ha]
  exact hf a ha r hr

theorem map {f : α → β} (hx : OkLe x x') : OkLe (x.map f) (x'.map f) := fun r h => by
  cases x with
  | error e => cases h
  | ok a => rw [hx a rfl]; exact h

/-- A branch both sides take alike. -/
theorem ite {p : Prop} [Decidable p] {y y' : Except Fault α} (hx : OkLe x x') (hy : OkLe y y') :
    OkLe (if p then x else y) (if p then x' else y') := by
  split_ifs
  exacts [hx, hy]

/-- A check whose condition only gets weaker. -/
theorem guard {p p' : Prop} [Decidable p] [Decidable p'] {e e' : Fault} (hp : p → p')
    (hx : OkLe x x') : OkLe (if p then x else .error e) (if p' then x' else .error e') :=
  fun r h => by
    by_cases h₁ : p
    · rw [if_pos h₁] at h
      rw [if_pos (hp h₁)]
      exact hx r h
    · rw [if_neg h₁] at h
      cases h

end OkLe

theorem intLtSize_mono {n : Int} {c c' : Nat} (hc : c ≤ c') (h : intLtSize n c = true) :
    intLtSize n c' = true := by
  simp only [intLtSize, decide_eq_true_eq] at h ⊢
  omega

section Mono

variable {F : Type} {lim lim' : TrLimits} (hle : lim.Le lim') (fp : FloatOps F) (host : TexHost)
  (fe : TaFrontEnd)
include hle

/-! ## The walk -/

theorem trReserveSurf_okLe (rc : TrContext F) (c : Bool) :
    OkLe (trReserveSurf lim rc c) (trReserveSurf lim' rc c) :=
  OkLe.guard (fun h => h.trans_le hle.surfs) (.refl _)

theorem trReserveVert_okLe (rc : TrContext F) :
    OkLe (trReserveVert lim fp rc) (trReserveVert lim' fp rc) :=
  OkLe.guard (fun h => h.trans_le hle.verts) (.refl _)

theorem trCommitTris_okLe : ∀ (n i : Nat) (rc : TrContext F) (list : TrList),
    OkLe (trCommitTris lim n i rc list) (trCommitTris lim' n i rc list)
  | 0, _, _, _ => .refl _
  | n + 1, i, rc, _ => OkLe.bind (OkLe.ite (.refl _) (trReserveSurf_okLe hle rc true)) fun _ _ =>
    trCommitTris_okLe n (i + 1) _ _

theorem trCommitSurf_okLe (tr : Tr) (rc : TrContext F) :
    OkLe (trCommitSurf lim tr rc) (trCommitSurf lim' tr rc) :=
  OkLe.ite (OkLe.ite (OkLe.bind (trCommitTris_okLe hle _ _ _ _) fun _ _ => .refl _) (.refl _))
    (.refl _)

theorem trEmitVertex_okLe (tr : Tr) (p : TaParam F) (rc : TrContext F) :
    OkLe (trEmitVertex lim fp tr p rc) (trEmitVertex lim' fp tr p rc) := by
  unfold trEmitVertex
  cases trDecodeVert fp tr p tr.vertType with
  | some v => exact OkLe.bind (trReserveVert_okLe hle fp rc) fun _ _ => .refl _
  | none =>
    -- the sprite's four vertices
    refine OkLe.ite (OkLe.ite ?_ (.refl _)) (.refl _)
    exact OkLe.bind (trReserveVert_okLe hle fp rc) fun ⟨_, rc⟩ _ =>
      OkLe.bind (trReserveVert_okLe hle fp rc) fun ⟨_, rc⟩ _ =>
      OkLe.bind (trReserveVert_okLe hle fp rc) fun ⟨_, rc⟩ _ =>
      OkLe.bind (trReserveVert_okLe hle fp rc) fun _ _ => .refl _

theorem trParseVertParam_okLe (p : TaParam F) (tr : Tr) (rc : TrContext F) :
    OkLe (trParseVertParam lim fp p tr rc) (trParseVertParam lim' fp p tr rc) :=
  OkLe.ite (.refl _) <|
    OkLe.bind (OkLe.ite (trReserveSurf_okLe hle rc true) (.refl _)) fun rc _ =>
    OkLe.bind (trEmitVertex_okLe hle fp _ p rc) fun ⟨rc, _⟩ _ =>
    OkLe.ite (OkLe.bind (trCommitSurf_okLe hle _ rc) fun _ _ => .refl _) (.refl _)

theorem trParsePolyParam_okLe (ctx : TaContext F) (p : TaParam F) (tr : Tr) (rc : TrContext F)
    (w : TexWorld) :
    OkLe (trParsePolyParam lim fp host fe ctx p tr rc w)
      (trParsePolyParam lim' fp host fe ctx p tr rc w) := by
  unfold trParsePolyParam
  refine OkLe.ite (.refl _) ?_
  cases polyColors fp _ p _ with
  | none => exact .refl _
  | some tr => exact OkLe.bind (trReserveSurf_okLe hle rc false) fun _ _ => .refl _

theorem trDispatchParam_okLe (ctx : TaContext F) (p : TaParam F) (tr : Tr) (rc : TrContext F)
    (w : TexWorld) :
    OkLe (trDispatchParam lim fp host fe ctx p tr rc w)
      (trDispatchParam lim' fp host fe ctx p tr rc w) :=
  OkLe.ite (.refl _) <| OkLe.ite (.refl _) <| OkLe.ite (.refl _) <|
    OkLe.ite (trParsePolyParam_okLe hle fp host fe ctx p tr rc w) <|
    OkLe.ite (OkLe.map (trParseVertParam_okLe hle fp p tr rc)) (.refl _)

/-- The trace entry is written under `lim'` too while its trace has room: no handler moves the
count. -/
theorem trParseParam_okLe (ctx : TaContext F) (offset : Nat) (p : TaParam F) (tr : Tr)
    (rc : TrContext F) (w : TexWorld) (hn : rc.numParams < lim'.maxParams) :
    OkLe (trParseParam lim fp host fe ctx offset p (tr, rc, w))
      (trParseParam lim' fp host fe ctx offset p (tr, rc, w)) :=
  OkLe.bind (trDispatchParam_okLe hle fp host fe ctx p _ rc w) fun _ hd =>
    OkLe.guard (fun _ => (trDispatchParam_grows lim fp host fe hd).numParams ▸ hn) (.refl _)

theorem trParseParams_okLe (ctx : TaContext F) :
    ∀ (ps : List (TaParam F)) (offset : Nat) (tr : Tr) (rc : TrContext F) (w : TexWorld),
      rc.numParams + ps.length ≤ lim'.maxParams →
      OkLe (trParseParams lim fp host fe ctx ps offset (tr, rc, w))
        (trParseParams lim' fp host fe ctx ps offset (tr, rc, w))
  | [], _, _, _, _, _ => .refl _
  | p :: ps, offset, tr, rc, w, hn => by
    rw [List.length_cons] at hn
    exact OkLe.bind (trParseParam_okLe hle fp host fe ctx offset p tr rc w (by omega))
      fun ⟨_, rc₁, _⟩ h₁ => trParseParams_okLe ctx ps _ _ rc₁ _
        (by rw [trParseParam_numParams lim fp host fe h₁]; omega)

theorem trParseBg_okLe (ctx : TaContext F) (tr : Tr) (rc : TrContext F) (w : TexWorld) :
    OkLe (trParseBg lim fp host fe ctx tr rc w) (trParseBg lim' fp host fe ctx tr rc w) :=
  OkLe.bind (trReserveSurf_okLe hle rc false) fun _ _ =>
    OkLe.bind (trReserveVert_okLe hle fp _) fun ⟨_, rc⟩ _ =>
    OkLe.bind (trReserveVert_okLe hle fp rc) fun ⟨_, rc⟩ _ =>
    OkLe.bind (trReserveVert_okLe hle fp rc) fun ⟨_, rc⟩ _ =>
    OkLe.bind (trReserveVert_okLe hle fp rc) fun ⟨_, _⟩ _ =>
    OkLe.bind (trCommitSurf_okLe hle _ _) fun _ _ => .refl _

theorem trConvertStream_okLe (ctx : TaContext F) (rc : TrContext F) (w : TexWorld)
    (hp : ctx.params.length ≤ lim'.maxParams) :
    OkLe (trConvertStream lim fp host fe ctx rc w) (trConvertStream lim' fp host fe ctx rc w) :=
  OkLe.bind (trParseBg_okLe hle fp host fe ctx _ _ w) fun ⟨_, _, _⟩ hb =>
    OkLe.bind (trParseParams_okLe hle fp host fe ctx _ _ _ _ _ (by
      rw [(trParseBg_grows lim fp host fe hb).numParams]
      simpa [trReset] using hp)) fun _ _ => .refl _

/-! ## Index generation -/

theorem trMergeRun_okLe (list : TrList) (rootIdx : Nat) : ∀ (k j m : Nat) (rc : TrContext F),
    OkLe (trMergeRun lim list rootIdx k j m rc) (trMergeRun lim' list rootIdx k j m rc)
  | 0, _, _, _ => .refl _
  | k + 1, j, _, _ => OkLe.ite (.refl _) <|
    OkLe.guard (intLtSize_mono hle.indices) (trMergeRun_okLe list rootIdx k (j + 1) _ _)

theorem trGenerateRuns_okLe (n : Nat) : ∀ (fuel i m : Nat) (rc : TrContext F) (list : TrList),
    OkLe (trGenerateRuns lim n fuel i m rc list) (trGenerateRuns lim' n fuel i m rc list)
  | 0, _, _, _, _ => .refl _
  | fuel + 1, i, m, rc, list => OkLe.ite
    (OkLe.bind (trMergeRun_okLe hle list _ _ i m rc) fun ⟨j, _, _⟩ _ =>
      trGenerateRuns_okLe n fuel j _ _ _)
    (.refl _)

theorem trGenerateIndices_okLe (rc : TrContext F) (L : Nat) :
    OkLe (trGenerateIndices lim rc L) (trGenerateIndices lim' rc L) :=
  OkLe.bind (trGenerateRuns_okLe hle _ _ _ _ rc _) fun _ _ => .refl _

theorem foldlM_trGenerateIndices_okLe : ∀ (Ls : List Nat) (rc : TrContext F),
    OkLe (Ls.foldlM (trGenerateIndices lim) rc) (Ls.foldlM (trGenerateIndices lim') rc)
  | [], _ => .refl _
  | L :: Ls, rc => OkLe.bind (trGenerateIndices_okLe hle rc L) fun rc _ =>
    foldlM_trGenerateIndices_okLe Ls rc

/-! ## A whole conversion -/

/-- For a stream that fits the trace under both, a conversion that returns under some checked
capacities returns the same under any larger ones. -/
theorem trConvertContext_mono_limits {ctx : TaContext F} {rc : TrContext F} {m : Nat → F}
    {w : TexWorld} {r : TrContext F × (Nat → F) × TexWorld}
    (hp : ctx.params.length ≤ min lim.maxParams lim'.maxParams)
    (h : trConvertContext lim fp host fe ctx rc m w = .ok r) :
    trConvertContext lim' fp host fe ctx rc m w = .ok r :=
  (OkLe.bind (trConvertStream_okLe hle fp host fe ctx rc w (le_min_iff.1 hp).2) fun ⟨_, _⟩ _ =>
    OkLe.bind (.refl _) fun ⟨rc, _⟩ _ =>
    OkLe.bind (foldlM_trGenerateIndices_okLe hle _ rc) fun _ _ => .refl _) r h

end Mono

theorem trConvertContext_mono_limits_translucentStrip :
    ∃ r, trConvertContext ⟨8, 16, 24, 8⟩ intOps countingHost specFrontEnd (frameOf translucentStrip)
        (staleContext 0) (fun _ => 0) freshWorld = .ok r ∧
      trConvertContext ⟨64, 64, 192, 8⟩ intOps countingHost specFrontEnd (frameOf translucentStrip)
        (staleContext 0) (fun _ => 0) freshWorld = .ok r :=
  let h : trConvertContext ⟨8, 16, 24, 8⟩ intOps countingHost specFrontEnd (frameOf translucentStrip)
      (staleContext 0) (fun _ => 0) freshWorld = _ := rfl
  ⟨_, h, trConvertContext_mono_limits ⟨by decide, by decide, by decide⟩ _ _ _ (by decide) h⟩

end Redream
