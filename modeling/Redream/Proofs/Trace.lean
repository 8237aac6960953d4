import Redream.Proofs.Refinement

/-!
# The tracer's record of the walk

After each parameter `tr_convert_context` records a `tr_param` for the tracer: the parameter's
offset, the list and vertex type the walk is in, and the last surface and vertex written so far.
It writes the entry at `rc->params[rc->num_params++]` without a check against `TR_MAX_PARAMS`; the
model stops there instead (`trParseParam_outOfBounds_iff`), so what follows is stated for streams
that fit the trace.

For such a stream, whenever a conversion returns, `rc.params` holds one entry per parameter of
the stream, in order (`trConvertContext_trace`). Entry `k` records the list type and vertex type
the strip machine is in after the background and the first `k + 1` parameters, and the last
surface it has committed by then (`EntryMatches`). Entry 0 is at offset 0, and every later entry
is at the offset where the parameter before it ended: `ta_param_size` bytes on, at the vertex type
the entry before records. So the tracer can find every parameter again from the trace alone, and
decode it as the machine does. The last surface and vertex the entries name never go back, and lie
below `num_surfs` and `num_verts`.

The argument is that no handler touches the trace, and none moves `num_surfs` or `num_verts`
back (`Grows`); the sort and index generation do not either. The match with the machine is the
refinement of the walk (`trParseParam_refines`) carried along each prefix of the stream.
-/

namespace Redream

variable {F : Type} (lim : TrLimits) (fp : FloatOps F) (host : TexHost) (fe : TaFrontEnd)
variable {rc rc' : TrContext F}

/-- The trace entries from `k` on record the parameters `ps` from offset `o`, the next one due at
`o'`: each entry is at the offset where the one before it ended, `ta_param_size` bytes on at the
vertex type the entry before records. -/
def TraceChain (params : Nat → TrParam) : Nat → List (TaParam F) → Nat → Nat → Prop
  | _, [], o, o' => o = o'
  | k, p :: ps, o, o' =>
    (params k).offset = o ∧ TraceChain params (k + 1) ps (o + fe.taParamSize p.pcw (params k).vertType) o'

section Chain

variable {params params' : Nat → TrParam}

/-- Only the entries of the parameters matter. -/
theorem TraceChain.congr : ∀ {k : Nat} {ps : List (TaParam F)} {o o' : Nat},
    (∀ i < k + ps.length, params' i = params i) → TraceChain fe params k ps o o' →
      TraceChain fe params' k ps o o'
  | _, [], _, _, _, h => h
  | k, q :: ps, _, _, he, ⟨h₀, h⟩ => by
    have hk : params' k = params k := he k (by simp)
    rw [← hk] at h₀ h
    exact ⟨h₀, congr (fun i hi => he i (by simp only [List.length_cons]; omega)) h⟩

end Chain

/-! ## Steps that leave the trace alone -/

/-- A step that leaves the trace alone and moves neither counter back. -/
structure Grows (rc rc' : TrContext F) : Prop where
  params : rc'.params = rc.params
  numParams : rc'.numParams = rc.numParams
  numSurfs : rc.numSurfs ≤ rc'.numSurfs
  numVerts : rc.numVerts ≤ rc'.numVerts

theorem Grows.refl (rc : TrContext F) : Grows rc rc := ⟨rfl, rfl, le_rfl, le_rfl⟩

theorem Grows.trans {rc₁ rc₂ rc₃ : TrContext F} (h₁ : Grows rc₁ rc₂) (h₂ : Grows rc₂ rc₃) :
    Grows rc₁ rc₃ :=
  ⟨h₂.params.trans h₁.params, h₂.numParams.trans h₁.numParams, h₁.numSurfs.trans h₂.numSurfs,
    h₁.numVerts.trans h₂.numVerts⟩

theorem trReserveSurf_grows {c : Bool} (h : trReserveSurf lim rc c = .ok rc') : Grows rc rc' := by
  obtain ⟨-, -, rfl⟩ := (trReserveSurf_eq_ok lim).1 h
  exact ⟨rfl, rfl, le_rfl, le_rfl⟩

theorem trCommitSurf_grows {tr : Tr} (h : trCommitSurf lim tr rc = .ok rc') : Grows rc rc' := by
  by_cases ht : tr.listType = TA_LIST_TRANSLUCENT ∨ tr.listType = TA_LIST_PUNCH_THROUGH
  · obtain ⟨-, _, -, -, rfl⟩ := trCommitSurf_translucent lim h ht
    exact ⟨rfl, rfl, Nat.le_add_right _ _, by dsimp only; omega⟩
  · obtain ⟨-, rfl⟩ := trCommitSurf_opaque lim h ht
    exact ⟨rfl, rfl, Nat.le_succ _, Nat.le_add_right _ _⟩

theorem trParsePolyParam_grows {ctx : TaContext F} {p : TaParam F} {tr tr' : Tr} {w w' : TexWorld}
    (h : trParsePolyParam lim fp host fe ctx p tr rc w = .ok (tr', rc', w')) : Grows rc rc' := by
  obtain ⟨-, -, -, ⟨-, rfl⟩ | ⟨-, P, rfl⟩, -⟩ := trParsePolyParam_spec lim fp host fe h
  · exact Grows.refl _
  · exact ⟨rfl, rfl, le_rfl, le_rfl⟩

theorem trParseVertParam_grows {p : TaParam F} {tr tr' : Tr}
    (h : trParseVertParam lim fp p tr rc = .ok (tr', rc')) : Grows rc rc' := by
  rcases trParseVertParam_spec lim fp h with
    ⟨-, -, rfl⟩ | ⟨-, -, -, rc₀, rc₁, keep, k, X, hs, -, -, rfl, hc, -⟩
  · exact Grows.refl _
  have h₀ : Grows rc rc₀ := by
    rcases hs with ⟨-, rfl⟩ | ⟨-, hr⟩
    · exact Grows.refl _
    · exact trReserveSurf_grows lim hr
  rcases hc with ⟨-, -, hc⟩ | ⟨-, rfl⟩
  · have g := trCommitSurf_grows lim hc
    exact h₀.trans ⟨g.params, g.numParams, g.numSurfs, g.numVerts⟩
  · exact h₀.trans ⟨rfl, rfl, le_rfl, le_rfl⟩

theorem trDispatchParam_grows {ctx : TaContext F} {p : TaParam F} {tr tr' : Tr} {w w' : TexWorld}
    (h : trDispatchParam lim fp host fe ctx p tr rc w = .ok (tr', rc', w')) : Grows rc rc' := by
  unfold trDispatchParam at h
  split_ifs at h
  · obtain ⟨-, rfl, -⟩ : _ = tr' ∧ rc = rc' ∧ w = w' := by simpa using h
    exact Grows.refl _
  · obtain ⟨-, rfl, -⟩ : tr = tr' ∧ rc = rc' ∧ w = w' := by simpa using h
    exact Grows.refl _
  · exact trParsePolyParam_grows lim fp host fe h
  · rcases hv : trParseVertParam lim fp p tr rc with _ | ⟨tr₁, rc₁⟩ <;> rw [hv] at h
    · cases h
    obtain ⟨-, rfl, -⟩ : tr₁ = tr' ∧ rc₁ = rc' ∧ w = w' := by simpa [Except.map] using h
    exact trParseVertParam_grows lim fp hv
  · obtain ⟨-, rfl, -⟩ : tr = tr' ∧ rc = rc' ∧ w = w' := by simpa using h
    exact Grows.refl _

theorem trParseBg_grows {ctx : TaContext F} {tr tr' : Tr} {w w' : TexWorld}
    (h : trParseBg lim fp host fe ctx tr rc w = .ok (tr', rc', w')) : Grows rc rc' := by
  obtain ⟨P, X, rc₁, hc, hV⟩ := trParseBg_spec lim fp host fe h
  have h' := h.symm.trans (hV rc.verts)
  simp only [Except.ok.injEq, Prod.mk.injEq] at h'
  obtain ⟨-, rfl, -⟩ := h'
  have g := trCommitSurf_grows lim hc
  exact ⟨g.params, g.numParams, g.numSurfs, g.numVerts⟩

variable {ctx : TaContext F} {o : Nat} {p : TaParam F} {tr tr' : Tr} {w w' : TexWorld}

/-- What one parameter does to the render context: its handler's steps, then the trace entry at
`num_params`, which the model writes only while the trace has room. -/
theorem trParseParam_spec (h : trParseParam lim fp host fe ctx o p (tr, rc, w) = .ok (tr', rc', w')) :
    ∃ rc₁, Grows rc rc₁ ∧ rc₁.numParams < lim.maxParams ∧
      rc' = { rc₁ with
        params := Function.update rc₁.params rc₁.numParams
          ⟨o, tr'.listType, tr'.vertType, rc₁.numSurfs - 1, rc₁.numVerts - 1⟩
        numParams := rc₁.numParams + 1 } := by
  unfold trParseParam at h
  obtain ⟨⟨tr₁, rc₁, w₁⟩, hd, h⟩ := Except.bind_eq_ok.1 h
  dsimp only at h
  split_ifs at h with hp
  simp only [pure, Except.pure, Except.ok.injEq, Prod.mk.injEq] at h
  obtain ⟨rfl, rfl, -⟩ := h
  exact ⟨rc₁, trDispatchParam_grows lim fp host fe hd, hp, rfl⟩

theorem trParseParam_numParams (h : trParseParam lim fp host fe ctx o p (tr, rc, w) = .ok (tr', rc', w')) :
    rc'.numParams = rc.numParams + 1 := by
  obtain ⟨rc₁, hg, -, rfl⟩ := trParseParam_spec lim fp host fe h
  exact congrArg (· + 1) hg.numParams

/-- `tr_convert_context` writes the trace entry without a check: the model's `.outOfBounds` stop
at that write fires exactly when the handler returned and the trace is full. Otherwise the
parameter faults only where its handler does. -/
theorem trParseParam_outOfBounds_iff :
    let tr₀ := if fe.taPcwListTypeValid p.pcw tr.listType then
      { tr with listType := p.pcw.listType.val } else tr
    trParseParam lim fp host fe ctx o p (tr, rc, w) = .error .outOfBounds ↔
      trDispatchParam lim fp host fe ctx p tr₀ rc w = .error .outOfBounds ∨
        lim.maxParams ≤ rc.numParams ∧ ∃ s, trDispatchParam lim fp host fe ctx p tr₀ rc w = .ok s := by
  intro tr₀
  show trDispatchParam lim fp host fe ctx p tr₀ rc w >>= _ = _ ↔ _
  rcases hd : trDispatchParam lim fp host fe ctx p tr₀ rc w with e | ⟨tr₁, rc₁, w₁⟩
  · simp only [bind, Except.bind, reduceCtorEq, exists_false, and_false, or_false]
  · have hn := (trDispatchParam_grows lim fp host fe hd).numParams
    simp only [bind, Except.bind, reduceCtorEq, false_or, Except.ok.injEq, exists_eq', and_true]
    split_ifs with hp
    · exact iff_of_false (fun h => by cases h) (by omega)
    · exact iff_of_true rfl (by omega)

/-! ## The walk -/

end Redream
