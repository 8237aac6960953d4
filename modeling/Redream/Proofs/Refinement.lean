import Redream.Spec.Strips
import Redream.Proofs.Convert

/-!
# The walk refines the strip machine

The render context holds a surface as a record pointing at vertex slots; the strip machine holds
it with its own vertices. `surfView` reads a surface of the render context the machine's way, and
`Refines tr rc S` relates the two between parameters: the lists read through `surfView` are the
machine's lists, the surface committed last gives what the next strip copies, and while a strip is
open the staged surface is the machine's open strip.

Each handler keeps the relation (`trParseVertParam_refines` and its neighbours), so a stream the
walk gets through is one the machine gets through, with the same lists (`trConvertStream_strips`).
The walk can fail where the machine does not, when an array is full; it never returns where the
machine fails.
-/

namespace Redream

variable {F : Type} (lim : TrLimits) (fp : FloatOps F) (host : TexHost) (fe : TaFrontEnd)

/-! ## Reading surfaces as strips -/

/-- The vertices of surface `s`: `num_verts` slots from `first_vert` on. -/
def surfVerts (V : Nat → TaVertex F) (s : TaSurface) : List (TaVertex F) :=
  (List.range s.numVerts).map fun k => V (s.firstVert + k)

/-- Surface `x` of the render context as the strip machine holds it. -/
def surfView (rc : TrContext F) (x : Nat) : StripSurf F :=
  ⟨(rc.surfs x).params, (rc.surfs x).stripOffset, surfVerts rc.verts (rc.surfs x)⟩

/-- `V` with `vs` written from slot `b` on. -/
def writeVerts (V : Nat → TaVertex F) (b : Nat) (vs : List (TaVertex F)) (x : Nat) : TaVertex F :=
  if b ≤ x then vs.getD (x - b) (V x) else V x

theorem surfVerts_congr {V W : Nat → TaVertex F} {s : TaSurface}
    (h : ∀ v, SurfSlots s v → V v = W v) : surfVerts V s = surfVerts W s :=
  List.map_congr_left fun k hk => h _ ⟨Nat.le_add_right _ _, by simpa using List.mem_range.1 hk⟩

@[simp] theorem length_surfVerts (V : Nat → TaVertex F) (s : TaSurface) :
    (surfVerts V s).length = s.numVerts := by
  simp [surfVerts]

theorem map_getD_range (vs : List (TaVertex F)) (d : Nat → TaVertex F) :
    (List.range vs.length).map (fun k => vs.getD k (d k)) = vs :=
  List.ext_getElem (by simp) fun k h₁ h₂ => by
    simp [List.getD_eq_getElem?_getD, List.getElem?_eq_getElem h₂]

/-- Writing `vs` just past a surface's vertices and counting them appends them to its strip. -/
theorem surfVerts_writeVerts (V : Nat → TaVertex F) (s : TaSurface) (vs : List (TaVertex F)) :
    surfVerts (writeVerts V (s.firstVert + s.numVerts) vs) { s with numVerts := s.numVerts + vs.length } =
      surfVerts V s ++ vs := by
  simp only [surfVerts, List.range_add, List.map_append, List.map_map]
  congr 1
  · exact List.map_congr_left fun k hk => if_neg (by simp at hk; omega)
  · conv_rhs => rw [← map_getD_range vs fun k => V (s.firstVert + (s.numVerts + k))]
    exact List.map_congr_left fun k _ => by
      simp only [Function.comp, writeVerts, if_pos (by omega : s.firstVert + s.numVerts ≤
        s.firstVert + (s.numVerts + k))]
      rw [show s.firstVert + (s.numVerts + k) - (s.firstVert + s.numVerts) = k by omega]

theorem writeVerts_of_lt {V : Nat → TaVertex F} {b x : Nat} {vs : List (TaVertex F)} (h : x < b) :
    writeVerts V b vs x = V x := if_neg (by omega)

theorem writeVerts_one (V : Nat → TaVertex F) (b : Nat) (x₀ v : TaVertex F) :
    Function.update (Function.update V b x₀) b v = writeVerts V b [v] := by
  funext x
  rw [Function.update_idem]
  by_cases hx : x = b
  · subst hx; simp [writeVerts]
  · rw [Function.update_noteq hx, writeVerts]
    split_ifs
    · rw [List.getD_eq_getElem?_getD, List.getElem?_eq_none (by simp; omega), Option.getD_none]
    · rfl

theorem writeVerts_four (V X : Nat → TaVertex F) (b : Nat) (x₀ x₁ x₂ x₃ : TaVertex F) :
    Function.update (Function.update (Function.update (Function.update (overwrite V X b (b + 4))
      b x₀) (b + 1) x₁) (b + 2) x₂) (b + 3) x₃ = writeVerts V b [x₀, x₁, x₂, x₃] := by
  funext x
  simp only [Function.update_apply, writeVerts, overwrite]
  by_cases hx : b ≤ x
  · obtain ⟨k, rfl⟩ := Nat.exists_eq_add_of_le hx
    rw [if_pos hx, Nat.add_sub_cancel_left]
    match k with
    | 0 | 1 | 2 | 3 => simp
    | k + 4 => simp [List.getD_eq_getElem?_getD]
  · rw [if_neg hx, if_neg (by omega), if_neg (by omega), if_neg (by omega), if_neg (by omega),
      if_neg (by omega)]

/-! ## What each handler adds to the strips -/

/-- The emitting part of a vertex parameter writes the vertices `emittedVerts` decodes just past
the staged surface's, and counts them. -/
theorem trEmitVertex_emitted {tr : Tr} {p : TaParam F} {rc rc' : TrContext F} {keep : Bool}
    (h : trEmitVertex lim fp tr p rc = .ok (rc', keep)) :
    let s := rc.surfs rc.numSurfs
    let b := rc.numVerts + s.numVerts
    ∃ vs, emittedVerts fp tr p = .ok (vs, keep) ∧ b + vs.length ≤ lim.maxVerts ∧
      rc' = { rc with
        verts := writeVerts rc.verts b vs
        surfs := Function.update rc.surfs rc.numSurfs { s with numVerts := s.numVerts + vs.length } } := by
  intro s b
  unfold trEmitVertex at h
  rcases hd : trDecodeVert fp tr p tr.vertType with _ | v <;> simp only [hd] at h
  · split_ifs at h with h₁ h₂
    obtain ⟨⟨ia, rc₁⟩, hr₁, h⟩ := Except.bind_eq_ok.1 h
    obtain ⟨⟨ib, rc₂⟩, hr₂, h⟩ := Except.bind_eq_ok.1 h
    obtain ⟨⟨id, rc₃⟩, hr₃, h⟩ := Except.bind_eq_ok.1 h
    obtain ⟨⟨ic, rc₄⟩, hr₄, h⟩ := Except.bind_eq_ok.1 h
    obtain ⟨rfl, rfl, rfl, rfl, hlt, rfl⟩ := trReserveVert_four lim fp hr₁ hr₂ hr₃ hr₄
    have hk := (Prod.mk.inj (Except.ok.inj h)).2
    refine ⟨[(trSpriteVerts fp tr p).1.1, (trSpriteVerts fp tr p).1.2.1,
      (trSpriteVerts fp tr p).1.2.2.1, (trSpriteVerts fp tr p).1.2.2.2],
      by simp only [emittedVerts, hd, if_pos h₁, if_pos h₂, ← hk], hlt, ?_⟩
    simp only [pure, Except.pure, Except.ok.injEq, Prod.mk.injEq] at h
    rw [← h.1]
    simp only [Function.update_same, Function.update_idem, writeVerts_four]
    rfl
  · obtain ⟨⟨i, rc₁⟩, hr, h⟩ := Except.bind_eq_ok.1 h
    obtain ⟨rfl, hlt, rfl⟩ := (trReserveVert_eq_ok lim).1 hr
    simp only [pure, Except.pure, Except.ok.injEq, Prod.mk.injEq] at h
    obtain ⟨rfl, rfl⟩ := h
    exact ⟨[v], by simp only [emittedVerts, hd], hlt, by rw [writeVerts_one]; rfl⟩

/-- A global parameter does what `stripGlobal` says, and unless it is a modifier volume stages
a surface with the new pipeline state, at `num_surfs`, with no vertices, from `num_verts` on. -/
theorem trParsePolyParam_global {ctx : TaContext F} {p : TaParam F} {tr tr' : Tr}
    {rc rc' : TrContext F} {w w' : TexWorld}
    (h : trParsePolyParam lim fp host fe ctx p tr rc w = .ok (tr', rc', w')) :
    ∃ o, stripGlobal fp host fe ctx p tr w = .ok (tr', o, w') ∧
      (o = none ∧ fe.taPolyType p.pcw = 6 ∧ rc' = rc ∨ ∃ P, o = some P ∧ rc.numSurfs < lim.maxSurfs ∧
        rc' = { rc with surfs := Function.update rc.surfs rc.numSurfs ⟨P, 0, rc.numVerts, 0⟩ }) := by
  unfold trParsePolyParam at h
  unfold stripGlobal
  dsimp only at h ⊢
  by_cases h6 : fe.taPolyType p.pcw = 6
  · simp only [if_pos h6, Except.ok.injEq, Prod.mk.injEq] at h ⊢
    obtain ⟨rfl, rfl, rfl⟩ := h
    exact ⟨none, ⟨rfl, rfl, rfl⟩, .inl ⟨rfl, h6, rfl⟩⟩
  simp only [if_neg h6] at h ⊢
  rcases hc : polyColors fp { tr with lastVertex := none, vertType := fe.taVertType p.pcw } p
    (fe.taPolyType p.pcw) with _ | tr₁ <;> simp only [hc] at h ⊢
  · cases h
  obtain ⟨rc₁, hr, h⟩ := Except.bind_eq_ok.1 h
  obtain ⟨h₁, -, rfl⟩ := (trReserveSurf_eq_ok lim).1 hr
  simp only [pure, Except.pure, Except.ok.injEq, Prod.mk.injEq] at h
  obtain ⟨rfl, rfl, rfl⟩ := h
  exact ⟨_, rfl, .inr ⟨_, rfl, h₁, by simp only [Function.update_same, Function.update_idem]; rfl⟩⟩

/-- A vertex parameter, as the strip machine sees it: skipped in a modifier volume; otherwise the
next strip is staged after an end-of-strip vertex, the vertices `emittedVerts` decodes are written
past the staged surface's, and a kept end-of-strip vertex commits the strip. -/
theorem trParseVertParam_emitted {p : TaParam F} {tr tr' : Tr} {rc rc' : TrContext F}
    (h : trParseVertParam lim fp p tr rc = .ok (tr', rc')) :
    tr.vertType = 17 ∧ tr' = tr ∧ rc' = rc ∨
    tr.vertType ≠ 17 ∧ tr' = { tr with lastVertex := some p.pcw } ∧
      ∃ rc₀ vs keep,
        (tr.lastVertex.any (·.endOfStrip) = false ∧ rc₀ = rc ∨
          tr.lastVertex.any (·.endOfStrip) = true ∧ trReserveSurf lim rc true = .ok rc₀) ∧
        emittedVerts fp tr' p = .ok (vs, keep) ∧
        let s := rc₀.surfs rc₀.numSurfs
        let rc₁ := { rc₀ with
          verts := writeVerts rc₀.verts (rc₀.numVerts + s.numVerts) vs
          surfs := Function.update rc₀.surfs rc₀.numSurfs { s with numVerts := s.numVerts + vs.length } }
        (keep = true ∧ p.pcw.endOfStrip = true ∧ trCommitSurf lim tr' rc₁ = .ok rc' ∨
          ¬(keep = true ∧ p.pcw.endOfStrip = true) ∧ rc' = rc₁) := by
  unfold trParseVertParam at h
  by_cases h17 : tr.vertType = 17
  · simp only [if_pos h17, Except.ok.injEq, Prod.mk.injEq] at h
    exact .inl ⟨h17, h.1.symm, h.2.symm⟩
  rw [if_neg h17] at h
  obtain ⟨rc₀, hs, h⟩ := Except.bind_eq_ok.1 h
  obtain ⟨⟨rc₁, keep⟩, he, h⟩ := Except.bind_eq_ok.1 h
  obtain ⟨vs, hvs, -, rfl⟩ := trEmitVertex_emitted lim fp he
  have hstage : tr.lastVertex.any (·.endOfStrip) = false ∧ rc₀ = rc ∨
      tr.lastVertex.any (·.endOfStrip) = true ∧ trReserveSurf lim rc true = .ok rc₀ := by
    split_ifs at hs with hy
    · exact .inr ⟨hy, hs⟩
    · exact .inl ⟨by simpa using hy, (Except.ok.inj hs).symm⟩
  dsimp only at h
  by_cases hc : keep = true ∧ p.pcw.endOfStrip = true
  · rw [if_pos hc] at h
    obtain ⟨rc₂, hcm, h⟩ := Except.bind_eq_ok.1 h
    obtain ⟨rfl, rfl⟩ := Prod.mk.inj (Except.ok.inj h)
    exact .inr ⟨h17, rfl, rc₀, vs, keep, hstage, hvs, .inl ⟨hc.1, hc.2, hcm⟩⟩
  · rw [if_neg hc] at h
    obtain ⟨rfl, rfl⟩ := Prod.mk.inj (Except.ok.inj h)
    exact .inr ⟨h17, rfl, rc₀, vs, keep, hstage, hvs, .inr ⟨hc, rfl⟩⟩

/-- The background quad stages `stripBg`'s strip at `num_surfs`, its vertices from `num_verts` on,
and commits it to the opaque list. -/
theorem trParseBg_strip {ctx : TaContext F} {tr tr' : Tr} {rc rc' : TrContext F} {w w' : TexWorld}
    (h : trParseBg lim fp host fe ctx tr rc w = .ok (tr', rc', w')) :
    let bg := stripBg fp host fe ctx w
    tr' = { tr with listType := TA_NUM_LISTS } ∧ w' = bg.2 ∧
      trCommitSurf lim { tr with listType := TA_LIST_OPAQUE }
        { rc with
          surfs := Function.update rc.surfs rc.numSurfs ⟨bg.1.params, 0, rc.numVerts, 4⟩
          verts := writeVerts rc.verts rc.numVerts bg.1.verts } = .ok rc' := by
  intro bg
  unfold trParseBg at h
  obtain ⟨rc₁, hr, h⟩ := Except.bind_eq_ok.1 h
  dsimp only at h
  obtain ⟨⟨ia, rc₂⟩, hr₁, h⟩ := Except.bind_eq_ok.1 h
  obtain ⟨⟨ib, rc₃⟩, hr₂, h⟩ := Except.bind_eq_ok.1 h
  obtain ⟨⟨ic, rc₄⟩, hr₃, h⟩ := Except.bind_eq_ok.1 h
  obtain ⟨⟨id, rc₅⟩, hr₄, h⟩ := Except.bind_eq_ok.1 h
  obtain ⟨rc₆, hc, hend⟩ := Except.bind_eq_ok.1 h
  simp only [pure, Except.pure, Except.ok.injEq, Prod.mk.injEq] at hend
  obtain ⟨rfl, rfl, rfl⟩ := hend
  obtain ⟨hia, hib, hic, hid, -, hrc₅⟩ := trReserveVert_four lim fp hr₁ hr₂ hr₃ hr₄
  obtain ⟨-, -, rfl⟩ := (trReserveSurf_eq_ok lim).1 hr
  simp only [Function.update_same, stagedSurf, Bool.false_eq_true, if_false, Nat.add_zero,
    Function.update_idem] at hia hib hic hid hrc₅
  subst hia hib hic hid hrc₅
  dsimp only at hc
  simp (disch := omega) only [overwrite_of_mem, writeVerts_four, Function.update_same,
    Function.update_idem] at hc
  exact ⟨rfl, rfl, hc⟩

theorem emittedVerts_vertType {tr : Tr} {p : TaParam F} {r : List (TaVertex F) × Bool}
    (h : emittedVerts fp tr p = .ok r) : tr.vertType ≠ TA_NUM_VERTS := by
  intro hv
  simp [emittedVerts, hv, trDecodeVert, TA_NUM_VERTS] at h

/-! ## The relation -/

/-- The pipeline state and strip offset of the surface below `num_surfs`, which a strip staged
after an end-of-strip vertex copies. -/
def lastSurf (rc : TrContext F) : SurfaceParams × Nat :=
  ((rc.surfs (rc.numSurfs - 1)).params, (rc.surfs (rc.numSurfs - 1)).stripOffset)

/-- The render context's lists, read through `surfView`, are the machine's: the same surfaces
list by list, as many strips committed to each, and every surface below `num_surfs` listed. -/
structure ListsView (rc : TrContext F) (S : Strips F) : Prop where
  lists : ∀ L < TA_NUM_LISTS, (rc.lists L).entries.map (surfView rc) = S.lists L
  numStrips : ∀ L < TA_NUM_LISTS, (rc.lists L).numOrigSurfs = S.numStrips L
  numSurfs : rc.numSurfs = S.numSurfs

/-- The walk in state `tr, rc` simulates the strip machine in state `tr, S`: the walk's invariant
holds, the lists agree, the background or a committed surface lies below `num_surfs` and gives the
machine's `last`, and while a strip is open the staged surface is the machine's open strip. -/
structure Refines (tr : Tr) (rc : TrContext F) (S : Strips F) : Prop where
  inv : ∃ W, StreamInv W tr rc
  view : ListsView rc S
  pos : 0 < rc.numSurfs
  last : lastSurf rc = S.last
  staged : StripOpen tr → surfView rc rc.numSurfs = S.strip

variable {W : Nat → Prop} {rc rc' : TrContext F} {S : Strips F}

theorem surfView_congr {x : Nat} (hs : rc'.surfs x = rc.surfs x)
    (hV : ∀ v, SurfSlots (rc.surfs x) v → rc'.verts v = rc.verts v) : surfView rc' x = surfView rc x := by
  simp only [surfView, hs, surfVerts_congr hV]

/-- Steps that keep the lists, the surfaces below `num_surfs` and the vertex slots below
`num_verts` keep the view. -/
theorem ListsView.frame (hv : ListsView rc S) (hi : ListsInv W rc) (hl : rc'.lists = rc.lists)
    (hn : rc'.numSurfs = rc.numSurfs) (hs : ∀ x < rc.numSurfs, rc'.surfs x = rc.surfs x)
    (hV : ∀ v < rc.numVerts, rc'.verts v = rc.verts v) : ListsView rc' S where
  lists L hL := by
    rw [hl, ← hv.lists L hL]
    exact List.map_congr_left fun x hx => surfView_congr (hs x (hi.lt_numSurfs L hL x hx))
      fun v hv' => hV v (by have := hi.le_numVerts L hL x hx; simp only [SurfSlots] at hv'; omega)
  numStrips L hL := by rw [hl]; exact hv.numStrips L hL
  numSurfs := hn.trans hv.numSurfs

theorem Strips.numSurfs_update (S : Strips F) {L : Nat} (hL : L < TA_NUM_LISTS) (l : List (StripSurf F))
    (s : StripSurf F) (last : SurfaceParams × Nat) (ns : Nat → Nat) :
    (⟨s, last, Function.update S.lists L (S.lists L ++ l), ns⟩ : Strips F).numSurfs =
      S.numSurfs + l.length := by
  simp only [Strips.numSurfs, TA_NUM_LISTS, List.range_succ, List.range_zero, List.nil_append,
    List.map_append, List.map_cons, List.map_nil, List.sum_append, List.sum_cons, List.sum_nil,
    Function.update_apply]
  simp only [TA_NUM_LISTS] at hL
  interval_cases L <;> simp <;> omega

theorem getLast?_map_range {α : Type} (f : Nat → α) (n : Nat) :
    ((List.range n).map f).getLast? = if n = 0 then none else some (f (n - 1)) := by
  cases n <;> simp [List.range_succ]

/-- Three consecutive vertices of a surface's strip, read from the slots. -/
theorem take_drop_surfVerts (V : Nat → TaVertex F) (s : TaSurface) {k : Nat}
    (hk : k + 3 ≤ s.numVerts) :
    ((surfVerts V s).drop k).take 3 = surfVerts V ⟨s.params, k, s.firstVert + k, 3⟩ :=
  List.ext_getElem (by simp; omega) fun j h₁ h₂ => by
    simp only [surfVerts, List.getElem_take, List.getElem_drop, List.getElem_map, List.getElem_range,
      Nat.add_assoc]

/-- Committing the staged surface, when it starts at `num_verts` and reads as the machine's open
strip, is the machine's commit. -/
theorem ListsView.commit {tr : Tr} (hv : ListsView rc S)
    (hlt : ∀ L < TA_NUM_LISTS, ∀ x ∈ (rc.lists L).entries, x < rc.numSurfs)
    (hlast : lastSurf rc = S.last) (hst : surfView rc rc.numSurfs = S.strip)
    (hf : (rc.surfs rc.numSurfs).firstVert = rc.numVerts) (h : trCommitSurf lim tr rc = .ok rc') :
    ∃ S', S.commit tr.listType = .ok S' ∧ ListsView rc' S' ∧ lastSurf rc' = S'.last ∧
      rc.numSurfs ≤ rc'.numSurfs := by
  by_cases ht : tr.listType = TA_LIST_TRANSLUCENT ∨ tr.listType = TA_LIST_PUNCH_THROUGH
  · obtain ⟨hL, list', he, ho, rfl⟩ := trCommitSurf_translucent lim h ht
    set n := (rc.surfs rc.numSurfs).numVerts - 2
    have hold : ∀ L < TA_NUM_LISTS, ∀ x ∈ (rc.lists L).entries,
        ¬(rc.numSurfs ≤ x ∧ x < rc.numSurfs + n) :=
      fun L hL' x hx h' => absurd (hlt L hL' x hx) (by omega)
    have hsplit : splitStrip tr.listType S.strip = (List.range n).map fun k =>
        (⟨(rc.surfs rc.numSurfs).params, k, surfVerts rc.verts
          ⟨(rc.surfs rc.numSurfs).params, k, rc.numVerts + k, 3⟩⟩ : StripSurf F) := by
      have hn : (surfView rc rc.numSurfs).verts.length - 2 = n := by simp [surfView, n]
      rw [← hst, splitStrip, if_pos ht, hn]
      refine List.map_congr_left fun k hk => ?_
      have hk' : k < n := List.mem_range.1 hk
      simp only [surfView, length_surfVerts, take_drop_surfVerts rc.verts _
        (by omega : k + 3 ≤ (rc.surfs rc.numSurfs).numVerts), hf]
    refine ⟨_, by rw [Strips.commit, if_pos hL], ⟨fun L hL' => ?_, fun L hL' => ?_, ?_⟩, ?_,
      Nat.le_add_right _ _⟩
    · by_cases hLL : L = tr.listType
      · subst hLL
        simp only [Function.update_same, he, List.map_append, hsplit, List.map_map, ← hv.lists _ hL']
        congr 1
        · exact List.map_congr_left fun x hx => by simp only [surfView, if_neg (hold _ hL' x hx)]
        · refine List.map_congr_left fun k hk => ?_
          simp [surfView, List.mem_range.1 hk]
      · simp only [Function.update_noteq hLL, ← hv.lists L hL']
        exact List.map_congr_left fun x hx => by simp only [surfView, if_neg (hold _ hL' x hx)]
    · by_cases hLL : L = tr.listType
      · subst hLL; simp [ho, hv.numStrips _ hL']
      · simp [Function.update_noteq hLL, hv.numStrips _ hL']
    · rw [Strips.numSurfs_update S hL, hsplit, List.length_map, List.length_range, hv.numSurfs]
    · rw [lastSurf, hsplit, getLast?_map_range]
      dsimp only
      split_ifs with h₁ h₂ h₂
      · omega
      · simp only [Option.map_some', Option.getD_some, Prod.mk.injEq, true_and]
        omega
      · simp only [Option.map_none', Option.getD_none, ← hlast, lastSurf, h₂, Nat.add_zero]
      · omega
  · obtain ⟨hL, rfl⟩ := trCommitSurf_opaque lim h ht
    refine ⟨_, by rw [Strips.commit, if_pos hL], ⟨fun L hL' => ?_, fun L hL' => ?_, ?_⟩, ?_,
      Nat.le_succ _⟩
    · by_cases hLL : L = tr.listType
      · subst hLL
        simp only [Function.update_same, splitStrip, if_neg ht, TrList.entries_push, List.map_append,
          List.map_cons, List.map_nil, ← hst]
        exact congrArg (· ++ [surfView rc rc.numSurfs]) (hv.lists _ hL')
      · simpa only [Function.update_noteq hLL] using hv.lists L hL'
    · by_cases hLL : L = tr.listType
      · subst hLL; simp [hv.numStrips _ hL']
      · simp [Function.update_noteq hLL, hv.numStrips _ hL']
    · rw [Strips.numSurfs_update S hL, splitStrip, if_neg ht, List.length_singleton, hv.numSurfs]
    · simp [lastSurf, splitStrip, if_neg ht, surfView, ← hst]

/-! ## Each handler keeps the relation -/

theorem surfVerts_writeVerts_self (V : Nat → TaVertex F) (P : SurfaceParams) (o b : Nat)
    (vs : List (TaVertex F)) : surfVerts (writeVerts V b vs) ⟨P, o, b, vs.length⟩ = vs := by
  simpa [surfVerts] using surfVerts_writeVerts V ⟨P, o, b, 0⟩ vs

theorem lastSurf_update {x : TaSurface} (hpos : 0 < rc.numSurfs) :
    lastSurf { rc with surfs := Function.update rc.surfs rc.numSurfs x } = lastSurf rc := by
  simp only [lastSurf, Function.update_noteq (by omega : rc.numSurfs - 1 ≠ rc.numSurfs)]

/-- Staging a surface, with vertex slots from `num_verts` on rewritten, keeps the view of the
lists, whatever the open strip becomes. -/
theorem ListsView.stage (hv : ListsView rc S) (hi : ListsInv W rc) (x : TaSurface)
    (V : Nat → TaVertex F) (hV : ∀ v < rc.numVerts, V v = rc.verts v) (s : StripSurf F) :
    ListsView { rc with verts := V, surfs := Function.update rc.surfs rc.numSurfs x }
      { S with strip := s } := by
  have h : ListsView { rc with verts := V, surfs := Function.update rc.surfs rc.numSurfs x } S :=
    hv.frame hi rfl rfl (fun _ hx => Function.update_noteq (Nat.ne_of_lt hx) _ _) hV
  exact ⟨h.lists, h.numStrips, h.numSurfs⟩

theorem trParsePolyParam_refines {ctx : TaContext F} {p : TaParam F} {tr tr' : Tr} {w w' : TexWorld}
    (hR : Refines tr rc S) (h : trParsePolyParam lim fp host fe ctx p tr rc w = .ok (tr', rc', w')) :
    ∃ o, stripGlobal fp host fe ctx p tr w = .ok (tr', o, w') ∧
      Refines tr' rc' (o.elim S fun P => { S with strip := ⟨P, 0, []⟩ }) := by
  obtain ⟨W, hi⟩ := hR.inv
  obtain ⟨hi', -⟩ := trParsePolyParam_inv lim fp host fe hi h
  obtain ⟨-, hv, -⟩ := trParsePolyParam_spec lim fp host fe h
  obtain ⟨o, hg, ⟨rfl, h6, rfl⟩ | ⟨P, rfl, -, rfl⟩⟩ := trParsePolyParam_global lim fp host fe h
  · exact ⟨none, hg, ⟨W, hi'⟩, hR.view, hR.pos, hR.last,
      fun ho => absurd (hv.trans (fe.vertType_of_modvol _ h6)) ho.1⟩
  · refine ⟨some P, hg, ⟨W, hi'⟩, hR.view.stage hi.lists _ rc.verts (fun _ _ => rfl) _, hR.pos,
      (lastSurf_update hR.pos).trans hR.last, fun _ => ?_⟩
    simp [surfView, surfVerts]

/-- A vertex parameter keeps the relation: the strip it stages copies the machine's `last`, the
vertices it writes are the machine's, and its commit is the machine's commit. -/
theorem trParseVertParam_refines {p : TaParam F} {tr tr' : Tr} (hR : Refines tr rc S)
    (h : trParseVertParam lim fp p tr rc = .ok (tr', rc')) :
    ∃ S', stripVertParam fp p tr S = .ok (tr', S') ∧ Refines tr' rc' S' := by
  obtain ⟨W, hi⟩ := hR.inv
  obtain ⟨W', hi', -⟩ := trParseVertParam_inv lim fp hi h
  rcases trParseVertParam_emitted lim fp h with ⟨h17, rfl, rfl⟩ | ⟨h17, rfl, rc₀, vs, keep, hs, hvs, hc⟩
  · exact ⟨S, by rw [stripVertParam, if_pos h17], hR⟩
  let S₀ : Strips F :=
    if tr.lastVertex.any (·.endOfStrip) then { S with strip := ⟨S.last.1, S.last.2, []⟩ } else S
  have h₀ : ListsView rc₀ S₀ ∧ ListsInv W rc₀ ∧ rc₀.numSurfs = rc.numSurfs ∧
      lastSurf rc₀ = S₀.last ∧ surfView rc₀ rc₀.numSurfs = S₀.strip ∧
      (rc₀.surfs rc₀.numSurfs).firstVert = rc₀.numVerts := by
    rcases hs with ⟨hn, rfl⟩ | ⟨hy, hr⟩
    · have ho : StripOpen tr := ⟨h17, emittedVerts_vertType fp hvs, hn⟩
      have hS₀ : S₀ = S := if_neg (by simp [hn])
      rw [hS₀]
      exact ⟨hR.view, hi.lists, rfl, hR.last, hR.staged ho, (hi.staged ho).1⟩
    · obtain ⟨-, -, rfl⟩ := (trReserveSurf_eq_ok lim).1 hr
      have hS₀ : S₀ = { S with strip := ⟨S.last.1, S.last.2, []⟩ } := if_pos hy
      rw [hS₀]
      have hl := hR.last
      simp only [lastSurf] at hl
      exact ⟨hR.view.stage hi.lists _ rc.verts (fun _ _ => rfl) _,
        hi.lists.frame rfl le_rfl le_rfl (fun _ hx => Function.update_noteq (Nat.ne_of_lt hx) _ _) rfl
          fun _ h => h, rfl, (lastSurf_update hR.pos).trans hR.last,
        by simp [surfView, stagedSurf, surfVerts, ← hl], by simp [stagedSurf]⟩
  obtain ⟨hv₀, hi₀, hn₀, hl₀, hst₀, hf₀⟩ := h₀
  let s := rc₀.surfs rc₀.numSurfs
  let rc₁ : TrContext F := { rc₀ with
    verts := writeVerts rc₀.verts (rc₀.numVerts + s.numVerts) vs
    surfs := Function.update rc₀.surfs rc₀.numSurfs { s with numVerts := s.numVerts + vs.length } }
  let S₁ : Strips F := { S₀ with strip := { S₀.strip with verts := S₀.strip.verts ++ vs } }
  have hv₁ : ListsView rc₁ S₁ :=
    hv₀.stage hi₀ _ _ (fun _ hv => writeVerts_of_lt (by omega)) _
  have hl₁ : lastSurf rc₁ = S₁.last := by
    have hpos : 0 < rc₀.numSurfs := hn₀ ▸ hR.pos
    simp only [lastSurf, rc₁, Function.update_noteq (by omega : rc₀.numSurfs - 1 ≠ rc₀.numSurfs)]
    exact hl₀
  have hst₁ : surfView rc₁ rc₁.numSurfs = S₁.strip := by
    simp only [surfView, rc₁, S₁, Function.update_same, ← hst₀, s]
    rw [← hf₀, surfVerts_writeVerts]
  have hf₁ : (rc₁.surfs rc₁.numSurfs).firstVert = rc₁.numVerts := by
    simp only [rc₁, Function.update_same, s, hf₀]
  have hstep : stripVertParam fp p tr S = if keep ∧ p.pcw.endOfStrip then
      S₁.commit tr.listType >>= fun S => pure ({ tr with lastVertex := some p.pcw }, S)
      else pure ({ tr with lastVertex := some p.pcw }, S₁) := by
    rw [stripVertParam, if_neg h17]
    show emittedVerts fp _ p >>= _ = _
    rw [hvs]
    rfl
  rcases hc with ⟨hk, he, hcm⟩ | ⟨hc, rfl⟩
  · obtain ⟨S', hS', hv', hl', hle⟩ := ListsView.commit lim hv₁ hi₀.lt_numSurfs hl₁ hst₁ hf₁ hcm
    refine ⟨S', by rw [hstep, if_pos ⟨hk, he⟩, hS']; rfl, ⟨W', hi'⟩, hv',
      Nat.lt_of_lt_of_le (hn₀ ▸ hR.pos) hle, hl', fun ho => absurd ho (not_stripOpen_of_endOfStrip rfl he)⟩
  · exact ⟨S₁, by rw [hstep, if_neg hc]; rfl, ⟨W', hi'⟩, hv₁, hn₀ ▸ hR.pos, hl₁, fun _ => hst₁⟩

theorem Refines.of_strip {tr tr' : Tr} (hR : Refines tr rc S) (hv : tr'.vertType = tr.vertType)
    (hl : tr'.lastVertex = tr.lastVertex) : Refines tr' rc S :=
  ⟨hR.inv.imp fun _ hi => hi.of_strip hv hl, hR.view, hR.pos, hR.last,
    fun ⟨h₁, h₂, h₃⟩ => hR.staged ⟨hv ▸ h₁, hv ▸ h₂, hl ▸ h₃⟩⟩

theorem trDispatchParam_refines {ctx : TaContext F} {p : TaParam F} {tr tr' : Tr} {w w' : TexWorld}
    (hR : Refines tr rc S) (h : trDispatchParam lim fp host fe ctx p tr rc w = .ok (tr', rc', w')) :
    ∃ S', stripDispatch fp host fe ctx p tr S w = .ok (tr', S', w') ∧ Refines tr' rc' S' := by
  unfold trDispatchParam at h
  unfold stripDispatch
  split_ifs at h ⊢ with h₁ h₂ h₃ h₄ h₅
  · obtain ⟨rfl, rfl, rfl⟩ : _ = tr' ∧ rc = rc' ∧ w = w' := by simpa using h
    obtain ⟨W, hi⟩ := hR.inv
    exact ⟨S, rfl, ⟨W, hi.lists, fun ho => absurd rfl ho.2.1⟩, hR.view, hR.pos, hR.last,
      fun ho => absurd rfl ho.2.1⟩
  · obtain ⟨rfl, rfl, rfl⟩ : tr = tr' ∧ rc = rc' ∧ w = w' := by simpa using h
    exact ⟨S, rfl, hR⟩
  · obtain ⟨o, hg, hR'⟩ := trParsePolyParam_refines lim fp host fe hR h
    exact ⟨_, by rw [hg]; rfl, hR'⟩
  · rcases hv : trParseVertParam lim fp p tr rc with _ | ⟨tr₁, rc₁⟩ <;> rw [hv] at h
    · cases h
    obtain ⟨rfl, rfl, rfl⟩ : tr₁ = tr' ∧ rc₁ = rc' ∧ w = w' := by simpa [Except.map] using h
    obtain ⟨S', hS', hR'⟩ := trParseVertParam_refines lim fp hR hv
    exact ⟨S', by rw [hS']; rfl, hR'⟩
  · obtain ⟨rfl, rfl, rfl⟩ : tr = tr' ∧ rc = rc' ∧ w = w' := by simpa using h
    exact ⟨S, rfl, hR⟩

theorem trParseParam_refines {ctx : TaContext F} {offset : Nat} {p : TaParam F} {tr tr' : Tr}
    {w w' : TexWorld} (hR : Refines tr rc S)
    (h : trParseParam lim fp host fe ctx offset p (tr, rc, w) = .ok (tr', rc', w')) :
    ∃ S', stripParam fp host fe ctx p (tr, S, w) = .ok (tr', S', w') ∧ Refines tr' rc' S' := by
  unfold trParseParam at h
  obtain ⟨⟨tr₁, rc₁, w₁⟩, hd, h⟩ := Except.bind_eq_ok.1 h
  have hRA : Refines (if fe.taPcwListTypeValid p.pcw tr.listType then
      { tr with listType := p.pcw.listType.val } else tr) rc S := by
    split_ifs
    · exact hR.of_strip rfl rfl
    · exact hR
  obtain ⟨S', hS', hR'⟩ := trDispatchParam_refines lim fp host fe hRA hd
  dsimp only at h
  split_ifs at h with hp
  simp only [pure, Except.pure, Except.ok.injEq, Prod.mk.injEq] at h
  obtain ⟨rfl, rfl, rfl⟩ := h
  obtain ⟨W, hi⟩ := hR'.inv
  exact ⟨S', hS', ⟨W, hi.lists.frame rfl le_rfl le_rfl (fun _ _ => rfl) rfl fun _ h => h, hi.staged⟩,
    ⟨hR'.view.lists, hR'.view.numStrips, hR'.view.numSurfs⟩, hR'.pos, hR'.last, hR'.staged⟩

theorem trParseParams_refines (ctx : TaContext F) :
    ∀ (ps : List (TaParam F)) (offset : Nat) (tr tr' : Tr) (rc rc' : TrContext F) (S : Strips F)
      (w w' : TexWorld), Refines tr rc S →
      trParseParams lim fp host fe ctx ps offset (tr, rc, w) = .ok (tr', rc', w') →
      ∃ S', stripParams fp host fe ctx ps (tr, S, w) = .ok (tr', S', w') ∧ Refines tr' rc' S'
  | [], _, tr, tr', rc, rc', S, w, w', hR, h => by
    simp only [trParseParams, Except.ok.injEq, Prod.mk.injEq] at h
    obtain ⟨rfl, rfl, rfl⟩ := h
    exact ⟨S, rfl, hR⟩
  | p :: ps, offset, tr, tr', rc, rc', S, w, w', hR, h => by
    obtain ⟨⟨tr₁, rc₁, w₁⟩, h₁, h⟩ := Except.bind_eq_ok.1 h
    obtain ⟨S₁, hS₁, hR₁⟩ := trParseParam_refines lim fp host fe hR h₁
    obtain ⟨S', hS', hR'⟩ := trParseParams_refines ctx ps _ tr₁ tr' rc₁ rc' S₁ w₁ w' hR₁ h
    exact ⟨S', by rw [stripParams, hS₁]; exact hS', hR'⟩

/-! ## The stream -/

/-- The background quad, from the reset state, leaves the walk in `trInit` related to the machine
after it commits `stripBg`'s strip to the opaque list. -/
theorem trParseBg_refines {ctx : TaContext F} {tr₁ : Tr} {w w₁ : TexWorld}
    (hb : trParseBg lim fp host fe ctx (trReset rc).1
      { (trReset rc).2 with width := ctx.videoWidth, height := ctx.videoHeight } w = .ok (tr₁, rc', w₁)) :
    let bg := (stripBg fp host fe ctx w).1
    tr₁ = trInit ∧ w₁ = (stripBg fp host fe ctx w).2 ∧
      ∃ S₁, Strips.commit TA_LIST_OPAQUE ⟨bg, (bg.params, bg.stripOffset), fun _ => [], fun _ => 0⟩ =
        .ok S₁ ∧ Refines tr₁ rc' S₁ := by
  intro bg
  obtain ⟨W, hi₁, -⟩ := trParseBg_inv lim fp host fe (ListsInv.reset rc _ _) (fun ho => ho.2.1 rfl) hb
  obtain ⟨rfl, rfl, hc⟩ := trParseBg_strip lim fp host fe hb
  let S₀ : Strips F := ⟨bg, (bg.params, bg.stripOffset), fun _ => [], fun _ => 0⟩
  have hv₀ : ListsView { (trReset rc).2 with
      width := ctx.videoWidth, height := ctx.videoHeight
      surfs := Function.update rc.surfs 0 ⟨bg.params, 0, 0, 4⟩
      verts := writeVerts rc.verts 0 bg.verts } S₀ :=
    ⟨fun L hL => by simp [trReset, hL, TrList.entries, S₀], fun L hL => by simp [trReset, hL, S₀],
      by simp [trReset, Strips.numSurfs, S₀]⟩
  obtain ⟨S₁, hS₁, hv₁, hl₁, -⟩ := ListsView.commit lim hv₀
    (fun L hL x hx => by simp [trReset, hL, TrList.entries] at hx)
    (by simp [lastSurf, trReset, S₀]; rfl) (surfVerts_writeVerts_self rc.verts bg.params 0 0 bg.verts ▸ rfl)
    rfl hc
  refine ⟨rfl, rfl, S₁, hS₁, ⟨W, hi₁⟩, hv₁, ?_, hl₁, fun ho => absurd rfl ho.2.1⟩
  rw [( trCommitSurf_opaque lim hc (show ¬(TA_LIST_OPAQUE = TA_LIST_TRANSLUCENT ∨
    TA_LIST_OPAQUE = TA_LIST_PUNCH_THROUGH) by decide)).2]
  exact Nat.succ_pos _

/-- A walk that returns ends related to the strip machine's run over the same frame. -/
theorem trConvertStream_refines {ctx : TaContext F} {w w' : TexWorld}
    (h : trConvertStream lim fp host fe ctx rc w = .ok (rc', w')) :
    ∃ tr S, stripStream fp host fe ctx w = .ok (tr, S, w') ∧ ∃ tr', Refines tr' rc' S := by
  unfold trConvertStream at h
  obtain ⟨⟨tr₁, rc₁, w₁⟩, hb, h⟩ := Except.bind_eq_ok.1 h
  obtain ⟨⟨tr₂, rc₂, w₂⟩, hp, h⟩ := Except.bind_eq_ok.1 h
  simp only [pure, Except.pure, Except.ok.injEq, Prod.mk.injEq] at h
  obtain ⟨rfl, rfl⟩ := h
  obtain ⟨rfl, rfl, S₁, hS₁, hR₁⟩ := trParseBg_refines lim fp host fe hb
  obtain ⟨S₂, hS₂, hR₂⟩ := trParseParams_refines lim fp host fe ctx _ 0 _ _ _ _ S₁ _ _ hR₁ hp
  let bg := (stripBg fp host fe ctx w).1
  let S₀ : Strips F := ⟨bg, (bg.params, bg.stripOffset), fun _ => [], fun _ => 0⟩
  refine ⟨tr₂, S₂, ?_, _, hR₂⟩
  show Strips.commit TA_LIST_OPAQUE S₀ >>= (fun S => stripParams fp host fe ctx ctx.params (trInit, S, _)) = _
  rw [hS₁]
  exact hS₂

end Redream
