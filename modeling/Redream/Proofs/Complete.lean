import Redream.Proofs.Draw
import Redream.Proofs.Capacity
import Redream.Proofs.Trace

/-!
# Every frame the strip machine accepts converts, given room

The walk faults where the strip machine does (an object list set, an unsupported polygon or
vertex type, a sprite vertex that does not end its strip, a list type past the five) and where a
capacity runs out, and nowhere else; the sort never faults; index generation faults only on its
capacity check, or on a surface of fewer than two vertices, whose index count wraps `size_t`.
So when the machine accepts a frame's stream, every surface it lists has two vertices or more,
and the capacities leave room for what a stream of that length can use, the conversion returns
(`trConvertContext_complete`); by `trConvertStream_strips` it then converts to the machine's lists.

Room is counted per parameter (`Budget`): a parameter writes at most four vertices and its commit
counts at most one more (a one-vertex strip in a translucent list counts two); surfaces never
outnumber vertices; and the listed surfaces hold at most as many triangles as there are vertices,
so index generation needs fewer than three indices a vertex.
-/

namespace Redream

variable {F : Type} (lim : TrLimits) (fp : FloatOps F) (host : TexHost) (fe : TaFrontEnd)
variable {W : Nat → Prop} {rc rc' : TrContext F}

/-! ## The triangles the lists hold -/

/-- The triangles list `L`'s surfaces hold: index generation gives the list three indices each. -/
def listTris (rc : TrContext F) (L : Nat) : Nat :=
  ((rc.lists L).entries.map fun s => (rc.surfs s).numVerts - 2).sum

def listedTris (rc : TrContext F) : Nat := ((List.range TA_NUM_LISTS).map (listTris rc)).sum

/-- A sum over `0 .. n - 1` in which one term grew by `d` grew by `d`. -/
theorem sum_range_map_add {f g : Nat → Nat} {L d : Nat} : ∀ {n : Nat}, L < n →
    (∀ i < n, i ≠ L → g i = f i) → g L = f L + d →
      ((List.range n).map g).sum = ((List.range n).map f).sum + d
  | 0, hL, _, _ => absurd hL (Nat.not_lt_zero _)
  | n + 1, hL, hne, hd => by
    simp only [List.range_succ, List.map_append, List.sum_append, List.map_cons, List.map_nil,
      List.sum_cons, List.sum_nil, Nat.add_zero]
    rcases Nat.lt_or_ge L n with h | h
    · rw [sum_range_map_add h (fun i hi => hne i (by omega)) hd, hne n (by omega) (by omega)]
      omega
    · obtain rfl : L = n := by omega
      rw [List.map_congr_left fun i hi => hne i (by simp at hi; omega) (by simp at hi; omega), hd]
      omega

theorem listTris_congr {L : Nat} (hl : rc'.lists L = rc.lists L)
    (hs : ∀ s ∈ (rc.lists L).entries, rc'.surfs s = rc.surfs s) : listTris rc' L = listTris rc L := by
  simp only [listTris, hl]
  rw [List.map_congr_left fun s h => by rw [hs s h]]

/-- Steps that write no list and no listed surface keep the triangles the lists hold. -/
theorem listedTris_frame (hlt : ∀ L < TA_NUM_LISTS, ∀ s ∈ (rc.lists L).entries, s < rc.numSurfs)
    (hl : rc'.lists = rc.lists) (hs : ∀ s < rc.numSurfs, rc'.surfs s = rc.surfs s) :
    listedTris rc' = listedTris rc := by
  simp only [listedTris]
  exact congrArg List.sum (List.map_congr_left fun L hL =>
    listTris_congr (congrFun hl L) fun s h => hs s (hlt L (List.mem_range.1 hL) s h))

/-- A commit adds no more triangles to the lists than vertices, no more surfaces than vertices,
and at most one vertex more than the staged surface holds. -/
theorem trCommitSurf_budget {tr : Tr}
    (hlt : ∀ L < TA_NUM_LISTS, ∀ s ∈ (rc.lists L).entries, s < rc.numSurfs)
    (hc : 1 ≤ (rc.surfs rc.numSurfs).numVerts) (h : trCommitSurf lim tr rc = .ok rc') :
    listedTris rc' + rc.numVerts ≤ listedTris rc + rc'.numVerts ∧
      rc'.numSurfs + rc.numVerts ≤ rc.numSurfs + rc'.numVerts ∧
      rc'.numVerts ≤ rc.numVerts + (rc.surfs rc.numSurfs).numVerts + 1 := by
  by_cases ht : tr.listType = TA_LIST_TRANSLUCENT ∨ tr.listType = TA_LIST_PUNCH_THROUGH
  · obtain ⟨hL, list', he, -, hrc⟩ := trCommitSurf_translucent lim h ht
    set n := (rc.surfs rc.numSurfs).numVerts - 2
    -- the new surfaces are triangles, one each
    have hadd : listedTris rc' = listedTris rc + n := by
      subst hrc
      refine sum_range_map_add hL (fun L hL' hne => listTris_congr (Function.update_noteq hne _ _)
        fun s hs => if_neg fun h' => absurd (hlt L hL' s hs) (by omega)) ?_
      simp only [listTris, Function.update_same, he, List.map_append, List.sum_append, List.map_map]
      congr 1
      · exact congrArg List.sum (List.map_congr_left fun s hs =>
          by rw [if_neg fun h' => absurd (hlt _ hL s hs) (by omega)])
      · rw [List.map_congr_left fun k hk => show (_ : Nat) = 1 by
          rw [Function.comp_apply, if_pos (by simp at hk; omega)]; rfl]
        simp
    subst hrc
    dsimp only at hadd ⊢
    omega
  · obtain ⟨hL, hrc⟩ := trCommitSurf_opaque lim h ht
    have hadd : listedTris rc' = listedTris rc + ((rc.surfs rc.numSurfs).numVerts - 2) := by
      subst hrc
      refine sum_range_map_add hL (fun L _ hne => listTris_congr (Function.update_noteq hne _ _)
        fun _ _ => rfl) ?_
      simp only [listTris, Function.update_same, TrList.entries_push, List.map_append,
        List.sum_append, List.map_cons, List.map_nil, List.sum_cons, List.sum_nil, Nat.add_zero]
      rfl
    subst hrc
    dsimp only at hadd ⊢
    omega

/-! ## Room along the walk -/

/-- The room the walk has used, against a bound `B` on the vertex slots: surfaces never outnumber
vertices, nor do the listed triangles, and the committed vertices, with the open strip's, stay
within `B`. -/
structure Budget (B : Nat) (tr : Tr) (rc : TrContext F) : Prop where
  surfs : rc.numSurfs ≤ rc.numVerts
  tris : listedTris rc ≤ rc.numVerts
  verts : rc.numVerts ≤ B
  staged : StripOpen tr → rc.numVerts + (rc.surfs rc.numSurfs).numVerts ≤ B

theorem Budget.mono {B B' : Nat} {tr : Tr} (hB : Budget B tr rc) (h : B ≤ B') : Budget B' tr rc :=
  ⟨hB.surfs, hB.tris, hB.verts.trans h, fun ho => (hB.staged ho).trans h⟩

/-- Adopting a parameter's list type changes nothing the budget reads. -/
theorem Budget.adopt {B : Nat} {tr : Tr} (hB : Budget B tr rc) (c : Prop) [Decidable c] (L : Nat) :
    Budget B (if c then { tr with listType := L } else tr) rc := by
  split_ifs
  · exact ⟨hB.surfs, hB.tris, hB.verts, hB.staged⟩
  · exact hB

/-- A vertex parameter emits one vertex, or a sprite's four. -/
theorem emittedVerts_length {tr : Tr} {p : TaParam F} {vs : List (TaVertex F)} {keep : Bool}
    (h : emittedVerts fp tr p = .ok (vs, keep)) : 1 ≤ vs.length ∧ vs.length ≤ 4 := by
  unfold emittedVerts at h
  split at h
  · obtain ⟨rfl, -⟩ := Prod.mk.inj (Except.ok.inj h)
    simp
  · split_ifs at h
    obtain ⟨rfl, -⟩ := Prod.mk.inj (Except.ok.inj h)
    simp

section Walk

variable {B : Nat} (hlt : ∀ L < TA_NUM_LISTS, ∀ s ∈ (rc.lists L).entries, s < rc.numSurfs)
include hlt

theorem trParsePolyParam_budget {ctx : TaContext F} {p : TaParam F} {tr tr' : Tr} {w w' : TexWorld}
    (hB : Budget B tr rc) (h : trParsePolyParam lim fp host fe ctx p tr rc w = .ok (tr', rc', w')) :
    Budget B tr' rc' := by
  obtain ⟨-, hv, -, hrc, -⟩ := trParsePolyParam_spec lim fp host fe h
  rcases hrc with ⟨h6, rfl⟩ | ⟨-, P, rfl⟩
  · exact ⟨hB.surfs, hB.tris, hB.verts, fun ho => absurd (hv.trans (fe.vertType_of_modvol _ h6)) ho.1⟩
  · exact ⟨hB.surfs, Eq.trans_le (listedTris_frame hlt rfl fun s hs =>
      Function.update_noteq (Nat.ne_of_lt hs) _ _) hB.tris, hB.verts, fun _ => by simpa using hB.verts⟩

theorem trParseVertParam_budget {p : TaParam F} {tr tr' : Tr} (hB : Budget B tr rc)
    (h : trParseVertParam lim fp p tr rc = .ok (tr', rc')) : Budget (B + 5) tr' rc' := by
  rcases trParseVertParam_emitted lim fp h with ⟨-, rfl, rfl⟩ | ⟨h17, rfl, rc₀, vs, keep, hs, he, hc⟩
  · exact hB.mono (Nat.le_add_right _ _)
  obtain ⟨hv1, hv4⟩ := emittedVerts_length fp he
  -- staging leaves the lists and the listed surfaces, and the open strip within `B`
  have h₀ : rc₀.lists = rc.lists ∧ rc₀.numSurfs = rc.numSurfs ∧ rc₀.numVerts = rc.numVerts ∧
      (∀ s < rc.numSurfs, rc₀.surfs s = rc.surfs s) ∧
      rc₀.numVerts + (rc₀.surfs rc₀.numSurfs).numVerts ≤ B := by
    rcases hs with ⟨hn, rfl⟩ | ⟨-, hr⟩
    · exact ⟨rfl, rfl, rfl, fun _ _ => rfl, hB.staged ⟨h17, emittedVerts_vertType fp he, hn⟩⟩
    · obtain ⟨-, -, rfl⟩ := (trReserveSurf_eq_ok lim).1 hr
      exact ⟨rfl, rfl, rfl, fun s hs => Function.update_noteq (Nat.ne_of_lt hs) _ _,
        by simpa [stagedSurf] using hB.verts⟩
  obtain ⟨hl₀, hn₀, hv₀, hs₀, hst₀⟩ := h₀
  -- writing the vertices grows the staged surface and nothing the lists see
  obtain ⟨rc₁, hc, hl₁, hn₁, hv₁, hs₁, hc₁⟩ : ∃ rc₁ : TrContext F,
      (keep = true ∧ p.pcw.endOfStrip = true ∧ trCommitSurf lim { tr with lastVertex := some p.pcw }
        rc₁ = .ok rc' ∨ ¬(keep = true ∧ p.pcw.endOfStrip = true) ∧ rc' = rc₁) ∧
      rc₁.lists = rc₀.lists ∧ rc₁.numSurfs = rc₀.numSurfs ∧ rc₁.numVerts = rc₀.numVerts ∧
      (∀ x < rc₀.numSurfs, rc₁.surfs x = rc₀.surfs x) ∧
      (rc₁.surfs rc₁.numSurfs).numVerts = (rc₀.surfs rc₀.numSurfs).numVerts + vs.length :=
    ⟨_, hc, rfl, rfl, rfl, fun x hx => Function.update_noteq (Nat.ne_of_lt hx) _ _, by simp⟩
  have hlt₀ : ∀ L < TA_NUM_LISTS, ∀ x ∈ (rc₀.lists L).entries, x < rc₀.numSurfs := by
    rw [hl₀, hn₀]; exact hlt
  have ht₁ : listedTris rc₁ = listedTris rc :=
    (listedTris_frame hlt₀ hl₁ hs₁).trans (listedTris_frame hlt hl₀ hs₀)
  have hB₁ := hB.surfs
  have hB₂ := hB.tris
  have hB₃ := hB.verts
  rcases hc with ⟨-, he', hcm⟩ | ⟨-, rfl⟩
  · have hlt₁ : ∀ L < TA_NUM_LISTS, ∀ x ∈ (rc₁.lists L).entries, x < rc₁.numSurfs := by
      rw [hl₁, hn₁]; exact hlt₀
    obtain ⟨ht', hs', hv'⟩ := trCommitSurf_budget lim hlt₁ (by omega) hcm
    exact ⟨by omega, by omega, by omega, fun ho => absurd ho (not_stripOpen_of_endOfStrip rfl he')⟩
  · exact ⟨by omega, by omega, by omega, fun _ => by omega⟩

theorem trDispatchParam_budget {ctx : TaContext F} {p : TaParam F} {tr tr' : Tr} {w w' : TexWorld}
    (hB : Budget B tr rc) (h : trDispatchParam lim fp host fe ctx p tr rc w = .ok (tr', rc', w')) :
    Budget (B + 5) tr' rc' := by
  unfold trDispatchParam at h
  split_ifs at h
  · obtain ⟨rfl, rfl, -⟩ : trParseEol tr = tr' ∧ rc = rc' ∧ w = w' := by simpa using h
    exact ⟨hB.surfs, hB.tris, hB.verts.trans (Nat.le_add_right _ _), fun ho => absurd rfl ho.2.1⟩
  · obtain ⟨rfl, rfl, -⟩ : tr = tr' ∧ rc = rc' ∧ w = w' := by simpa using h
    exact hB.mono (Nat.le_add_right _ _)
  · exact (trParsePolyParam_budget lim fp host fe hlt hB h).mono (Nat.le_add_right _ _)
  · rcases hv : trParseVertParam lim fp p tr rc with _ | ⟨tr₁, rc₁⟩ <;> rw [hv] at h
    · cases h
    obtain ⟨rfl, rfl, -⟩ : tr₁ = tr' ∧ rc₁ = rc' ∧ w = w' := by simpa [Except.map] using h
    exact trParseVertParam_budget lim fp hlt hB hv
  · obtain ⟨rfl, rfl, -⟩ : tr = tr' ∧ rc = rc' ∧ w = w' := by simpa using h
    exact hB.mono (Nat.le_add_right _ _)

/-- A parameter uses at most five vertex slots of room, whatever it is. -/
theorem trParseParam_budget {ctx : TaContext F} {o : Nat} {p : TaParam F} {tr tr' : Tr}
    {w w' : TexWorld} (hB : Budget B tr rc)
    (h : trParseParam lim fp host fe ctx o p (tr, rc, w) = .ok (tr', rc', w')) :
    Budget (B + 5) tr' rc' := by
  unfold trParseParam at h
  obtain ⟨⟨tr₁, rc₁, w₁⟩, hd, h⟩ := Except.bind_eq_ok.1 h
  have hB₁ := trDispatchParam_budget lim fp host fe hlt (hB.adopt _ _) hd
  dsimp only at h
  split_ifs at h
  simp only [pure, Except.pure, Except.ok.injEq, Prod.mk.injEq] at h
  obtain ⟨rfl, rfl, rfl⟩ := h
  exact ⟨hB₁.surfs, hB₁.tris, hB₁.verts, hB₁.staged⟩

end Walk

/-! ## Progress: the code returns where the machine does -/

/-- A bind returns when its first part returns and the rest returns from that result. -/
theorem bind_returns {ε α β : Type} {x : Except ε α} {f : α → Except ε β} {a : α} (hx : x = .ok a)
    (hf : ∃ b, f a = .ok b) : ∃ b, (x >>= f) = .ok b := by
  subst hx; exact hf

theorem returns_of_map {ε α β : Type} {f : α → β} {x : Except ε α} {b : β} (h : x.map f = .ok b) :
    ∃ a, x = .ok a := by
  cases x with
  | error => cases h
  | ok a => exact ⟨a, rfl⟩

/-- A reservation with room is followed by whatever returns from a staged surface one vertex
longer. -/
theorem trReserveVert_then {β : Type} (rc : TrContext F) {f : Nat × TrContext F → Except Fault β}
    (h : rc.numVerts + (rc.surfs rc.numSurfs).numVerts < lim.maxVerts)
    (hf : ∀ rc' : TrContext F, rc'.numVerts = rc.numVerts → rc'.numSurfs = rc.numSurfs →
      (rc'.surfs rc'.numSurfs).numVerts = (rc.surfs rc.numSurfs).numVerts + 1 →
      ∃ b, f (rc.numVerts + (rc.surfs rc.numSurfs).numVerts, rc') = .ok b) :
    ∃ b, (trReserveVert lim fp rc >>= f) = .ok b := by
  rw [(trReserveVert_eq_ok lim).2 ⟨rfl, h, rfl⟩]
  exact hf _ rfl rfl (by simp)

theorem trReserveVert_room (rc : TrContext F)
    (h : rc.numVerts + (rc.surfs rc.numSurfs).numVerts < lim.maxVerts) :
    ∃ rc', trReserveVert lim fp rc = .ok (rc.numVerts + (rc.surfs rc.numSurfs).numVerts, rc') ∧
      rc'.numVerts = rc.numVerts ∧ rc'.numSurfs = rc.numSurfs ∧
      (rc'.surfs rc'.numSurfs).numVerts = (rc.surfs rc.numSurfs).numVerts + 1 :=
  ⟨_, (trReserveVert_eq_ok lim).2 ⟨rfl, h, rfl⟩, rfl, rfl, by simp⟩

/-- Emitting the vertices the machine decodes returns when the staged surface has room for them. -/
theorem trEmitVertex_progress {tr : Tr} {p : TaParam F} {r : List (TaVertex F) × Bool}
    (he : emittedVerts fp tr p = .ok r)
    (hroom : rc.numVerts + (rc.surfs rc.numSurfs).numVerts + r.1.length ≤ lim.maxVerts) :
    ∃ r', trEmitVertex lim fp tr p rc = .ok r' := by
  unfold emittedVerts at he
  unfold trEmitVertex
  rcases hd : trDecodeVert fp tr p tr.vertType with _ | v <;> simp only [hd] at he ⊢
  · split_ifs at he ⊢ with h₁₅ heos
    obtain rfl := Except.ok.inj he
    simp only [List.length_cons, List.length_nil] at hroom
    obtain ⟨rc₁, h₁, hv₁, hs₁, hc₁⟩ := trReserveVert_room lim fp rc (by omega)
    obtain ⟨rc₂, h₂, hv₂, hs₂, hc₂⟩ := trReserveVert_room lim fp rc₁ (by omega)
    obtain ⟨rc₃, h₃, hv₃, hs₃, hc₃⟩ := trReserveVert_room lim fp rc₂ (by omega)
    obtain ⟨rc₄, h₄, -, -, -⟩ := trReserveVert_room lim fp rc₃ (by omega)
    exact bind_returns h₁ (bind_returns h₂ (bind_returns h₃ (bind_returns h₄ ⟨_, rfl⟩)))
  · obtain rfl := Except.ok.inj he
    obtain ⟨rc₁, h₁, -⟩ := trReserveVert_room lim fp rc (by simpa using hroom)
    exact bind_returns h₁ ⟨_, rfl⟩

/-- The triangle loop returns when the surfaces it stages fit. -/
theorem trCommitTris_progress : ∀ (n i : Nat) (rc : TrContext F) (list : TrList),
    (i ≠ 0 → 0 < rc.numSurfs) → rc.numSurfs + n ≤ lim.maxSurfs →
      ∃ r, trCommitTris lim n i rc list = .ok r
  | 0, _, _, _, _, _ => ⟨_, rfl⟩
  | n + 1, i, rc, list, hpos, hroom => by
    obtain ⟨rc₁, h₁, hn₁⟩ : ∃ rc₁ : TrContext F,
        (if i = 0 then .ok rc else trReserveSurf lim rc true) = .ok rc₁ ∧ rc₁.numSurfs = rc.numSurfs := by
      split_ifs with hi
      · exact ⟨rc, rfl, rfl⟩
      · exact ⟨_, (trReserveSurf_eq_ok lim).2 ⟨by omega, fun _ => hpos hi, rfl⟩, rfl⟩
    rw [trCommitTris]
    exact bind_returns h₁
      (trCommitTris_progress n (i + 1) _ _ (fun _ => Nat.succ_pos _) (by dsimp only; omega))

/-- A commit to one of the five lists returns when the surfaces a split strip needs fit. -/
theorem trCommitSurf_progress (tr : Tr) (rc : TrContext F) (hL : tr.listType < TA_NUM_LISTS)
    (hroom : rc.numSurfs + ((rc.surfs rc.numSurfs).numVerts - 2) ≤ lim.maxSurfs) :
    ∃ rc', trCommitSurf lim tr rc = .ok rc' := by
  unfold trCommitSurf
  rw [if_pos hL]
  split_ifs
  · obtain ⟨r, hr⟩ := trCommitTris_progress lim _ 0 rc
      { rc.lists tr.listType with numOrigSurfs := (rc.lists tr.listType).numOrigSurfs + 1 }
      (fun h => absurd rfl h) hroom
    exact bind_returns hr ⟨_, rfl⟩
  · exact ⟨_, rfl⟩

/-- The machine commits only to one of the five lists. -/
theorem Strips.lt_of_commit {L : Nat} {S S' : Strips F} (h : S.commit L = .ok S') :
    L < TA_NUM_LISTS := by
  unfold Strips.commit at h
  split_ifs at h with hL
  exact hL

/-- A global parameter the machine accepts returns when a surface can be staged. -/
theorem trParsePolyParam_progress {ctx : TaContext F} {p : TaParam F} {tr : Tr} {w : TexWorld}
    {r : Tr × Option SurfaceParams × TexWorld} (hroom : rc.numSurfs < lim.maxSurfs)
    (hm : stripGlobal fp host fe ctx p tr w = .ok r) :
    ∃ r', trParsePolyParam lim fp host fe ctx p tr rc w = .ok r' := by
  unfold stripGlobal at hm
  unfold trParsePolyParam
  dsimp only at hm ⊢
  by_cases h6 : fe.taPolyType p.pcw = 6
  · rw [if_pos h6]; exact ⟨_, rfl⟩
  rw [if_neg h6] at hm ⊢
  obtain ⟨tr₁, hc⟩ : ∃ tr₁, polyColors fp { tr with lastVertex := none, vertType := fe.taVertType p.pcw }
      p (fe.taPolyType p.pcw) = some tr₁ := by
    cases hc : polyColors fp { tr with lastVertex := none, vertType := fe.taVertType p.pcw } p
      (fe.taPolyType p.pcw) with
    | none => rw [hc] at hm; cases hm
    | some tr₁ => exact ⟨tr₁, rfl⟩
  rw [hc]
  exact bind_returns ((trReserveSurf_eq_ok lim).2 ⟨hroom, fun h => absurd h Bool.false_ne_true, rfl⟩)
    ⟨_, rfl⟩

section Progress

variable {B : Nat} {tr : Tr} {S : Strips F} (hpos : 0 < rc.numSurfs) (hB : Budget B tr rc)
  (hs : B + 4 < lim.maxSurfs) (hv : B + 4 < lim.maxVerts)
include hpos hB hs hv

/-- A vertex parameter the machine accepts returns when the strip it ends, split, fits. -/
theorem trParseVertParam_progress {p : TaParam F} {r : Tr × Strips F}
    (hm : stripVertParam fp p tr S = .ok r) : ∃ r', trParseVertParam lim fp p tr rc = .ok r' := by
  unfold stripVertParam at hm
  unfold trParseVertParam
  by_cases h17 : tr.vertType = 17
  · rw [if_pos h17]; exact ⟨_, rfl⟩
  rw [if_neg h17] at hm ⊢
  obtain ⟨⟨vs, keep⟩, he, hm⟩ := Except.bind_eq_ok.1 hm
  obtain ⟨-, hv4⟩ := emittedVerts_length fp he
  have hB₁ := hB.surfs
  have hB₃ := hB.verts
  -- the staged surface, within `B` with its vertices
  obtain ⟨rc₀, h₀, hn₀, hv₀, hst₀⟩ : ∃ rc₀ : TrContext F,
      (if tr.lastVertex.any (·.endOfStrip) then trReserveSurf lim rc true else pure rc) = .ok rc₀ ∧
      rc₀.numSurfs = rc.numSurfs ∧ rc₀.numVerts = rc.numVerts ∧
      rc₀.numVerts + (rc₀.surfs rc₀.numSurfs).numVerts ≤ B := by
    split_ifs with hl
    · exact ⟨_, (trReserveSurf_eq_ok lim).2 ⟨by omega, fun _ => hpos, rfl⟩, rfl, rfl,
        by simpa [stagedSurf] using hB₃⟩
    · exact ⟨rc, rfl, rfl, rfl, hB.staged ⟨h17, emittedVerts_vertType fp he, by simpa using hl⟩⟩
  have hroom : rc₀.numVerts + (rc₀.surfs rc₀.numSurfs).numVerts + (vs, keep).1.length ≤
      lim.maxVerts := by dsimp only; omega
  obtain ⟨⟨rc₁, keep'⟩, h₁⟩ := trEmitVertex_progress lim fp he hroom
  obtain ⟨vs', he', -, hrc₁⟩ := trEmitVertex_emitted lim fp h₁
  obtain ⟨rfl, rfl⟩ := Prod.mk.inj (Except.ok.inj (he.symm.trans he'))
  have hc₁ : rc₁.numSurfs + ((rc₁.surfs rc₁.numSurfs).numVerts - 2) ≤ lim.maxSurfs := by
    rw [hrc₁]; simp only [Function.update_same]; omega
  refine bind_returns h₀ (bind_returns h₁ ?_)
  dsimp only at hm ⊢
  by_cases hk : keep = true ∧ p.pcw.endOfStrip = true
  · -- the machine commits to a list it has, so the code's list index is in bounds
    rw [if_pos hk] at hm ⊢
    obtain ⟨S₁, hc, -⟩ := Except.bind_eq_ok.1 hm
    obtain ⟨rc₂, h₂⟩ := trCommitSurf_progress lim _ rc₁ (Strips.lt_of_commit hc) hc₁
    exact bind_returns h₂ ⟨_, rfl⟩
  · rw [if_neg hk]; exact ⟨_, rfl⟩

theorem trDispatchParam_progress {ctx : TaContext F} {p : TaParam F} {w : TexWorld}
    {r : Tr × Strips F × TexWorld} (hm : stripDispatch fp host fe ctx p tr S w = .ok r) :
    ∃ r', trDispatchParam lim fp host fe ctx p tr rc w = .ok r' := by
  unfold stripDispatch at hm
  unfold trDispatchParam
  split_ifs at hm ⊢
  · exact ⟨_, rfl⟩
  · exact ⟨_, rfl⟩
  · obtain ⟨_, hg⟩ := returns_of_map hm
    exact trParsePolyParam_progress lim fp host fe (by have := hB.surfs; have := hB.verts; omega) hg
  · obtain ⟨_, hg⟩ := returns_of_map hm
    obtain ⟨r', hr'⟩ := trParseVertParam_progress lim fp hpos hB hs hv hg
    exact ⟨_, by rw [hr']; rfl⟩
  · exact ⟨_, rfl⟩

theorem trParseParam_progress {ctx : TaContext F} (o : Nat) {p : TaParam F} {w : TexWorld}
    {r : Tr × Strips F × TexWorld} (hp : rc.numParams < lim.maxParams)
    (hm : stripParam fp host fe ctx p (tr, S, w) = .ok r) :
    ∃ r', trParseParam lim fp host fe ctx o p (tr, rc, w) = .ok r' := by
  unfold stripParam at hm
  unfold trParseParam
  obtain ⟨⟨tr₁, rc₁, w₁⟩, hd⟩ :=
    trDispatchParam_progress lim fp host fe hpos (hB.adopt _ _) hs hv hm
  refine bind_returns hd ?_
  dsimp only
  rw [if_pos ((trDispatchParam_grows lim fp host fe hd).numParams ▸ hp)]
  exact ⟨_, rfl⟩

end Progress

/-- The walk over parameters the machine gets through returns when it has five vertex slots and
surfaces of room per parameter, and ends where the machine does, within that room. -/
theorem trParseParams_complete (ctx : TaContext F) :
    ∀ (ps : List (TaParam F)) (o B : Nat) (tr tr' : Tr) (rc : TrContext F) (S S' : Strips F)
      (w w' : TexWorld), Refines tr rc S → Budget B tr rc → rc.numParams + ps.length ≤ lim.maxParams →
      B + 5 * ps.length ≤ lim.maxSurfs → B + 5 * ps.length ≤ lim.maxVerts →
      stripParams fp host fe ctx ps (tr, S, w) = .ok (tr', S', w') →
      ∃ rc', trParseParams lim fp host fe ctx ps o (tr, rc, w) = .ok (tr', rc', w') ∧
        Budget (B + 5 * ps.length) tr' rc'
  | [], _, _, _, _, rc, _, _, _, _, _, hB, _, _, _, hm => by
    simp only [stripParams, Except.ok.injEq, Prod.mk.injEq] at hm
    obtain ⟨rfl, -, rfl⟩ := hm
    exact ⟨rc, rfl, hB.mono (by simp)⟩
  | p :: ps, o, B, tr, tr', rc, S, S', w, w', hR, hB, hp, hs, hv, hm => by
    obtain ⟨⟨tr₁, S₁, w₁⟩, hm₁, hm⟩ := Except.bind_eq_ok.1 hm
    simp only [List.length_cons] at hp hs hv
    obtain ⟨⟨tr₂, rc₁, w₂⟩, h₁⟩ := trParseParam_progress lim fp host fe hR.pos hB (by omega)
      (by omega) o (by omega) hm₁
    obtain ⟨S₂, hS₂, hR₁⟩ := trParseParam_refines lim fp host fe hR h₁
    obtain ⟨rfl, rfl, rfl⟩ : tr₁ = tr₂ ∧ S₁ = S₂ ∧ w₁ = w₂ := by
      simpa only [Except.ok.injEq, Prod.mk.injEq] using hm₁.symm.trans hS₂
    obtain ⟨W, hi⟩ := hR.inv
    have hB₁ := trParseParam_budget lim fp host fe hi.lists.lt_numSurfs hB h₁
    obtain ⟨rc', h', hB'⟩ := trParseParams_complete ctx ps (o + fe.taParamSize p.pcw tr₁.vertType)
      (B + 5) tr₁ tr' rc₁ S₁ S' w₁ w' hR₁ hB₁
      (by rw [trParseParam_numParams lim fp host fe h₁]; omega) (by omega) (by omega) hm
    refine ⟨rc', ?_, hB'.mono (by simp only [List.length_cons]; omega)⟩
    rw [trParseParams, h₁]
    exact h'

/-- The background quad returns when a surface of four vertices can be staged and committed. -/
theorem trParseBg_progress {ctx : TaContext F} {tr : Tr} {w : TexWorld}
    (hs : rc.numSurfs + 2 ≤ lim.maxSurfs) (hv : rc.numVerts + 4 ≤ lim.maxVerts) :
    ∃ r, trParseBg lim fp host fe ctx tr rc w = .ok r := by
  unfold trParseBg
  refine bind_returns ((trReserveSurf_eq_ok lim).2 ⟨by omega, fun h => absurd h Bool.false_ne_true, rfl⟩) ?_
  dsimp only
  refine trReserveVert_then lim fp _ (by simp [stagedSurf]; omega) fun rc₁ hv₁ hs₁ hc₁ => ?_
  simp only [Function.update_same, stagedSurf] at hv₁ hs₁ hc₁
  refine trReserveVert_then lim fp _ (by dsimp only; omega) fun rc₂ hv₂ hs₂ hc₂ => ?_
  dsimp only at hv₂ hs₂ hc₂
  refine trReserveVert_then lim fp _ (by dsimp only; omega) fun rc₃ hv₃ hs₃ hc₃ => ?_
  dsimp only at hv₃ hs₃ hc₃
  refine trReserveVert_then lim fp _ (by dsimp only; omega) fun rc₄ hv₄ hs₄ hc₄ => ?_
  dsimp only at hv₄ hs₄ hc₄
  obtain ⟨rc₅, h₅⟩ := trCommitSurf_progress lim { tr with listType := TA_LIST_OPAQUE }
    { rc₄ with verts := _ } (show TA_LIST_OPAQUE < TA_NUM_LISTS by decide) (by dsimp only; omega)
  exact bind_returns h₅ ⟨_, rfl⟩

/-! ## The conversion -/

/-- Capacities that fit a frame of `n` parameters: the background's four vertex slots and
surfaces and five more per parameter, a trace entry per parameter, and room for the indices of
as many triangles as those vertex slots can hold. -/
structure Fits (lim : TrLimits) (n : Nat) : Prop where
  surfs : 5 * n + 4 ≤ lim.maxSurfs
  verts : 5 * n + 4 ≤ lim.maxVerts
  indices : 15 * n + 13 ≤ lim.maxIndices
  params : n ≤ lim.maxParams

theorem listedTris_eq_zero (h : ∀ L < TA_NUM_LISTS, (rc.lists L).numSurfs = 0) : listedTris rc = 0 :=
  List.sum_eq_zero fun x hx => by
    obtain ⟨L, hL, rfl⟩ := List.mem_map.1 hx
    simp [listTris, TrList.entries, h L (List.mem_range.1 hL)]

/-- The stream of a frame the machine accepts returns, from any render context, and ends in the
machine's walk state within the room of `Fits`. -/
theorem trConvertStream_complete {ctx : TaContext F} {w w' : TexWorld} {tr : Tr} {S : Strips F}
    (hfit : Fits lim ctx.params.length) (hm : stripStream fp host fe ctx w = .ok (tr, S, w'))
    (rc : TrContext F) :
    ∃ rc', trConvertStream lim fp host fe ctx rc w = .ok (rc', w') ∧
      Budget (4 + 5 * ctx.params.length) tr rc' := by
  have hf₁ := hfit.surfs
  have hf₂ := hfit.verts
  obtain ⟨⟨tr₁, rc₁, w₁⟩, hb⟩ : ∃ r, trParseBg lim fp host fe ctx (trReset rc).1
      { (trReset rc).2 with width := ctx.videoWidth, height := ctx.videoHeight } w = .ok r :=
    trParseBg_progress lim fp host fe (by dsimp only [trReset]; omega) (by dsimp only [trReset]; omega)
  obtain ⟨-, -, hc⟩ := trParseBg_strip lim fp host fe hb
  obtain ⟨rfl, rfl, S₁, hS₁, hR₁⟩ := trParseBg_refines lim fp host fe hb
  -- the background: one surface of four vertices, committed whole
  have hB₁ : Budget 4 trInit rc₁ := by
    obtain ⟨t, X, hc, ht₀, hXl, hXn, hXv, hXs⟩ : ∃ (t : Tr) (X : TrContext F),
        trCommitSurf lim t X = .ok rc₁ ∧ t.listType = TA_LIST_OPAQUE ∧
        (∀ L < TA_NUM_LISTS, (X.lists L).numSurfs = 0) ∧ X.numSurfs = 0 ∧ X.numVerts = 0 ∧
        (X.surfs X.numSurfs).numVerts = 4 :=
      ⟨_, _, hc, rfl, fun L hL => by simp [trReset, hL], rfl, rfl, by simp [trReset]⟩
    obtain ⟨ht, hs, -⟩ := trCommitSurf_budget lim
      (fun L hL x hx => by simp [TrList.entries, hXl L hL] at hx) (by omega) hc
    have hv := congrArg TrContext.numVerts ( trCommitSurf_opaque lim hc (by rw [ht₀]; decide)).2
    rw [listedTris_eq_zero hXl] at ht
    dsimp only at hv
    exact ⟨by omega, by omega, by omega, fun ho => absurd rfl ho.2.1⟩
  have hm₁ : stripParams fp host fe ctx ctx.params (trInit, S₁, (stripBg fp host fe ctx w).2) =
      .ok (tr, S, w') := by
    let bg := (stripBg fp host fe ctx w).1
    let S₀ : Strips F := ⟨bg, (bg.params, bg.stripOffset), fun _ => [], fun _ => 0⟩
    rw [← hm]
    show _ = Strips.commit TA_LIST_OPAQUE S₀ >>= fun S => stripParams fp host fe ctx ctx.params (trInit, S, _)
    rw [hS₁]
    rfl
  obtain ⟨rc', hp, hB'⟩ := trParseParams_complete lim fp host fe ctx ctx.params 0 4 trInit tr rc₁ S₁ S
    _ w' hR₁ hB₁ (by rw [(trParseBg_grows lim fp host fe hb).numParams]; simpa [trReset] using hfit.params)
    (by omega) (by omega) hm₁
  exact ⟨rc', Except.bind_eq_ok.2 ⟨_, hb, Except.bind_eq_ok.2 ⟨_, hp, rfl⟩⟩, hB'⟩

theorem intLtSize_of_lt {k cap : Nat} (h : k < cap) : intLtSize k cap = true := by
  simp only [intLtSize, decide_eq_true_eq]
  omega

/-- Surfaces of at least two vertices whose indices end below the capacity pass every check. -/
theorem indicesChecks_of_lt (cap : Nat) : ∀ (n : Nat) (vs : List Nat), (∀ v ∈ vs, 2 ≤ v) →
    n + 3 * (vs.map (· - 2)).sum < cap → indicesChecks cap n vs = true
  | _, [], _, _ => rfl
  | n, v :: vs, h2, hlt => by
    have hv := h2 v (List.mem_cons_self _ _)
    simp only [List.map_cons, List.sum_cons] at hlt
    have hcast : ((n : Int) + ((v : Int) - 2) * 3) = ((n + 3 * (v - 2) : Nat) : Int) := by omega
    rw [indicesChecks, hcast, intLtSize_of_lt (by omega),
      indicesChecks_of_lt cap _ vs (fun w hw => h2 w (List.mem_cons_of_mem _ hw)) (by omega)]
    rfl

/-- Generating the lists `Ls`, none done before, returns when each listed surface has two vertices
and the indices of all their triangles end below the capacity. -/
theorem foldlM_trGenerateIndices_progress {rc₀ : TrContext F} (hi₀ : ListsInv W rc₀)
    (h2 : ∀ L < TA_NUM_LISTS, ∀ s ∈ (rc₀.lists L).entries, 2 ≤ (rc₀.surfs s).numVerts) :
    ∀ (Ls done : List Nat) (rc : TrContext F), GenInv rc₀ done rc → (∀ L ∈ Ls, L < TA_NUM_LISTS) →
      Ls.Nodup → (∀ L ∈ Ls, L ∉ done) →
      rc.numIndices + 3 * (Ls.map (listTris rc₀)).sum < lim.maxIndices →
      ∃ rc', Ls.foldlM (trGenerateIndices lim) rc = .ok rc'
  | [], _, rc, _, _, _, _, _ => ⟨rc, rfl⟩
  | L :: Ls, done, rc, hg, hlt, hnd, hd, hroom => by
    have hL := hlt L (List.mem_cons_self _ _)
    have hL' := hd L (List.mem_cons_self _ _)
    have hl : rc.lists L = rc₀.lists L := hg.pending L hL'
    have hs : ∀ s ∈ (rc₀.lists L).entries, rc.surfs s = rc₀.surfs s := hg.surfs L hL hL'
    have hndL : (rc.lists L).entries.Nodup := hl ▸ hi₀.nodup L hL
    have ht : listTris rc L = listTris rc₀ L := listTris_congr hl hs
    simp only [List.map_cons, List.sum_cons] at hroom
    obtain ⟨rc₁, h₁⟩ := (trGenerateIndices_ok_iff lim rc L hndL).2 (indicesChecks_of_lt _ _ _
      (fun v hv => by
        obtain ⟨s, hs', rfl⟩ := List.mem_map.1 hv
        rw [hl] at hs'
        rw [hs s hs']
        exact h2 L hL s hs')
      (by rw [List.map_map]; show rc.numIndices + 3 * listTris rc L < _; omega))
    have hn₁ : rc₁.numIndices = rc.numIndices + 3 * listTris rc L := by
      rw [(trGenerateIndices_indices lim rc rc₁ L hndL h₁).2, length_listIndices]; rfl
    have hnd₂ := List.nodup_cons.1 hnd
    obtain ⟨rc', h'⟩ := foldlM_trGenerateIndices_progress hi₀ h2 Ls (done ++ [L]) rc₁
      (hg.step lim hi₀ hL hL' h₁) (fun L' h' => hlt L' (List.mem_cons_of_mem _ h')) hnd₂.2
      (fun L' h' hm => (List.mem_append.1 hm).elim (hd L' (List.mem_cons_of_mem _ h'))
        fun hm => hnd₂.1 (List.mem_singleton.1 hm ▸ h')) (by omega)
    exact ⟨rc', by rw [List.foldlM_cons, h₁]; exact h'⟩

theorem trGenerateAllIndices_progress (hi : ListsInv W rc)
    (h2 : ∀ L < TA_NUM_LISTS, ∀ s ∈ (rc.lists L).entries, 2 ≤ (rc.surfs s).numVerts)
    (hcap : 3 * listedTris rc < lim.maxIndices) : ∃ rc', trGenerateAllIndices lim rc = .ok rc' :=
  foldlM_trGenerateIndices_progress lim hi h2 (List.range TA_NUM_LISTS) [] rc (GenInv.init hi)
    (fun _ => List.mem_range.1) (List.nodup_range _) (fun _ _ => List.not_mem_nil _)
    (by rw [hi.numIndices, Nat.zero_add]; exact hcap)

/-- Every frame the strip machine accepts converts, from any render context and sort keys, when
the capacities fit the frame and every strip the machine lists has two vertices: the walk, the
sort and index generation all return, with the machine's texture world. -/
theorem trConvertContext_complete {ctx : TaContext F} {w w' : TexWorld} {tr : Tr} {S : Strips F}
    (hfit : Fits lim ctx.params.length) (hm : stripStream fp host fe ctx w = .ok (tr, S, w'))
    (h2 : ∀ L < TA_NUM_LISTS, ∀ s ∈ S.lists L, 2 ≤ s.verts.length) (rc : TrContext F) (m : Nat → F) :
    ∃ rc' m', trConvertContext lim fp host fe ctx rc m w = .ok (rc', m', w') := by
  obtain ⟨rc₁, h₁, hB⟩ := trConvertStream_complete lim fp host fe hfit hm rc
  obtain ⟨tr₁, S₁, hS₁, _, hR⟩ := trConvertStream_refines lim fp host fe h₁
  obtain ⟨rfl, rfl, -⟩ : tr₁ = tr ∧ S₁ = S ∧ w' = w' := by
    simpa only [Except.ok.injEq, Prod.mk.injEq] using hS₁.symm.trans hm
  obtain ⟨V, hi⟩ := hR.inv
  -- each listed surface holds its machine strip's vertices
  have h2₁ : ∀ L < TA_NUM_LISTS, ∀ s ∈ (rc₁.lists L).entries, 2 ≤ (rc₁.surfs s).numVerts :=
    fun L hL s hs => by
      have hmem : surfView rc₁ s ∈ S₁.lists L := by
        rw [← hR.view.lists L hL]; exact List.mem_map_of_mem _ hs
      simpa [surfView] using h2 L hL _ hmem
  obtain ⟨rc₂, m', hsort, hi₂, -⟩ := trSortLists_inv fp ctx hi.lists m
  obtain ⟨hrc₂, hperm, -⟩ := trSortLists_perm fp ctx hi.lists hsort
  have hsurfs : rc₂.surfs = rc₁.surfs := by rw [hrc₂]
  -- the sort only reorders the lists, so the triangles they hold stay within the walk's room
  have ht : listedTris rc₂ = listedTris rc₁ :=
    congrArg List.sum (List.map_congr_left fun L _ => by
      simp only [listTris, hsurfs]; exact ((hperm L).map _).sum_eq)
  have hB₂ := hB.tris
  have hB₃ := hB.verts
  have hf := hfit.indices
  obtain ⟨rc', hgen⟩ := trGenerateAllIndices_progress lim hi₂
    (fun L hL s hs => by rw [hsurfs]; exact h2₁ L hL s ((hperm L).subset hs)) (by rw [ht]; omega)
  exact ⟨rc', m', Except.bind_eq_ok.2 ⟨_, h₁, Except.bind_eq_ok.2 ⟨_, hsort,
    Except.bind_eq_ok.2 ⟨_, hgen, rfl⟩⟩⟩⟩

theorem trConvertContext_complete_translucentStrip :
    ∃ tr S w', stripStream intOps countingHost specFrontEnd (frameOf translucentStrip) freshWorld =
        .ok (tr, S, w') ∧ Fits ⟨64, 64, 256, 64⟩ (frameOf translucentStrip).params.length ∧
      (∀ L < TA_NUM_LISTS, ∀ s ∈ S.lists L, 2 ≤ s.verts.length) ∧
      ∃ rc' m', trConvertContext ⟨64, 64, 256, 64⟩ intOps countingHost specFrontEnd
        (frameOf translucentStrip) (staleContext 0) (fun _ => 0) freshWorld = .ok (rc', m', w') :=
  let hm : stripStream intOps countingHost specFrontEnd (frameOf translucentStrip) freshWorld = _ := rfl
  let hfit : Fits ⟨64, 64, 256, 64⟩ (frameOf translucentStrip).params.length :=
    ⟨by decide, by decide, by decide, by decide⟩
  ⟨_, _, _, hm, hfit, by decide, trConvertContext_complete _ _ _ _ hfit hm (by decide) _ _⟩

end Redream
