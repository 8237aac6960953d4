import Redream.Proofs.Handlers
import Redream.Tr.Convert

/-!
# The walk's invariant

`StreamInv S tr rc` is what holds between two parameters of the stream, with `S` the vertex slots
written since the reset: every surface is listed at most once, below `num_surfs`; translucent and
punch-through entries are triangles; every listed surface's vertices are written slots below
`num_verts`; and while a strip is open, the staged surface starts at `num_verts` over written slots.

Each step lemma says also what a second run does, from a context whose vertex array agrees on `S`
(`AgreeOn`): it takes the same step and agrees on the new `S`. `trConvertStream_inv` puts the steps
together from the reset on, where `S` is empty, so a second run from any vertex array at all ends
agreeing on every slot a listed surface names.
-/

namespace Redream
variable {F : Type} (lim : TrLimits) (fp : FloatOps F) (host : TexHost) (fe : TaFrontEnd)

/-- The vertex slots of surface `s`. -/
def SurfSlots (s : TaSurface) (v : Nat) : Prop := s.firstVert ≤ v ∧ v < s.firstVert + s.numVerts

/-- A vertex parameter now would extend the staged strip: its vertex type emits vertices, and no
end-of-strip vertex has closed the strip. -/
def StripOpen (tr : Tr) : Prop :=
  tr.vertType ≠ 17 ∧ tr.vertType ≠ TA_NUM_VERTS ∧ tr.lastVertex.any (·.endOfStrip) = false

/-- What holds of the five lists while the stream is walked, with `S` the vertex slots written so
far: every surface is listed at most once and below `num_surfs`, translucent and punch-through
entries are triangles, every listed surface's vertices are written slots below `num_verts`, and no
index has been generated yet. -/
structure ListsInv (S : Nat → Prop) (rc : TrContext F) : Prop where
  nodup : ∀ L < TA_NUM_LISTS, (rc.lists L).entries.Nodup
  disjoint : ∀ L₁ < TA_NUM_LISTS, ∀ L₂ < TA_NUM_LISTS, L₁ ≠ L₂ →
    ∀ s ∈ (rc.lists L₁).entries, s ∉ (rc.lists L₂).entries
  lt_numSurfs : ∀ L < TA_NUM_LISTS, ∀ s ∈ (rc.lists L).entries, s < rc.numSurfs
  triangles : ∀ L, L = TA_LIST_TRANSLUCENT ∨ L = TA_LIST_PUNCH_THROUGH →
    ∀ s ∈ (rc.lists L).entries, (rc.surfs s).numVerts = 3
  le_numVerts : ∀ L < TA_NUM_LISTS, ∀ s ∈ (rc.lists L).entries,
    (rc.surfs s).firstVert + (rc.surfs s).numVerts ≤ rc.numVerts
  written : ∀ L < TA_NUM_LISTS, ∀ s ∈ (rc.lists L).entries, ∀ v, SurfSlots (rc.surfs s) v → S v
  numIndices : rc.numIndices = 0

/-- The invariant of the walk: the lists', and, while a strip is open, the staged surface starts at
`num_verts` and its vertices are written slots. -/
structure StreamInv (S : Nat → Prop) (tr : Tr) (rc : TrContext F) : Prop where
  lists : ListsInv S rc
  staged : StripOpen tr →
    (rc.surfs rc.numSurfs).firstVert = rc.numVerts ∧ ∀ v, SurfSlots (rc.surfs rc.numSurfs) v → S v

variable {S S' : Nat → Prop} {rc rc' : TrContext F}

/-- Steps that leave the lists and the surfaces below `num_surfs` alone, and move no counter back,
keep the lists' invariant. -/
theorem ListsInv.frame (hi : ListsInv S rc) (hl : rc'.lists = rc.lists)
    (hn : rc.numSurfs ≤ rc'.numSurfs) (hv : rc.numVerts ≤ rc'.numVerts)
    (hs : ∀ s < rc.numSurfs, rc'.surfs s = rc.surfs s) (hI : rc'.numIndices = rc.numIndices)
    (hS : ∀ v, S v → S' v) : ListsInv S' rc' := by
  have hsurf : ∀ L < TA_NUM_LISTS, ∀ s ∈ (rc.lists L).entries, rc'.surfs s = rc.surfs s :=
    fun L hL s hs' => hs s (hi.lt_numSurfs L hL s hs')
  refine ⟨?_, ?_, ?_, ?_, ?_, ?_, hI.trans hi.numIndices⟩ <;> rw [hl]
  · exact hi.nodup
  · exact hi.disjoint
  · exact fun L hL s hs' => (hi.lt_numSurfs L hL s hs').trans_le hn
  · intro L hL s hs'
    have hL5 : L < TA_NUM_LISTS := by rcases hL with rfl | rfl <;> decide
    rw [hsurf L hL5 s hs']; exact hi.triangles L hL s hs'
  · intro L hL s hs'; rw [hsurf L hL s hs']; exact (hi.le_numVerts L hL s hs').trans hv
  · intro L hL s hs' v hv'; rw [hsurf L hL s hs'] at hv'; exact hS v (hi.written L hL s hs' v hv')

theorem entries_update (lists : Nat → TrList) (L : Nat) (x : TrList) (L' : Nat) :
    (Function.update lists L x L').entries = if L' = L then x.entries else (lists L').entries := by
  rw [Function.update_apply]; split_ifs <;> rfl

/-- Appending new surfaces `A`, from `num_surfs` on, to list `L` keeps the lists' invariant, when
each of them is listed for the first time, lies below `num_verts` over written slots, and is a
triangle in a translucent or punch-through list. -/
theorem ListsInv.append (hi : ListsInv S rc) (L : Nat) (A : List Nat)
    (he : (rc'.lists L).entries = (rc.lists L).entries ++ A)
    (ho : ∀ L', L' ≠ L → rc'.lists L' = rc.lists L')
    (hA : A.Nodup) (hAlt : ∀ a ∈ A, rc.numSurfs ≤ a ∧ a < rc'.numSurfs)
    (hn : rc.numSurfs ≤ rc'.numSurfs) (hv : rc.numVerts ≤ rc'.numVerts)
    (hs : ∀ s < rc.numSurfs, rc'.surfs s = rc.surfs s) (hI : rc'.numIndices = rc.numIndices)
    (hAs : ∀ a ∈ A, (rc'.surfs a).firstVert + (rc'.surfs a).numVerts ≤ rc'.numVerts ∧
      (∀ v, SurfSlots (rc'.surfs a) v → S v) ∧
      (L = TA_LIST_TRANSLUCENT ∨ L = TA_LIST_PUNCH_THROUGH → (rc'.surfs a).numVerts = 3)) :
    ListsInv S rc' := by
  have hmem : ∀ L' s, s ∈ (rc'.lists L').entries ↔ s ∈ (rc.lists L').entries ∨ L' = L ∧ s ∈ A := by
    intro L' s
    by_cases hL : L' = L
    · subst hL; simp [he]
    · simp [ho L' hL, hL]
  have hold : ∀ L' < TA_NUM_LISTS, ∀ s ∈ (rc.lists L').entries, s ∉ A := fun L' hL' s hs' ha =>
    absurd (hAlt s ha).1 (Nat.not_le.2 (hi.lt_numSurfs L' hL' s hs'))
  have hsurf : ∀ L' < TA_NUM_LISTS, ∀ s ∈ (rc.lists L').entries, rc'.surfs s = rc.surfs s :=
    fun L' hL' s hs' => hs s (hi.lt_numSurfs L' hL' s hs')
  refine ⟨fun L' hL' => ?_, fun L₁ hL₁ L₂ hL₂ hne s h₁ h₂ => ?_, fun L' hL' s h => ?_,
    fun L' hL' s h => ?_, fun L' hL' s h => ?_, fun L' hL' s h => ?_, hI.trans hi.numIndices⟩
  · by_cases hL : L' = L
    · subst hL
      rw [he, List.nodup_append]
      exact ⟨hi.nodup L' hL', hA, fun s h₁ h₂ => hold L' hL' s h₁ h₂⟩
    · rw [ho L' hL]; exact hi.nodup L' hL'
  · rcases (hmem L₁ s).1 h₁ with h₁ | ⟨rfl, h₁⟩ <;> rcases (hmem L₂ s).1 h₂ with h₂ | ⟨rfl, h₂⟩
    · exact hi.disjoint L₁ hL₁ L₂ hL₂ hne s h₁ h₂
    · exact hold L₁ hL₁ s h₁ h₂
    · exact hold L₂ hL₂ s h₂ h₁
    · exact hne rfl
  · rcases (hmem L' s).1 h with h | ⟨-, h⟩
    · exact (hi.lt_numSurfs L' hL' s h).trans_le hn
    · exact (hAlt s h).2
  · have hL5 : L' < TA_NUM_LISTS := by rcases hL' with rfl | rfl <;> decide
    rcases (hmem L' s).1 h with h | ⟨rfl, h⟩
    · rw [hsurf L' hL5 s h]; exact hi.triangles L' hL' s h
    · exact (hAs s h).2.2 hL'
  · rcases (hmem L' s).1 h with h | ⟨-, h⟩
    · rw [hsurf L' hL' s h]; exact (hi.le_numVerts L' hL' s h).trans hv
    · exact (hAs s h).1
  · rcases (hmem L' s).1 h with h | ⟨-, h⟩
    · rw [hsurf L' hL' s h]; exact hi.written L' hL' s h
    · exact (hAs s h).2.1

/-- Committing the staged surface keeps the lists' invariant when the surface starts at `num_verts`
and its vertices are written slots. -/
theorem ListsInv.commit {tr : Tr} (hi : ListsInv S rc)
    (hs : (rc.surfs rc.numSurfs).firstVert = rc.numVerts)
    (hw : ∀ v, SurfSlots (rc.surfs rc.numSurfs) v → S v) (h : trCommitSurf lim tr rc = .ok rc') :
    ListsInv S rc' := by
  by_cases ht : tr.listType = TA_LIST_TRANSLUCENT ∨ tr.listType = TA_LIST_PUNCH_THROUGH
  · obtain ⟨-, list', he, -, rfl⟩ := trCommitSurf_translucent lim h ht
    refine hi.append tr.listType ((List.range ((rc.surfs rc.numSurfs).numVerts - 2)).map
      (rc.numSurfs + ·)) (by simp only [Function.update_same, he]) (fun L' hL' => Function.update_noteq hL' _ _)
      ((List.nodup_range _).map fun _ _ => Nat.add_left_cancel) (fun a ha => ?_) (Nat.le_add_right _ _)
      (by dsimp only; omega) (fun s hs' => if_neg (by omega)) rfl (fun a ha => ?_) <;>
      obtain ⟨k, hk, rfl⟩ := List.mem_map.1 ha <;> rw [List.mem_range] at hk
    · dsimp only; omega
    · simp only [if_pos (⟨Nat.le_add_right _ _, Nat.add_lt_add_left hk _⟩ : _ ∧ _),
        Nat.add_sub_cancel_left]
      refine ⟨by omega, fun v hv => hw v ?_, by simp⟩
      simp only [SurfSlots] at hv ⊢
      omega
  · obtain ⟨-, rfl⟩ := trCommitSurf_opaque lim h ht
    refine hi.append tr.listType [rc.numSurfs] (by simp only [Function.update_same, TrList.entries_push]; rfl)
      (fun L' hL' => Function.update_noteq hL' _ _) (List.nodup_singleton _) (fun a ha => ?_)
      (Nat.le_succ _) (Nat.le_add_right _ _) (fun _ _ => rfl) rfl (fun a ha => ?_) <;>
      rw [List.mem_singleton] at ha <;> subst ha
    · exact ⟨le_rfl, Nat.lt_succ_self _⟩
    · exact ⟨by dsimp only; omega, hw, fun h => absurd h ht⟩

/-- `V` agrees with `W` on the slots `S`. -/
def AgreeOn (S : Nat → Prop) (V W : Nat → TaVertex F) : Prop := ∀ v, S v → V v = W v

theorem agreeOn_overwrite {V W : Nat → TaVertex F} (h : AgreeOn S V W) (X : Nat → TaVertex F)
    (lo hi : Nat) :
    AgreeOn (fun v => S v ∨ lo ≤ v ∧ v < hi) (overwrite V X lo hi) (overwrite W X lo hi) := by
  rintro v (hv | hv)
  · unfold overwrite; split_ifs
    · rfl
    · exact h v hv
  · rw [overwrite_of_mem hv.1 hv.2, overwrite_of_mem hv.1 hv.2]

theorem not_stripOpen_of_endOfStrip {tr : Tr} {pcw : Pcw} (hl : tr.lastVertex = some pcw)
    (he : pcw.endOfStrip = true) : ¬StripOpen tr := fun h => by
  simp [StripOpen, hl, he] at h

/-- A global parameter keeps the invariant: it stages a fresh surface, or skips a modifier volume,
which closes the strip. -/
theorem trParsePolyParam_inv {ctx : TaContext F} {p : TaParam F} {tr tr' : Tr} {w w' : TexWorld}
    (hi : StreamInv S tr rc) (h : trParsePolyParam lim fp host fe ctx p tr rc w = .ok (tr', rc', w')) :
    StreamInv S tr' rc' ∧ ∀ V, AgreeOn S V rc.verts → ∃ V', AgreeOn S V' rc'.verts ∧
      trParsePolyParam lim fp host fe ctx p tr { rc with verts := V } w =
        .ok (tr', { rc' with verts := V' }, w') := by
  obtain ⟨-, hv, -, hrc, hV⟩ := trParsePolyParam_spec lim fp host fe h
  refine ⟨?_, fun V hV' => ⟨V, ?_, hV V⟩⟩
  · rcases hrc with ⟨h6, rfl⟩ | ⟨-, P, rfl⟩
    · exact ⟨hi.lists, fun ho => absurd (hv.trans (fe.vertType_of_modvol _ h6)) ho.1⟩
    · refine ⟨hi.lists.frame rfl le_rfl le_rfl (fun s hs => Function.update_noteq (Nat.ne_of_lt hs) _ _)
        rfl fun _ h => h, fun _ => ⟨by simp, fun v hv => ?_⟩⟩
      simp [SurfSlots] at hv; omega
  · rcases hrc with ⟨-, rfl⟩ | ⟨-, P, rfl⟩ <;> exact hV'

/-- A vertex parameter keeps the invariant, with the slots it writes added to `S`: they extend the
open strip, or start the strip it stages. -/
theorem trParseVertParam_inv {p : TaParam F} {tr tr' : Tr} (hi : StreamInv S tr rc)
    (h : trParseVertParam lim fp p tr rc = .ok (tr', rc')) :
    ∃ S', StreamInv S' tr' rc' ∧ ∀ V, AgreeOn S V rc.verts → ∃ V', AgreeOn S' V' rc'.verts ∧
      trParseVertParam lim fp p tr { rc with verts := V } = .ok (tr', { rc' with verts := V' }) := by
  rcases trParseVertParam_spec lim fp h with
    ⟨h17, rfl, rfl⟩ | ⟨h17, h18, rfl, rc₀, rc₁, keep, k, X, hs, -, -, hrc₁, hc, hV⟩
  · refine ⟨S, hi, fun V hV' => ⟨V, hV', ?_⟩⟩
    unfold trParseVertParam
    rw [if_pos h17]
  have h₀ : rc₀.lists = rc.lists ∧ rc₀.numSurfs = rc.numSurfs ∧ rc₀.numVerts = rc.numVerts ∧
      rc₀.numIndices = rc.numIndices ∧
      (∀ s < rc.numSurfs, rc₀.surfs s = rc.surfs s) ∧ rc₀.verts = rc.verts ∧
      (rc₀.surfs rc₀.numSurfs).firstVert = rc₀.numVerts ∧
      ∀ v, SurfSlots (rc₀.surfs rc₀.numSurfs) v → S v := by
    rcases hs with ⟨hn, rfl⟩ | ⟨-, hr⟩
    · exact ⟨rfl, rfl, rfl, rfl, fun _ _ => rfl, rfl, hi.staged ⟨h17, h18, hn⟩⟩
    · obtain ⟨-, -, rfl⟩ := (trReserveSurf_eq_ok lim).1 hr
      refine ⟨rfl, rfl, rfl, rfl, fun s hs => Function.update_noteq (Nat.ne_of_lt hs) _ _, rfl,
        by simp [stagedSurf], fun v hv => ?_⟩
      simp [SurfSlots, stagedSurf] at hv; omega
  obtain ⟨hl, hn, hv, hI, hs₀, hvs, hf, hw⟩ := h₀
  set b := rc₀.numVerts + (rc₀.surfs rc₀.numSurfs).numVerts
  have hL₁ : ListsInv (fun v => S v ∨ b ≤ v ∧ v < b + k) rc₁ := by
    subst hrc₁
    exact hi.lists.frame hl hn.ge hv.ge (fun s hs' => by
      rw [← hs₀ s hs']; exact Function.update_noteq (by omega) _ _) hI fun _ h => .inl h
  have hst₁ : (rc₁.surfs rc₁.numSurfs).firstVert = rc₁.numVerts ∧
      ∀ v, SurfSlots (rc₁.surfs rc₁.numSurfs) v → S v ∨ b ≤ v ∧ v < b + k := by
    subst hrc₁
    simp only [Function.update_same]
    refine ⟨hf, fun v hv' => ?_⟩
    by_cases hvb : v < b
    · exact .inl (hw v ⟨hv'.1, by simpa [hf] using hvb⟩)
    · simp only [SurfSlots] at hv'
      exact .inr ⟨by omega, by omega⟩
  have hv₁ : rc₁.verts = overwrite rc.verts X b (b + k) := by rw [hrc₁, hvs]
  rcases hc with ⟨-, he, hcm⟩ | ⟨hc, rfl⟩
  · refine ⟨_, ⟨hL₁.commit lim hst₁.1 hst₁.2 hcm, fun ho => absurd ho (not_stripOpen_of_endOfStrip rfl he)⟩,
      fun V hV' => ⟨overwrite V X b (b + k), ?_, hV V⟩⟩
    rw [trCommitSurf_verts_eq lim hcm, hv₁]
    exact agreeOn_overwrite hV' X b (b + k)
  · refine ⟨_, ⟨hL₁, fun _ => hst₁⟩, fun V hV' => ⟨overwrite V X b (b + k), ?_, hV V⟩⟩
    rw [hv₁]
    exact agreeOn_overwrite hV' X b (b + k)

theorem StreamInv.of_strip {tr tr' : Tr} (hi : StreamInv S tr rc) (hv : tr'.vertType = tr.vertType)
    (hl : tr'.lastVertex = tr.lastVertex) : StreamInv S tr' rc :=
  ⟨hi.lists, fun ⟨h₁, h₂, h₃⟩ => hi.staged ⟨hv ▸ h₁, hv ▸ h₂, hl ▸ h₃⟩⟩

theorem trDispatchParam_inv {ctx : TaContext F} {p : TaParam F} {tr tr' : Tr} {w w' : TexWorld}
    (hi : StreamInv S tr rc) (h : trDispatchParam lim fp host fe ctx p tr rc w = .ok (tr', rc', w')) :
    ∃ S', StreamInv S' tr' rc' ∧ ∀ V, AgreeOn S V rc.verts → ∃ V', AgreeOn S' V' rc'.verts ∧
      trDispatchParam lim fp host fe ctx p tr { rc with verts := V } w =
        .ok (tr', { rc' with verts := V' }, w') := by
  unfold trDispatchParam at h
  split_ifs at h with h₁ h₂ h₃ h₄ h₅
  · obtain ⟨rfl, rfl, rfl⟩ : _ = tr' ∧ rc = rc' ∧ w = w' := by simpa using h
    exact ⟨S, ⟨hi.lists, fun ho => absurd rfl ho.2.1⟩,
      fun V hV => ⟨V, hV, by simp only [trDispatchParam, if_pos h₁]⟩⟩
  · obtain ⟨rfl, rfl, rfl⟩ : tr = tr' ∧ rc = rc' ∧ w = w' := by simpa using h
    exact ⟨S, hi, fun V hV => ⟨V, hV, by simp only [trDispatchParam, if_neg h₁, if_pos h₂]⟩⟩
  · obtain ⟨hi', hV⟩ := trParsePolyParam_inv lim fp host fe hi h
    refine ⟨S, hi', fun V hV' => ?_⟩
    obtain ⟨V', hA, hr⟩ := hV V hV'
    exact ⟨V', hA, by simp only [trDispatchParam, if_neg h₁, if_neg h₂, if_neg h₃, if_pos h₄, hr]⟩
  · rcases hv : trParseVertParam lim fp p tr rc with _ | ⟨tr₁, rc₁⟩ <;> rw [hv] at h
    · cases h
    obtain ⟨rfl, rfl, rfl⟩ : tr₁ = tr' ∧ rc₁ = rc' ∧ w = w' := by simpa [Except.map] using h
    obtain ⟨S', hi', hV⟩ := trParseVertParam_inv lim fp hi hv
    refine ⟨S', hi', fun V hV' => ?_⟩
    obtain ⟨V', hA, hr⟩ := hV V hV'
    refine ⟨V', hA, ?_⟩
    simp only [trDispatchParam, if_neg h₁, if_neg h₂, if_neg h₃, if_neg h₄, if_pos h₅]
    rw [hr]
    rfl
  · obtain ⟨rfl, rfl, rfl⟩ : tr = tr' ∧ rc = rc' ∧ w = w' := by simpa using h
    exact ⟨S, hi, fun V hV => ⟨V, hV, by
      simp only [trDispatchParam, if_neg h₁, if_neg h₂, if_neg h₃, if_neg h₄, if_neg h₅]⟩⟩

theorem trParseParam_inv {ctx : TaContext F} {offset : Nat} {p : TaParam F} {tr tr' : Tr}
    {w w' : TexWorld} (hi : StreamInv S tr rc)
    (h : trParseParam lim fp host fe ctx offset p (tr, rc, w) = .ok (tr', rc', w')) :
    ∃ S', StreamInv S' tr' rc' ∧ ∀ V, AgreeOn S V rc.verts → ∃ V', AgreeOn S' V' rc'.verts ∧
      trParseParam lim fp host fe ctx offset p (tr, { rc with verts := V }, w) =
        .ok (tr', { rc' with verts := V' }, w') := by
  unfold trParseParam at h
  obtain ⟨⟨tr₁, rc₁, w₁⟩, hd, h⟩ := Except.bind_eq_ok.1 h
  have hiA : StreamInv S (if fe.taPcwListTypeValid p.pcw tr.listType then
      { tr with listType := p.pcw.listType.val } else tr) rc := by
    split_ifs
    · exact hi.of_strip rfl rfl
    · exact hi
  obtain ⟨S', hi', hV⟩ := trDispatchParam_inv lim fp host fe hiA hd
  dsimp only at h
  split_ifs at h with hp
  simp only [pure, Except.pure, Except.ok.injEq, Prod.mk.injEq] at h
  obtain ⟨rfl, rfl, rfl⟩ := h
  refine ⟨S', ⟨hi'.lists.frame rfl le_rfl le_rfl (fun _ _ => rfl) rfl fun _ h => h, hi'.staged⟩,
    fun V hV' => ?_⟩
  obtain ⟨V', hA, hr⟩ := hV V hV'
  refine ⟨V', hA, ?_⟩
  simp only [trParseParam, hr, bind, Except.bind]
  rw [if_pos hp]
  rfl

/-- The walk keeps the invariant, parameter after parameter. -/
theorem trParseParams_inv (ctx : TaContext F) :
    ∀ (ps : List (TaParam F)) (offset : Nat) (S : Nat → Prop) (tr tr' : Tr) (rc rc' : TrContext F)
      (w w' : TexWorld), StreamInv S tr rc →
      trParseParams lim fp host fe ctx ps offset (tr, rc, w) = .ok (tr', rc', w') →
      ∃ S', StreamInv S' tr' rc' ∧ ∀ V, AgreeOn S V rc.verts → ∃ V', AgreeOn S' V' rc'.verts ∧
        trParseParams lim fp host fe ctx ps offset (tr, { rc with verts := V }, w) =
          .ok (tr', { rc' with verts := V' }, w')
  | [], _, S, tr, tr', rc, rc', w, w', hi, h => by
    simp only [trParseParams, Except.ok.injEq, Prod.mk.injEq] at h
    obtain ⟨rfl, rfl, rfl⟩ := h
    exact ⟨S, hi, fun V hV => ⟨V, hV, rfl⟩⟩
  | p :: ps, offset, S, tr, tr', rc, rc', w, w', hi, h => by
    obtain ⟨⟨tr₁, rc₁, w₁⟩, h₁, h⟩ := Except.bind_eq_ok.1 h
    obtain ⟨S₁, hi₁, hV₁⟩ := trParseParam_inv lim fp host fe hi h₁
    obtain ⟨S', hi', hV'⟩ := trParseParams_inv ctx ps _ S₁ tr₁ tr' rc₁ rc' w₁ w' hi₁ h
    refine ⟨S', hi', fun V hV => ?_⟩
    obtain ⟨V₁, hA₁, hr₁⟩ := hV₁ V hV
    obtain ⟨V', hA', hr'⟩ := hV' V₁ hA₁
    exact ⟨V', hA', by rw [trParseParams, hr₁]; exact hr'⟩

/-- The background quad, on a state with no open strip, keeps the invariant: its four vertices are
written, and it is listed. -/
theorem trParseBg_inv {ctx : TaContext F} {tr tr' : Tr} {w w' : TexWorld} (hi : ListsInv S rc)
    (ho : ¬StripOpen tr) (h : trParseBg lim fp host fe ctx tr rc w = .ok (tr', rc', w')) :
    ∃ S', StreamInv S' tr' rc' ∧ ∀ V, AgreeOn S V rc.verts → ∃ V', AgreeOn S' V' rc'.verts ∧
      trParseBg lim fp host fe ctx tr { rc with verts := V } w =
        .ok (tr', { rc' with verts := V' }, w') := by
  obtain ⟨P, X, rc₁, hc, hV⟩ := trParseBg_spec lim fp host fe h
  have h' : Except.ok (tr', rc', w') = (.ok ({ tr with listType := TA_NUM_LISTS },
      { rc₁ with verts := overwrite rc.verts X rc.numVerts (rc.numVerts + 4) }, w') : Except Fault _) :=
    h.symm.trans (hV rc.verts)
  simp only [Except.ok.injEq, Prod.mk.injEq] at h'
  obtain ⟨rfl, rfl, -⟩ := h'
  have hL₀ : ListsInv (fun v => S v ∨ rc.numVerts ≤ v ∧ v < rc.numVerts + 4)
      { rc with surfs := Function.update rc.surfs rc.numSurfs ⟨P, 0, rc.numVerts, 4⟩ } :=
    hi.frame rfl le_rfl le_rfl (fun s hs => Function.update_noteq (Nat.ne_of_lt hs) _ _) rfl
      fun _ h => .inl h
  have hL := hL₀.commit lim (by simp) (fun v hv => .inr (by simpa [SurfSlots] using hv)) hc
  refine ⟨_, ⟨hL.frame rfl le_rfl le_rfl (fun _ _ => rfl) rfl fun _ h => h,
    fun h => absurd h ho⟩, fun V hV' => ⟨_, ?_, hV V⟩⟩
  exact agreeOn_overwrite hV' X _ _

/-- After the reset the five lists are empty and no vertex slot is written. -/
theorem ListsInv.reset (rc : TrContext F) (width height : Nat) :
    ListsInv (fun _ => False) { (trReset rc).2 with width := width, height := height } :=
  ⟨fun L hL => by simp [trReset, hL, TrList.entries], fun L hL => by simp [trReset, hL, TrList.entries],
    fun L hL => by simp [trReset, hL, TrList.entries], fun L hL => by
      have : L < TA_NUM_LISTS := by rcases hL with rfl | rfl <;> decide
      simp [trReset, this, TrList.entries],
    fun L hL => by simp [trReset, hL, TrList.entries], fun L hL => by simp [trReset, hL, TrList.entries],
    rfl⟩

/-- The stream part of a conversion keeps the invariant, from the reset on; and the same conversion
from a context with other vertices writes the same values to the slots `S` it wrote. -/
theorem trConvertStream_inv {ctx : TaContext F} {w w' : TexWorld}
    (h : trConvertStream lim fp host fe ctx rc w = .ok (rc', w')) :
    ∃ S tr', StreamInv S tr' rc' ∧ ∀ V, ∃ V', AgreeOn S V' rc'.verts ∧
      trConvertStream lim fp host fe ctx { rc with verts := V } w =
        .ok ({ rc' with verts := V' }, w') := by
  unfold trConvertStream at h
  obtain ⟨⟨tr₁, rc₁, w₁⟩, hb, h⟩ := Except.bind_eq_ok.1 h
  obtain ⟨⟨tr₂, rc₂, w₂⟩, hp, h⟩ := Except.bind_eq_ok.1 h
  simp only [pure, Except.pure, Except.ok.injEq, Prod.mk.injEq] at h
  obtain ⟨rfl, rfl⟩ := h
  obtain ⟨S₁, hi₁, hV₁⟩ := trParseBg_inv lim fp host fe (ListsInv.reset rc _ _) (fun ho => ho.2.1 rfl) hb
  obtain ⟨S₂, hi₂, hV₂⟩ := trParseParams_inv lim fp host fe ctx _ 0 S₁ _ _ _ _ _ _ hi₁ hp
  refine ⟨S₂, tr₂, hi₂, fun V => ?_⟩
  obtain ⟨V₁, hA₁, hr₁⟩ := hV₁ V fun _ h => h.elim
  obtain ⟨V₂, hA₂, hr₂⟩ := hV₂ V₁ hA₁
  refine ⟨V₂, hA₂, ?_⟩
  simp only [trReset] at hr₁
  simp only [trConvertStream, trReset, bind, Except.bind, hr₁, hr₂]
  rfl

end Redream
