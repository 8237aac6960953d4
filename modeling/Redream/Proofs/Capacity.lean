import Redream.Proofs.Convert

/-!
# The capacity check of index generation

Every surface `tr_generate_indices` reaches, as a run's root or merged into one, is checked before
its triangles are written: `CHECK_LT(num_indices + (num_verts - 2) * 3, ARRAY_SIZE(indices))`, in
`int` arithmetic. `indicesChecks` is that sequence of checks over a list's surfaces in list order,
and `trGenerateIndices_ok_iff` says that index generation of a list of distinct entries succeeds
exactly when all of them pass. For surfaces of at least two vertices the checks come to one, on
the end of what the list adds: it must lie strictly below the capacity, so a list whose indices
would fill the buffer exactly is refused.
-/

namespace Redream

variable {F : Type} (lim : TrLimits)

/-- The capacity checks index generation makes on surfaces of `nvs` vertices, in order, from `n`
indices: each tests where its triangles would end, and each surface that passes adds its
triangles' indices. -/
def indicesChecks (cap : Nat) : Nat → List Nat → Bool
  | _, [] => true
  | n, v :: vs => intLtSize (n + ((v : Int) - 2) * 3) cap && indicesChecks cap (n + 3 * (v - 2)) vs

theorem indicesChecks_append (cap n : Nat) (l₁ l₂ : List Nat) :
    indicesChecks cap n (l₁ ++ l₂) =
      (indicesChecks cap n l₁ && indicesChecks cap (n + 3 * (l₁.map (· - 2)).sum) l₂) := by
  induction l₁ generalizing n with
  | nil => simp [indicesChecks]
  | cons v l ih =>
    rw [List.cons_append, indicesChecks, indicesChecks, ih]
    simp only [Bool.and_assoc, List.map_cons, List.sum_cons, Nat.mul_add, Nat.add_assoc]

/-- The checks of a run's entries and then of the rest, which start where the run's indices end. -/
theorem indicesChecks_run (cap : Nat) (rc : TrContext F) (run D : List Nat) :
    indicesChecks cap rc.numIndices ((run ++ D).map fun x => (rc.surfs x).numVerts) =
      (indicesChecks cap rc.numIndices (run.map fun x => (rc.surfs x).numVerts) &&
        indicesChecks cap (applyRun rc run).numIndices (D.map fun x => (rc.surfs x).numVerts)) := by
  rw [List.map_append, indicesChecks_append, applyRun_numIndices, length_listIndices, List.map_map]
  rfl

/-- The merge loop succeeds exactly when the checks of the stretch it takes pass. -/
theorem trMergeRun_ok_iff (list : TrList) (r : Nat) :
    ∀ (k j m : Nat) (rc : TrContext F),
      (∃ x, trMergeRun lim list r k j m rc = .ok x) ↔
        indicesChecks lim.maxIndices rc.numIndices
          ((((List.range' j k).map list.surfs).takeWhile fun x =>
            x == r || trCanMergeSurfs (rc.surfs r) (rc.surfs x)).map
              fun x => (rc.surfs x).numVerts) = true
  | 0, _, _, _ => iff_of_true ⟨_, rfl⟩ rfl
  | k + 1, j, m, rc => by
    simp only [trMergeRun, List.range'_succ, List.map_cons, List.takeWhile_cons]
    by_cases hb : list.surfs j ≠ r ∧ trCanMergeSurfs (rc.surfs r) (rc.surfs (list.surfs j)) = false
    · have hx : (list.surfs j == r || trCanMergeSurfs (rc.surfs r) (rc.surfs (list.surfs j))) =
          false := by simpa [hb.1] using hb.2
      rw [if_pos hb, hx]
      exact iff_of_true ⟨_, rfl⟩ rfl
    · have hx : (list.surfs j == r || trCanMergeSurfs (rc.surfs r) (rc.surfs (list.surfs j))) =
          true := by
        by_cases hr : list.surfs j = r
        · simp [hr]
        · simpa [hr] using hb
      rw [if_neg hb, hx, if_pos rfl, List.map_cons, indicesChecks, trEmitTris_surf]
      by_cases hc : intLtSize (rc.numIndices + (((rc.surfs (list.surfs j)).numVerts : Int) - 2) * 3)
          lim.maxIndices = true
      · rw [if_pos hc, trMergeRun_ok_iff list r k (j + 1), hc, Bool.true_and, emitSurfs_numIndices,
          length_listIndices]
        simp only [emitSurfs_surfs, List.map_cons, List.map_nil, List.sum_cons, List.sum_nil,
          Nat.add_zero]
      · rw [if_neg hc, Bool.eq_false_iff.2 hc, Bool.false_and]
        exact iff_of_false (fun ⟨_, h⟩ => by cases h) Bool.false_ne_true

/-- The outer loop from slot `i`, over distinct entries, succeeds exactly when the checks of the
remaining entries pass: the runs it takes one after another are the entries in order, and each
run starts where the previous one's indices end. -/
theorem trGenerateRuns_ok_iff (n : Nat) :
    ∀ (fuel i m : Nat) (rc : TrContext F) (list : TrList),
      let es := (List.range' i (n - i)).map list.surfs
      es.Nodup → (mergeRuns (fun x => (rc.surfs x).params) es).length ≤ fuel → m ≤ i →
      ((∃ x, trGenerateRuns lim n fuel i m rc list = .ok x) ↔
        indicesChecks lim.maxIndices rc.numIndices
          (es.map fun x => (rc.surfs x).numVerts) = true) := by
  intro fuel
  induction fuel with
  | zero =>
    intro i m rc list es _ hf _
    have he : es = [] :=
      (mergeRuns_eq_nil _ _).1 (List.eq_nil_of_length_eq_zero (Nat.le_zero.1 hf))
    rw [he]
    exact iff_of_true ⟨_, rfl⟩ rfl
  | succ fuel ih =>
    intro i m rc list es hnd hf hm
    by_cases hi : i < n
    · set r := list.surfs i
      have hmr := trMergeRun_ok_iff lim list r (n - i) i m rc
      simp only [trGenerateRuns, if_pos hi]
      rcases hr : trMergeRun lim list r (n - i) i m rc with e | ⟨j, m₁, rc₁⟩
      · obtain ⟨T, D, hes, hpre, -, -⟩ := outerPass_split rc list hi hnd
        rw [hpre] at hmr
        have hno : ¬ indicesChecks lim.maxIndices rc.numIndices
            ((r :: T).map fun x => (rc.surfs x).numVerts) = true := fun h => by
          obtain ⟨x, hx⟩ := hmr.2 h; rw [hr] at hx; cases hx
        rw [show es = (r :: T) ++ D from hes, indicesChecks_run, Bool.eq_false_iff.2 hno,
          Bool.false_and]
        exact iff_of_false (fun ⟨_, h⟩ => by cases h) Bool.false_ne_true
      · obtain ⟨T, D, hes, hpre, -, hj, hm₁, rfl, hes₂, hndD, hf'⟩ := outerPass_ok lim hi hnd hf hr
        rw [hpre] at hmr
        have hr' : r ∉ T ++ D := (List.nodup_cons.1 (hes ▸ hnd)).1
        rw [show es = (r :: T) ++ D from hes, indicesChecks_run, hmr.1 ⟨_, hr⟩, Bool.true_and]
        have hsame : ∀ x ∈ D, (applyRun rc (r :: T)).surfs x = rc.surfs x := fun x hx => by
          have hx' : x ≠ r := fun h => hr' (by rw [← h]; exact List.mem_append_right T hx)
          simp only [applyRun_surfs, List.headD_cons, Function.update_noteq hx']
        have := ih j m₁ (applyRun rc (r :: T))
          { list with surfs := Function.update list.surfs (j - m₁ - 1) r }
          (by rw [hes₂]; exact hndD) (by rw [hes₂]; exact hf') (by omega)
        rw [hes₂, List.map_congr_left fun x hx => by rw [hsame x hx]] at this
        exact this
    · have he : es = [] := by simp [es, show n - i = 0 by omega]
      rw [he]
      exact iff_of_true ⟨(m, rc, list), by simp only [trGenerateRuns, if_neg hi]⟩ rfl

/-- Index generation of a list of distinct entries succeeds exactly when the checks of its
surfaces, in list order, pass. -/
theorem trGenerateIndices_ok_iff (rc : TrContext F) (L : Nat) (hnd : (rc.lists L).entries.Nodup) :
    (∃ rc', trGenerateIndices lim rc L = .ok rc') ↔
      indicesChecks lim.maxIndices rc.numIndices
        ((rc.lists L).entries.map fun s => (rc.surfs s).numVerts) = true := by
  have hes : (List.range' 0 ((rc.lists L).numSurfs - 0)).map (rc.lists L).surfs =
      (rc.lists L).entries := by
    rw [Nat.sub_zero, ← List.range_eq_range']; rfl
  have := trGenerateRuns_ok_iff lim (rc.lists L).numSurfs (rc.lists L).numSurfs 0 0 rc (rc.lists L)
    (by rw [hes]; exact hnd)
    (by rw [hes]; exact (length_mergeRuns_le _ _).trans (by simp [TrList.entries])) (Nat.zero_le _)
  rw [hes] at this
  rw [← this]
  simp only [trGenerateIndices, bind, Except.bind]
  constructor
  · rintro ⟨rc', h⟩
    split at h
    · cases h
    · exact ⟨_, ‹_›⟩
  · rintro ⟨x, h⟩
    simp only [h]
    exact ⟨_, rfl⟩

theorem intLtSize_natCast {k : Nat} (cap : Nat) (hk : k < 2 ^ 64) :
    intLtSize k cap = decide (k < cap) := by
  rw [intLtSize, Int.emod_eq_of_lt (Int.natCast_nonneg k) (by omega), Int.toNat_natCast]

/-- The background quad alone, with room for exactly its six indices: the stream lists it with four
vertices, so its indices would fill the buffer exactly, and index generation, and so the conversion,
refuse it; with room for seven the frame converts. -/
theorem trGenerateIndices_fillsExactly :
    ∃ rc₁ w', trConvertStream ⟨8, 16, 6, 8⟩ intOps countingHost specFrontEnd (frameOf [])
        (staleContext 0) freshWorld = .ok (rc₁, w') ∧
      rc₁.numIndices + 3 * ((rc₁.lists TA_LIST_OPAQUE).entries.map
        fun s => (rc₁.surfs s).numVerts - 2).sum = 6 ∧
      trGenerateIndices ⟨8, 16, 6, 8⟩ rc₁ TA_LIST_OPAQUE = .error .check ∧
      trConvertContext ⟨8, 16, 6, 8⟩ intOps countingHost specFrontEnd (frameOf []) (staleContext 0)
        (fun _ => 0) freshWorld = .error .check ∧
      ∃ r, trConvertContext ⟨8, 16, 7, 8⟩ intOps countingHost specFrontEnd (frameOf [])
        (staleContext 0) (fun _ => 0) freshWorld = .ok r :=
  ⟨_, _, rfl, by decide, rfl, rfl, _, rfl⟩

end Redream
