import Redream.Tr.Indices

/-!
# What index generation produces

`tr_generate_indices` is a run-length merge: the list's entries split into maximal runs of
surfaces with equal params (`mergeRuns`), each run's surfaces emit their strips' triangles in
order (`surfIndices`), and the run's first surface is pointed at what the run emitted
(`applyRun`). `trGenerateIndices_eq` proves the three loops of the source compute exactly this
when the list's entries are distinct; the in-place compaction writes the `t`-th run's root at
slot `t`, below every slot still to be read.
-/

namespace Redream

variable {F : Type} (lim : TrLimits)

/-! ## Writing indices -/

/-- The indices `l` written from slot `n` on. -/
def writeIdx (idx : Nat → Nat) (n : Nat) : List Nat → Nat → Nat
  | [] => idx
  | a :: l => writeIdx (Function.update idx n a) (n + 1) l

theorem writeIdx_append (idx : Nat → Nat) (n : Nat) (l₁ l₂ : List Nat) :
    writeIdx idx n (l₁ ++ l₂) = writeIdx (writeIdx idx n l₁) (n + l₁.length) l₂ := by
  induction l₁ generalizing idx n with
  | nil => rfl
  | cons a l ih =>
    rw [List.cons_append, writeIdx, ih, writeIdx, List.length_cons, Nat.add_right_comm, Nat.add_assoc]

theorem writeIdx_apply (idx : Nat → Nat) (n : Nat) (l : List Nat) (x : Nat) :
    writeIdx idx n l x = if n ≤ x ∧ x < n + l.length then l.getD (x - n) 0 else idx x := by
  induction l generalizing idx n with
  | nil => simp only [writeIdx, List.length_nil, Nat.add_zero]; split_ifs <;> first | rfl | omega
  | cons a l ih =>
    rw [writeIdx, ih]
    by_cases hx : x = n
    · subst hx; simp
    · simp only [List.length_cons, Function.update_noteq hx]
      split_ifs <;> first | omega | rfl | skip
      rw [show x - n = x - (n + 1) + 1 by omega]; rfl

/-- The indices a triangle is written as. -/
def triIndices (t : Nat × Nat × Nat) : List Nat := [t.1, t.2.1, t.2.2]

/-- The triangles of `k` strip triangles of `surf` from triangle `j`, as indices. -/
def trisFrom (surf : TaSurface) (k j : Nat) : List Nat :=
  (List.range' j k).flatMap fun t => triIndices (stripTri surf t)

/-- The indices `tr_generate_indices` emits for one surface: its strip's triangles in order. -/
def surfIndices (surf : TaSurface) : List Nat := trisFrom surf (surf.numVerts - 2) 0

@[simp] theorem length_trisFrom (surf : TaSurface) (k j : Nat) :
    (trisFrom surf k j).length = 3 * k := by
  induction k generalizing j with
  | zero => rfl
  | succ k ih =>
    simp only [trisFrom] at ih ⊢
    rw [List.range'_succ, List.flatMap_cons, List.length_append, ih]
    simp [triIndices]; omega

theorem trEmitTris_eq (surf : TaSurface) :
    ∀ (k j : Nat) (rc : TrContext F), trEmitTris surf k j rc =
      { rc with
        indices := writeIdx rc.indices rc.numIndices (trisFrom surf k j)
        numIndices := rc.numIndices + 3 * k }
  | 0, j, rc => by simp [trEmitTris, trisFrom, writeIdx]
  | k + 1, j, rc => by
    rw [trEmitTris, trEmitTris_eq surf k (j + 1)]
    simp only [trisFrom, List.range'_succ, List.flatMap_cons, writeIdx_append]
    simp only [triIndices, writeIdx, List.length_cons, List.length_nil]
    congr 1; omega


/-- The indices the surfaces `l` emit, in order. -/
def listIndices (rc : TrContext F) (l : List Nat) : List Nat := l.flatMap fun s => surfIndices (rc.surfs s)

theorem listIndices_congr {rc rc' : TrContext F} {l : List Nat}
    (h : ∀ s ∈ l, rc'.surfs s = rc.surfs s) : listIndices rc' l = listIndices rc l := by
  simp only [listIndices, List.flatMap_def]
  rw [List.map_congr_left fun s hs => by rw [h s hs]]

theorem listIndices_flatten (rc : TrContext F) (runs : List (List Nat)) :
    listIndices rc runs.flatten = runs.flatMap (listIndices rc) := by
  induction runs with
  | nil => rfl
  | cons run runs ih => simp only [List.flatten_cons, listIndices, List.flatMap_append] at ih ⊢; rw [ih]; rfl

theorem length_listIndices (rc : TrContext F) (l : List Nat) :
    (listIndices rc l).length = 3 * (l.map fun s => (rc.surfs s).numVerts - 2).sum := by
  induction l with
  | nil => rfl
  | cons s l ih =>
    simp only [listIndices, List.flatMap_cons, List.length_append, surfIndices, length_trisFrom,
      List.map_cons, List.sum_cons, Nat.mul_add] at ih ⊢
    rw [ih]

theorem three_dvd_length_listIndices (rc : TrContext F) (l : List Nat) :
    3 ∣ (listIndices rc l).length := by
  induction l with
  | nil => exact Nat.dvd_zero 3
  | cons s l ih =>
    simp only [listIndices, List.flatMap_cons, List.length_append, surfIndices, length_trisFrom] at ih ⊢
    exact Nat.dvd_add ⟨_, rfl⟩ ih

/-- The context after the surfaces `l` emitted their triangles, in order. -/
def emitSurfs (rc : TrContext F) (l : List Nat) : TrContext F :=
  let idx := listIndices rc l
  { rc with indices := writeIdx rc.indices rc.numIndices idx, numIndices := rc.numIndices + idx.length }

@[simp] theorem emitSurfs_surfs (rc : TrContext F) (l : List Nat) :
    (emitSurfs rc l).surfs = rc.surfs := rfl

@[simp] theorem emitSurfs_numIndices (rc : TrContext F) (l : List Nat) :
    (emitSurfs rc l).numIndices = rc.numIndices + (listIndices rc l).length := rfl

@[simp] theorem emitSurfs_lists (rc : TrContext F) (l : List Nat) :
    (emitSurfs rc l).lists = rc.lists := rfl

theorem emitSurfs_nil (rc : TrContext F) : emitSurfs rc [] = rc := by
  cases rc; simp [emitSurfs, listIndices, writeIdx]

theorem emitSurfs_append (rc : TrContext F) (l₁ l₂ : List Nat) :
    emitSurfs (emitSurfs rc l₁) l₂ = emitSurfs rc (l₁ ++ l₂) := by
  simp only [emitSurfs, listIndices, List.flatMap_append, writeIdx_append, List.length_append,
    Nat.add_assoc]

theorem trEmitTris_surf (rc : TrContext F) (x : Nat) :
    trEmitTris (rc.surfs x) ((rc.surfs x).numVerts - 2) 0 rc = emitSurfs rc [x] := by
  rw [trEmitTris_eq]; simp [emitSurfs, listIndices, surfIndices]

/-- The merge loop emits the longest stretch of slots from `j` that hold the root or merge with
it, and counts those that are not the root. -/
theorem trMergeRun_eq (list : TrList) (r : Nat) :
    ∀ (k j m : Nat) (rc : TrContext F) (j' m' : Nat) (rc' : TrContext F),
      trMergeRun lim list r k j m rc = .ok (j', m', rc') →
      let pre := ((List.range' j k).map list.surfs).takeWhile
        fun x => x == r || trCanMergeSurfs (rc.surfs r) (rc.surfs x)
      j' = j + pre.length ∧ m' = m + (pre.filter (· != r)).length ∧ rc' = emitSurfs rc pre
  | 0, j, m, rc, j', m', rc', h => by
    simp only [trMergeRun, Except.ok.injEq, Prod.mk.injEq] at h
    obtain ⟨rfl, rfl, rfl⟩ := h
    simp [emitSurfs_nil]
  | k + 1, j, m, rc, j', m', rc', h => by
    simp only [trMergeRun] at h
    generalize hm : (if list.surfs j ≠ r then m + 1 else m) = m₁ at h
    simp only [List.range'_succ, List.map_cons, List.takeWhile_cons]
    split_ifs at h with hb hc
    · simp only [Except.ok.injEq, Prod.mk.injEq] at h
      obtain ⟨rfl, rfl, rfl⟩ := h
      have : (list.surfs j == r || trCanMergeSurfs (rc.surfs r) (rc.surfs (list.surfs j))) =
          false := by simpa [hb.1] using hb.2
      simp [this, emitSurfs_nil]
    · rw [trEmitTris_surf] at h
      obtain ⟨h1, h2, h3⟩ := trMergeRun_eq list r k (j + 1) _ _ j' m' rc' h
      have hx : (list.surfs j == r || trCanMergeSurfs (rc.surfs r) (rc.surfs (list.surfs j))) =
          true := by
        by_cases hr : list.surfs j = r
        · simp [hr]
        · simpa [hr] using hb
      simp only [hx, if_true, List.length_cons, emitSurfs_surfs] at h1 h3 ⊢
      refine ⟨by omega, ?_, by rw [h3, emitSurfs_append]; rfl⟩
      rw [h2, ← hm]
      by_cases hr : list.surfs j = r <;> simp [hr, List.filter_cons, Nat.add_assoc, Nat.add_comm 1]


/-! ## Runs -/

/-- The maximal runs of entries whose surfaces' params agree with the run's first entry. -/
def mergeRuns (p : Nat → SurfaceParams) : List Nat → List (List Nat)
  | [] => []
  | e :: es =>
    (e :: es.takeWhile fun x => p e == p x) :: mergeRuns p (es.dropWhile fun x => p e == p x)
termination_by l => l.length
decreasing_by
  simp_wf; exact Nat.lt_succ_of_le (List.dropWhile_suffix _).length_le

theorem mergeRuns_nil (p : Nat → SurfaceParams) : mergeRuns p [] = [] := by
  rw [mergeRuns]

theorem mergeRuns_cons (p : Nat → SurfaceParams) (e : Nat) (es : List Nat) :
    mergeRuns p (e :: es) =
      (e :: es.takeWhile fun x => p e == p x) :: mergeRuns p (es.dropWhile fun x => p e == p x) := by
  rw [mergeRuns]

section Runs

variable (p : Nat → SurfaceParams)

theorem flatten_mergeRuns (es : List Nat) : (mergeRuns p es).flatten = es := by
  induction es using mergeRuns.induct p with
  | case1 => rw [mergeRuns_nil]; rfl
  | case2 e es ih =>
    rw [mergeRuns_cons, List.flatten_cons, ih, List.cons_append, List.takeWhile_append_dropWhile]

/-- Every run is non-empty and its entries' params are its first entry's. -/
theorem mem_mergeRuns {run es : List Nat} (h : run ∈ mergeRuns p es) :
    run ≠ [] ∧ ∀ x ∈ run, p x = p (run.headD 0) := by
  induction es using mergeRuns.induct p with
  | case1 => simp [mergeRuns_nil] at h
  | case2 e es ih =>
    rw [mergeRuns_cons, List.mem_cons] at h
    rcases h with rfl | h
    · refine ⟨List.cons_ne_nil _ _, fun x hx => ?_⟩
      rcases List.mem_cons.1 hx with rfl | hx
      · rfl
      · exact (by simpa using List.mem_takeWhile_imp hx : p e = p x).symm
    · exact ih h

theorem length_mergeRuns_le (es : List Nat) : (mergeRuns p es).length ≤ es.length := by
  induction es using mergeRuns.induct p with
  | case1 => simp [mergeRuns_nil]
  | case2 e es ih =>
    rw [mergeRuns_cons, List.length_cons, List.length_cons]
    exact Nat.succ_le_succ (ih.trans (List.dropWhile_suffix _).length_le)

theorem head?_map_mergeRuns (es : List Nat) :
    ((mergeRuns p es).map (·.headD 0)).head? = es.head? := by
  cases es <;> simp [mergeRuns_nil, mergeRuns_cons]

/-- The runs are maximal: the first entries of consecutive runs have different params. -/
theorem chain_mergeRuns (es : List Nat) :
    List.Chain' (fun a b => p a ≠ p b) ((mergeRuns p es).map (·.headD 0)) := by
  induction es using mergeRuns.induct p with
  | case1 => simp [mergeRuns_nil]
  | case2 e es ih =>
    rw [mergeRuns_cons, List.map_cons, List.chain'_cons', head?_map_mergeRuns]
    refine ⟨fun y hy => ?_, ih⟩
    have hD := List.head?_dropWhile_not (fun x => p e == p x) es
    rw [Option.mem_def.1 hy] at hD
    simpa using hD

end Runs

/-- One run's effect: its surfaces' triangles appended, its first surface pointed at them. -/
def applyRun (rc : TrContext F) (run : List Nat) : TrContext F :=
  let rc' := emitSurfs rc run
  let root := run.headD 0
  { rc' with
    surfs := Function.update rc'.surfs root
      { rc'.surfs root with firstVert := rc.numIndices, numVerts := rc'.numIndices - rc.numIndices } }

section ApplyRun

variable (rc : TrContext F) (run : List Nat)

@[simp] theorem applyRun_indices :
    (applyRun rc run).indices = writeIdx rc.indices rc.numIndices (listIndices rc run) := rfl

@[simp] theorem applyRun_numIndices :
    (applyRun rc run).numIndices = rc.numIndices + (listIndices rc run).length := rfl

theorem applyRun_surfs : (applyRun rc run).surfs = Function.update rc.surfs (run.headD 0)
    { rc.surfs (run.headD 0) with
      firstVert := rc.numIndices, numVerts := (listIndices rc run).length } := by
  simp [applyRun, emitSurfs]

theorem applyRun_params (x : Nat) : ((applyRun rc run).surfs x).params = (rc.surfs x).params := by
  rw [applyRun_surfs]
  by_cases hx : x = run.headD 0
  · subst hx; simp
  · rw [Function.update_noteq hx]

end ApplyRun

theorem foldl_applyRun_params (runs : List (List Nat)) (rc : TrContext F) (x : Nat) :
    ((runs.foldl applyRun rc).surfs x).params = (rc.surfs x).params := by
  induction runs generalizing rc with
  | nil => rfl
  | cons run runs ih => rw [List.foldl_cons, ih, applyRun_params]

/-- Runs touch only the surfaces and the indices. -/
theorem foldl_applyRun_frame (runs : List (List Nat)) (rc : TrContext F) :
    let rc' := runs.foldl applyRun rc
    rc' = { rc with surfs := rc'.surfs, indices := rc'.indices, numIndices := rc'.numIndices } := by
  induction runs generalizing rc with
  | nil => rfl
  | cons run runs ih => exact ih _

/-- Runs with distinct entries append their indices in order, and point each run's first
surface at its own indices; no other surface changes. -/
theorem foldl_applyRun (runs : List (List Nat)) (rc : TrContext F)
    (hne : ∀ run ∈ runs, run ≠ []) (hnd : runs.flatten.Nodup) :
    let rc' := runs.foldl applyRun rc
    let idx := listIndices rc runs.flatten
    rc'.indices = writeIdx rc.indices rc.numIndices idx ∧
      rc'.numIndices = rc.numIndices + idx.length ∧
      (∀ x ∉ runs.map (·.headD 0), rc'.surfs x = rc.surfs x) ∧
      ∀ t (ht : t < runs.length), rc'.surfs (runs[t].headD 0) =
        { rc.surfs (runs[t].headD 0) with
          firstVert := rc.numIndices + (listIndices rc (runs.take t).flatten).length
          numVerts := (listIndices rc runs[t]).length } := by
  induction runs generalizing rc with
  | nil => simp [listIndices, writeIdx]
  | cons run runs ih =>
    rw [List.flatten_cons, List.nodup_append] at hnd
    obtain ⟨-, hnd, hdisj⟩ := hnd
    have hhead : ∀ l ∈ run :: runs, l.headD 0 ∈ l := fun l hl => by
      cases l with
      | nil => exact absurd rfl (hne [] hl)
      | cons a l => exact List.mem_cons_self a l
    have hroot := hhead run (List.mem_cons_self _ _)
    have hsame : ∀ s ∈ runs.flatten, (applyRun rc run).surfs s = rc.surfs s := fun s hs => by
      rw [applyRun_surfs, Function.update_noteq fun (h : s = run.headD 0) => hdisj hroot (h ▸ hs)]
    have hsub : ∀ t (ht : t < runs.length), runs[t] ⊆ runs.flatten ∧
        (runs.take t).flatten ⊆ runs.flatten := fun t ht =>
      ⟨fun x hx => List.mem_flatten.2 ⟨_, List.getElem_mem ht, hx⟩, fun x hx => by
        obtain ⟨l, hl, hx⟩ := List.mem_flatten.1 hx
        exact List.mem_flatten.2 ⟨l, List.mem_of_mem_take hl, hx⟩⟩
    obtain ⟨h1, h2, h3, h4⟩ := ih (applyRun rc run) (fun r hr => hne r (List.mem_cons_of_mem _ hr)) hnd
    rw [listIndices_congr hsame] at h1 h2
    simp only [List.foldl_cons, List.flatten_cons, applyRun_indices, applyRun_numIndices] at h1 h2 ⊢
    have happ : listIndices rc (run ++ runs.flatten) = listIndices rc run ++ listIndices rc runs.flatten :=
      List.flatMap_append _ _ _
    refine ⟨by rw [h1, happ, writeIdx_append], by rw [h2, happ, List.length_append, Nat.add_assoc],
      fun x hx => ?_, fun t ht => ?_⟩
    · simp only [List.map_cons, List.mem_cons, not_or] at hx
      rw [h3 x hx.2, applyRun_surfs, Function.update_noteq hx.1]
    · cases t with
      | zero =>
        have : run.headD 0 ∉ runs.map (·.headD 0) := fun h => by
          obtain ⟨l, hl, he⟩ := List.mem_map.1 h
          exact hdisj hroot (he ▸ List.mem_flatten.2 ⟨l, hl, hhead l (List.mem_cons_of_mem _ hl)⟩)
        rw [List.getElem_cons_zero, h3 _ this, applyRun_surfs, Function.update_same]
        simp [listIndices]
      | succ t =>
        have ht' : t < runs.length := by simpa using ht
        obtain ⟨hs₁, hs₂⟩ := hsub t ht'
        have hmem : runs[t].headD 0 ∈ runs.flatten :=
          hs₁ (hhead _ (List.mem_cons_of_mem _ (List.getElem_mem ht')))
        simp only [List.getElem_cons_succ, List.take_succ_cons, List.flatten_cons]
        rw [h4 t ht', hsame _ hmem, listIndices_congr fun s hs => hsame s (hs₂ hs),
          listIndices_congr fun s hs => hsame s (hs₁ hs), applyRun_numIndices]
        simp only [listIndices, List.flatMap_append, List.length_append, Nat.add_assoc]

theorem takeWhile_congr {α : Type} {p q : α → Bool} :
    ∀ {l : List α}, (∀ x ∈ l, p x = q x) → l.takeWhile p = l.takeWhile q
  | [], _ => rfl
  | a :: l, h => by
    simp only [List.takeWhile_cons, h a (List.mem_cons_self a l)]
    split <;> simp [takeWhile_congr fun x hx => h x (List.mem_cons_of_mem a hx)]

theorem map_range'_drop (f : Nat → Nat) (i k n : Nat) (hk : i + k ≤ n) :
    ((List.range' i (n - i)).map f).drop k = (List.range' (i + k) (n - (i + k))).map f := by
  have : List.range' i (n - i) = List.range' i k ++ List.range' (i + k) (n - (i + k)) := by
    rw [List.range'_append_1]; congr 1; omega
  rw [this, List.map_append, List.drop_left' (by simp)]

theorem drop_length_takeWhile {α : Type} (p : α → Bool) (l : List α) :
    l.drop (l.takeWhile p).length = l.dropWhile p := by
  have := List.drop_left (l.takeWhile p) (l.dropWhile p)
  rwa [List.takeWhile_append_dropWhile] at this

theorem mergeRuns_eq_nil (p : Nat → SurfaceParams) (es : List Nat) :
    mergeRuns p es = [] ↔ es = [] := by
  cases es <;> simp [mergeRuns_nil, mergeRuns_cons]

/-- The merge loop from a run's root takes exactly the run `mergeRuns` starts with, when the
root does not occur again. -/
theorem takeWhile_merge_eq (rc : TrContext F) (r : Nat) (es : List Nat) (hr : r ∉ es) :
    (r :: es).takeWhile (fun x => x == r || trCanMergeSurfs (rc.surfs r) (rc.surfs x)) =
      r :: es.takeWhile fun x => (rc.surfs r).params == (rc.surfs x).params := by
  rw [List.takeWhile_cons_of_pos (by simp)]
  congr 1
  refine takeWhile_congr fun x hx => ?_
  have : x ≠ r := fun h => hr (h ▸ hx)
  simp [this, trCanMergeSurfs]

/-- The slots a pass of the outer loop from `i < n` reads, taken apart: the remaining entries are
the run `r :: T` the merge loop takes, then `D`; past the run, the slots hold `D`, whatever was
written below them. -/
theorem outerPass_split {n i : Nat} (rc : TrContext F) (list : TrList) (hi : i < n)
    (hnd : ((List.range' i (n - i)).map list.surfs).Nodup) :
    ∃ T D, (List.range' i (n - i)).map list.surfs = list.surfs i :: (T ++ D) ∧
      ((List.range' i (n - i)).map list.surfs).takeWhile (fun x =>
        x == list.surfs i || trCanMergeSurfs (rc.surfs (list.surfs i)) (rc.surfs x)) =
        list.surfs i :: T ∧
      mergeRuns (fun x => (rc.surfs x).params) ((List.range' i (n - i)).map list.surfs) =
        (list.surfs i :: T) :: mergeRuns (fun x => (rc.surfs x).params) D ∧
      ∀ j (f : Nat → Nat), j = i + 1 + T.length → (∀ x, j ≤ x → f x = list.surfs x) →
        (List.range' j (n - j)).map f = D := by
  set r := list.surfs i
  set es' := (List.range' (i + 1) (n - (i + 1))).map list.surfs
  set p := fun x => (rc.surfs x).params
  have hes : (List.range' i (n - i)).map list.surfs = r :: es' := by
    simp only [es', r, show n - i = n - (i + 1) + 1 by omega, List.range'_succ, List.map_cons]
  have hT : (es'.takeWhile fun x => p r == p x).length ≤ n - (i + 1) :=
    (List.takeWhile_sublist _).length_le.trans (by simp [es'])
  refine ⟨es'.takeWhile fun x => p r == p x, es'.dropWhile fun x => p r == p x,
    by rw [hes, List.takeWhile_append_dropWhile], ?_, by rw [hes, mergeRuns_cons],
    fun j f hj hf => ?_⟩
  · rw [hes]; exact takeWhile_merge_eq rc r es' (List.nodup_cons.1 (hes ▸ hnd)).1
  · obtain rfl : j = i + ((es'.takeWhile fun x => p r == p x).length + 1) := by omega
    calc (List.range' _ (n - _)).map f = (List.range' _ (n - _)).map list.surfs :=
          List.map_congr_left fun x hx => hf x (List.mem_range'_1.1 hx).1
      _ = ((List.range' i (n - i)).map list.surfs).drop
            ((es'.takeWhile fun x => p r == p x).length + 1) := by
          rw [map_range'_drop _ _ _ _ (by omega)]
      _ = _ := by rw [hes, List.drop_succ_cons, drop_length_takeWhile]

/-- A pass of the outer loop from `i < n` whose merge loop succeeds: the loop took the run
`r :: T`, counting one merge per entry of `T`, and the next pass reads `D`, whose runs are the
remaining ones, whatever the pass did to the run's root. -/
theorem outerPass_ok {n i m j m₁ fuel : Nat} {rc rc₁ : TrContext F} {list : TrList} (hi : i < n)
    (hnd : ((List.range' i (n - i)).map list.surfs).Nodup)
    (hf : (mergeRuns (fun x => (rc.surfs x).params)
      ((List.range' i (n - i)).map list.surfs)).length ≤ fuel + 1)
    (hr : trMergeRun lim list (list.surfs i) (n - i) i m rc = .ok (j, m₁, rc₁)) :
    ∃ T D, (List.range' i (n - i)).map list.surfs = list.surfs i :: (T ++ D) ∧
      ((List.range' i (n - i)).map list.surfs).takeWhile (fun x =>
        x == list.surfs i || trCanMergeSurfs (rc.surfs (list.surfs i)) (rc.surfs x)) =
        list.surfs i :: T ∧
      mergeRuns (fun x => (rc.surfs x).params) ((List.range' i (n - i)).map list.surfs) =
        (list.surfs i :: T) :: mergeRuns (fun x => (rc.surfs x).params) D ∧
      j = i + (T.length + 1) ∧ m₁ = m + T.length ∧ rc₁ = emitSurfs rc (list.surfs i :: T) ∧
      (List.range' j (n - j)).map (Function.update list.surfs (j - m₁ - 1) (list.surfs i)) = D ∧
      D.Nodup ∧
      (mergeRuns (fun x => ((applyRun rc (list.surfs i :: T)).surfs x).params) D).length ≤
        fuel := by
  obtain ⟨hj, hm₁, rfl⟩ := trMergeRun_eq lim list _ _ _ _ _ _ _ _ hr
  obtain ⟨T, D, hes, hpre, hruns, hnext⟩ := outerPass_split rc list hi hnd
  have hnd' := List.nodup_cons.1 (hes ▸ hnd)
  have hT : (list.surfs i :: T).filter (· != list.surfs i) = T := by
    rw [List.filter_cons_of_neg (by simp), List.filter_eq_self]
    intro x hx
    have : x ≠ list.surfs i := fun h => hnd'.1 (h ▸ List.mem_append_left D hx)
    simpa using this
  rw [hpre] at hj hm₁ ⊢
  rw [hT] at hm₁
  simp only [List.length_cons] at hj
  refine ⟨T, D, hes, rfl, hruns, hj, hm₁, rfl,
    hnext j _ (by omega) fun x hx => Function.update_noteq (by omega) _ _,
    hnd'.2.of_append_right, ?_⟩
  simpa [applyRun_params, hruns] using hf

/-- The outer loop: from slot `i` with `m` merges so far, it applies the runs of the remaining
entries in order, counts one merge per entry past each run's first, and moves the runs' first
entries to the slots from `i - m` on. -/
theorem trGenerateRuns_eq (n : Nat) :
    ∀ (fuel i m : Nat) (rc : TrContext F) (list : TrList) (m' : Nat) (rc' : TrContext F)
      (list' : TrList),
      let es := (List.range' i (n - i)).map list.surfs
      let runs := mergeRuns (fun x => (rc.surfs x).params) es
      es.Nodup → runs.length ≤ fuel → m ≤ i →
      trGenerateRuns lim n fuel i m rc list = .ok (m', rc', list') →
      rc' = runs.foldl applyRun rc ∧ m' + runs.length = m + es.length ∧
      list' = { list with surfs := list'.surfs } ∧
      ∀ t, list'.surfs t = if i - m ≤ t ∧ t < i - m + runs.length
        then (runs.map (·.headD 0)).getD (t - (i - m)) 0 else list.surfs t := by
  intro fuel
  induction fuel with
  | zero =>
    intro i m rc list m' rc' list' es runs _ hf _ h
    have hr : runs = [] := List.eq_nil_of_length_eq_zero (Nat.le_zero.1 hf)
    have he : es = [] := (mergeRuns_eq_nil _ _).1 hr
    simp only [trGenerateRuns, Except.ok.injEq, Prod.mk.injEq] at h
    obtain ⟨rfl, rfl, rfl⟩ := h
    simp only [hr, he, List.foldl_nil, List.length_nil, Nat.add_zero, true_and]
    exact fun t => by split_ifs <;> first | rfl | omega
  | succ fuel ih =>
    intro i m rc list m' rc' list' es runs hnd hf hm h
    simp only [trGenerateRuns] at h
    split_ifs at h with hi
    · obtain ⟨⟨j, m₁, rc₁⟩, hr, h⟩ := Except.bind_eq_ok.1 h
      obtain ⟨T, D, hes, -, hruns, hj, hm₁, rfl, hes₂, hndD, hf'⟩ := outerPass_ok lim hi hnd hf hr
      set r := list.surfs i
      have hes' : es = r :: (T ++ D) := hes
      have hruns' : runs = (r :: T) :: mergeRuns (fun x => (rc.surfs x).params) D := hruns
      dsimp only at h
      have hD : mergeRuns (fun x => ((applyRun rc (r :: T)).surfs x).params) D =
          mergeRuns (fun x => (rc.surfs x).params) D := by
        simp only [applyRun_params]
      obtain ⟨h1, h2, ho, h3⟩ := ih j m₁ (applyRun rc (r :: T)) _ m' rc' list'
        (by rw [hes₂]; exact hndD) (by rw [hes₂]; exact hf') (by omega) h
      rw [hes₂, hD] at h1 h2 h3
      refine ⟨by rw [h1, hruns', List.foldl_cons], ?_, ho, ?_⟩
      · rw [hruns', List.length_cons, hes', List.length_cons, List.length_append]; omega
      · intro t
        rw [h3, hruns', show j - m₁ = i - m + 1 by omega, Nat.add_sub_cancel, List.length_cons]
        dsimp only
        rcases Nat.lt_trichotomy t (i - m) with ht | rfl | ht
        · rw [if_neg (by omega), if_neg (by omega), Function.update_noteq (by omega)]
        · rw [if_neg (by omega), if_pos (by omega), Function.update_same, Nat.sub_self]; rfl
        · rw [Function.update_noteq (by omega), show t - (i - m) = t - (i - m + 1) + 1 by omega,
            List.map_cons, List.getD_cons_succ]
          split_ifs <;> first | rfl | omega
    · have he : es = [] := by simp [es, show n - i = 0 by omega]
      simp only [Except.ok.injEq, Prod.mk.injEq] at h
      obtain ⟨rfl, rfl, rfl⟩ := h
      simp only [runs, he, mergeRuns_nil, List.foldl_nil, List.length_nil, Nat.add_zero, true_and]
      exact fun t => by split_ifs <;> first | rfl | omega


/-- Index generation on a list of distinct entries: the runs are applied in order and the list
keeps the runs' first entries. -/
theorem trGenerateIndices_eq (rc rc' : TrContext F) (L : Nat) (hnd : (rc.lists L).entries.Nodup)
    (h : trGenerateIndices lim rc L = .ok rc') :
    let runs := mergeRuns (fun x => (rc.surfs x).params) (rc.lists L).entries
    ∃ list' : TrList, list'.entries = runs.map (·.headD 0) ∧
      list'.numOrigSurfs = (rc.lists L).numOrigSurfs ∧
      rc' = { runs.foldl applyRun rc with lists := Function.update rc.lists L list' } := by
  dsimp only
  obtain ⟨⟨m', rc₁, list₁⟩, hg, h⟩ := Except.bind_eq_ok.1 h
  have hes : (List.range' 0 ((rc.lists L).numSurfs - 0)).map (rc.lists L).surfs =
      (rc.lists L).entries := by
    rw [Nat.sub_zero, ← List.range_eq_range']; rfl
  obtain ⟨rfl, hm, ho, hs⟩ := trGenerateRuns_eq lim _ _ _ _ _ _ _ _ _
    (by rw [hes]; exact hnd) (by rw [hes]; exact (length_mergeRuns_le _ _).trans (by simp [TrList.entries]))
    (Nat.zero_le _) hg
  rw [hes] at hm hs
  simp only [Nat.sub_zero, Nat.zero_add, Nat.zero_sub] at hm hs
  have hn : list₁.numSurfs = (rc.lists L).numSurfs := by rw [ho]
  refine ⟨{ list₁ with numSurfs := (rc.lists L).numSurfs - m' }, ?_, by rw [ho], ?_⟩
  · have hR : (rc.lists L).numSurfs - m' =
        (mergeRuns (fun x => (rc.surfs x).params) (rc.lists L).entries).length := by
      have : (rc.lists L).entries.length = (rc.lists L).numSurfs := by simp [TrList.entries]
      omega
    refine List.ext_getElem (by simp [hR]) fun t h₁ h₂ => ?_
    rw [TrList.getElem_entries, hs t, if_pos ⟨Nat.zero_le _, by simpa using h₂⟩,
      List.getD_eq_getElem?_getD, List.getElem?_eq_getElem h₂]
    rfl
  · rw [hes] at h
    simp only [pure, Except.pure, Except.ok.injEq] at h
    have hl : (List.foldl applyRun rc (mergeRuns (fun x => (rc.surfs x).params)
        (rc.lists L).entries)).lists = rc.lists := by rw [foldl_applyRun_frame]
    rw [← h, hl, hn]

/-- Index generation appends the list's surfaces' triangles in list order, however the list
splits into runs. -/
theorem trGenerateIndices_indices (rc rc' : TrContext F) (L : Nat)
    (hnd : (rc.lists L).entries.Nodup) (h : trGenerateIndices lim rc L = .ok rc') :
    rc'.indices = writeIdx rc.indices rc.numIndices (listIndices rc (rc.lists L).entries) ∧
      rc'.numIndices = rc.numIndices + (listIndices rc (rc.lists L).entries).length := by
  obtain ⟨list', -, -, rfl⟩ := trGenerateIndices_eq lim rc rc' L hnd h
  have hflat := flatten_mergeRuns (fun x => (rc.surfs x).params) (rc.lists L).entries
  obtain ⟨h1, h2, -⟩ := foldl_applyRun _ rc (fun run hr => (mem_mergeRuns _ hr).1) (hflat ▸ hnd)
  rw [hflat] at h1 h2
  exact ⟨h1, h2⟩

/-! ## What the rest of the conversion sees -/

/-- Every index a surface emits names one of its vertices. -/
theorem mem_surfIndices {surf : TaSurface} {v : Nat} (h : v ∈ surfIndices surf) :
    surf.firstVert ≤ v ∧ v < surf.firstVert + surf.numVerts := by
  simp only [surfIndices, trisFrom, List.mem_flatMap, List.mem_range'_1] at h
  obtain ⟨t, ⟨-, ht⟩, hv⟩ := h
  simp only [triIndices, stripTri] at hv
  split_ifs at hv <;> simp only [List.mem_cons, List.mem_singleton, List.not_mem_nil, or_false] at hv <;>
    omega

theorem map_headD_sublist {runs : List (List Nat)} (h : ∀ run ∈ runs, run ≠ []) :
    (runs.map (·.headD 0)).Sublist runs.flatten := by
  induction runs with
  | nil => exact List.Sublist.slnil
  | cons run runs ih =>
    obtain ⟨a, r, rfl⟩ := List.exists_cons_of_ne_nil (h run (List.mem_cons_self _ _))
    exact ((ih fun r hr => h r (List.mem_cons_of_mem _ hr)).trans (List.sublist_append_right r _)).cons₂ a

theorem length_listIndices_take_le (rc : TrContext F) (runs : List (List Nat)) (t : Nat)
    (ht : t < runs.length) :
    (listIndices rc (runs.take t).flatten).length + (listIndices rc runs[t]).length ≤
      (listIndices rc runs.flatten).length := by
  conv_rhs => rw [← List.take_append_drop t runs, ← List.getElem_cons_drop runs t ht]
  simp only [List.flatten_append, List.flatten_cons, listIndices, List.flatMap_append,
    List.length_append]
  omega

/-- Index generation of a list of distinct entries, as the rest of the conversion sees it: the
list keeps a sublist of its entries, each pointed inside the indices, and no other list, no other
surface, and no counter but `num_indices` changes. -/
theorem trGenerateIndices_listed (rc rc' : TrContext F) (L : Nat)
    (hnd : (rc.lists L).entries.Nodup) (h : trGenerateIndices lim rc L = .ok rc') :
    (rc'.lists L).entries.Sublist (rc.lists L).entries ∧
      (∀ L', L' ≠ L → rc'.lists L' = rc.lists L') ∧
      (∀ x ∉ (rc.lists L).entries, rc'.surfs x = rc.surfs x) ∧
      (∀ x ∈ (rc'.lists L).entries,
        (rc'.surfs x).firstVert + (rc'.surfs x).numVerts ≤ rc'.numIndices) ∧
      rc'.numSurfs = rc.numSurfs ∧ rc'.numVerts = rc.numVerts ∧ rc'.verts = rc.verts := by
  obtain ⟨list', hent, -, rfl⟩ := trGenerateIndices_eq lim rc rc' L hnd h
  set runs := mergeRuns (fun x => (rc.surfs x).params) (rc.lists L).entries
  have hflat : runs.flatten = (rc.lists L).entries := flatten_mergeRuns _ _
  have hne : ∀ run ∈ runs, run ≠ [] := fun run hr => (mem_mergeRuns _ hr).1
  have hsub : (runs.map (·.headD 0)).Sublist (rc.lists L).entries := hflat ▸ map_headD_sublist hne
  obtain ⟨-, h2, h3, h4⟩ := foldl_applyRun runs rc hne (hflat ▸ hnd)
  have hframe := foldl_applyRun_frame runs rc
  dsimp only at hframe
  have hS := congrArg TrContext.numSurfs hframe
  have hN := congrArg TrContext.numVerts hframe
  have hV := congrArg TrContext.verts hframe
  refine ⟨by simpa [hent] using hsub, fun L' hL' => Function.update_noteq hL' _ _,
    fun x hx => h3 x fun hm => hx (hsub.subset hm), fun x hx => ?_, hS, hN, hV⟩
  simp only [Function.update_same, hent] at hx
  obtain ⟨t, ht, rfl⟩ := List.getElem_of_mem hx
  rw [List.length_map] at ht
  simp only [List.getElem_map, h4 t ht, h2]
  have := length_listIndices_take_le rc runs t ht
  omega

/-! ## The vertex array is never read -/

theorem trEmitTris_verts (surf : TaSurface) (k j : Nat) (rc : TrContext F) (V : Nat → TaVertex F) :
    trEmitTris surf k j { rc with verts := V } = { trEmitTris surf k j rc with verts := V } := by
  rw [trEmitTris_eq, trEmitTris_eq]

theorem trMergeRun_verts (list : TrList) (r : Nat) (V : Nat → TaVertex F) :
    ∀ (k j m : Nat) (rc : TrContext F), trMergeRun lim list r k j m { rc with verts := V } =
      (trMergeRun lim list r k j m rc).map fun x => (x.1, x.2.1, { x.2.2 with verts := V })
  | 0, _, _, _ => rfl
  | k + 1, j, m, rc => by
    simp only [trMergeRun, trEmitTris_verts, trMergeRun_verts list r V k]
    split_ifs <;> rfl

theorem trGenerateRuns_verts (n : Nat) (V : Nat → TaVertex F) :
    ∀ (fuel i m : Nat) (rc : TrContext F) (list : TrList),
      trGenerateRuns lim n fuel i m { rc with verts := V } list =
        (trGenerateRuns lim n fuel i m rc list).map fun x => (x.1, { x.2.1 with verts := V }, x.2.2)
  | 0, _, _, _, _ => rfl
  | fuel + 1, i, m, rc, list => by
    simp only [trGenerateRuns]
    split_ifs
    · rw [trMergeRun_verts]
      cases trMergeRun lim list (list.surfs i) (n - i) i m rc with
      | error e => rfl
      | ok x => exact trGenerateRuns_verts n V fuel x.1 x.2.1 { x.2.2 with surfs := _ } _
    · rfl

/-- Index generation from a context with another vertex array does the same. -/
theorem trGenerateIndices_verts (rc : TrContext F) (L : Nat) (V : Nat → TaVertex F) :
    trGenerateIndices lim { rc with verts := V } L =
      (trGenerateIndices lim rc L).map ({ · with verts := V }) := by
  simp only [trGenerateIndices]
  rw [trGenerateRuns_verts]
  cases trGenerateRuns lim _ _ 0 0 rc _ with
  | error e => rfl
  | ok x => rfl

/-! ## The result -/

/-- The maximal runs of list `L`'s entries with equal params. -/
def listRuns (rc : TrContext F) (L : Nat) : List (List Nat) :=
  mergeRuns (fun x => (rc.surfs x).params) (rc.lists L).entries

/-- The indices the runs of list `L` emit, run after run. -/
def runsIndices (rc : TrContext F) (L : Nat) : List Nat := (listRuns rc L).flatMap (listIndices rc)

/-- What index generation makes of list `L` of `rc`. The runs are the list's maximal runs of
entries with equal params; the list keeps each run's first entry, and no two in a row have equal
params; each run's surfaces append their strips' triangles after the indices already there, and
the run's first surface is pointed at what the run appended; no params change. -/
structure MergedRuns (rc rc' : TrContext F) (L : Nat) : Prop where
  flatten_runs : (listRuns rc L).flatten = (rc.lists L).entries
  runs_params : ∀ run ∈ listRuns rc L, run ≠ [] ∧
    ∀ x ∈ run, (rc.surfs x).params = (rc.surfs (run.headD 0)).params
  entries : (rc'.lists L).entries = (listRuns rc L).map (·.headD 0)
  numSurfs : (rc'.lists L).numSurfs = (listRuns rc L).length
  chain : List.Chain' (fun a b => (rc'.surfs a).params ≠ (rc'.surfs b).params) (rc'.lists L).entries
  numIndices : rc'.numIndices = rc.numIndices + (runsIndices rc L).length
  indices_old : ∀ x < rc.numIndices, rc'.indices x = rc.indices x
  indices_new : ∀ k (hk : k < (runsIndices rc L).length),
    rc'.indices (rc.numIndices + k) = (runsIndices rc L)[k]
  root_firstVert : ∀ t (ht : t < (listRuns rc L).length),
    (rc'.surfs ((listRuns rc L)[t].headD 0)).firstVert =
      rc.numIndices + (((listRuns rc L).take t).flatMap (listIndices rc)).length
  root_numVerts : ∀ t (ht : t < (listRuns rc L).length),
    (rc'.surfs ((listRuns rc L)[t].headD 0)).numVerts = (listIndices rc (listRuns rc L)[t]).length
  three_dvd_numVerts : ∀ x ∈ (rc'.lists L).entries, 3 ∣ (rc'.surfs x).numVerts
  sum_numVerts :
    ((rc'.lists L).entries.map fun x => (rc'.surfs x).numVerts).sum = (runsIndices rc L).length
  params : ∀ x, (rc'.surfs x).params = (rc.surfs x).params

theorem trGenerateIndices_mergedRuns (rc rc' : TrContext F) (L : Nat)
    (hnd : (rc.lists L).entries.Nodup) (h : trGenerateIndices lim rc L = .ok rc') :
    MergedRuns rc rc' L := by
  obtain ⟨list', hent, -, rfl⟩ := trGenerateIndices_eq lim rc rc' L hnd h
  rw [show mergeRuns (fun x => (rc.surfs x).params) (rc.lists L).entries = listRuns rc L
    from rfl] at hent ⊢
  set runs := listRuns rc L with hruns
  have hflat : runs.flatten = (rc.lists L).entries := flatten_mergeRuns _ _
  have hmem : ∀ run ∈ runs, run ≠ [] ∧
      ∀ x ∈ run, (rc.surfs x).params = (rc.surfs (run.headD 0)).params :=
    fun run hr => mem_mergeRuns _ hr
  obtain ⟨h1, h2, -, h4⟩ := foldl_applyRun runs rc (fun run hr => (hmem run hr).1) (hflat ▸ hnd)
  rw [listIndices_flatten] at h1 h2
  have hparams := foldl_applyRun_params runs rc
  have hroot : ∀ t (ht : t < runs.length),
      ((runs.foldl applyRun rc).surfs (runs[t].headD 0)).numVerts = (listIndices rc runs[t]).length :=
    fun t ht => by rw [h4 t ht]
  have hlen : (list'.entries.map fun x => ((runs.foldl applyRun rc).surfs x).numVerts) =
      runs.map fun run => (listIndices rc run).length :=
    List.ext_getElem (by simp [hent]) fun t h₁ _ => by
      simp only [List.getElem_map, hent]; exact hroot t (by simpa [hent] using h₁)
  refine ⟨hflat, hmem, ?_, ?_, ?_, ?_, ?_, ?_, ?_, ?_, ?_, ?_, ?_⟩ <;>
    simp only [Function.update_same, runsIndices, ← hruns]
  · exact hent
  · rw [← TrList.length_entries, hent, List.length_map]
  · rw [hent]; simpa only [hparams] using chain_mergeRuns _ (rc.lists L).entries
  · exact h2
  · intro x hx; rw [h1, writeIdx_apply, if_neg (by omega)]
  · intro k hk
    rw [h1, writeIdx_apply, if_pos (by omega), Nat.add_sub_cancel_left,
      List.getD_eq_getElem?_getD, List.getElem?_eq_getElem hk]
    rfl
  · intro t ht; rw [h4 t ht, listIndices_flatten]
  · exact hroot
  · intro x hx
    obtain ⟨t, ht, rfl⟩ := List.getElem_of_mem (hent ▸ hx)
    simp only [List.getElem_map]
    rw [hroot t (by simpa using ht)]
    exact three_dvd_length_listIndices rc _
  · rw [hlen, List.flatMap_def, List.length_flatten, List.map_map]; rfl
  · exact hparams

/-- List 0 holds surfaces 0, 1, 2, each a strip of four vertices; 0 and 1 share their params. -/
def threeStrips : TrContext Nat where
  width := 0
  height := 0
  surfs x := ⟨{ SurfaceParams.zero with depthWrite := x == 2 }, 0, 4 * x, 4⟩
  numSurfs := 3
  verts _ := ⟨⟨0, 0, 0⟩, ⟨0, 0⟩, .zero, .zero⟩
  numVerts := 12
  indices _ := 0
  numIndices := 0
  lists _ := ⟨id, 3, 3⟩
  params _ := ⟨0, 0, 0, 0, 0⟩
  numParams := 0

theorem trGenerateIndices_threeStrips :
    ∃ rc', trGenerateIndices ⟨8, 16, 24, 8⟩ threeStrips 0 = .ok rc' ∧ MergedRuns threeStrips rc' 0 :=
  ⟨_, rfl, trGenerateIndices_mergedRuns ⟨8, 16, 24, 8⟩ threeStrips _ 0 (by decide) rfl⟩

end Redream
