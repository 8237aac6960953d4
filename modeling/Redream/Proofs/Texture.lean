import Redream.Tr.Texture

/-!
# The texture cache owns each live texture once

Between two calls of `tr_convert_texture` the host may mark entries dirty; nothing else touches
the cache. Over every run of calls and marks, `CacheInv` holds: the backend log only destroys live
textures (so none twice), every entry's nonzero handle is live and is no other entry's, and every
live texture is some entry's. `texCache_contract` collects this with the step facts: a texture is
destroyed only when its entry is dirty and gets a new texture in the same call, a clean entry's
handle comes back with no backend call, and with no mark on an entry all calls on it return one
handle.
-/

namespace Redream

variable {F : Type} (host : TexHost) (fe : TaFrontEnd)

/-- What happens to the cache between the core's calls: a call of `tr_convert_texture`, or the
host marking an entry dirty. -/
inductive TexEvent (F : Type) where
  | convert (ctx : TaContext F) (tsp : Tsp) (tcw : Tcw)
  | markDirty (key : Tsp × Tcw)

def markDirty (w : TexWorld) (k : Tsp × Tcw) : TexWorld :=
  { w with cache := Function.update w.cache k { w.cache k with dirty := true } }

/-- One event; a call reports its key and the handle it returned. -/
def texStep (w : TexWorld) : TexEvent F → Option ((Tsp × Tcw) × Nat) × TexWorld
  | .convert ctx tsp tcw =>
    let r := trConvertTexture host fe ctx tsp tcw w
    (some ((tsp, tcw), r.1), r.2)
  | .markDirty k => (none, markDirty w k)

/-- A run of events: the keys and handles the calls returned, in order, and the last world. -/
def texRun : TexWorld → List (TexEvent F) → List ((Tsp × Tcw) × Nat) × TexWorld
  | w, [] => ([], w)
  | w, e :: es =>
    let r := texStep host fe w e
    let rs := texRun r.2 es
    (r.1.toList ++ rs.1, rs.2)

/-! ## The backend log -/

/-- A log in which every texture is created with a nonzero handle that is not live, and only live
textures are destroyed: so no texture is destroyed twice. -/
def LogWf : List TexCall → Prop
  | [] => True
  | .create h _ :: log => LogWf log ∧ h ≠ 0 ∧ h ∉ liveOf log
  | .destroy h :: log => LogWf log ∧ h ∈ liveOf log

theorem LogWf.live {log : List TexCall} (h : LogWf log) : (liveOf log).Nodup ∧ 0 ∉ liveOf log := by
  induction log with
  | nil => simp [liveOf]
  | cons c log ih =>
    cases c with
    | create x d =>
      obtain ⟨hw, hx, hn⟩ := h
      obtain ⟨hnd, h0⟩ := ih hw
      exact ⟨List.nodup_cons.2 ⟨hn, hnd⟩, by simp [Ne.symm hx, h0]⟩
    | destroy x =>
      obtain ⟨hnd, h0⟩ := ih h.1
      exact ⟨hnd.erase x, fun h' => h0 (List.mem_of_mem_erase h')⟩

/-! ## The invariant -/

/-- Every entry owns at most one live texture, its nonzero handle, and no live texture is
unowned. -/
structure CacheInv (w : TexWorld) : Prop where
  log : LogWf w.calls
  owned : ∀ k, (w.cache k).handle ≠ 0 → (w.cache k).handle ∈ liveOf w.calls
  unique : ∀ k k', (w.cache k).handle ≠ 0 → (w.cache k).handle = (w.cache k').handle → k = k'
  no_leak : ∀ h ∈ liveOf w.calls, ∃ k, (w.cache k).handle = h

/-- What one call does: a clean entry's handle is returned with the world unchanged; otherwise
the entry's old texture, if any, is destroyed, a new one is created and becomes the entry's clean
handle, and no other entry changes. -/
theorem trConvertTexture_cases (ctx : TaContext F) (tsp : Tsp) (tcw : Tcw) (w : TexWorld) :
    let e := w.cache (tsp, tcw)
    let r := trConvertTexture host fe ctx tsp tcw w
    (e.handle ≠ 0 ∧ e.dirty = false ∧ r = (e.handle, w)) ∨
      ((e.handle = 0 ∨ e.dirty = true) ∧
        let calls := if e.handle ≠ 0 then .destroy e.handle :: w.calls else w.calls
        r.1 = host.alloc calls ∧ (∃ d, r.2.calls = .create r.1 d :: calls) ∧
        (r.2.cache (tsp, tcw)).handle = r.1 ∧ (r.2.cache (tsp, tcw)).dirty = false ∧
        ∀ k ≠ (tsp, tcw), r.2.cache k = w.cache k) := by
  intro e r
  by_cases hc : e.handle ≠ 0 ∧ e.dirty = false
  · exact .inl ⟨hc.1, hc.2, if_pos hc⟩
  · refine .inr ⟨?_, ?_⟩
    · by_cases h0 : e.handle = 0
      · exact .inl h0
      · exact .inr (by simpa [h0] using hc)
    · simp only [r, trConvertTexture, if_neg hc]
      split_ifs with h1 h2 h2
      · exact ⟨rfl, ⟨_, rfl⟩, by simp, by simp, fun k hk => Function.update_noteq hk _ _⟩
      · exact absurd h1.1 h2
      · exact absurd ⟨h2, by simpa [h2] using hc⟩ h1
      · exact ⟨rfl, ⟨_, rfl⟩, by simp, by simp, fun k hk => Function.update_noteq hk _ _⟩

@[simp] theorem markDirty_calls (w : TexWorld) (k : Tsp × Tcw) : (markDirty w k).calls = w.calls :=
  rfl

@[simp] theorem markDirty_handle (w : TexWorld) (k k' : Tsp × Tcw) :
    ((markDirty w k).cache k').handle = (w.cache k').handle := by
  by_cases h : k' = k
  · subst h; simp [markDirty]
  · simp [markDirty, Function.update_noteq h]

theorem CacheInv.markDirty {w : TexWorld} (hw : CacheInv w) (k : Tsp × Tcw) :
    CacheInv (markDirty w k) :=
  ⟨by simpa using hw.log, fun k' => by simpa using hw.owned k',
    fun a b => by simpa using hw.unique a b, fun h hh => by simpa using hw.no_leak h (by simpa using hh)⟩

/-- After destroying the entry's old texture, the live textures are the others. -/
theorem mem_liveOf_destroyed {w : TexWorld} (hw : CacheInv w) (old x : Nat)
    (hold : old ≠ 0 → old ∈ liveOf w.calls) :
    x ∈ liveOf (if old ≠ 0 then .destroy old :: w.calls else w.calls) ↔
      x ∈ liveOf w.calls ∧ x ≠ old := by
  obtain ⟨hnd, h0⟩ := hw.log.live
  by_cases ho : old = 0
  · subst ho
    simp only [ne_eq, not_true_eq_false, if_false, iff_self_and]
    exact fun hx h => h0 (h ▸ hx)
  · simp only [ne_eq, ho, not_false_eq_true, if_true, liveOf_destroy, hnd.mem_erase_iff, and_comm]

/-- A call keeps the invariant. -/
theorem CacheInv.convert {w : TexWorld} (hw : CacheInv w) (ctx : TaContext F) (tsp : Tsp)
    (tcw : Tcw) : CacheInv (trConvertTexture host fe ctx tsp tcw w).2 := by
  rcases trConvertTexture_cases host fe ctx tsp tcw w with
    ⟨-, -, hr⟩ | ⟨-, halloc, ⟨d, hcalls⟩, hh, -, hother⟩
  · rw [hr]; exact hw
  set k := (tsp, tcw)
  set old := (w.cache k).handle
  set r := trConvertTexture host fe ctx tsp tcw w
  have hold : old ≠ 0 → old ∈ liveOf w.calls := hw.owned k
  have hlive := mem_liveOf_destroyed hw old
  have hfresh : r.1 ≠ 0 ∧ r.1 ∉ liveOf (if old ≠ 0 then .destroy old :: w.calls else w.calls) :=
    halloc ▸ ⟨host.alloc_ne_zero _, host.alloc_not_live _⟩
  have hkept : ∀ k' ≠ k, (w.cache k').handle ≠ 0 →
      (w.cache k').handle ∈ liveOf (if old ≠ 0 then .destroy old :: w.calls else w.calls) :=
    fun k' hk h0 => (hlive _ hold).2 ⟨hw.owned k' h0, fun he => hk (hw.unique k' k h0 he)⟩
  refine ⟨?_, fun k' h0 => ?_, fun a b h0 hab => ?_, fun x hx => ?_⟩
  · rw [hcalls]
    refine ⟨?_, hfresh⟩
    by_cases ho : old = 0
    · simpa [ho] using hw.log
    · simpa [ho] using ⟨hw.log, hold ho⟩
  · rw [hcalls, liveOf_create]
    by_cases hk : k' = k
    · subst hk; rw [hh]; exact List.mem_cons_self _ _
    · rw [hother k' hk] at h0 ⊢; exact List.mem_cons_of_mem _ (hkept k' hk h0)
  · by_cases ha : a = k <;> by_cases hb : b = k
    · rw [ha, hb]
    · subst ha; rw [hh, hother b hb] at hab; rw [hh] at h0
      exact absurd (hab ▸ hkept b hb (hab ▸ h0)) hfresh.2
    · subst hb; rw [hh, hother a ha] at hab; rw [hother a ha] at h0
      exact absurd (hab ▸ hkept a ha h0) hfresh.2
    · rw [hother a ha, hother b hb] at hab; rw [hother a ha] at h0
      exact hw.unique a b h0 hab
  · rw [hcalls, liveOf_create, List.mem_cons] at hx
    rcases hx with rfl | hx
    · exact ⟨k, hh⟩
    · obtain ⟨hx, hne⟩ := (hlive x hold).1 hx
      obtain ⟨k', rfl⟩ := hw.no_leak x hx
      have hk : k' ≠ k := fun h => hne (h ▸ rfl)
      exact ⟨k', by rw [hother k' hk]⟩

theorem CacheInv.texStep {w : TexWorld} (hw : CacheInv w) (e : TexEvent F) :
    CacheInv (texStep host fe w e).2 := by
  cases e with
  | convert ctx tsp tcw => exact hw.convert host fe ctx tsp tcw
  | markDirty k => exact hw.markDirty k

theorem CacheInv.texRun {w : TexWorld} (hw : CacheInv w) (evs : List (TexEvent F)) :
    CacheInv (texRun host fe w evs).2 := by
  induction evs generalizing w with
  | nil => exact hw
  | cons e es ih => exact ih (hw.texStep host fe e)

/-- A cache with no handles and an empty log satisfies the invariant. -/
theorem CacheInv.init (cache : Tsp × Tcw → TrTexture) (h0 : ∀ k, (cache k).handle = 0) :
    CacheInv ⟨cache, []⟩ :=
  ⟨trivial, fun k h => absurd (h0 k) h, fun k _ h => absurd (h0 k) h, fun _ h => by simp [liveOf] at h⟩

/-! ## One entry between two marks -/

/-- After a call on an entry, the entry is clean and holds the nonzero handle the call returned. -/
theorem trConvertTexture_clean (ctx : TaContext F) (tsp : Tsp) (tcw : Tcw) (w : TexWorld) :
    let r := trConvertTexture host fe ctx tsp tcw w
    (r.2.cache (tsp, tcw)).handle = r.1 ∧ (r.2.cache (tsp, tcw)).dirty = false ∧ r.1 ≠ 0 := by
  rcases trConvertTexture_cases host fe ctx tsp tcw w with
    ⟨h0, hd, hr⟩ | ⟨-, halloc, -, hh, hd, -⟩
  · simp only [hr]; exact ⟨trivial, hd, h0⟩
  · exact ⟨hh, hd, halloc ▸ host.alloc_ne_zero _⟩

/-- A clean entry with a nonzero handle is returned as it is, with no backend call. -/
theorem texStep_clean_hit (w : TexWorld) (ctx : TaContext F) (tsp : Tsp) (tcw : Tcw)
    (h0 : (w.cache (tsp, tcw)).handle ≠ 0) (hd : (w.cache (tsp, tcw)).dirty = false) :
    texStep host fe w (.convert ctx tsp tcw) = (some ((tsp, tcw), (w.cache (tsp, tcw)).handle), w) := by
  simp only [texStep, trConvertTexture, if_pos (And.intro h0 hd)]

/-- An event other than a mark of `k` leaves a clean entry `k` as it is, and a call on it returns
its handle. -/
theorem texStep_keeps_clean (k : Tsp × Tcw) (w : TexWorld) (e : TexEvent F)
    (h0 : (w.cache k).handle ≠ 0) (hd : (w.cache k).dirty = false) (he : e ≠ .markDirty k) :
    (texStep host fe w e).2.cache k = w.cache k ∧
      ∀ p ∈ (texStep host fe w e).1, p.1 = k → p.2 = (w.cache k).handle := by
  cases e with
  | convert ctx tsp tcw =>
    by_cases hk : (tsp, tcw) = k
    · subst hk; rw [texStep_clean_hit host fe w ctx tsp tcw h0 hd]; simp
    · rcases trConvertTexture_cases host fe ctx tsp tcw w with
        ⟨-, -, hr⟩ | ⟨-, -, -, -, -, hother⟩
      · simp only [texStep, hr]; simp [hk]
      · simp only [texStep]; exact ⟨hother k (Ne.symm hk), by simp [hk]⟩
  | markDirty k' =>
    have hk : k ≠ k' := fun h => he (h ▸ rfl)
    simp [texStep, markDirty, Function.update_noteq hk]

theorem texRun_keeps_clean (k : Tsp × Tcw) :
    ∀ (w : TexWorld) (evs : List (TexEvent F)), (w.cache k).handle ≠ 0 →
      (w.cache k).dirty = false → (∀ e ∈ evs, e ≠ .markDirty k) →
      ∀ p ∈ (texRun host fe w evs).1, p.1 = k → p.2 = (w.cache k).handle
  | _, [], _, _, _ => by simp [texRun]
  | w, e :: es, h0, hd, he => by
    obtain ⟨hc, hr⟩ := texStep_keeps_clean host fe k w e h0 hd (he e (List.mem_cons_self _ _))
    have ih := texRun_keeps_clean k _ es (hc ▸ h0) (hc ▸ hd) fun e' he' =>
      he e' (List.mem_cons_of_mem _ he')
    rw [hc] at ih
    intro p hp
    simp only [texRun, List.mem_append, Option.mem_toList] at hp
    rcases hp with hp | hp
    · exact hr p hp
    · exact ih p hp

/-- With no mark of `k` in a run, every call on `k` returns the same handle. -/
theorem texRun_same_handle (k : Tsp × Tcw) :
    ∀ (w : TexWorld) (evs : List (TexEvent F)), (∀ e ∈ evs, e ≠ .markDirty k) →
      ∀ p ∈ (texRun host fe w evs).1, ∀ q ∈ (texRun host fe w evs).1, p.1 = k → q.1 = k → p.2 = q.2
  | _, [], _ => by simp [texRun]
  | w, e :: es, he => by
    have hes : ∀ e' ∈ es, e' ≠ .markDirty k := fun e' h => he e' (List.mem_cons_of_mem _ h)
    have key : ∀ p ∈ (texStep host fe w e).1, p.1 = k →
        ∀ q ∈ (texRun host fe (texStep host fe w e).2 es).1, q.1 = k → q.2 = p.2 := by
      intro p hp hpk
      cases e with
      | convert ctx tsp tcw =>
        simp only [texStep, Option.mem_def, Option.some.injEq] at hp
        subst hp; subst hpk
        obtain ⟨hh, hd, h0⟩ := trConvertTexture_clean host fe ctx tsp tcw w
        have := texRun_keeps_clean host fe (tsp, tcw) _ es (hh ▸ h0) hd hes
        rw [hh] at this
        exact this
      | markDirty k' => simp [texStep] at hp
    simp only [texRun, List.mem_append, Option.mem_toList]
    rintro p (hp | hp) q (hq | hq) hpk hqk
    · rw [Option.mem_def] at hp hq; rw [hp] at hq; cases hq; rfl
    · exact (key p hp hpk q hq hqk).symm
    · exact key q hq hqk p hp hpk
    · exact texRun_same_handle k _ es hes p hp q hq hpk hqk

/-! ## Destroying -/

/-- A step destroys a texture only when it is a call on the entry holding it, dirty, and the same
call creates the entry's new texture. -/
theorem texStep_destroy (w : TexWorld) (e : TexEvent F) (h : Nat)
    (hd : TexCall.destroy h ∈ (texStep host fe w e).2.calls) :
    TexCall.destroy h ∈ w.calls ∨ ∃ ctx tsp tcw, e = .convert ctx tsp tcw ∧
      (w.cache (tsp, tcw)).handle = h ∧ (w.cache (tsp, tcw)).dirty = true ∧
      ∃ d, (texStep host fe w e).2.calls =
        .create ((texStep host fe w e).2.cache (tsp, tcw)).handle d :: .destroy h :: w.calls := by
  cases e with
  | markDirty k => exact .inl (by simpa [texStep] using hd)
  | convert ctx tsp tcw =>
    simp only [texStep] at hd ⊢
    rcases trConvertTexture_cases host fe ctx tsp tcw w with
      ⟨-, -, hr⟩ | ⟨hmiss, -, ⟨d, hcalls⟩, hh, -, -⟩
    · rw [hr] at hd; exact .inl hd
    · rw [hcalls] at hd
      rcases List.mem_cons.1 hd with hd | hd
      · cases hd
      by_cases h0 : (w.cache (tsp, tcw)).handle = 0
      · rw [if_neg (not_not.2 h0)] at hd; exact .inl hd
      · rw [if_pos h0, List.mem_cons] at hd
        rcases hd with hd | hd
        · cases hd
          refine .inr ⟨ctx, tsp, tcw, rfl, rfl, hmiss.resolve_left h0, d, ?_⟩
          rw [hcalls, hh, if_pos h0]
        · exact .inl hd

/-! ## The contract -/

/-- The cache's contract over every run of calls and marks. -/
structure TexCacheContract (F : Type) (host : TexHost) (fe : TaFrontEnd) : Prop where
  init : ∀ cache : Tsp × Tcw → TrTexture, (∀ k, (cache k).handle = 0) → CacheInv ⟨cache, []⟩
  inv : ∀ (w : TexWorld) (evs : List (TexEvent F)), CacheInv w → CacheInv (texRun host fe w evs).2
  destroy_dirty : ∀ (w : TexWorld) (e : TexEvent F) (h : Nat),
    TexCall.destroy h ∈ (texStep host fe w e).2.calls →
      TexCall.destroy h ∈ w.calls ∨ ∃ ctx tsp tcw, e = .convert ctx tsp tcw ∧
        (w.cache (tsp, tcw)).handle = h ∧ (w.cache (tsp, tcw)).dirty = true ∧
        ∃ d, (texStep host fe w e).2.calls =
          .create ((texStep host fe w e).2.cache (tsp, tcw)).handle d :: .destroy h :: w.calls
  clean_hit : ∀ (w : TexWorld) (ctx : TaContext F) (tsp : Tsp) (tcw : Tcw),
    (w.cache (tsp, tcw)).handle ≠ 0 → (w.cache (tsp, tcw)).dirty = false →
      texStep host fe w (.convert ctx tsp tcw) = (some ((tsp, tcw), (w.cache (tsp, tcw)).handle), w)
  same_handle : ∀ (w : TexWorld) (evs : List (TexEvent F)) (k : Tsp × Tcw),
    (∀ e ∈ evs, e ≠ .markDirty k) →
      ∀ p ∈ (texRun host fe w evs).1, ∀ q ∈ (texRun host fe w evs).1, p.1 = k → q.1 = k → p.2 = q.2

theorem texCache_contract : TexCacheContract F host fe :=
  ⟨CacheInv.init, fun _ evs hw => hw.texRun host fe evs, texStep_destroy host fe,
    texStep_clean_hit host fe, fun w evs k => texRun_same_handle host fe k w evs⟩

end Redream
