import Redream.Tr.Parse

/-!
# The sprite's missing corner

A sprite arrives as four corners `a, b, c, d`, of which `d` has only `x` and `y`.
`tr_parse_vert_param` takes the plane through `a`, `b`, `c` from the normal
`n = (a - b) × (c - b)`, normalised, and solves `dot(n, p) = dot(n, b)` for `d`'s depth; it takes
`d`'s UV as `b + (a - b) + (c - b)`. In exact arithmetic (`ExactOps`) this is what the source's
comment derives: whenever the sprite is kept, `d` has the parameter's `x` and `y`, lies on the
plane of the other three corners, and its UV is the fourth corner `a + c - b` of the parallelogram
on them. The normalisation only scales the normal, so this holds whatever `sqrt` computes.
-/

namespace Redream

/-- Float operations that are a field's own: `+`, `-`, `*` and `/` are exact, `eq` is equality
and the word 0 reads as 0. -/
structure ExactOps {K : Type} [Field K] [DecidableEq K] (fp : FloatOps K) : Prop where
  add : ∀ a b, fp.add a b = a + b
  sub : ∀ a b, fp.sub a b = a - b
  mul : ∀ a b, fp.mul a b = a * b
  div : ∀ a b, fp.div a b = a / b
  eq : ∀ a b, fp.eq a b = decide (a = b)
  zero : fp.ofBits 0 = 0

section Exact

variable {K : Type} [Field K] [DecidableEq K] {fp : FloatOps K}

/-- The depth the sprite code solves for: with the normal `n` scaled by `l ≠ 0` to `m`, and
`m.z ≠ 0`, the point with `x`, `y` and depth `(m·b - m.x x - m.y y) / m.z` lies on the plane of
normal `n` through `b`. -/
theorem vec3Dot_solveDepth (hfp : ExactOps fp) (n b : Vec3 K) (l x y : K) (hl : l ≠ 0)
    (hz : fp.div n.z l ≠ 0) :
    let m : Vec3 K := ⟨fp.div n.x l, fp.div n.y l, fp.div n.z l⟩
    vec3Dot fp n ⟨x, y, fp.div (fp.sub (fp.sub (vec3Dot fp m b) (fp.mul m.x x)) (fp.mul m.y y)) m.z⟩ =
      vec3Dot fp n b := by
  obtain ⟨nx, ny, nz⟩ := n
  simp only [vec3Dot, hfp.add, hfp.sub, hfp.mul, hfp.div] at hz ⊢
  have hnz : nz ≠ 0 := (div_ne_zero_iff.1 hz).1
  field_simp

/-- In exact arithmetic a kept sprite's fourth corner has the parameter's `x` and `y`, lies on the
plane through the other three, and completes the parallelogram of their UVs. -/
theorem trSpriteVerts_coplanar (hfp : ExactOps fp) {tr : Tr} {p : TaParam K}
    {va vb vc vd : TaVertex K} (h : trSpriteVerts fp tr p = ((va, vb, vd, vc), true)) :
    let n := vec3Cross fp (vec3Sub fp va.xyz vb.xyz) (vec3Sub fp vc.xyz vb.xyz)
    vd.xyz.x = (p.spriteXyz 3).x ∧ vd.xyz.y = (p.spriteXyz 3).y ∧
      vec3Dot fp n vd.xyz = vec3Dot fp n vb.xyz ∧
      vd.uv = vec2Sub fp (vec2Add fp va.uv vc.uv) vb.uv := by
  simp only [trSpriteVerts, vec3Normalize] at h
  split_ifs at h with hdeg
  · exact absurd (congrArg Prod.snd h) Bool.false_ne_true
  simp only [Prod.mk.injEq, and_true] at h
  obtain ⟨rfl, rfl, rfl, rfl⟩ := h
  simp only [Bool.or_eq_true, hfp.eq, hfp.zero, decide_eq_true_eq, not_or] at hdeg
  refine ⟨rfl, rfl, vec3Dot_solveDepth hfp _ _ _ _ _ hdeg.1 hdeg.2, ?_⟩
  simp only [vec2Add, vec2Sub, hfp.add, hfp.sub]
  congr 1 <;> ring

end Exact

/-- The value of the single-precision float with bits `u`, exactly; the exponent 255 of the
infinities and NaNs reads as an ordinary one. -/
def floatBitsToRat (u : UInt32) : ℚ :=
  let e := (u.toNat >>> 23) % 256
  let m : ℚ := (u.toNat % 2 ^ 23 : Nat)
  let v := if e = 0 then m / 2 ^ 149 else (m + 2 ^ 23) * 2 ^ e / 2 ^ 150
  if u.toNat < 2 ^ 31 then v else -v

/-- Exact rational arithmetic as a carrier of `FloatOps`: a word reads as the value of its float,
`sqrt` is `Rat.sqrt`, and `(int32_t)` truncates toward zero. -/
def ratOps : FloatOps ℚ where
  ofBits := floatBitsToRat
  add := (· + ·)
  sub := (· - ·)
  mul := (· * ·)
  div := (· / ·)
  sqrt := Rat.sqrt
  eq a b := decide (a = b)
  lt a b := decide (a < b)
  le a b := decide (a ≤ b)
  toInt32 q := q.num.tdiv q.den

theorem floatBitsToRat_zero : floatBitsToRat 0 = 0 := by norm_num [floatBitsToRat]

theorem exactOps_ratOps : ExactOps ratOps :=
  ⟨fun _ _ => rfl, fun _ _ => rfl, fun _ _ => rfl, fun _ _ => rfl, fun _ _ => rfl,
    floatBitsToRat_zero⟩

/-- A sprite over the square of side 4 whose depth rises as `3 x / 4`: its fourth corner `(4, 0)`
gets depth 3. -/
def tiltedSprite : TaParam ℚ where
  pcw := ⟨false, false, false, false, 0, 7, true, 0⟩
  isp := ⟨false, 0, 0, false, false, 0⟩
  tsp := ⟨0, 0, false, false, false, false, false, false, 0, 0, 0⟩
  tcw := ⟨0, 0⟩
  faceColor1 := ⟨0, 0, 0, 0⟩
  faceColor2 := ⟨0, 0, 0, 0⟩
  faceOffsetColor2 := ⟨0, 0, 0, 0⟩
  spriteBaseColor := 0
  spriteOffsetColor := 0
  xyz := ⟨0, 0, 0⟩
  uv := ⟨0, 0⟩
  uv16 := (0, 0)
  baseColor := 0
  offsetColor := 0
  baseColorF := ⟨0, 0, 0, 0⟩
  offsetColorF := ⟨0, 0, 0, 0⟩
  baseIntensity := 0
  offsetIntensity := 0
  spriteXyz := ![⟨0, 0, 0⟩, ⟨0, 4, 0⟩, ⟨4, 4, 3⟩, ⟨4, 0, 0⟩]
  spriteUv _ := (0, 0)

/-- The walk in the opaque list after a sprite global parameter. -/
def spriteWalk : Tr := ⟨none, TA_LIST_OPAQUE, 16, .zero, .zero, .zero, .zero⟩

theorem trSpriteVerts_coplanar_tiltedSprite :
    ∃ va vb vc vd : TaVertex ℚ, trSpriteVerts ratOps spriteWalk tiltedSprite = ((va, vb, vd, vc), true) ∧
      vd.xyz = ⟨4, 0, 3⟩ ∧
      let n := vec3Cross ratOps (vec3Sub ratOps va.xyz vb.xyz) (vec3Sub ratOps vc.xyz vb.xyz)
      vd.xyz.x = (tiltedSprite.spriteXyz 3).x ∧ vd.xyz.y = (tiltedSprite.spriteXyz 3).y ∧
        vec3Dot ratOps n vd.xyz = vec3Dot ratOps n vb.xyz ∧
        vd.uv = vec2Sub ratOps (vec2Add ratOps va.uv vc.uv) vb.uv := by
  have hsqrt : Rat.sqrt 400 = 20 := by
    rw [show (400 : ℚ) = 20 * 20 by norm_num, Rat.sqrt_eq]; norm_num
  obtain ⟨⟨⟨va, vb, vd, vc⟩, keep⟩, h⟩ : ∃ r, trSpriteVerts ratOps spriteWalk tiltedSprite = r :=
    ⟨_, rfl⟩
  have hr := h
  have h0 : (Fin.castSucc 0 : Fin 4) = 0 := rfl
  have h1 : (Fin.castSucc 1 : Fin 4) = 1 := rfl
  have h2 : (Fin.castSucc 2 : Fin 4) = 2 := rfl
  simp only [trSpriteVerts, vec3Normalize, vec3Cross, vec3Sub, vec3Dot, ratOps, tiltedSprite,
    h0, h1, h2, Matrix.cons_val_zero, Matrix.cons_val_one, Matrix.head_cons, Matrix.cons_val_two,
    Matrix.tail_cons, Matrix.cons_val_three] at hr
  norm_num [hsqrt, floatBitsToRat_zero] at hr
  obtain ⟨⟨-, -, rfl, -⟩, rfl⟩ := hr
  exact ⟨va, vb, vc, _, h, rfl, trSpriteVerts_coplanar exactOps_ratOps h⟩

end Redream
