import Redream.Tr.Texture
import Redream.Tr.Surface

/-!
# Parsing the parameter stream

The handlers `tr.c` dispatches to: the background quad, a global (polygon or sprite) parameter,
a vertex parameter and the end of a list, and the walk over the stream that calls them, adopts
each parameter's list type when the front end says it is valid, and records the trace entry.

A handler's state is `struct tr`, the render context and the host's texture world. The colour
and coordinate decoders are the macros of `tr.c`; the vector helpers of `core/math.h` are
written here as the source uses them.
-/

namespace Redream

variable {F : Type} (lim : TrLimits) (fp : FloatOps F) (host : TexHost) (fe : TaFrontEnd)

/-! ## Decoders -/

/-- The saturating conversion `MIN(MAX((int32_t)(x * 255.0f), 0), 255)`. -/
def ftou8 (x : F) : UInt8 :=
  (min (max (fp.toInt32 (fp.mul x (fp.ofBits 0x437F0000))) 0) 255).toNat.toUInt8

/-- The fixed-point product `a * b / 255`. -/
def fmulu8 (a b : UInt8) : UInt8 := (a.toNat * b.toNat / 255).toUInt8

/-- The bytes `[R, G, B, A]` of a packed `0xAARRGGBB` color. -/
def parsePackedColor (color : UInt32) : Rgba :=
  ⟨((color &&& 0x00ff0000) >>> 16).toUInt8, ((color &&& 0x0000ff00) >>> 8).toUInt8,
    (color &&& 0x000000ff).toUInt8, ((color &&& 0xff000000) >>> 24).toUInt8⟩

def parseFloatColor (c : FloatColor F) : Rgba :=
  ⟨ftou8 fp c.r, ftou8 fp c.g, ftou8 fp c.b, ftou8 fp c.a⟩

/-- An intensity scales the face color's RGB; alpha is the face color's own. -/
def parseIntensity (color : Rgba) (intensity : F) : Rgba :=
  let i := ftou8 fp intensity
  ⟨fmulu8 color.r i, fmulu8 color.g i, fmulu8 color.b i, color.a⟩

/-- Each 16-bit half becomes the high half of a float, the second field going to `u`. -/
def parseUv16 (uv : UInt16 × UInt16) : Vec2 F :=
  ⟨fp.ofBits (uv.2.toUInt32 <<< 16), fp.ofBits (uv.1.toUInt32 <<< 16)⟩

/-- Modelled from the spec: the componentwise vector helpers of `core/math.h`. -/
def vec3Sub (a b : Vec3 F) : Vec3 F := ⟨fp.sub a.x b.x, fp.sub a.y b.y, fp.sub a.z b.z⟩

def vec3Add (a b : Vec3 F) : Vec3 F := ⟨fp.add a.x b.x, fp.add a.y b.y, fp.add a.z b.z⟩

def vec2Sub (a b : Vec2 F) : Vec2 F := ⟨fp.sub a.u b.u, fp.sub a.v b.v⟩

def vec2Add (a b : Vec2 F) : Vec2 F := ⟨fp.add a.u b.u, fp.add a.v b.v⟩

def vec3Cross (a b : Vec3 F) : Vec3 F :=
  ⟨fp.sub (fp.mul a.y b.z) (fp.mul a.z b.y), fp.sub (fp.mul a.z b.x) (fp.mul a.x b.z),
    fp.sub (fp.mul a.x b.y) (fp.mul a.y b.x)⟩

def vec3Dot (a b : Vec3 F) : F := fp.add (fp.add (fp.mul a.x b.x) (fp.mul a.y b.y)) (fp.mul a.z b.z)

/-- Modelled from the spec: `vec3_normalize` divides by the length and returns it. -/
def vec3Normalize (v : Vec3 F) : Vec3 F × F :=
  let len := fp.sqrt (vec3Dot fp v v)
  (⟨fp.div v.x len, fp.div v.y len, fp.div v.z len⟩, len)

/-! ## The background -/

/-- One background vertex from byte `offset` of `bg_vertices`: position, then a UV pair when the
background is textured, the base color, and an offset color when it has one. -/
def trParseBgVert (ctx : TaContext F) (offset : Nat) (v : TaVertex F) : TaVertex F × Nat :=
  let w := ctx.bgVertices
  let v := { v with xyz := ⟨fp.ofBits (w offset), fp.ofBits (w (offset + 4)), fp.ofBits (w (offset + 8))⟩ }
  let offset := offset + 12
  let (v, offset) :=
    if ctx.bgIsp.texture then ({ v with uv := ⟨fp.ofBits (w offset), fp.ofBits (w (offset + 4))⟩ }, offset + 8)
    else (v, offset)
  let v := { v with color := parsePackedColor (w offset) }
  let offset := offset + 4
  if ctx.bgIsp.offset then ({ v with offsetColor := parsePackedColor (w offset) }, offset + 4)
  else (v, offset)

/-- The background's fourth vertex: `b + (b - a) + (c - a)` in position and in UV, with `a`'s
colors. -/
def bgFourth (va vb vc vd : TaVertex F) : TaVertex F :=
  { vd with
    xyz := vec3Add fp (vec3Add fp vb.xyz (vec3Sub fp vb.xyz va.xyz)) (vec3Sub fp vc.xyz va.xyz)
    uv := vec2Add fp (vec2Add fp vb.uv (vec2Sub fp vb.uv va.uv)) (vec2Sub fp vc.uv va.uv)
    color := va.color, offsetColor := va.offsetColor }

/-- The background's pipeline state on the zeroed surface: no blending. -/
def bgParams (ctx : TaContext F) (texture : Nat) : SurfaceParams :=
  { SurfaceParams.zero with
    texture := texture, depthWrite := !ctx.bgIsp.zWriteDisable
    depthFunc := translateDepthFunc ctx.bgIsp.depthCompareMode
    cull := translateCull ctx.bgIsp.cullingMode, srcBlend := .none, dstBlend := .none }

/-- The background quad, committed to the opaque list before the stream is walked. -/
def trParseBg (ctx : TaContext F) (tr : Tr) (rc : TrContext F) (w : TexWorld) :
    Except Fault (Tr × TrContext F × TexWorld) := do
  let tr := { tr with listType := TA_LIST_OPAQUE }
  let rc ← trReserveSurf lim rc false
  let (texture, w) :=
    if ctx.bgIsp.texture then trConvertTexture host fe ctx ctx.bgTsp ctx.bgTcw w else (0, w)
  let surf := rc.surfs rc.numSurfs
  let rc := { rc with surfs := Function.update rc.surfs rc.numSurfs { surf with params := bgParams ctx texture } }
  let (ia, rc) ← trReserveVert lim fp rc
  let (ib, rc) ← trReserveVert lim fp rc
  let (ic, rc) ← trReserveVert lim fp rc
  let (id, rc) ← trReserveVert lim fp rc
  let (va, offset) := trParseBgVert fp ctx 0 (rc.verts ia)
  let (vb, offset) := trParseBgVert fp ctx offset (rc.verts ib)
  let (vc, _) := trParseBgVert fp ctx offset (rc.verts ic)
  let vd := bgFourth fp va vb vc (rc.verts id)
  let verts := Function.update (Function.update (Function.update (Function.update rc.verts
    ia va) ib vb) ic vc) id vd
  let rc ← trCommitSurf lim tr { rc with verts := verts }
  pure ({ tr with listType := TA_NUM_LISTS }, rc, w)

/-! ## Global parameters -/

/-- The pipeline state a global parameter sets up in list `listType`, after the list's
overrides. The punch-through branch of the overrides is never reached: a punch-through list is
not translucent, so the first branch takes it. -/
def polyParams (ctx : TaContext F) (listType : Nat) (p : TaParam F) (params : SurfaceParams) :
    SurfaceParams :=
  let params := { params with
    depthWrite := !p.isp.zWriteDisable, depthFunc := translateDepthFunc p.isp.depthCompareMode
    cull := translateCull p.isp.cullingMode
    srcBlend := translateSrcBlendFunc p.tsp.srcAlphaInstr
    dstBlend := translateDstBlendFunc p.tsp.dstAlphaInstr
    shade := translateShadeMode p.tsp.textureShadingInstr
    ignoreAlpha := !p.tsp.useAlpha, ignoreTextureAlpha := p.tsp.ignoreTexAlpha
    offsetColor := p.pcw.offset, alphaTest := listType == TA_LIST_PUNCH_THROUGH
    alphaRef := ctx.alphaRef }
  if listType ≠ TA_LIST_TRANSLUCENT ∧ listType ≠ TA_LIST_TRANSLUCENT_MODVOL then
    { params with srcBlend := .none, dstBlend := .none }
  else if (listType = TA_LIST_TRANSLUCENT ∨ listType = TA_LIST_TRANSLUCENT_MODVOL) ∧
      ctx.autosort = true then
    { params with depthFunc := .lequal }
  else if listType = TA_LIST_PUNCH_THROUGH then { params with depthFunc := .gequal }
  else params

/-- The colors a global parameter of poly type 0, 1, 2 or 5 carries into `tr`. -/
def polyColors (tr : Tr) (p : TaParam F) : Nat → Option Tr
  | 0 => some tr
  | 1 => some { tr with faceColor := parseFloatColor fp p.faceColor1 }
  | 2 => some { tr with
      faceColor := parseFloatColor fp p.faceColor2
      faceOffsetColor := parseFloatColor fp p.faceOffsetColor2 }
  | 5 => some { tr with
      spriteColor := parsePackedColor p.spriteBaseColor
      spriteOffsetColor := parsePackedColor p.spriteOffsetColor }
  | _ => none

/-- A global parameter: it resets the strip state and stages a new surface with its pipeline
state, except for a modifier volume (poly type 6), which is skipped. -/
def trParsePolyParam (ctx : TaContext F) (p : TaParam F) (tr : Tr) (rc : TrContext F)
    (w : TexWorld) : Except Fault (Tr × TrContext F × TexWorld) :=
  let tr := { tr with lastVertex := none, vertType := fe.taVertType p.pcw }
  let polyType := fe.taPolyType p.pcw
  if polyType = 6 then .ok (tr, rc, w)
  else
    match polyColors fp tr p polyType with
    | none => .error (.unsupportedPolyType polyType)
    | some tr => do
      let rc ← trReserveSurf lim rc false
      let surf := rc.surfs rc.numSurfs
      let params := polyParams ctx tr.listType p surf.params
      let (texture, w) :=
        if p.pcw.texture then trConvertTexture host fe ctx p.tsp p.tcw w else (0, w)
      let surf := { surf with params := { params with texture := texture } }
      pure (tr, { rc with surfs := Function.update rc.surfs rc.numSurfs surf }, w)

/-! ## Vertex parameters -/

/-- The vertex each of the vertex types 0 to 8 writes into its zeroed slot. -/
def trDecodeVert (tr : Tr) (p : TaParam F) : Nat → Option (TaVertex F)
  | 0 => some { TaVertex.zero fp with xyz := p.xyz, color := parsePackedColor p.baseColor }
  | 1 => some { TaVertex.zero fp with xyz := p.xyz, color := parseFloatColor fp p.baseColorF }
  | 2 => some { TaVertex.zero fp with
      xyz := p.xyz, color := parseIntensity fp tr.faceColor p.baseIntensity }
  | 3 => some { TaVertex.zero fp with
      xyz := p.xyz, uv := p.uv, color := parsePackedColor p.baseColor
      offsetColor := parsePackedColor p.offsetColor }
  | 4 => some { TaVertex.zero fp with
      xyz := p.xyz, uv := parseUv16 fp p.uv16, color := parsePackedColor p.baseColor
      offsetColor := parsePackedColor p.offsetColor }
  | 5 => some { TaVertex.zero fp with
      xyz := p.xyz, uv := p.uv, color := parseFloatColor fp p.baseColorF
      offsetColor := parseFloatColor fp p.offsetColorF }
  | 6 => some { TaVertex.zero fp with
      xyz := p.xyz, uv := parseUv16 fp p.uv16, color := parseFloatColor fp p.baseColorF
      offsetColor := parseFloatColor fp p.offsetColorF }
  | 7 => some { TaVertex.zero fp with
      xyz := p.xyz, uv := p.uv, color := parseIntensity fp tr.faceColor p.baseIntensity
      offsetColor := parseIntensity fp tr.faceOffsetColor p.offsetIntensity }
  | 8 => some { TaVertex.zero fp with
      xyz := p.xyz, uv := parseUv16 fp p.uv16
      color := parseIntensity fp tr.faceColor p.baseIntensity
      offsetColor := parseIntensity fp tr.faceOffsetColor p.offsetIntensity }
  | _ => none

/-- A sprite's four vertices in slot order `a, b, d, c` (bottom left, top left, bottom right, top
right), and whether the quad is kept: `d`'s depth comes from the plane through `a, b, c`, and a
quad whose plane is degenerate or edge-on is dropped before `d`'s depth and UV are set. -/
def trSpriteVerts (tr : Tr) (p : TaParam F) : (TaVertex F × TaVertex F × TaVertex F × TaVertex F) × Bool :=
  let corner (i : Fin 3) : TaVertex F := { TaVertex.zero fp with
    xyz := p.spriteXyz i.castSucc, uv := parseUv16 fp (p.spriteUv i)
    color := tr.spriteColor, offsetColor := tr.spriteOffsetColor }
  let va := corner 0
  let vb := corner 1
  let vc := corner 2
  let vd : TaVertex F := { TaVertex.zero fp with
    xyz := ⟨(p.spriteXyz 3).x, (p.spriteXyz 3).y, fp.ofBits 0⟩
    color := tr.spriteColor, offsetColor := tr.spriteOffsetColor }
  let (n, len) := vec3Normalize fp (vec3Cross fp (vec3Sub fp va.xyz vb.xyz) (vec3Sub fp vc.xyz vb.xyz))
  let d := vec3Dot fp n vb.xyz
  if fp.eq len (fp.ofBits 0) || fp.eq n.z (fp.ofBits 0) then ((va, vb, vd, vc), false)
  else
    let z := fp.div (fp.sub (fp.sub d (fp.mul n.x vd.xyz.x)) (fp.mul n.y vd.xyz.y)) n.z
    let uv := vec2Add fp (vec2Add fp vb.uv (vec2Sub fp va.uv vb.uv)) (vec2Sub fp vc.uv vb.uv)
    ((va, vb, { vd with xyz := { vd.xyz with z := z }, uv := uv }, vc), true)

/-- The emitting part of a vertex parameter of a supported type: the context after the vertex
(or the sprite's four) is written, and whether the strip may be committed. -/
def trEmitVertex (tr : Tr) (p : TaParam F) (rc : TrContext F) :
    Except Fault (TrContext F × Bool) :=
  match trDecodeVert fp tr p tr.vertType with
  | some v => do
    let (i, rc) ← trReserveVert lim fp rc
    pure ({ rc with verts := Function.update rc.verts i v }, true)
  | none =>
    if tr.vertType = 15 ∨ tr.vertType = 16 then
      if p.pcw.endOfStrip then do
        let (ia, rc) ← trReserveVert lim fp rc
        let (ib, rc) ← trReserveVert lim fp rc
        let (id, rc) ← trReserveVert lim fp rc
        let (ic, rc) ← trReserveVert lim fp rc
        let ((va, vb, vd, vc), keep) := trSpriteVerts fp tr p
        let verts := Function.update (Function.update (Function.update (Function.update rc.verts
          ia va) ib vb) id vd) ic vc
        pure ({ rc with verts := verts }, keep)
      else .error .check
    else .error (.unsupportedVertType tr.vertType)

/-- A vertex parameter: after an end-of-strip vertex the next strip is staged as a copy of the
surface before it; the vertex is emitted; an end-of-strip vertex commits the strip. Modifier
volume vertices (type 17) are skipped. -/
def trParseVertParam (p : TaParam F) (tr : Tr) (rc : TrContext F) :
    Except Fault (Tr × TrContext F) :=
  if tr.vertType = 17 then .ok (tr, rc)
  else do
    let rc ← (if tr.lastVertex.any (·.endOfStrip) then trReserveSurf lim rc true else pure rc)
    let tr := { tr with lastVertex := some p.pcw }
    let (rc, keep) ← trEmitVertex lim fp tr p rc
    if keep ∧ p.pcw.endOfStrip then do
      let rc ← trCommitSurf lim tr rc
      pure (tr, rc)
    else pure (tr, rc)

def trParseEol (tr : Tr) : Tr :=
  { tr with lastVertex := none, listType := TA_NUM_LISTS, vertType := TA_NUM_VERTS }

/-! ## The walk -/

/-- The switch of the walk on a parameter's type. An object list set is fatal; a user tile clip
and the types the switch does not name do nothing. -/
def trDispatchParam (ctx : TaContext F) (p : TaParam F) (tr : Tr) (rc : TrContext F) (w : TexWorld) :
    Except Fault (Tr × TrContext F × TexWorld) :=
  if p.pcw.paraType = TA_PARAM_END_OF_LIST then .ok (trParseEol tr, rc, w)
  else if p.pcw.paraType = TA_PARAM_USER_TILE_CLIP then .ok (tr, rc, w)
  else if p.pcw.paraType = TA_PARAM_OBJ_LIST_SET then .error .objListSetUnsupported
  else if p.pcw.paraType = TA_PARAM_POLY_OR_VOL ∨ p.pcw.paraType = TA_PARAM_SPRITE then
    trParsePolyParam lim fp host fe ctx p tr rc w
  else if p.pcw.paraType = TA_PARAM_VERTEX then
    (trParseVertParam lim fp p tr rc).map fun s => (s.1, s.2, w)
  else .ok (tr, rc, w)

/-- One parameter of the walk at byte `offset`: its list type is adopted when the front end calls
it valid, it is dispatched on its tag, and its trace entry is recorded. `tr.c` writes the entry
without a check against `TR_MAX_PARAMS`; the model stops with `.outOfBounds` where the trace is
full (`trParseParam_outOfBounds_iff`). -/
def trParseParam (ctx : TaContext F) (offset : Nat) (p : TaParam F)
    (s : Tr × TrContext F × TexWorld) : Except Fault (Tr × TrContext F × TexWorld) := do
  let (tr, rc, w) := s
  let tr := if fe.taPcwListTypeValid p.pcw tr.listType then { tr with listType := p.pcw.listType.val }
    else tr
  let (tr, rc, w) ← trDispatchParam lim fp host fe ctx p tr rc w
  if rc.numParams < lim.maxParams then
    let rp : TrParam := ⟨offset, tr.listType, tr.vertType, rc.numSurfs - 1, rc.numVerts - 1⟩
    pure (tr, { rc with params := Function.update rc.params rc.numParams rp, numParams := rc.numParams + 1 }, w)
  else .error .outOfBounds

/-- The walk over the stream, each parameter `ta_param_size` bytes after the last. -/
def trParseParams (ctx : TaContext F) :
    List (TaParam F) → Nat → Tr × TrContext F × TexWorld → Except Fault (Tr × TrContext F × TexWorld)
  | [], _, s => .ok s
  | p :: ps, offset, s => do
    let s ← trParseParam lim fp host fe ctx offset p s
    trParseParams ctx ps (offset + fe.taParamSize p.pcw s.1.vertType) s

/-- The state before the background: no list, no vertex type, zero colors, empty counters. -/
def trReset (rc : TrContext F) : Tr × TrContext F :=
  (⟨none, TA_NUM_LISTS, TA_NUM_VERTS, .zero, .zero, .zero, .zero⟩,
    { rc with
      numParams := 0, numSurfs := 0, numVerts := 0, numIndices := 0
      lists := fun i => if i < TA_NUM_LISTS then { rc.lists i with numSurfs := 0, numOrigSurfs := 0 }
        else rc.lists i })

end Redream
