import Redream.Tr.Parse

/-!
# The strip machine

What the walk over a frame's parameter stream is for, without the render context's arrays and
counters. A global parameter opens strips with its pipeline state; a vertex parameter appends the
vertices it decodes to the open strip; an end-of-strip vertex commits the strip to the current
list, whole, or in a translucent or punch-through list as one three-vertex surface per triangle.
Each list holds its committed surfaces in order, every one with its own vertices.

The machine decodes with the core's own helpers (`polyColors`, `polyParams`, `trDecodeVert`,
`trSpriteVerts`, `trParseBgVert`, `bgFourth`) and converts textures with `trConvertTexture`. What it
leaves out is the storage: `tr_reserve_surf`, `tr_reserve_vert`, the vertex slots, the capacities
and the trace. A strip after the first of a global parameter starts from the pipeline state and
strip offset of the surface committed last, which is what `tr_reserve_surf` copies.

The triangles of a strip are the meaning of a surface: triangle `j` of a strip at offset `o` is
`(a, b, c)` when `o + j` is odd and `(a, c, b)` when it is even, so that all of a strip's
triangles wind the same way.
-/

namespace Redream

variable {F : Type} (fp : FloatOps F) (host : TexHost) (fe : TaFrontEnd)

/-- A surface with its own vertices: its pipeline state, its strip offset and its strip. -/
structure StripSurf (F : Type) where
  params : SurfaceParams
  stripOffset : Nat
  verts : List (TaVertex F)

/-- One triangle as it is drawn: the pipeline state and the three corners in drawing order. -/
abbrev DrawnTri (F : Type) := SurfaceParams × TaVertex F × TaVertex F × TaVertex F

/-- The triangles of a strip from strip offset `o` on. -/
def stripTris (params : SurfaceParams) : Nat → List (TaVertex F) → List (DrawnTri F)
  | o, a :: b :: c :: vs =>
    (params, if o % 2 = 1 then (a, b, c) else (a, c, b)) :: stripTris params (o + 1) (b :: c :: vs)
  | _, _ => []

def StripSurf.tris (s : StripSurf F) : List (DrawnTri F) := stripTris s.params s.stripOffset s.verts

/-- The surfaces committing strip `s` to list `L` appends: `s` itself, or in a translucent or
punch-through list one surface per triangle `k`, over the strip's vertices `k .. k + 2`, with
strip offset `k`. -/
def splitStrip (L : Nat) (s : StripSurf F) : List (StripSurf F) :=
  if L = TA_LIST_TRANSLUCENT ∨ L = TA_LIST_PUNCH_THROUGH then
    (List.range (s.verts.length - 2)).map fun k => ⟨s.params, k, (s.verts.drop k).take 3⟩
  else [s]

/-- The machine's state between two parameters: the open strip, the pipeline state and strip
offset of the surface committed last, each list's surfaces, and how many strips each list got. -/
structure Strips (F : Type) where
  strip : StripSurf F
  last : SurfaceParams × Nat
  lists : Nat → List (StripSurf F)
  numStrips : Nat → Nat

/-- The surfaces of the five lists. -/
def Strips.numSurfs (S : Strips F) : Nat :=
  ((List.range TA_NUM_LISTS).map fun L => (S.lists L).length).sum

/-- Commit the open strip to list `L`; a list type past the five lists is out of bounds. -/
def Strips.commit (L : Nat) (S : Strips F) : Except Fault (Strips F) :=
  if L < TA_NUM_LISTS then
    let new := splitStrip L S.strip
    .ok { S with
      last := (new.getLast?.map fun s => (s.params, s.stripOffset)).getD S.last
      lists := Function.update S.lists L (S.lists L ++ new)
      numStrips := Function.update S.numStrips L (S.numStrips L + 1) }
  else .error .outOfBounds

/-- A global parameter: the walk's state after it, and the pipeline state of the strips it opens,
none for a modifier volume. -/
def stripGlobal (ctx : TaContext F) (p : TaParam F) (tr : Tr) (w : TexWorld) :
    Except Fault (Tr × Option SurfaceParams × TexWorld) :=
  let tr := { tr with lastVertex := none, vertType := fe.taVertType p.pcw }
  let polyType := fe.taPolyType p.pcw
  if polyType = 6 then .ok (tr, none, w)
  else
    match polyColors fp tr p polyType with
    | none => .error (.unsupportedPolyType polyType)
    | some tr =>
      let (texture, w) :=
        if p.pcw.texture then trConvertTexture host fe ctx p.tsp p.tcw w else (0, w)
      .ok (tr, some { polyParams ctx tr.listType p SurfaceParams.zero with texture := texture }, w)

/-- The vertices a vertex parameter appends to the open strip, and whether the strip may be
committed: one vertex for the types 0 to 8, a sprite's four in strip order `a, b, d, c`. -/
def emittedVerts (tr : Tr) (p : TaParam F) : Except Fault (List (TaVertex F) × Bool) :=
  match trDecodeVert fp tr p tr.vertType with
  | some v => .ok ([v], true)
  | none =>
    if tr.vertType = 15 ∨ tr.vertType = 16 then
      if p.pcw.endOfStrip then
        let ((va, vb, vd, vc), keep) := trSpriteVerts fp tr p
        .ok ([va, vb, vd, vc], keep)
      else .error .check
    else .error (.unsupportedVertType tr.vertType)

def stripVertParam (p : TaParam F) (tr : Tr) (S : Strips F) : Except Fault (Tr × Strips F) :=
  if tr.vertType = 17 then .ok (tr, S)
  else do
    let S := if tr.lastVertex.any (·.endOfStrip) then { S with strip := ⟨S.last.1, S.last.2, []⟩ }
      else S
    let tr := { tr with lastVertex := some p.pcw }
    let (vs, keep) ← emittedVerts fp tr p
    let S := { S with strip := { S.strip with verts := S.strip.verts ++ vs } }
    if keep ∧ p.pcw.endOfStrip then do
      let S ← S.commit tr.listType
      pure (tr, S)
    else pure (tr, S)

/-- The switch on a parameter's type, as `trDispatchParam` has it. -/
def stripDispatch (ctx : TaContext F) (p : TaParam F) (tr : Tr) (S : Strips F) (w : TexWorld) :
    Except Fault (Tr × Strips F × TexWorld) :=
  if p.pcw.paraType = TA_PARAM_END_OF_LIST then .ok (trParseEol tr, S, w)
  else if p.pcw.paraType = TA_PARAM_USER_TILE_CLIP then .ok (tr, S, w)
  else if p.pcw.paraType = TA_PARAM_OBJ_LIST_SET then .error .objListSetUnsupported
  else if p.pcw.paraType = TA_PARAM_POLY_OR_VOL ∨ p.pcw.paraType = TA_PARAM_SPRITE then
    (stripGlobal fp host fe ctx p tr w).map fun r =>
      (r.1, r.2.1.elim S fun P => { S with strip := ⟨P, 0, []⟩ }, r.2.2)
  else if p.pcw.paraType = TA_PARAM_VERTEX then
    (stripVertParam fp p tr S).map fun s => (s.1, s.2, w)
  else .ok (tr, S, w)

/-- One parameter: its list type is adopted when the front end calls it valid, then it is
dispatched. -/
def stripParam (ctx : TaContext F) (p : TaParam F) (s : Tr × Strips F × TexWorld) :
    Except Fault (Tr × Strips F × TexWorld) :=
  let (tr, S, w) := s
  let tr := if fe.taPcwListTypeValid p.pcw tr.listType then { tr with listType := p.pcw.listType.val }
    else tr
  stripDispatch fp host fe ctx p tr S w

def stripParams (ctx : TaContext F) :
    List (TaParam F) → Tr × Strips F × TexWorld → Except Fault (Tr × Strips F × TexWorld)
  | [], s => .ok s
  | p :: ps, s => do
    let s ← stripParam fp host fe ctx p s
    stripParams ctx ps s

/-- The background quad as a strip: the three vertices of `bg_vertices` and the fourth that
`bgFourth` derives, with the background's pipeline state. -/
def stripBg (ctx : TaContext F) (w : TexWorld) : StripSurf F × TexWorld :=
  let (texture, w) :=
    if ctx.bgIsp.texture then trConvertTexture host fe ctx ctx.bgTsp ctx.bgTcw w else (0, w)
  let (va, offset) := trParseBgVert fp ctx 0 (TaVertex.zero fp)
  let (vb, offset) := trParseBgVert fp ctx offset (TaVertex.zero fp)
  let (vc, _) := trParseBgVert fp ctx offset (TaVertex.zero fp)
  (⟨bgParams ctx texture, 0, [va, vb, vc, bgFourth fp va vb vc (TaVertex.zero fp)]⟩, w)

/-- The walk's state after `tr_reset`: no list, no vertex type, zero colors. -/
def trInit : Tr := ⟨none, TA_NUM_LISTS, TA_NUM_VERTS, .zero, .zero, .zero, .zero⟩

/-- A frame's stream: the background quad committed to the opaque list, then the walk. -/
def stripStream (ctx : TaContext F) (w : TexWorld) : Except Fault (Tr × Strips F × TexWorld) := do
  let (bg, w) := stripBg fp host fe ctx w
  let S ← Strips.commit TA_LIST_OPAQUE ⟨bg, (bg.params, bg.stripOffset), fun _ => [], fun _ => 0⟩
  stripParams fp host fe ctx ctx.params (trInit, S, w)

/-- The machine over the background and the first `n` parameters of the frame. -/
def stripStreamTake (ctx : TaContext F) (n : Nat) (w : TexWorld) :
    Except Fault (Tr × Strips F × TexWorld) := do
  let (bg, w) := stripBg fp host fe ctx w
  let S ← Strips.commit TA_LIST_OPAQUE ⟨bg, (bg.params, bg.stripOffset), fun _ => [], fun _ => 0⟩
  stripParams fp host fe ctx (ctx.params.take n) (trInit, S, w)

theorem stripStreamTake_length (ctx : TaContext F) (w : TexWorld) :
    stripStreamTake fp host fe ctx ctx.params.length w = stripStream fp host fe ctx w := by
  rw [stripStreamTake, List.take_length]
  rfl

end Redream
