import Mathlib

/-!
# The renderer's data

The records `tr.c` reads and writes: the parameter control word and the ISP/TSP/TCW register
words by the fields the core reads, the surface and vertex records of a `tr_context`, the
per-conversion `struct tr`, and the fixed-size arrays of the context as total functions, so that
what a previous conversion left in a slot stays there until it is written.

What `tr.c` takes from headers that are not part of it (`ta.h`, `core/math.h`, the capacities of
`tr.h`) is a parameter: `TaFrontEnd` for the front end's helpers, `FloatOps` for single-precision
arithmetic, `TrLimits` for the array sizes.
-/

namespace Redream

/-- Why a conversion stops: a failed `CHECK`, a `LOG_FATAL`, or an access past an array the
source does not guard. -/
inductive Fault where
  | check
  | unsupportedPolyType (polyType : Nat)
  | unsupportedVertType (vertType : Nat)
  | objListSetUnsupported
  | outOfBounds
  deriving DecidableEq, Repr

theorem Except.bind_eq_ok {ε α β : Type} {x : Except ε α} {f : α → Except ε β} {b : β} :
    x >>= f = .ok b ↔ ∃ a, x = .ok a ∧ f a = .ok b := by
  cases x <;> simp [bind, Except.bind]

/-! ## Register words -/

/-- The parameter control word. Bits 0-3 are the override flags; `rest` holds the bits only the
front end's helpers read. -/
structure Pcw where
  uv16bit : Bool
  gouraud : Bool
  offset : Bool
  texture : Bool
  listType : Fin 8
  paraType : Fin 8
  endOfStrip : Bool
  rest : Nat
  deriving DecidableEq, Repr

/-- The ISP instruction word, by the fields the core reads. -/
structure Isp where
  zWriteDisable : Bool
  depthCompareMode : Fin 8
  cullingMode : Fin 4
  texture : Bool
  offset : Bool
  rest : Nat
  deriving DecidableEq, Repr

/-- The TSP instruction word, by the fields the core reads. -/
structure Tsp where
  srcAlphaInstr : Fin 8
  dstAlphaInstr : Fin 8
  useAlpha : Bool
  ignoreTexAlpha : Bool
  flipU : Bool
  flipV : Bool
  clampU : Bool
  clampV : Bool
  filterMode : Fin 4
  textureShadingInstr : Fin 4
  rest : Nat
  deriving DecidableEq, Repr

/-- The texture control word. -/
structure Tcw where
  pixelFmt : Fin 8
  rest : Nat
  deriving DecidableEq, Repr

/-- The tags `TA_PARAM_*` of `pcw.para_type`; 3 and 6 are reserved. -/
def TA_PARAM_END_OF_LIST : Fin 8 := 0
def TA_PARAM_USER_TILE_CLIP : Fin 8 := 1
def TA_PARAM_OBJ_LIST_SET : Fin 8 := 2
def TA_PARAM_POLY_OR_VOL : Fin 8 := 4
def TA_PARAM_SPRITE : Fin 8 := 5
def TA_PARAM_VERTEX : Fin 8 := 7

/-- The five display lists `TA_LIST_*`, and `TA_NUM_LISTS`, which `tr.list_type` holds while
no list is open. -/
def TA_LIST_OPAQUE : Nat := 0
def TA_LIST_OPAQUE_MODVOL : Nat := 1
def TA_LIST_TRANSLUCENT : Nat := 2
def TA_LIST_TRANSLUCENT_MODVOL : Nat := 3
def TA_LIST_PUNCH_THROUGH : Nat := 4
def TA_NUM_LISTS : Nat := 5

/-- One past the last vertex type, which `tr.vert_type` holds while no global parameter is open. -/
def TA_NUM_VERTS : Nat := 18

/-- The helpers of the front end (`ta.h`) the core calls. Its one promise used here: a modifier
volume's global parameter (poly type 6) announces modifier-volume vertices (vertex type 17), the
two halves the core skips together. -/
structure TaFrontEnd where
  taPolyType : Pcw → Nat
  taVertType : Pcw → Nat
  taPcwListTypeValid : Pcw → Nat → Bool
  taParamSize : Pcw → Nat → Nat
  taTextureFormat : Tcw → Nat
  taTextureMipmaps : Tcw → Bool
  taTextureWidth : Tsp → Tcw → Nat
  taTextureHeight : Tsp → Tcw → Nat
  taTextureStride : Tsp → Tcw → Nat → Nat
  vertType_of_modvol : ∀ pcw, taPolyType pcw = 6 → taVertType pcw = 17

/-! ## Render state -/

inductive DepthFunc where
  | none | never | less | equal | lequal | greater | nequal | gequal | always
  deriving DecidableEq, Repr

inductive CullFace where
  | none | front | back
  deriving DecidableEq, Repr

inductive BlendFunc where
  | none | zero | one | srcColor | oneMinusSrcColor | srcAlpha | oneMinusSrcAlpha | dstAlpha
  | oneMinusDstAlpha | dstColor | oneMinusDstColor
  deriving DecidableEq, Repr

inductive ShadeMode where
  | decal | modulate | decalAlpha | modulateAlpha
  deriving DecidableEq, Repr

def translateDepthFunc : Fin 8 → DepthFunc :=
  ![.never, .greater, .equal, .gequal, .less, .nequal, .lequal, .always]

def translateCull : Fin 4 → CullFace :=
  ![.none, .none, .back, .front]

def translateSrcBlendFunc : Fin 8 → BlendFunc :=
  ![.zero, .one, .dstColor, .oneMinusDstColor, .srcAlpha, .oneMinusSrcAlpha, .dstAlpha,
    .oneMinusDstAlpha]

def translateDstBlendFunc : Fin 8 → BlendFunc :=
  ![.zero, .one, .srcColor, .oneMinusSrcColor, .srcAlpha, .oneMinusSrcAlpha, .dstAlpha,
    .oneMinusDstAlpha]

def translateShadeMode : Fin 4 → ShadeMode :=
  ![.decal, .modulate, .decalAlpha, .modulateAlpha]

/-- A surface's pipeline state. Two surfaces merge when the bits of `params.full` agree, that is
when every field agrees. -/
structure SurfaceParams where
  texture : Nat
  depthWrite : Bool
  depthFunc : DepthFunc
  cull : CullFace
  srcBlend : BlendFunc
  dstBlend : BlendFunc
  shade : ShadeMode
  ignoreAlpha : Bool
  ignoreTextureAlpha : Bool
  offsetColor : Bool
  alphaTest : Bool
  alphaRef : Nat
  deriving DecidableEq, Repr

/-- The bits `memset` leaves: every enum at its first value. -/
def SurfaceParams.zero : SurfaceParams :=
  ⟨0, false, .none, .none, .none, .none, .decal, false, false, false, false, 0⟩

/-- The surface record `struct ta_surface`. Before index generation `first_vert`/`num_verts` range over `verts`,
after it over `indices`. -/
structure TaSurface where
  params : SurfaceParams
  stripOffset : Nat
  firstVert : Nat
  numVerts : Nat
  deriving DecidableEq, Repr

def TaSurface.zero : TaSurface := ⟨SurfaceParams.zero, 0, 0, 0⟩

/-! ## Vertices -/

/-- Single-precision arithmetic as the core uses it, on a carrier `F`. -/
structure FloatOps (F : Type) where
  /-- The float whose bits are `u`, as `*(float *)&u`. -/
  ofBits : UInt32 → F
  add : F → F → F
  sub : F → F → F
  mul : F → F → F
  div : F → F → F
  sqrt : F → F
  eq : F → F → Bool
  lt : F → F → Bool
  le : F → F → Bool
  /-- The conversion `(int32_t)x`. -/
  toInt32 : F → Int

/-- The integer part of the single-precision value with bits `u`. -/
def floatBitsToInt (u : UInt32) : Int :=
  let e := (u.toNat >>> 23) % 256
  let v : Nat := if e < 127 then 0 else (u.toNat % 2 ^ 23 + 2 ^ 23) * 2 ^ (e - 127) / 2 ^ 23
  if u.toNat < 2 ^ 31 then v else -v

/-- Integer arithmetic as a carrier of `FloatOps`, exact wherever the values stay integral: a word
reads as the integer part of its float, division truncates as `(int32_t)` does, and `sqrt` rounds
down. -/
def intOps : FloatOps Int where
  ofBits := floatBitsToInt
  add := (· + ·)
  sub := (· - ·)
  mul := (· * ·)
  div := Int.tdiv
  sqrt x := Nat.sqrt x.toNat
  eq a b := a == b
  lt a b := decide (a < b)
  le a b := decide (a ≤ b)
  toInt32 := id

structure Vec2 (F : Type) where
  u : F
  v : F
  deriving DecidableEq, Repr

structure Vec3 (F : Type) where
  x : F
  y : F
  z : F
  deriving DecidableEq, Repr

/-- The four bytes of a packed color, in memory order. -/
structure Rgba where
  r : UInt8
  g : UInt8
  b : UInt8
  a : UInt8
  deriving DecidableEq, Repr

def Rgba.zero : Rgba := ⟨0, 0, 0, 0⟩

/-- The vertex record `struct ta_vertex`. -/
structure TaVertex (F : Type) where
  xyz : Vec3 F
  uv : Vec2 F
  color : Rgba
  offsetColor : Rgba
  deriving DecidableEq, Repr

variable {F : Type}

def TaVertex.zero (fp : FloatOps F) : TaVertex F :=
  let z := fp.ofBits 0
  ⟨⟨z, z, z⟩, ⟨z, z⟩, .zero, .zero⟩

/-- A float color, in the parameter's field order. -/
structure FloatColor (F : Type) where
  a : F
  r : F
  g : F
  b : F

/-- One parameter of the stream, by the fields the core reads through the members of
`union poly_param` and `union vert_param`, all of which overlay the same bytes. -/
structure TaParam (F : Type) where
  pcw : Pcw
  isp : Isp
  tsp : Tsp
  tcw : Tcw
  /-- Read as `type1.face_color_*`. -/
  faceColor1 : FloatColor F
  /-- Read as `type2.face_color_*`; the offset color as `type2.face_offset_color_*`. -/
  faceColor2 : FloatColor F
  faceOffsetColor2 : FloatColor F
  /-- Read as `sprite.base_color` and `sprite.offset_color`. -/
  spriteBaseColor : UInt32
  spriteOffsetColor : UInt32
  /-- Read as `typeN.xyz` by the vertex types 0 to 8, and so on for the other fields. -/
  xyz : Vec3 F
  uv : Vec2 F
  uv16 : UInt16 × UInt16
  baseColor : UInt32
  offsetColor : UInt32
  baseColorF : FloatColor F
  offsetColorF : FloatColor F
  baseIntensity : F
  offsetIntensity : F
  /-- Read as `sprite1.xyz[i]`; only `x` and `y` of the fourth corner are read. -/
  spriteXyz : Fin 4 → Vec3 F
  /-- Read as `sprite1.uv[i]`. -/
  spriteUv : Fin 3 → UInt16 × UInt16

/-- The captured frame `tr_convert_context` reads. The stream is the sequence of parameters the
walk over `params[0..size)` visits, each `ta_param_size` bytes after the last. -/
structure TaContext (F : Type) where
  params : List (TaParam F)
  /-- The bytes of `bg_vertices`, read as 32-bit words. -/
  bgVertices : Nat → UInt32
  bgIsp : Isp
  bgTsp : Tsp
  bgTcw : Tcw
  paletteFmt : Nat
  stride : Nat
  alphaRef : Nat
  autosort : Bool
  videoWidth : Nat
  videoHeight : Nat

/-! ## The render context -/

structure TrList where
  surfs : Nat → Nat
  numSurfs : Nat
  numOrigSurfs : Nat

/-- The list's entries `surfs[0..num_surfs)`. -/
def TrList.entries (l : TrList) : List Nat := (List.range l.numSurfs).map l.surfs

@[simp] theorem TrList.length_entries (l : TrList) : l.entries.length = l.numSurfs := by
  simp [entries]

@[simp] theorem TrList.getElem_entries (l : TrList) (t : Nat) (h : t < l.entries.length) :
    l.entries[t] = l.surfs t := by
  simp [entries]

/-- A list's entries are `S` when its slots below `num_surfs` hold `S`. -/
theorem TrList.entries_eq_of {l : TrList} {S : List Nat} (hlen : S.length = l.numSurfs)
    (h : ∀ k < l.numSurfs, l.surfs k = S.getD k 0) : l.entries = S :=
  List.ext_getElem (by simp [hlen]) fun k h₁ h₂ => by
    rw [getElem_entries, h k (by simpa using h₁), List.getD_eq_getElem?_getD,
      List.getElem?_eq_getElem h₂]
    rfl

/-- The per-parameter trace record `struct tr_param`. -/
structure TrParam where
  offset : Nat
  listType : Nat
  vertType : Nat
  lastSurf : Int
  lastVert : Int

/-- The render context `struct tr_context`. -/
structure TrContext (F : Type) where
  width : Nat
  height : Nat
  surfs : Nat → TaSurface
  numSurfs : Nat
  verts : Nat → TaVertex F
  numVerts : Nat
  indices : Nat → Nat
  numIndices : Nat
  lists : Nat → TrList
  params : Nat → TrParam
  numParams : Nat

/-- Modelled from the spec: the capacity test of `CHECK_LT(n, ARRAY_SIZE(a))` for an `int` `n`,
taken as C's `<` on the two operands, which converts `n` to the 64-bit `size_t` of `ARRAY_SIZE`
first, so that a negative `n` wraps past every capacity. -/
def intLtSize (n : Int) (size : Nat) : Bool := (n % 2 ^ 64).toNat < size

/-- The sizes `TR_MAX_*` of the context's arrays, which `ARRAY_SIZE` reads. -/
structure TrLimits where
  maxSurfs : Nat
  maxVerts : Nat
  maxIndices : Nat
  maxParams : Nat

/-- The state `struct tr`, the global state carried from parameter to parameter. Of the last vertex only
its control word is read. -/
structure Tr where
  lastVertex : Option Pcw
  listType : Nat
  vertType : Nat
  faceColor : Rgba
  faceOffsetColor : Rgba
  spriteColor : Rgba
  spriteOffsetColor : Rgba

end Redream
