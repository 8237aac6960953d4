import Redream.Tr.Texture

/-!
# A front end, a host and a frame for concrete streams

`ta.h` and the render backend are not part of `tr.c`; the core takes them as `TaFrontEnd` and
`TexHost`. To run the core on concrete streams this module fixes one of each, after the spec:
the list-type rule is the spec's "safe interpretation", and the bits the spec leaves to the front
end (where the poly and vertex types sit) are placed in the PCW's remaining bits. It also fixes
the frame around a stream: parameters whose other words are zero, and a render context left by an
earlier frame.
-/

namespace Redream

/-- Modelled from the spec: `ta_poly_type` of `ta.h`. A parameter in a modifier-volume list is a
modifier volume (type 6), a sprite parameter has poly type 5, and otherwise the low three of the
PCW's remaining bits give the type. -/
def specPolyType (pcw : Pcw) : Nat :=
  if pcw.listType.val = TA_LIST_OPAQUE_MODVOL ∨ pcw.listType.val = TA_LIST_TRANSLUCENT_MODVOL then 6
  else if pcw.paraType = TA_PARAM_SPRITE then 5 else pcw.rest % 8

/-- Modelled from the spec: `ta_vert_type` of `ta.h`. A modifier volume's vertices have type 17,
a sprite's 15 or 16 by its texture bit, and otherwise the next five bits give the type. -/
def specVertType (pcw : Pcw) : Nat :=
  if specPolyType pcw = 6 then 17
  else if pcw.paraType = TA_PARAM_SPRITE then (if pcw.texture then 16 else 15)
  else pcw.rest / 8 % 32

/-- Modelled from the spec: the front end of `ta.h`. A PCW's list type is adopted only while no
list is open; parameters are 32 bytes, sprites' vertices 64; every texture is an 8 by 8 one. -/
def specFrontEnd : TaFrontEnd where
  taPolyType := specPolyType
  taVertType := specVertType
  taPcwListTypeValid _ listType := listType == TA_NUM_LISTS
  taParamSize _ vertType := if vertType = 15 ∨ vertType = 16 then 64 else 32
  taTextureFormat _ := 0
  taTextureMipmaps _ := false
  taTextureWidth _ _ := 8
  taTextureHeight _ _ := 8
  taTextureStride _ _ _ := 8
  vertType_of_modvol _ h := if_pos h

/-- A backend that names each new texture one past the largest live handle, and a decoder that
writes nothing. -/
def countingHost : TexHost where
  pvrTexDecode _ _ _ _ _ _ _ _ := []
  alloc log := (liveOf log).foldr max 0 + 1
  alloc_ne_zero _ := Nat.succ_ne_zero _
  alloc_not_live _ h := Nat.not_succ_le_self _ (List.le_max_of_le h le_rfl)

/-- A parameter with control word `pcw` and every other word zero. -/
def blankParam (pcw : Pcw) : TaParam Int where
  pcw := pcw
  isp := ⟨false, 0, 0, false, false, 0⟩
  tsp := ⟨0, 0, false, false, false, false, false, false, 0, 0, 0⟩
  tcw := ⟨0, 0⟩
  faceColor1 := ⟨0, 0, 0, 0⟩
  faceColor2 := ⟨0, 0, 0, 0⟩
  faceOffsetColor2 := ⟨0, 0, 0, 0⟩
  spriteBaseColor := 0
  spriteOffsetColor := 0
  xyz := ⟨0, 0, 0⟩
  uv := ⟨0, 0⟩
  uv16 := (0, 0)
  baseColor := 0
  offsetColor := 0
  baseColorF := ⟨0, 0, 0, 0⟩
  offsetColorF := ⟨0, 0, 0, 0⟩
  baseIntensity := 0
  offsetIntensity := 0
  spriteXyz _ := ⟨0, 0, 0⟩
  spriteUv _ := (0, 0)

/-- A 640 by 480 frame of the stream `ps`, with a zero background and no sort. -/
def frameOf (ps : List (TaParam Int)) : TaContext Int where
  params := ps
  bgVertices _ := 0
  bgIsp := ⟨false, 0, 0, false, false, 0⟩
  bgTsp := ⟨0, 0, false, false, false, false, false, false, 0, 0, 0⟩
  bgTcw := ⟨0, 0⟩
  paletteFmt := 0
  stride := 0
  alphaRef := 0
  autosort := false
  videoWidth := 640
  videoHeight := 480

/-- A render context as an earlier frame may leave it, with `v` in every vertex. -/
def staleContext (v : Int) : TrContext Int where
  width := 0
  height := 0
  surfs _ := TaSurface.zero
  numSurfs := 0
  verts _ := ⟨⟨v, v, v⟩, ⟨v, v⟩, .zero, .zero⟩
  numVerts := 0
  indices _ := 0
  numIndices := 0
  lists _ := ⟨fun _ => 0, 0, 0⟩
  params _ := ⟨0, 0, 0, 0, 0⟩
  numParams := 0

/-- A texture cache with no live entry. -/
def freshWorld : TexWorld := ⟨fun _ => ⟨0, false, .nearest, .repeat, .repeat, 0, 0, 0, [], []⟩, []⟩

end Redream
