import Redream.Tr.Types

/-!
# Texture resolution

`tr_convert_texture` looks the `(tsp, tcw)` pair up in the host's texture cache, returns a clean
entry's handle as it is, and otherwise destroys the entry's old backend texture, decodes the
texture and asks the backend for a new one.

The backend is seen through the calls the core makes on it, kept as a log, most recent first.
A texture is live from the call that creates it to the call that destroys it (`liveOf`), and
the backend answers a create with a nonzero handle that is not live (`TexHost`).
-/

namespace Redream

inductive FilterMode where
  | nearest | bilinear
  deriving DecidableEq, Repr

inductive WrapMode where
  | repeat | clampToEdge | mirroredRepeat
  deriving DecidableEq, Repr

/-- A cache entry `struct tr_texture`: the core reads the guest's texture and palette bytes and
writes the rest. -/
structure TrTexture where
  handle : Nat
  dirty : Bool
  filter : FilterMode
  wrapU : WrapMode
  wrapV : WrapMode
  format : Nat
  width : Nat
  height : Nat
  palette : List UInt8
  texture : List UInt8

/-- The arguments of `r_create_texture` after the backend itself. -/
structure TexDesc where
  filter : FilterMode
  wrapU : WrapMode
  wrapV : WrapMode
  mipmaps : Bool
  width : Nat
  height : Nat
  data : List UInt8

/-- One call of the core on the backend's textures. -/
inductive TexCall where
  | create (handle : Nat) (desc : TexDesc)
  | destroy (handle : Nat)

/-- The handles a log of calls leaves live. -/
def liveOf : List TexCall → List Nat
  | [] => []
  | .create h _ :: log => h :: liveOf log
  | .destroy h :: log => (liveOf log).erase h

@[simp] theorem liveOf_create (h : Nat) (d : TexDesc) (log : List TexCall) :
    liveOf (.create h d :: log) = h :: liveOf log := rfl

@[simp] theorem liveOf_destroy (h : Nat) (log : List TexCall) :
    liveOf (.destroy h :: log) = (liveOf log).erase h := rfl

/-- The host's side of a conversion: the texture decoder and the backend's choice of handles. -/
structure TexHost where
  /-- The decoder `pvr_tex_decode(src, width, height, stride, fmt, pixel_fmt, palette,
  palette_fmt, ...)`, as the RGBA bytes it writes. -/
  pvrTexDecode : List UInt8 → Nat → Nat → Nat → Nat → Fin 8 → List UInt8 → Nat → List UInt8
  /-- The handle `r_create_texture` returns after the calls `log`. -/
  alloc : List TexCall → Nat
  alloc_ne_zero : ∀ log, alloc log ≠ 0
  alloc_not_live : ∀ log, alloc log ∉ liveOf log

/-- The cache entries `find_texture` returns, by key, and the log of backend calls. -/
structure TexWorld where
  cache : Tsp × Tcw → TrTexture
  calls : List TexCall

variable {F : Type} (host : TexHost) (fe : TaFrontEnd)

/-- The sampler state a texture gets: trilinear filtering is read as bilinear. -/
def texFilter (tsp : Tsp) : FilterMode :=
  if tsp.filterMode = 0 then .nearest else .bilinear

def texWrap (clamp flip : Bool) : WrapMode :=
  if clamp then .clampToEdge else if flip then .mirroredRepeat else .repeat

/-- The handle for `(tsp, tcw)`: a clean entry's own, otherwise a new texture, after destroying
a dirty entry's old one. -/
def trConvertTexture (ctx : TaContext F) (tsp : Tsp) (tcw : Tcw) (w : TexWorld) :
    Nat × TexWorld :=
  let entry := w.cache (tsp, tcw)
  if entry.handle ≠ 0 ∧ entry.dirty = false then (entry.handle, w)
  else
    let (entry, calls) :=
      if entry.handle ≠ 0 ∧ entry.dirty = true then
        ({ entry with handle := 0 }, TexCall.destroy entry.handle :: w.calls)
      else (entry, w.calls)
    let textureFmt := fe.taTextureFormat tcw
    let mipmaps := fe.taTextureMipmaps tcw
    let width := fe.taTextureWidth tsp tcw
    let height := fe.taTextureHeight tsp tcw
    let stride := fe.taTextureStride tsp tcw ctx.stride
    let converted := host.pvrTexDecode entry.texture width height stride textureFmt tcw.pixelFmt
      entry.palette ctx.paletteFmt
    let filter := texFilter tsp
    let wrapU := texWrap tsp.clampU tsp.flipU
    let wrapV := texWrap tsp.clampV tsp.flipV
    let handle := host.alloc calls
    let entry := { entry with
      handle := handle, filter := filter, wrapU := wrapU, wrapV := wrapV
      format := textureFmt, width := width, height := height, dirty := false }
    (handle, ⟨Function.update w.cache (tsp, tcw) entry,
      .create handle ⟨filter, wrapU, wrapV, mipmaps, width, height, converted⟩ :: calls⟩)

end Redream
