import Redream.Tr.Parse
import Redream.Tr.Indices

/-!
# Converting and rendering a frame

`tr_convert_context` in its three parts: the stream (reset, background, walk), the sort of the
translucent and punch-through lists when the frame asks for it, and index generation for the
five lists in order; then `tr_render_context_until`, which draws the converted lists.

`tr_sort_surfaces` stores each listed surface's least vertex depth in `sort_minz`, indexed by the
surface, and merge-sorts the list's entries with `tr_compare_surf`, which takes `i` before `j`
when `sort_minz[i] <= sort_minz[j]`. `tr_render_context_until` opens the backend's surface pass,
draws the opaque, punch-through and translucent lists in that order, stops after drawing
`end_surf` when it meets it, and closes the pass; the backend is seen through the calls it
receives, in order.
-/

namespace Redream

variable {F : Type} (lim : TrLimits) (fp : FloatOps F) (host : TexHost) (fe : TaFrontEnd)

/-! ## Sorting translucent surfaces -/

/-- Modelled from the spec: `MIN` of `core.h` on floats, `a < b ? a : b`. -/
def fmin (a b : F) : F := if fp.lt a b then a else b

/-- Modelled from the spec: `msort_noalloc` of `core/sort.c`, a stable merge sort through an
auxiliary buffer of the same size, which takes `a` before `b` when `cmp(a, b)` holds. -/
def msortNoalloc (data : List Nat) (cmp : Nat → Nat → Bool) : List Nat := data.mergeSort cmp

def trCompareSurf (sortMinz : Nat → F) (i j : Nat) : Bool := fp.le (sortMinz i) (sortMinz j)

/-- The least depth of a surface's first three vertices. -/
def surfMinz (rc : TrContext F) (surf : TaSurface) : F :=
  let verts := fun k => rc.verts (surf.firstVert + k)
  fmin fp (fmin fp (verts 0).xyz.z (verts 1).xyz.z) (verts 2).xyz.z

/-- The first loop of `tr_sort_surfaces`: each entry's surface must have three vertices, and its
least depth is stored at the surface's index. -/
def trStoreMinz (rc : TrContext F) : List Nat → (Nat → F) → Except Fault (Nat → F)
  | [], m => .ok m
  | s :: ss, m =>
    if (rc.surfs s).numVerts = 3 then
      trStoreMinz rc ss (Function.update m s (surfMinz fp rc (rc.surfs s)))
    else .error .check

def trSortSurfaces (rc : TrContext F) (listType : Nat) (sortMinz : Nat → F) :
    Except Fault (TrContext F × (Nat → F)) := do
  let list := rc.lists listType
  let sortMinz ← trStoreMinz fp rc list.entries sortMinz
  let sorted := msortNoalloc list.entries (trCompareSurf fp sortMinz)
  let list := { list with surfs := fun k => if k < list.numSurfs then sorted.getD k 0 else list.surfs k }
  pure ({ rc with lists := Function.update rc.lists listType list }, sortMinz)

/-! ## Converting a frame -/

/-- Reset, the background, and the walk over the stream. -/
def trConvertStream (ctx : TaContext F) (rc : TrContext F) (w : TexWorld) :
    Except Fault (TrContext F × TexWorld) := do
  let (tr, rc) := trReset rc
  let rc := { rc with width := ctx.videoWidth, height := ctx.videoHeight }
  let (tr, rc, w) ← trParseBg lim fp host fe ctx tr rc w
  let (_, rc, w) ← trParseParams lim fp host fe ctx ctx.params 0 (tr, rc, w)
  pure (rc, w)

/-- The sort, when `autosort` is set. -/
def trSortLists (ctx : TaContext F) (rc : TrContext F) (sortMinz : Nat → F) :
    Except Fault (TrContext F × (Nat → F)) :=
  if ctx.autosort then do
    let (rc, sortMinz) ← trSortSurfaces fp rc TA_LIST_TRANSLUCENT sortMinz
    trSortSurfaces fp rc TA_LIST_PUNCH_THROUGH sortMinz
  else .ok (rc, sortMinz)

/-- Index generation for the lists `0 .. TA_NUM_LISTS - 1`. -/
def trGenerateAllIndices (rc : TrContext F) : Except Fault (TrContext F) :=
  (List.range TA_NUM_LISTS).foldlM (trGenerateIndices lim) rc

def trConvertContext (ctx : TaContext F) (rc : TrContext F) (sortMinz : Nat → F) (w : TexWorld) :
    Except Fault (TrContext F × (Nat → F) × TexWorld) := do
  let (rc, w) ← trConvertStream lim fp host fe ctx rc w
  let (rc, sortMinz) ← trSortLists fp ctx rc sortMinz
  let rc ← trGenerateAllIndices lim rc
  pure (rc, sortMinz, w)

/-! ## Rendering a converted context -/

/-- One call on the render backend's surface pass. -/
inductive RenderCall where
  | beginTaSurfaces (width height numVerts numIndices : Nat)
  | drawTaSurface (surf : Nat)
  | endTaSurfaces
  deriving DecidableEq, Repr

/-- The loop of `tr_render_list`: draw each entry, and stop after `end_surf`. The flag says
whether it stopped. -/
def trRenderSurfs (endSurf : Int) : List Nat → List RenderCall → Bool × List RenderCall
  | [], calls => (false, calls)
  | s :: ss, calls =>
    let calls := calls ++ [.drawTaSurface s]
    if (s : Int) = endSurf then (true, calls) else trRenderSurfs endSurf ss calls

def trRenderList (rc : TrContext F) (listType : Nat) (endSurf : Int) (stopped : Bool)
    (calls : List RenderCall) : Bool × List RenderCall :=
  if stopped then (stopped, calls) else trRenderSurfs endSurf (rc.lists listType).entries calls

def trRenderContextUntil (rc : TrContext F) (endSurf : Int) : List RenderCall :=
  let calls := [.beginTaSurfaces rc.width rc.height rc.numVerts rc.numIndices]
  let (stopped, calls) := trRenderList rc TA_LIST_OPAQUE endSurf false calls
  let (stopped, calls) := trRenderList rc TA_LIST_PUNCH_THROUGH endSurf stopped calls
  let (_, calls) := trRenderList rc TA_LIST_TRANSLUCENT endSurf stopped calls
  calls ++ [.endTaSurfaces]

def trRenderContext (rc : TrContext F) : List RenderCall := trRenderContextUntil rc (-1)

end Redream
