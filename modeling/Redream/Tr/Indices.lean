import Redream.Tr.Types

/-!
# Index generation

`tr_generate_indices` walks a list, merges each maximal run of adjacent surfaces whose params
agree into the run's first surface, turns every surface's triangle strip into CCW triangles in
`indices`, points the run's first surface at the indices it got, and compacts the list in place
to the runs' first surfaces.

The three loops of the source are three functions: `trEmitTris` for a surface's triangles,
`trMergeRun` for one run, and `trGenerateRuns` for the list. The outer loop is given `num_surfs`
passes, one per entry at most, since each pass takes at least its root.
-/

namespace Redream

variable {F : Type} (lim : TrLimits)

def trCanMergeSurfs (a b : TaSurface) : Bool := a.params == b.params

/-- The triangle a strip's triangle `j` becomes: `(v, v+1, v+2)` at an odd strip offset and
`(v, v+2, v+1)` at an even one, which turns the CW strip into CCW triangles. -/
def stripTri (surf : TaSurface) (j : Nat) : Nat × Nat × Nat :=
  let v := surf.firstVert + j
  if (surf.stripOffset + j) % 2 = 1 then (v, v + 1, v + 2) else (v, v + 2, v + 1)

/-- The inner loop: `k` triangles of `surf` from triangle `j`, appended to `indices`. -/
def trEmitTris (surf : TaSurface) : (k j : Nat) → TrContext F → TrContext F
  | 0, _, rc => rc
  | k + 1, j, rc =>
    let t := stripTri surf j
    let n := rc.numIndices
    trEmitTris surf k (j + 1) { rc with
      indices := Function.update (Function.update (Function.update rc.indices n t.1) (n + 1) t.2.1)
        (n + 2) t.2.2
      numIndices := n + 3 }

/-- The merge loop from slot `j` with `k` slots left: the root's own slot and every following
surface that merges with the root emit their triangles, after the capacity check. It returns the
slot it stopped at, the running merge count, and the context. -/
def trMergeRun (list : TrList) (rootIdx : Nat) :
    (k j numMerged : Nat) → TrContext F → Except Fault (Nat × Nat × TrContext F)
  | 0, j, m, rc => .ok (j, m, rc)
  | k + 1, j, m, rc =>
    let surfIdx := list.surfs j
    let surf := rc.surfs surfIdx
    if surfIdx ≠ rootIdx ∧ trCanMergeSurfs (rc.surfs rootIdx) surf = false then .ok (j, m, rc)
    else
      let m := if surfIdx ≠ rootIdx then m + 1 else m
      if intLtSize (rc.numIndices + ((surf.numVerts : Int) - 2) * 3) lim.maxIndices then
        trMergeRun list rootIdx k (j + 1) m (trEmitTris surf (surf.numVerts - 2) 0 rc)
      else .error .check

/-- The outer loop over runs from slot `i`: after a run the root is pointed at its indices and
the root's entry is moved to slot `j - num_merged - 1`. -/
def trGenerateRuns (n : Nat) :
    (fuel i numMerged : Nat) → TrContext F → TrList → Except Fault (Nat × TrContext F × TrList)
  | 0, _, m, rc, list => .ok (m, rc, list)
  | fuel + 1, i, m, rc, list =>
    if i < n then do
      let rootIdx := list.surfs i
      let firstIndex := rc.numIndices
      let (j, m, rc) ← trMergeRun lim list rootIdx (n - i) i m rc
      let root := rc.surfs rootIdx
      let rc := { rc with
        surfs := Function.update rc.surfs rootIdx
          { root with firstVert := firstIndex, numVerts := rc.numIndices - firstIndex } }
      trGenerateRuns n fuel j m rc
        { list with surfs := Function.update list.surfs (j - m - 1) (list.surfs i) }
    else .ok (m, rc, list)

def trGenerateIndices (rc : TrContext F) (listType : Nat) : Except Fault (TrContext F) := do
  let list := rc.lists listType
  let (m, rc, list) ← trGenerateRuns lim list.numSurfs list.numSurfs 0 0 rc list
  pure { rc with lists := Function.update rc.lists listType { list with numSurfs := list.numSurfs - m } }

end Redream
