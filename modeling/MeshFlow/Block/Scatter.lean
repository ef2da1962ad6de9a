import MeshFlow.Block.Gathering
import MeshFlow.Mesh.Inside
import MeshFlow.Mesh.Motion
import MeshFlow.Space.Placement
import Std.Data.HashSet

set_option autoImplicit false

/-!
# Blocks that place instances

All four choose placements (the steps of a loop, points on faces, vertices, points in a volume),
tell the contexts of each, read the instance and its transform under them, and put the transformed
copies together in order.
-/
namespace MeshFlow.Block
open Program Space

/-- Where a block that places instances finds what it reads for each. -/
structure PlacementInputs where
  item : Nat
  matrix : Nat
  position : Nat
  rotation : Nat
  scaling : Nat

def loopInputs : PlacementInputs := ⟨0, 2, 3, 4, 5⟩

def overInputs : PlacementInputs := ⟨1, 3, 4, 5, 6⟩

/-- The matrix of one placement; a point is added to the position, or applied after the matrix. -/
def placementMatrix (inputs : PlacementInputs) (point : Option Vec3) : Program Matrix := do
  if ← connected inputs.matrix then
    let m := (← matrix? inputs.matrix).getD Matrix.identity
    return match point with
      | some p => Matrix.ofShift p * m
      | none => m
  else
    let position ← vec3 inputs.position .zero
    let rotation ← vec3 inputs.rotation .zero
    let scaling ← vec3 inputs.scaling .one
    return Matrix.ofPlacement (position + point.getD .zero) rotation scaling

/-- Reads one instance and puts its transformed copy before `copies`; an instance that is null or
has no positions adds nothing. -/
def place (inputs : PlacementInputs) (point : Option Vec3) (copies : List Mesh) :
    Program (List Mesh) := do
  match ← mesh? inputs.item with
  | none => return copies
  | some m =>
    if !m.hasPositions then return copies
    else return m.transform (← placementMatrix inputs point) :: copies

def placeAt (inputs : PlacementInputs) (outer : Contexts) (step : Execution)
    (point : Option Vec3) (copies : List Mesh) : Program (List Mesh) := do
  setContexts (outer.placing step)
  place inputs point copies

/-- Every read of the instance would add nothing: it is fixed and has no positions. -/
def neverPlaces (input : Nat) : Program Bool := do
  if ← varying input then return false
  else return !((← mesh? input).any Mesh.hasPositions)

def countInput (input : Nat) (usual : Int32) : Program Nat := do
  return (← int input usual).toInt.toNat

/-- The geometry to place over; one that is of no use is reported. -/
def baseMesh? (id : BlockId) (needsFaces : Bool) : Program (Option Mesh) := do
  match ← mesh? 0 with
  | none => return none
  | some base =>
    if !base.hasPositions then
      report (.invalidGeometry id "geometry has no positions")
      return none
    else if needsFaces && base.faceCount == 0 then
      report (.invalidGeometry id "geometry has no faces")
      return none
    else return some base

/-! ## A loop -/

def instantiateProgram (id : BlockId) : Program Value := inScope do
  let count ← countInput 1 1
  if count == 0 then return .null
  else if ← neverPlaces loopInputs.item then return .null
  else
    let outer ← currentContexts
    let copies ← forEach
      (fun copies i => placeAt loopInputs outer (Execution.atStep id i) none copies)
      (List.range count) []
    joined copies.reverse

/-! ## Faces -/

structure FaceProgress where
  accumulated : Float32 := 0
  placed : Nat := 0
  copies : List Mesh := []

def placeOnFace (id : BlockId) (outer : Contexts) (face : Nat) (t : Triangle)
    (copies : List Mesh) (number : Nat) : Program (List Mesh) := do
  let x ← uniform
  let y ← uniform
  let point := t.sample x y
  let step : Execution :=
    { Execution.atStep id number with
      faceIndex := face, position := some point, normal := some t.normal }
  placeAt overInputs outer step (some point) copies

/-- The placements of one face: as many as bring the number placed up to the whole part of the
running share; the last face takes all that is left. -/
def placeFaceShare (id : BlockId) (outer : Contexts) (count : Nat) (share : Float32) (last : Nat)
    (progress : FaceProgress) (entry : (Nat × Triangle) × Nat) : Program FaceProgress := do
  if count ≤ progress.placed then return progress
  else
    let accumulated := progress.accumulated + share
    let target :=
      if entry.2 = last then count else min (Number.toCount (Number.floor accumulated)) count
    let copies ← forEach (placeOnFace id outer entry.1.1 entry.1.2)
      (List.range' progress.placed (target - progress.placed)) progress.copies
    return ⟨accumulated, max progress.placed target, copies⟩

def instantiateOnFacesProgram (id : BlockId) : Program Value := inScope do
  match ← baseMesh? id true with
  | none => return .null
  | some base =>
    let count ← countInput 2 256
    if count == 0 then return .null
    else if ← neverPlaces overInputs.item then return .null
    else
      let triangles := base.triangles
      let skipped := base.faceCount - triangles.length
      if 0 < skipped then
        report (.invalidGeometry id s!"{skipped} faces reference missing vertices")
      if triangles.isEmpty then return .null
      else
        let outer := { ← currentContexts with geometry := some (.of base) }
        let share := Number.ofNat count / Number.ofNat triangles.length
        let progress ← forEach
          (placeFaceShare id outer count share (triangles.length - 1)) triangles.zipIdx {}
        joined progress.copies.reverse

/-! ## Vertices -/

def pointBits (p : Vec3) : UInt32 × UInt32 × UInt32 := (p.x.toBits, p.y.toBits, p.z.toBits)

structure VertexProgress where
  seen : Std.HashSet (UInt32 × UInt32 × UInt32) := ∅
  placed : Nat := 0
  copies : List Mesh := []

def isPassedOver (density : Float32) : Program Bool := do
  if density < 1 then return decide (density ≤ (← uniform)) else return false

/-- Maybe one placement at a vertex: not at a point seen before, if these are to be removed, and
else by the chance that the density gives. -/
def placeOnVertex (id : BlockId) (removeDuplicates : Bool) (outer : Contexts)
    (base : IndexedMesh) (density : Float32) (progress : VertexProgress) (entry : Vec3 × Nat) :
    Program VertexProgress := do
  let (point, vertex) := entry
  if removeDuplicates && progress.seen.contains (pointBits point) then return progress
  else
    let progress :=
      if removeDuplicates then { progress with seen := progress.seen.insert (pointBits point) }
      else progress
    if ← isPassedOver density then return progress
    else
      let step : Execution :=
        { Execution.atStep id vertex with
          loopIndex := progress.placed, position := some point, normal := base.normal? vertex }
      let copies ← placeAt overInputs outer step (some point) progress.copies
      return { progress with placed := progress.placed + 1, copies }

def instantiateOnVerticesProgram (id : BlockId) (removeDuplicates : Bool) : Program Value :=
  inScope do
  match ← baseMesh? id false with
  | none => return .null
  | some base =>
    let density ← float 2 1
    let indexed := IndexedMesh.of base
    let outer := { ← currentContexts with geometry := some indexed }
    let progress ← forEach (placeOnVertex id removeDuplicates outer indexed density)
      base.points.zipIdx {}
    joined progress.copies.reverse

/-! ## Volumes -/

/-- A random point of a box that is inside a surface, within some attempts. -/
def findInside (surface : List Triangle) (low high : Vec3) : Nat → Program (Option Vec3)
  | 0 => return none
  | attempts + 1 => do
    let x ← uniform
    let y ← uniform
    let z ← uniform
    let point := low + (high - low) * ⟨x, y, z⟩
    if isInside surface point then return some point
    else findInside surface low high attempts

/-- Up to `remaining` placements at points inside a surface, numbered from `number`; it ends early
where no point is found. -/
def placeInside (id : BlockId) (outer : Contexts) (search : Program (Option Vec3)) :
    (remaining number : Nat) → List Mesh → Program (List Mesh)
  | 0, _, copies => return copies
  | remaining + 1, number, copies => do
    match ← search with
    | none => return copies
    | some point =>
      let step : Execution := { Execution.atStep id number with position := some point }
      let copies ← placeAt overInputs outer step (some point) copies
      placeInside id outer search remaining (number + 1) copies

def instantiateOnVolumeProgram (id : BlockId) (maxAttempts : UInt32) : Program Value := inScope do
  match ← baseMesh? id true with
  | none => return .null
  | some base =>
    match base.bounds? with
    | none => return .null
    | some (low, high) =>
      let count ← countInput 2 256
      if count == 0 then return .null
      else if ← neverPlaces overInputs.item then return .null
      else
        let outer := { ← currentContexts with geometry := some (.of base) }
        let copies ← placeInside id outer (findInside base.surface low high maxAttempts.toNat)
          count 0 []
        joined copies.reverse

end MeshFlow.Block
