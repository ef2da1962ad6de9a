import MeshFlow.Space.Matrix

set_option autoImplicit false

/-!
# Placements

A placement scales, then turns, then moves. Turns are given by three angles in radians: yaw about
y, pitch about x, roll about z.
-/
namespace MeshFlow.Space

structure Rotation where
  x : Float32
  y : Float32
  z : Float32
  w : Float32

namespace Rotation

/-- Yaw from `y`, then pitch from `x`, then roll from `z`. -/
def ofAngles (angles : Vec3) : Rotation :=
  let half : Vec3 := angles.scale 0.5
  let si := half.y.sin
  let ci := half.y.cos
  let sj := half.x.sin
  let cj := half.x.cos
  let sh := half.z.sin
  let ch := half.z.cos
  let cc := ci * ch
  let cs := ci * sh
  let sc := si * ch
  let ss := si * sh
  ⟨cj * ss + sj * cc, cj * sc - sj * cs, cj * cs - sj * sc, cj * cc + sj * ss⟩

end Rotation

namespace Matrix

def ofScaleRotationShift (scaling : Vec3) (r : Rotation) (shift : Vec3) : Matrix :=
  let x2 := r.x + r.x
  let y2 := r.y + r.y
  let z2 := r.z + r.z
  let xx := r.x * x2
  let xy := r.x * y2
  let xz := r.x * z2
  let yy := r.y * y2
  let yz := r.y * z2
  let zz := r.z * z2
  let wx := r.w * x2
  let wy := r.w * y2
  let wz := r.w * z2
  ⟨(⟨1 - (yy + zz), xy + wz, xz - wy, 0⟩ : Vec4).scale scaling.x,
    (⟨xy - wz, 1 - (xx + zz), yz + wx, 0⟩ : Vec4).scale scaling.y,
    (⟨xz + wy, yz - wx, 1 - (xx + yy), 0⟩ : Vec4).scale scaling.z,
    shift.extend 1⟩

def ofPlacement (position rotation scaling : Vec3) : Matrix :=
  ofScaleRotationShift scaling (Rotation.ofAngles rotation) position

def ofPivot (shift rotation scaling pivot : Vec3) : Matrix :=
  ofShift (shift + pivot)
    * ofScaleRotationShift scaling (Rotation.ofAngles rotation) Vec3.zero
    * ofShift (-pivot)

end Matrix
end MeshFlow.Space
