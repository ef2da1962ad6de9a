import MeshFlow.Space.Vector

set_option autoImplicit false

/-!
# Triangles in space

Sampling, normals and the crossing of a ray with a triangle.
-/
namespace MeshFlow.Space

structure Triangle where
  a : Vec3
  b : Vec3
  c : Vec3

namespace Triangle

/-- The point for two draws from `[0, 1)`: the smaller draw and the gap to the larger one are the
weights of the first two corners, which spreads points evenly. -/
def sample (t : Triangle) (x y : Float32) : Vec3 :=
  let low := if y < x then y else x
  let high := if y < x then x else y
  let gap := high - low
  t.a.scale low + t.b.scale gap + t.c.scale (1 - low - gap)

def normal (t : Triangle) : Vec3 :=
  (t.b - t.a).normalizeOrZero.cross (t.c - t.b).normalizeOrZero

/-- The cross product of the edges at the first corner; its length is twice the area. -/
def areaNormal (t : Triangle) : Vec3 := (t.b - t.a).cross (t.c - t.a)

/-- What counts as edge-on, or as a hit at the origin itself. -/
def tolerance : Float32 := Float32.ofBits 0x33D6BF95

/-- How far along `direction` a ray from `origin` meets the triangle. Edge-on rays and meetings
behind the origin are none. -/
def rayDistance? (t : Triangle) (origin direction : Vec3) : Option Float32 :=
  let e1 := t.b - t.a
  let e2 := t.c - t.a
  let p := direction.cross e2
  let det := e1.dot p
  if det.abs < tolerance then none
  else
    let inv := 1 / det
    let s := origin - t.a
    let u := s.dot p * inv
    if 0 ≤ u ∧ u ≤ 1 then
      let q := s.cross e1
      let v := direction.dot q * inv
      if v < 0 ∨ 1 < u + v then none
      else
        let distance := e2.dot q * inv
        if tolerance < distance then some distance else none
    else none

end Triangle
end MeshFlow.Space
