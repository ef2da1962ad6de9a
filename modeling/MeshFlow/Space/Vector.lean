import MeshFlow.Number.Convert

set_option autoImplicit false

/-!
# Vectors of single-precision floats

Sums associate to the left, as written; nothing is fused or reordered, so every result is fixed to
the last bit.
-/
namespace MeshFlow.Space

structure Vec2 where
  x : Float32
  y : Float32
  deriving BEq

structure Vec3 where
  x : Float32
  y : Float32
  z : Float32
  deriving BEq

structure Vec4 where
  x : Float32
  y : Float32
  z : Float32
  w : Float32
  deriving BEq

namespace Vec2

def splat (s : Float32) : Vec2 := ⟨s, s⟩

def toList (v : Vec2) : List Float32 := [v.x, v.y]

def ofList? : List Float32 → Option Vec2
  | [x, y] => some ⟨x, y⟩
  | _ => none

/-- Entry `i` of a buffer that holds two floats an entry. -/
def ofEntry? (buffer : Nat → Option Float32) (i : Nat) : Option Vec2 := do
  return ⟨← buffer (2 * i), ← buffer (2 * i + 1)⟩

end Vec2

namespace Vec3

def splat (s : Float32) : Vec3 := ⟨s, s, s⟩

def zero : Vec3 := ⟨0, 0, 0⟩

def one : Vec3 := ⟨1, 1, 1⟩

def unitX : Vec3 := ⟨1, 0, 0⟩

def unitY : Vec3 := ⟨0, 1, 0⟩

def toList (v : Vec3) : List Float32 := [v.x, v.y, v.z]

def ofList? : List Float32 → Option Vec3
  | [x, y, z] => some ⟨x, y, z⟩
  | _ => none

/-- Entry `i` of a buffer that holds three floats an entry. -/
def ofEntry? (buffer : Nat → Option Float32) (i : Nat) : Option Vec3 := do
  return ⟨← buffer (3 * i), ← buffer (3 * i + 1), ← buffer (3 * i + 2)⟩

@[inline] def map (f : Float32 → Float32) (v : Vec3) : Vec3 := ⟨f v.x, f v.y, f v.z⟩

@[inline] def zipWith (f : Float32 → Float32 → Float32) (a b : Vec3) : Vec3 :=
  ⟨f a.x b.x, f a.y b.y, f a.z b.z⟩

instance : Add Vec3 := ⟨fun a b => zipWith (· + ·) a b⟩

instance : Sub Vec3 := ⟨fun a b => zipWith (· - ·) a b⟩

/-- Component by component. -/
instance : Mul Vec3 := ⟨fun a b => zipWith (· * ·) a b⟩

instance : Neg Vec3 := ⟨fun v => map (- ·) v⟩

def scale (v : Vec3) (s : Float32) : Vec3 := v.map (· * s)

def dot (a b : Vec3) : Float32 := a.x * b.x + a.y * b.y + a.z * b.z

def cross (a b : Vec3) : Vec3 :=
  ⟨a.y * b.z - b.y * a.z, a.z * b.x - b.z * a.x, a.x * b.y - b.x * a.y⟩

def length (v : Vec3) : Float32 := (v.dot v).sqrt

/-- The vector over its length, or zero when that cannot be had. -/
def normalizeOrZero (v : Vec3) : Vec3 :=
  let r := 1 / v.length
  if r.isFinite && 0 < r then v.scale r else zero

def componentMin (a b : Vec3) : Vec3 := zipWith Number.smaller a b

def componentMax (a b : Vec3) : Vec3 := zipWith Number.larger a b

def extend (v : Vec3) (w : Float32) : Vec4 := ⟨v.x, v.y, v.z, w⟩

end Vec3

namespace Vec4

def splat (s : Float32) : Vec4 := ⟨s, s, s, s⟩

def zero : Vec4 := splat 0

def toList (v : Vec4) : List Float32 := [v.x, v.y, v.z, v.w]

def ofList? : List Float32 → Option Vec4
  | [x, y, z, w] => some ⟨x, y, z, w⟩
  | _ => none

/-- Entry `i` of a buffer that holds four floats an entry. -/
def ofEntry? (buffer : Nat → Option Float32) (i : Nat) : Option Vec4 := do
  return ⟨← buffer (4 * i), ← buffer (4 * i + 1), ← buffer (4 * i + 2), ← buffer (4 * i + 3)⟩

@[inline] def zipWith (f : Float32 → Float32 → Float32) (a b : Vec4) : Vec4 :=
  ⟨f a.x b.x, f a.y b.y, f a.z b.z, f a.w b.w⟩

instance : Add Vec4 := ⟨fun a b => zipWith (· + ·) a b⟩

instance : Sub Vec4 := ⟨fun a b => zipWith (· - ·) a b⟩

/-- Component by component. -/
instance : Mul Vec4 := ⟨fun a b => zipWith (· * ·) a b⟩

def scale (v : Vec4) (s : Float32) : Vec4 := ⟨v.x * s, v.y * s, v.z * s, v.w * s⟩

def xyz (v : Vec4) : Vec3 := ⟨v.x, v.y, v.z⟩

def xy (v : Vec4) : Vec2 := ⟨v.x, v.y⟩

end Vec4
end MeshFlow.Space
