import MeshFlow.Block.Plans
import MeshFlow.Proofs.Always

set_option autoImplicit false

/-!
# Plain programs

A plain program does no more than read its inputs and report what it finds, within what is allowed.
It takes no notice of the contexts and enters no others, draws nothing, and keeps nothing. The
programs of most blocks are plain, and of the others at least what is done for one vertex or one
instance is, once its contexts are in force.
-/
namespace MeshFlow

/-- What a program can find. That an input is not connected is found before any program of its block
is run. -/
def Diagnostic.IsFound : Diagnostic → Prop
  | unconnectedInput .. => False
  | missingContextualData _ | invalidGeometry .. | typeMismatch .. | overflow _ => True

namespace Program

section
variable {α β : Type} {N : Nat → Prop}

def Plain (N : Nat → Prop) : Program α → Prop
  | done _ => True
  | read _ k => ∀ v, (k v).Plain N
  | adapt _ _ k => ∀ v, (k v).Plain N
  | isConnected _ k => ∀ b, (k b).Plain N
  | record d k => d.IsFound ∧ d.Within N ∧ k.Plain N
  | isVarying .. | contexts _ | enter .. | draw _ | kept .. | keep .. => False

theorem plain_pure (a : α) : (pure a : Program α).Plain N := True.intro

theorem Plain.bind {p : Program α} (h : p.Plain N) {f : α → Program β} (h' : ∀ a, (f a).Plain N) :
    (p >>= f).Plain N := by
  induction p with
  | done a => exact h' a
  | read i k ih | adapt i kind k ih | isConnected i k ih => exact fun answer => ih answer (h answer)
  | record d k ih => exact ⟨h.1, h.2.1, ih h.2.2⟩
  | isVarying | contexts | enter | draw | kept | keep => exact h.elim

theorem Plain.ite {p q : Program α} (h : p.Plain N) (h' : q.Plain N) (b : Prop) [Decidable b] :
    (if b then p else q).Plain N := by
  split
  · exact h
  · exact h'

theorem plain_value (i : Nat) : (value i).Plain N := fun _ => True.intro

theorem plain_adapted (i : Nat) (kind : Kind) : (adapted i kind).Plain N := fun _ => True.intro

theorem plain_connected (i : Nat) : (connected i).Plain N := fun _ => True.intro

theorem plain_report {d : Diagnostic} (found : d.IsFound) (within : d.Within N) :
    (report d).Plain N :=
  ⟨found, within, True.intro⟩

theorem plain_handOn {overflows : Bool} {vertices : Nat} (within : overflows → N vertices)
    (v : Value) : (handOn overflows vertices v).Plain N := by
  rw [handOn]
  split
  · rename_i overflows
    have noted : (report (.overflow vertices)).Plain N :=
      plain_report True.intro (within overflows)
    exact noted.bind fun _ => plain_pure v
  · exact plain_pure v

theorem plain_float (i : Nat) (fallback : Float32) : (float i fallback).Plain N :=
  (plain_adapted i .float).bind fun _ => plain_pure _

theorem plain_int (i : Nat) (fallback : Int32) : (int i fallback).Plain N :=
  (plain_adapted i .int).bind fun _ => plain_pure _

theorem plain_vec3 (i : Nat) (fallback : Space.Vec3) : (vec3 i fallback).Plain N :=
  (plain_adapted i .vector3).bind fun _ => plain_pure _

theorem plain_matrix? (i : Nat) : (matrix? i).Plain N :=
  (plain_adapted i .matrix).bind fun _ => plain_pure _

theorem plain_mesh? (i : Nat) : (mesh? i).Plain N :=
  (plain_adapted i .geometry).bind fun _ => plain_pure _

end
end Program

namespace Block
open Program
variable {N : Nat → Prop}

theorem plain_box (id : BlockId) : (boxProgram id).Plain N :=
  (plain_float 0 1).bind fun _ => (plain_float 1 0).bind fun _ => (plain_float 2 0).bind fun _ =>
    (plain_float 3 0).bind fun _ => plain_pure _

theorem plain_sphere (id : BlockId) : (sphereProgram id).Plain fun _ => True :=
  (plain_int 0 32).bind fun _ => (plain_float 1 1).bind fun _ => plain_handOn (fun _ => True.intro) _

theorem plain_plane (id : BlockId) : (planeProgram id).Plain fun _ => True :=
  (plain_float 0 1).bind fun _ => (plain_int 3 1).bind fun _ => (plain_float 1 0).bind fun _ =>
    (plain_float 2 0).bind fun _ => plain_handOn (fun _ => True.intro) _

theorem plain_cylinder (id : BlockId) : (cylinderProgram id).Plain fun _ => True :=
  (plain_float 0 2).bind fun _ => (plain_float 1 1).bind fun _ => (plain_int 2 24).bind fun _ =>
    plain_handOn (fun _ => True.intro) _

theorem plain_math (operation : Operation) : (mathProgram operation).Plain N := by
  refine (plain_value 0).bind fun left => ?_
  cases left.kind? with
  | none => exact plain_pure _
  | some kind =>
    refine (plain_adapted 1 kind).bind fun right => ?_
    cases left.components? <;> cases right.bind Value.components? <;> exact plain_pure _

theorem plain_shift : shiftProgram.Plain N := (plain_vec3 0 _).bind fun _ => plain_pure _

theorem plain_scaling : scalingProgram.Plain N := (plain_vec3 0 _).bind fun _ => plain_pure _

theorem plain_rotation (axis : Axis) : (rotationProgram axis).Plain N :=
  (plain_float 0 0).bind fun _ => plain_pure _

theorem plain_compose : composeProgram.Plain N := by
  refine (plain_matrix? 0).bind fun first => (plain_matrix? 1).bind fun second => ?_
  cases first <;> cases second <;> exact plain_pure _

theorem plain_vectorInput4 (i : Nat) (kind : Kind) : (vectorInput4 i kind).Plain N :=
  (plain_adapted i kind).bind fun _ => plain_pure _

theorem plain_componentInput (i : Nat) (base : Float32) : (componentInput i base).Plain N :=
  (plain_connected i).bind fun _ => (plain_float i base).ite (plain_pure base) _

theorem plain_combinedVector : combinedVector.Plain N := by
  refine (plain_connected 0).bind fun a => (plain_connected 1).bind fun b =>
    (plain_connected 2).bind fun c => ?_
  have rest : ∀ base : Space.Vec4, Plain N (do
      let x ← componentInput 3 base.x
      let y ← componentInput 4 base.y
      let z ← componentInput 5 base.z
      let w ← componentInput 6 base.w
      return (⟨x, y, z, w⟩ : Space.Vec4)) := fun base =>
    (plain_componentInput 3 _).bind fun _ => (plain_componentInput 4 _).bind fun _ =>
      (plain_componentInput 5 _).bind fun _ => (plain_componentInput 6 _).bind fun _ => plain_pure _
  refine Plain.ite ((plain_vectorInput4 0 .vector4).bind rest) ?_ _
  refine Plain.ite ((plain_vectorInput4 1 .vector3).bind rest) ?_ _
  exact Plain.ite ((plain_vectorInput4 2 .vector2).bind rest) (rest .zero) _

theorem plain_computeNormals : computeNormalsProgram.Plain N :=
  (plain_mesh? 0).bind fun _ => plain_pure _

theorem plain_transformMatrix : transformMatrix.Plain N := by
  refine (plain_connected 1).bind fun _ => Plain.ite ?_ ?_ _
  · exact (plain_matrix? 1).bind fun _ => plain_pure _
  · exact (plain_vec3 2 _).bind fun _ => (plain_vec3 3 _).bind fun _ => (plain_vec3 4 _).bind fun _ =>
      (plain_vec3 5 _).bind fun _ => plain_pure _

theorem plain_transform : transformProgram.Plain N := by
  refine (plain_mesh? 0).bind fun m => ?_
  cases m with
  | none => exact plain_pure _
  | some m => exact plain_transformMatrix.bind fun _ => plain_pure _

theorem plain_gatherMeshes (inputs : List Nat) : (gatherMeshes inputs).Plain N := by
  induction inputs with
  | nil => exact plain_pure _
  | cons i rest ih => exact (plain_mesh? i).bind fun _ => ih.bind fun _ => plain_pure _

theorem plain_joined (parts : List Mesh) : (joined parts).Plain fun _ => True :=
  plain_handOn (fun _ => True.intro) _

theorem plain_merge : mergeProgram.Plain fun _ => True := (plain_gatherMeshes _).bind plain_joined

theorem plain_infoProgram (number : Mesh → Nat) : (infoProgram number).Plain N :=
  (plain_mesh? 0).bind fun _ => plain_pure _

theorem plain_placementMatrix (inputs : PlacementInputs) (point : Option Space.Vec3) :
    (placementMatrix inputs point).Plain N := by
  refine (plain_connected _).bind fun _ => Plain.ite ?_ ?_ _
  · exact (plain_matrix? _).bind fun _ => plain_pure _
  · exact (plain_vec3 _ _).bind fun _ => (plain_vec3 _ _).bind fun _ =>
      (plain_vec3 _ _).bind fun _ => plain_pure _

theorem plain_place (inputs : PlacementInputs) (point : Option Space.Vec3) (copies : List Mesh) :
    (place inputs point copies).Plain N := by
  refine (plain_mesh? _).bind fun m => ?_
  cases m with
  | none => exact plain_pure _
  | some m => exact (plain_pure _).ite ((plain_placementMatrix _ _).bind fun _ => plain_pure _) _

theorem plain_countInput (input : Nat) (usual : Int32) : (countInput input usual).Plain N :=
  (plain_int input usual).bind fun _ => plain_pure _

theorem plain_baseMesh? (id : BlockId) (needsFaces : Bool) : (baseMesh? id needsFaces).Plain N := by
  have refused : ∀ reason, Plain N (do
      report (.invalidGeometry id reason)
      return (none : Option Mesh)) := fun reason =>
    (plain_report (by trivial) (by trivial)).bind fun _ => plain_pure _
  refine (plain_mesh? 0).bind fun m? => ?_
  cases m? with
  | none => exact plain_pure _
  | some m => exact (refused _).ite ((refused _).ite (plain_pure _) _) _

end Block
end MeshFlow
