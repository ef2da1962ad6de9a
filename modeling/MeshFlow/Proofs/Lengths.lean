import MeshFlow.Proofs.Outlines
import MeshFlow.Proofs.Reopening

set_option autoImplicit false

/-!
# Literals of the right length

A literal of a scalar or vector is spelt by as many numbers as its kind has components, in an array
or as a number alone. One kind is not strict about it: of an array of numbers the first one makes an
integer, however many follow. Where a saved graph spells a literal in any other way, it is refused
at that input, and the error names it; literals that are read never stand in the way.
-/
namespace MeshFlow

/-- So many numbers: those of an array, or a number alone. -/
inductive Json.Spells (n : Nat) : Json → Prop where
  | listed {items : List Json} :
    (∀ item ∈ items, ∃ x, item = .number x) → items.length = n → Spells n (.array items)
  | alone (x : Json.Number) : n = 1 → Spells n (.number x)

/-- So many numbers make a literal of the kind. -/
def Kind.Takes (k : Kind) (n : Nat) : Prop := k.components? = some n ∨ (k = .int ∧ 0 < n)

def Kind.SpeltBy (k : Kind) (j : Json) : Prop := ∃ n, k.Takes n ∧ j.Spells n

namespace Value

theorem exists_mapM_jsonFloat? {items : List Json}
    (numbers : ∀ item ∈ items, ∃ x, item = .number x) :
    ∃ xs, items.mapM jsonFloat? = some xs ∧ xs.length = items.length := by
  induction items with
  | nil => exact ⟨[], rfl, rfl⟩
  | cons item rest ih =>
    obtain ⟨x, rfl⟩ := numbers item (List.mem_cons_self ..)
    obtain ⟨xs, read, length⟩ := ih fun item mem => numbers item (List.mem_cons_of_mem _ mem)
    refine ⟨MeshFlow.Number.narrow x.toFloat :: xs, ?_, congrArg (· + 1) length⟩
    rw [List.mapM_cons, read]
    rfl

theorem exists_jsonNumbers?_iff (j : Json) (n : Nat) :
    (∃ xs, jsonNumbers? j = some xs ∧ xs.length = n) ↔ j.Spells n := by
  constructor
  · rintro ⟨xs, read, length⟩
    cases j with
    | number x =>
      cases read
      exact .alone x length.symm
    | array items =>
      have numbers : ∀ item ∈ items, ∃ x, item = .number x := by
        intro item mem
        cases item with
        | number x => exact ⟨x, rfl⟩
        | _ => cases (mapM_eq_none mem rfl).symm.trans read
      obtain ⟨xs', read', length'⟩ := exists_mapM_jsonFloat? numbers
      cases read.symm.trans read'
      exact .listed numbers (length'.symm.trans length)
    | _ => cases read
  · rintro (⟨numbers, length⟩ | ⟨x, length⟩)
    · obtain ⟨xs, read, length'⟩ := exists_mapM_jsonFloat? numbers
      exact ⟨xs, read, length'.trans length⟩
    · exact ⟨_, rfl, length.symm⟩

variable {k : Kind} {j : Json}

theorem ofJson?_of_numbers (numeric : k.isNumeric) (given : j.isNull = false)
    {xs : List Float32} (read : jsonNumbers? j = some xs) :
    ((∃ v, ofJson? k j = some v) ↔ k.Takes xs.length) ∧
      ∀ v, ofJson? k j = some v → v.kind? = some k := by
  rw [ofJson?, given, read]
  cases k with
  | int => cases xs <;> simp [Kind.Takes, Kind.components?, kind?]
  | float | vector2 | vector3 | vector4 =>
    constructor
    · simp [Kind.Takes, Kind.components?, ofComponents?, eq_comm]
    · intro v made
      simp only [Option.bind_eq_bind, Option.bind_some, Bool.false_eq_true, if_false] at made
      split at made
      · exact kind?_of_ofComponents? made
      · cases made
  | _ => cases numeric

theorem exists_ofJson?_iff (numeric : k.isNumeric) (given : j.isNull = false) :
    (∃ v, ofJson? k j = some v) ↔ k.SpeltBy j := by
  simp only [Kind.SpeltBy, ← exists_jsonNumbers?_iff]
  cases read : jsonNumbers? j with
  | none => simp [ofJson?, given, read]
  | some xs => simp [(ofJson?_of_numbers numeric given read).1]

theorem kind?_of_numeric (numeric : k.isNumeric) (given : j.isNull = false) {v : Value}
    (made : ofJson? k j = some v) : v.kind? = some k := by
  cases read : jsonNumbers? j with
  | none => simp [ofJson?, given, read] at made
  | some xs => exact (ofJson?_of_numbers numeric given read).2 v made

theorem ofJson?_int_array (items : List Json) : ofJson? .int (.array items)
    = (items.mapM jsonFloat?).bind fun xs => xs.head?.map fun x => int (Number.toInt32 x) := rfl

theorem ofJson?_int_first {item : Json} {rest : List Json} {v : Value}
    (made : ofJson? .int (.array (item :: rest)) = some v) :
    ofJson? .int (.array [item]) = some v := by
  rw [ofJson?_int_array] at made ⊢
  obtain ⟨xs, read, made⟩ := Option.bind_eq_some_iff.1 made
  rw [List.mapM_cons] at read
  obtain ⟨x, first, read⟩ := Option.bind_eq_some_iff.1 read
  obtain ⟨others, -, ⟨⟩⟩ := Option.bind_eq_some_iff.1 read
  rw [List.mapM_cons, first]
  exact made

end Value

theorem find?_of_nodup {specs : List SocketSpec} (distinct : (specs.map (·.name)).Nodup)
    {spec : SocketSpec} (mem : spec ∈ specs) : specs.find? (·.name == spec.name) = some spec := by
  induction specs with
  | nil => cases mem
  | cons first rest ih =>
    obtain ⟨fresh, others⟩ := List.nodup_cons.1 distinct
    rcases List.mem_cons.1 mem with rfl | mem
    · exact List.find?_cons_of_pos (beq_self_eq_true _)
    · have different : first.name ≠ spec.name := fun same => fresh <| by
        exact List.mem_map.2 ⟨spec, mem, same.symm⟩
      rw [List.find?_cons_of_neg (by simpa using different), ih others mem]

/-- A saved graph with a gap for the literal of one input. -/
structure Gap where
  before : List SavedBlock := []
  /-- The block with the inputs before the gap. -/
  block : SavedBlock
  name : String
  later : List SavedInput := []
  after : List SavedBlock := []
  connections : List SavedConnection := []
  output : Option BlockId := none

namespace Gap

def blockWith (s : Gap) (value : Option Json) : SavedBlock :=
  { s.block with inputs := s.block.inputs ++ ⟨s.name, value⟩ :: s.later }

def fill (s : Gap) (value : Option Json) : SavedGraph where
  output := s.output
  blocks := s.before ++ s.blockWith value :: s.after
  connections := s.connections

def upTo (s : Gap) : SavedGraph where
  blocks := s.before ++ [s.block]

def Declares (s : Gap) (k : Kind) : Prop :=
  ∃ b ∈ Block.standard, b.className = s.block.className ∧
    ∃ spec ∈ b.inputSpecs, spec.name = s.name ∧ spec.kind = k

def refusal (s : Gap) (k : Kind) (j : Json) : LoadError :=
  .invalidProperty s.block.id s.name s!"{j.compact} is not a {k.name} literal"

variable {s : Gap} {k : Kind} {j : Json}

open MeshFlow.Graph

theorem Declares.refusal?_eq (h : s.Declares k) {properties : Json} {made : Block}
    (created : Registry.standard.create s.block.className properties = .ok made) :
    refusal? made.inputSpecs s.block.id ⟨s.name, some j⟩
      = if (Value.literal? k j).isSome then none else some (s.refusal k j) := by
  obtain ⟨b, standard, className, spec, mem, name, rfl⟩ := h
  rw [← className] at created
  have found := find?_of_nodup (Block.nodup_names (Block.usual_of_mem b standard).1).1 mem
  rw [name] at found
  rw [← Block.usual_of_create standard created, Block.inputSpecs_usual] at found
  rw [refusal?]
  simp only [found]
  cases Value.literal? spec.kind j <;> rfl

theorem inputs_blockWith (s : Gap) (value : Option Json) (f : SavedInput → Option LoadError) :
    (s.blockWith value).inputs.findSome? f
      = (s.block.inputs.findSome? f).or ((f ⟨s.name, value⟩).or (s.later.findSome? f)) := by
  rw [blockWith, List.findSome?_append, List.findSome?_cons]
  cases f ⟨s.name, value⟩ <;> rfl

theorem sketchBlock_of_read (h : s.Declares k) (read : (Value.literal? k j).isSome) (g : Graph) :
    g.sketchBlock .standard (s.blockWith (some j))
      = g.sketchBlock .standard (s.blockWith none) := by
  refine bind_congr_of_ok fun made created => bind_congr_of_ok fun g' _ => ?_
  have accepted := h.refusal?_eq (j := j) ((mapError_eq_ok_iff ..).1 created)
  rw [if_pos read] at accepted
  rw [inputs_blockWith, inputs_blockWith]
  exact congrArg (unlessRefused · g') (congrArg _ (congrArg (Option.or · _) accepted))

theorem sketchBlock_of_not_read (h : s.Declares k) (read : Value.literal? k j = none) (g : Graph) :
    g.sketchBlock .standard (s.blockWith (some j))
      = g.sketchBlock .standard s.block >>= fun _ => .error (s.refusal k j) := by
  rw [sketchBlock, sketchBlock, bind_assoc]
  refine bind_congr_of_ok fun made created => ?_
  let refuses := refusal? made.inputSpecs s.block.id
  have refused : refuses ⟨s.name, some j⟩ = _ :=
    h.refusal?_eq ((mapError_eq_ok_iff ..).1 created)
  rw [read, if_neg (by simp)] at refused
  rw [bind_assoc]
  refine bind_congr_of_ok fun g' _ => ?_
  rw [inputs_blockWith]
  change unlessRefused
    ((s.block.inputs.findSome? refuses).or ((refuses _).or (s.later.findSome? refuses))) g' = _
  rw [refused]
  change _ = unlessRefused (s.block.inputs.findSome? refuses) g' >>= _
  cases s.block.inputs.findSome? refuses <;> rfl

theorem sketch_fill_of_read (h : s.Declares k) (read : (Value.literal? k j).isSome) :
    sketch .standard (s.fill (some j)) = sketch .standard (s.fill none) := by
  simp only [sketch, fill, List.foldlM_append, List.foldlM_cons, sketchBlock_of_read h read]

theorem sketch_fill_of_not_read (h : s.Declares k) (read : Value.literal? k j = none) :
    sketch .standard (s.fill (some j))
      = sketch .standard s.upTo >>= fun _ => .error (s.refusal k j) := by
  simp only [sketch, fill, upTo, List.foldlM_append, List.foldlM_cons,
    sketchBlock_of_not_read h read, bind_assoc]
  refine bind_congr_of_ok fun g _ => bind_congr_of_ok fun g' _ => rfl

theorem load_fill_of_not_read (h : s.Declares k) (read : Value.literal? k j = none) :
    load .standard (s.fill (some j))
      = load .standard s.upTo >>= fun _ => .error (s.refusal k j) := by
  have sketched := sketch_fill_of_not_read h read
  cases before : load .standard s.upTo with
  | error e =>
    rw [load_eq_error_iff] at before
    rw [before] at sketched
    exact (load_eq_error_iff ..).2 sketched
  | ok g =>
    obtain ⟨g', before⟩ := (exists_load_iff ..).1 ⟨g, before⟩
    rw [before] at sketched
    exact (load_eq_error_iff ..).2 sketched

theorem load_fill_of_read (h : s.Declares k) (read : (Value.literal? k j).isSome) (e : LoadError) :
    load .standard (s.fill (some j)) = .error e ↔ load .standard (s.fill none) = .error e := by
  rw [load_eq_error_iff, load_eq_error_iff, sketch_fill_of_read h read]

/-- A literal of a scalar or vector is read just when it is spelt by as many numbers as its kind
takes, and it is then of that kind; an integer is made of the first number of an array. A saved
graph is never refused for such a literal. For any other it always is: with the error of what comes
before the literal, or else with one that names the input. -/
theorem numeric_literals (numeric : k.isNumeric) (given : j.isNull = false) :
    ((∃ v, Value.ofJson? k j = some v) ↔ k.SpeltBy j) ∧
    (∀ v, Value.ofJson? k j = some v → v.kind? = some k) ∧
    (∀ item rest v, k = .int → j = .array (item :: rest) → Value.ofJson? k j = some v →
      Value.ofJson? k (.array [item]) = some v) ∧
    ∀ s : Gap, s.Declares k →
      (k.SpeltBy j → ∀ e,
        load .standard (s.fill (some j)) = .error e ↔ load .standard (s.fill none) = .error e) ∧
      (¬ k.SpeltBy j → load .standard (s.fill (some j))
        = load .standard s.upTo >>= fun _ => .error (s.refusal k j)) := by
  have shape := Value.exists_ofJson?_iff numeric given
  have literal : Value.literal? k j = Value.ofJson? k j := by
    cases k <;> first | rfl | cases numeric
  refine ⟨shape, fun v => Value.kind?_of_numeric numeric given, ?_, fun s declares => ⟨?_, ?_⟩⟩
  · rintro item rest v rfl rfl made
    exact Value.ofJson?_int_first made
  · intro spelt e
    refine load_fill_of_read declares ?_ e
    rw [literal, Option.isSome_iff_exists]
    exact shape.2 spelt
  · intro not
    refine load_fill_of_not_read declares ?_
    rw [literal, Option.eq_none_iff_forall_ne_some]
    exact fun v made => not (shape.1 ⟨v, made⟩)

def sphereInput (name : String) : Gap where
  block := { className := "SphereBlock", id := 0 }
  name

def oneTwo : Json := .array [.number (.int 1), .number (.int 2)]

theorem numeric_literals_oneTwo :
    Value.ofJson? .int oneTwo = some (.int 1) ∧
    (∃ g, load .standard ((sphereInput "segments").fill (some oneTwo)) = .ok g) ∧
    load .standard ((sphereInput "diameter").fill (some oneTwo))
      = .error (.invalidProperty 0 "diameter" "[1,2] is not a Float literal") := by
  have numbers : oneTwo.Spells 2 := .listed (by simp) rfl
  refine ⟨rfl, ?_, ?_⟩
  · have declares : (sphereInput "segments").Declares .int :=
      ⟨.sphere false, by simp [Block.standard], rfl, _, List.mem_cons_self .., rfl, rfl⟩
    have bare : load .standard ((sphereInput "segments").fill none) = .ok _ := rfl
    have alike := ((numeric_literals (k := .int) rfl rfl).2.2.2 _ declares).1
      ⟨2, .inr ⟨rfl, by decide⟩, numbers⟩
    cases loaded : load .standard ((sphereInput "segments").fill (some oneTwo)) with
    | ok g => exact ⟨g, rfl⟩
    | error e => cases bare.symm.trans ((alike e).1 loaded)
  · have declares : (sphereInput "diameter").Declares .float :=
      ⟨.sphere false, by simp [Block.standard], rfl, _, List.mem_cons_of_mem _
        (List.mem_cons_self ..), rfl, rfl⟩
    have wrong : ¬ Kind.float.SpeltBy oneTwo := by
      rintro ⟨n, ⟨⟨⟩⟩ | ⟨⟨⟩, -⟩, ⟨-, ⟨⟩⟩⟩
    exact ((numeric_literals (k := .float) rfl rfl).2.2.2 _ declares).2 wrong

end Gap
end MeshFlow
