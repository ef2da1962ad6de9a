import MeshFlow.Proofs.Acyclic

set_option autoImplicit false

/-!
# What may be connected and what is

To ask whether two sockets may be connected and to connect them come to the same, apart from the one
thing that the question leaves out: whether the input is free. In either order of the ends it is the
same question and the same connection. To connect whatever the kinds lets in all that passes the
kinds, and what it lets in besides is refused for its kinds. All this holds of every graph and of any
two sockets, there or not.
-/
namespace MeshFlow.Graph
variable {g g' : Graph} {a b o i : SocketId}

theorem Oriented.symm (h : g.Oriented a b o i) : g.Oriented b a o i :=
  ⟨h.either.symm, h.output, h.input, h.output_exists, h.input_exists⟩

theorem oriented_comm (g : Graph) (a b o i : SocketId) : g.Oriented a b o i ↔ g.Oriented b a o i :=
  ⟨.symm, .symm⟩

theorem Oriented.input_iff (h : g.Oriented a b o i) (p : SocketId) :
    (p = a ∨ p = b) ∧ p.side = .input ↔ p = i := by
  have output : o.side ≠ .input := by
    rw [h.output]
    exact nofun
  rcases h.either with ⟨rfl, rfl⟩ | ⟨rfl, rfl⟩
  · constructor
    · rintro ⟨rfl | same, side⟩
      · exact absurd side output
      · exact same
    · rintro rfl
      exact ⟨.inr rfl, h.input⟩
  · constructor
    · rintro ⟨same | rfl, side⟩
      · exact same
      · exact absurd side output
    · rintro rfl
      exact ⟨.inl rfl, h.input⟩

theorem connectIf_comm (check : SocketId → SocketId → Compatibility) (g g' : Graph)
    (a b : SocketId) : g.connectIf check a b = .ok g' ↔ g.connectIf check b a = .ok g' := by
  simp only [connectIf_eq_ok_iff, oriented_comm g a b]

theorem canConnect_eq_compatible_iff (g : Graph) (a b : SocketId) :
    g.canConnect a b = .compatible ↔
      ∃ o i, g.Oriented a b o i ∧ g.compatibility o i = .compatible := by
  simp only [← orient_eq_ok_iff]
  rw [canConnect]
  cases g.orient a b with
  | error e => simp
  | ok ends =>
    obtain ⟨o, i⟩ := ends
    simp

/-- The input among two sockets, if there is one, is free. -/
def InputFree (g : Graph) (a b : SocketId) : Prop :=
  ∀ p, p = a ∨ p = b → p.side = .input → g.peer? p = none

theorem Oriented.inputFree_iff (h : g.Oriented a b o i) {target : MeshFlow.Socket}
    (ht : g.socket? i = some target) : g.InputFree a b ↔ target.peer = none := by
  have peer : g.peer? i = target.peer := by rw [peer?, ht, Option.bind_some]
  rw [← peer]
  constructor
  · intro free
    obtain ⟨among, side⟩ := (h.input_iff i).2 rfl
    exact free i among side
  · rintro free p among side
    rwa [(h.input_iff p).1 ⟨among, side⟩]

theorem exists_connect_iff (g : Graph) (a b : SocketId) :
    (∃ g', g.connect a b = .ok g') ↔ g.canConnect a b = .compatible ∧ g.InputFree a b := by
  rw [canConnect_eq_compatible_iff]
  constructor
  · rintro ⟨g', done⟩
    obtain ⟨o, i, target, oriented, ht, free, passes, -⟩ := (connectIf_eq_ok_iff ..).1 done
    exact ⟨⟨o, i, oriented, passes⟩, (oriented.inputFree_iff ht).2 free⟩
  · rintro ⟨⟨o, i, oriented, passes⟩, free⟩
    obtain ⟨target, ht⟩ := Option.isSome_iff_exists.1 oriented.input_exists
    exact ⟨_, (connectIf_eq_ok_iff ..).2
      ⟨o, i, target, oriented, ht, (oriented.inputFree_iff ht).1 free, passes, rfl⟩⟩

theorem connectUnchecked_of_connect (done : g.connect a b = .ok g') :
    g.connectUnchecked a b = .ok g' := by
  obtain ⟨o, i, target, oriented, ht, free, passes, rfl⟩ := (connectIf_eq_ok_iff ..).1 done
  exact (connectIf_eq_ok_iff ..).2
    ⟨o, i, target, oriented, ht, free, hierarchy_of_compatibility passes, rfl⟩

theorem compatibility_of_hierarchy (passes : g.hierarchy o i = .compatible) :
    g.compatibility o i = .compatible ∨ g.compatibility o i = .typeIncompatible := by
  rw [compatibility]
  split
  · exact .inr rfl
  · split
    · exact .inl passes
    · exact .inr rfl

theorem connect_of_connectUnchecked (done : g.connectUnchecked a b = .ok g') :
    g.connect a b = .ok g' ∨
      ∃ o i, g.Oriented a b o i ∧ g.connect a b = .error (.incompatible .typeIncompatible o i) := by
  obtain ⟨o, i, target, oriented, ht, free, passes, rfl⟩ := (connectIf_eq_ok_iff ..).1 done
  have attempt : g.connect a b = _ := connectIf_of_free g.compatibility oriented ht free
  rcases compatibility_of_hierarchy passes with compatible | incompatible
  · rw [if_pos compatible] at attempt
    exact .inl attempt
  · rw [incompatible, if_neg nofun] at attempt
    exact .inr ⟨o, i, oriented, attempt⟩

/-- Two sockets are connected just if the question says that they may be and the input among them is
free; in either order of the two, to the same graph. Whatever is connected is also connected, to the
same graph, where the kinds are not looked at, and what is connected only there is refused for its
kinds. -/
theorem connect_agrees (g : Graph) (a b : SocketId) :
    ((∃ g', g.connect a b = .ok g') ↔ g.canConnect a b = .compatible ∧
      ∀ p, p = a ∨ p = b → p.side = .input → g.peer? p = none) ∧
    (∀ g', g.connect a b = .ok g' ↔ g.connect b a = .ok g') ∧
    (∀ g', g.connect a b = .ok g' → g.connectUnchecked a b = .ok g') ∧
    ∀ g', g.connectUnchecked a b = .ok g' → (∃ g'', g.connect a b = .ok g'') ∨
      ∃ o i, g.Oriented a b o i ∧ g.connect a b = .error (.incompatible .typeIncompatible o i) :=
  ⟨g.exists_connect_iff a b, fun g' => g.connectIf_comm _ g' a b,
    fun _ done => connectUnchecked_of_connect done,
    fun g' done => (connect_of_connectUnchecked done).imp_left fun passes => ⟨g', passes⟩⟩

def apart : Graph :=
  [.add "ball" (.sphere false), .add "box" (.box false)].foldl Edit.apply .empty

/-- A mesh becomes the size of a box where the kinds are not looked at, and is refused for its kind
where they are. -/
theorem connect_agrees_in_apart :
    apart.connectUnchecked (.output 0 0) (.input 1 0)
        = .ok (apart.link (.output 0 0) (.input 1 0)) ∧
      ∃ o i, apart.connect (.output 0 0) (.input 1 0)
        = .error (.incompatible .typeIncompatible o i) := by
  have made : apart.connectUnchecked (.output 0 0) (.input 1 0)
      = .ok (apart.link (.output 0 0) (.input 1 0)) := rfl
  refine ⟨made, ?_⟩
  have question := (connect_agrees apart (.output 0 0) (.input 1 0)).1
  rcases (connect_agrees apart (.output 0 0) (.input 1 0)).2.2.2 _ made with passes | refused
  · have may : apart.canConnect (.output 0 0) (.input 1 0) = .compatible := (question.1 passes).1
    exact absurd may (by decide +kernel)
  · obtain ⟨o, i, -, refused⟩ := refused
    exact ⟨o, i, refused⟩

end MeshFlow.Graph
