import Wgsl.Proofs.Origin
import Wgsl.Proofs.TokenOrder

/-!
# Where nodes are located

The location of a node is that of its own token. A node was read where that token stands as a whole
(`Module.made_of_ofTokens`), so the token is one of those the text is divided into, and no other
token of the text has its location. It does not matter what had been tried before, or how many
closing angles had been split off other tokens.
-/

namespace Wgsl

namespace Module

/-- Every node is located at its own token. For a node with a location, at any depth of a module,
one token of the text has that location, and it is the node's own, read at a place that the reader
came to. -/
theorem located_of_ofSource {source : String} {options : ReadOptions} {m : Module}
    (h : Module.ofSource source options = .ok m) {d : Declaration} (hd : d ∈ m) {n : Node}
    (hn : n.Occurs (.declaration d)) {l : Location} (hl : n.location? = some l) :
    ∃ c, (Cursor.ofTokens (tokenize source)).Reaches c ∧
      (tokenize source).filter (·.location = l) = [c.current] ∧ n.Own options c := by
  obtain ⟨c, hreach, hmem, rfl, hown⟩ := made_of_ofTokens h hd n hn l hl
  have htoken : c.current ∈ tokenize source :=
    (List.takeWhile_prefix _).subset (hreach.suffix.subset hmem)
  exact ⟨c, hreach, filter_location_eq htoken, hown⟩

/-- In `const x = array<vec2<f32>>(y) >= z;` a `>` was split off the `>>` before the comparison was
read, whose operator stands behind the construction. -/
theorem located_of_ofSource_of_comparison :
    ∃ d left right, Module.ofSource "const x = array<vec2<f32>>(y) >= z;" = .ok [d] ∧
      (Node.expression (.binary .greaterEqual left right ⟨1, 31⟩)).Occurs (.declaration d) ∧
      ∃ c, (Cursor.ofTokens (tokenize "const x = array<vec2<f32>>(y) >= z;")).Reaches c ∧
        (tokenize "const x = array<vec2<f32>>(y) >= z;").filter (·.location = ⟨1, 31⟩) =
          [c.current] ∧
        (Node.expression (.binary .greaterEqual left right ⟨1, 31⟩)).Own {} c := by
  have htokens : tokenize "const x = array<vec2<f32>>(y) >= z;" =
      [⟨.keyword .const, ⟨1, 1⟩⟩, ⟨.identifier "x", ⟨1, 7⟩⟩, ⟨.symbol .equal, ⟨1, 9⟩⟩,
        ⟨.identifier "array", ⟨1, 11⟩⟩, ⟨.symbol .lessThan, ⟨1, 16⟩⟩,
        ⟨.identifier "vec2", ⟨1, 17⟩⟩, ⟨.symbol .lessThan, ⟨1, 21⟩⟩,
        ⟨.identifier "f32", ⟨1, 22⟩⟩, ⟨.symbol .shiftRight, ⟨1, 25⟩⟩,
        ⟨.symbol .parenLeft, ⟨1, 27⟩⟩, ⟨.identifier "y", ⟨1, 28⟩⟩, ⟨.symbol .parenRight, ⟨1, 29⟩⟩,
        ⟨.symbol .greaterThanEqual, ⟨1, 31⟩⟩, ⟨.identifier "z", ⟨1, 34⟩⟩,
        ⟨.symbol .semicolon, ⟨1, 35⟩⟩, ⟨.endOfFile, ⟨1, 36⟩⟩] := by
    decide +kernel
  have hread : Module.ofSource "const x = array<vec2<f32>>(y) >= z;" =
      .ok [⟨[], .variable ⟨.const, none, "x", none, some (.binary .greaterEqual
        (.construct ⟨[], "array", .element ⟨[], "vec2", .element ⟨[], "f32", .none, ⟨1, 22⟩⟩ none,
          ⟨1, 17⟩⟩ none, ⟨1, 11⟩⟩ [.identifier "y" ⟨1, 28⟩] ⟨1, 11⟩)
        (.identifier "z" ⟨1, 34⟩) ⟨1, 31⟩), ⟨1, 1⟩⟩⟩] := by
    rw [Module.ofSource, htokens]
    rfl
  have hoccurs (kind : VariableKind) (name : String) (e : Expression) (l : Location) :
      (Node.expression e).Occurs
        (.declaration ⟨[], .variable ⟨kind, none, name, none, some e, l⟩⟩) :=
    .inside (List.mem_singleton_self _) (.inside (List.mem_singleton_self _)
      (.inside (List.mem_singleton_self _) .here))
  exact ⟨_, _, _, hread, hoccurs .., located_of_ofSource hread List.mem_cons_self (hoccurs ..) rfl⟩

end Module

end Wgsl
