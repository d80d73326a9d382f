import SpectrumViewer.Proofs.Yaml.Line
import SpectrumViewer.Yaml.Document

set_option autoImplicit false

/-!
From the tokens of a block mapping to its node.
-/

namespace SpectrumViewer

namespace Yaml

namespace Parse

/-- Tokens that a node is read from, whatever follows them. -/
structure Denotes (tokens : List Token) (n : Node) : Prop where
  starts : ∃ t rest, tokens = t :: rest ∧ endsMappingNode (some t) = false
  node : ∀ (fuel : Nat) (place : Place) (s : Reading) (rest : List Token), tokens.length < fuel →
    place.block = true →
    (node fuel place).run { s with tokens := tokens ++ rest } = .ok (n, { s with tokens := rest })

theorem denotes_scalar (style : Style) (text : String) :
    Denotes [.scalar style text] (.scalar none style text) := by
  refine ⟨⟨_, _, rfl, rfl⟩, fun fuel place s rest enough _ => ?_⟩
  match fuel, enough with
  | fuel + 2, _ => rfl

/-- The entries of a mapping are read one by one up to its end. -/
theorem run_blockEntries {entries : List Binding} (denotes : ∀ e ∈ entries, Denotes e.tokens e.node)
    {fuel : Nat} (enough : (entries.flatMap Binding.allTokens).length < fuel) (s : Reading)
    (rest : List Token) :
    (blockEntries fuel).run
        { s with tokens := entries.flatMap Binding.allTokens ++ .blockEnd :: rest } =
      .ok (entries.map Binding.pair, { s with tokens := rest }) := by
  induction entries generalizing fuel with
  | nil =>
    match fuel, enough with
    | fuel + 1, _ => rfl
  | cons e entries ih =>
    obtain ⟨here, later⟩ := List.forall_mem_cons.mp denotes
    match fuel, enough with
    | fuel + 1, enough =>
      obtain ⟨t, ts, first, goesOn⟩ := here.starts
      simp only [List.flatMap_cons, Binding.allTokens, List.length_append, List.length_cons]
        at enough
      let more := entries.flatMap Binding.allTokens ++ .blockEnd :: rest
      have key : (node fuel inMapping).run
          { s with tokens := .scalar .plain e.name :: .value :: t :: (ts ++ more) } =
            pure (.scalar none .plain e.name,
              { s with tokens := .value :: t :: (ts ++ more) }) := by
        refine (denotes_scalar .plain e.name).node fuel inMapping s _ ?_ rfl
        rw [List.length_singleton]
        omega
      have value : (node fuel inMapping).run { s with tokens := t :: (ts ++ more) } =
          pure (e.node, { s with tokens := more }) := by
        have node := here.node fuel inMapping s more (by omega) rfl
        rwa [first] at node
      have others : (blockEntries fuel).run { s with tokens := more } =
          pure (entries.map Binding.pair, { s with tokens := rest }) := ih later (by omega)
      have tokens : (e :: entries).flatMap Binding.allTokens ++ .blockEnd :: rest =
          .key :: .scalar .plain e.name :: .value :: t :: (ts ++ more) := by
        simp [more, Binding.allTokens, first]
      have isKey : endsMappingNode (some (.scalar .plain e.name)) = false := rfl
      rw [tokens, blockEntries]
      simp [next, advance, nextIs, isKey, key, goesOn, value, others, Binding.pair]
      rfl

theorem denotes_mapping {entries : List Binding}
    (denotes : ∀ e ∈ entries, Denotes e.tokens e.node) :
    Denotes (.blockMappingStart :: entries.flatMap Binding.allTokens ++ [.blockEnd])
      (.mapping none (entries.map Binding.pair)) := by
  refine ⟨⟨_, _, rfl, rfl⟩, fun fuel place s rest enough block => ?_⟩
  simp only [List.length_append, List.length_cons] at enough
  match fuel, enough with
  | fuel + 2, enough =>
    have entriesRead : (blockEntries fuel).run
        { s with tokens := entries.flatMap Binding.allTokens ++ .blockEnd :: rest } =
          pure (entries.map Binding.pair, { s with tokens := rest }) :=
      run_blockEntries denotes (by omega) s rest
    simp [Parse.node, content, next, advance, properties, block, entriesRead]
    rfl

end Parse

theorem Document.ofTokens?_mapping {entries : List Binding}
    (denotes : ∀ e ∈ entries, Parse.Denotes e.tokens e.node) :
    Document.ofTokens? (.blockMappingStart :: entries.flatMap Binding.allTokens ++ [.blockEnd]) =
      .ok ⟨.mapping none (entries.map Binding.pair), []⟩ := by
  let tokens : List Token := .blockMappingStart :: entries.flatMap Binding.allTokens ++ [.blockEnd]
  have root : (Parse.root (3 * tokens.length + 3)).run ⟨tokens, [], [], [], []⟩ =
      .ok (.mapping none (entries.map Binding.pair), ⟨[], Parse.commonHandles, [], [], []⟩) := by
    have enough : tokens.length < 3 * tokens.length + 3 := by omega
    have node := (Parse.denotes_mapping denotes).node (3 * tokens.length + 3) Parse.inSequence
      ⟨[], Parse.commonHandles, [], [], []⟩ [] enough rfl
    rw [List.append_nil] at node
    exact node
  rw [Document.ofTokens?, root]
  rfl

end Yaml

end SpectrumViewer
