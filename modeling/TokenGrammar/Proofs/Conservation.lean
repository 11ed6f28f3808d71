import TokenGrammar.Proofs.Leaves
import TokenGrammar.Proofs.Returns
import TokenGrammar.Proofs.Wrapping

namespace TokenGrammar

/-- Tokens conserve others when they spell the same text, and when their leaves keep the same of it in the same order. -/
structure Conserves (source output : List Token) : Prop where
  value_eq : Token.joinedValue output = Token.joinedValue source
  imprints_eq : Token.imprints output = Token.imprints source

namespace Conserves

theorem refl (tokens : List Token) : Conserves tokens tokens := ⟨rfl, rfl⟩

theorem append {first second first' second' : List Token} (front : Conserves first first')
    (back : Conserves second second') : Conserves (first ++ second) (first' ++ second') where
  value_eq := by rw [Token.joinedValue_append, Token.joinedValue_append, front.value_eq, back.value_eq]
  imprints_eq := by rw [Token.imprints_append, Token.imprints_append, front.imprints_eq, back.imprints_eq]

/-- What conserves each token conserves all of them. -/
theorem map {change : Token → Token} (each : ∀ token, Conserves [token] [change token]) (tokens : List Token) :
    Conserves tokens (tokens.map change) := by
  induction tokens with
  | nil => exact refl []
  | cons token rest ih => exact (each token).append ih

/-- A group conserves its members. -/
theorem group (definition : Definition) (types : List TokenType) (members : List Token) :
    Conserves members [.group definition types members] where
  value_eq := rfl
  imprints_eq := Token.imprints_group definition types members

/-- The leaves of tokens conserve the tokens. -/
theorem leaves (tokens : List Token) : Conserves tokens (tokens.flatMap Token.leaves) where
  value_eq := Token.joinedValue_flatMap_leaves tokens
  imprints_eq := Token.imprints_flatMap_leaves tokens

theorem trans {first second third : List Token} (before : Conserves first second) (after : Conserves second third) :
    Conserves first third where
  value_eq := after.value_eq.trans before.value_eq
  imprints_eq := after.imprints_eq.trans before.imprints_eq

end Conserves

namespace Action

/-- The actions that merge, number or describe the tokens of a match, or leave them as they are. -/
def IsConserving : Action → Prop
  | .identity | .grouping .. | .annotate _ | .classify _ | .index _ => True
  | _ => False

variable {tokens written : List Token}

theorem conserves_of_numberFrom {start : Number} {place : Nat} (numbered : numberFrom start place tokens = .ok written) :
    Conserves tokens written := by
  induction tokens generalizing place written with
  | nil =>
    cases numbered
    exact .refl []
  | cons token rest ih =>
    obtain ⟨first, number, others⟩ := bind_eq_ok_iff.mp numbered
    obtain ⟨later, numbers, made⟩ := bind_eq_ok_iff.mp others
    obtain ⟨-, wrapped⟩ := check_bind_eq_ok_iff.mp number
    cases wrapped
    cases made
    have front : Conserves [token] [.indexed token.types token (start + .ofNat place)] :=
      ⟨rfl, Token.imprints_indexed ..⟩
    exact front.append (ih numbers)

theorem conserves_of_group {mode : GroupingMode} {definition : Option Definition}
    (grouped : group mode definition tokens = .ok written) : Conserves tokens written := by
  rcases eq_or_exists_of_group grouped with rfl | ⟨members, whole, chosen, makes, rfl⟩
  · exact .refl written
  · have conserves : Conserves tokens members := by
      rcases chosen with rfl | rfl
      · exact .refl members
      · exact .leaves tokens
    obtain ⟨kind, rfl⟩ := Token.eq_group_of_ofGroup makes
    exact conserves.trans (.group kind [] members)

/-- What a conserving action writes conserves the tokens of the match. -/
theorem IsConserving.conserves {action : Action} (conserving : action.IsConserving) {store : RuleStore}
    {captures : Captures} {found : Match} {edit : Edit} (edits : action.apply store captures found = .ok edit) :
    Conserves found.tokens edit.tokens := by
  cases action with
  | identity =>
    cases edits
    exact .refl found.tokens
  | grouping mode definition =>
    obtain ⟨written, grouped, made⟩ := bind_eq_ok_iff.mp edits
    cases made
    exact conserves_of_group grouped
  | annotate metadata =>
    cases edits
    have each (token : Token) : Conserves [token] [token.annotate metadata] := ⟨rfl, Token.imprints_annotated ..⟩
    exact .map each found.tokens
  | classify classifier =>
    cases edits
    have each (token : Token) : Conserves [token] [token.withTypes (classifier token)] :=
      ⟨Token.value_withTypeList .., Token.imprints_withTypeList ..⟩
    exact .map each found.tokens
  | index start =>
    obtain ⟨written, numbered, made⟩ := bind_eq_ok_iff.mp edits
    cases made
    exact conserves_of_numberFrom numbered
  | transform | convert | filter | skip | extract | wrap | split => exact conserving.elim

end Action

namespace Engine

variable {world : World} {bindings : List RuleBinding} {situation start finish after : Situation} {segment : Segment}
  {segments : List Segment}

section Conserving

variable (builtIn : ∀ binding ∈ bindings, binding.rule.BuiltIn world)
  (conserving : ∀ binding ∈ bindings, binding.action.IsConserving)
include builtIn conserving

/-- What is written for a segment of visible tokens conserves them. -/
theorem Step.conserves (step : Step world bindings situation segment after)
    (visible : ∀ token ∈ segment.source, token.isVisible = true) : Conserves segment.source segment.output := by
  cases step with
  | shadows | unmatched => exact .refl _
  | @insertion token place middle binding found edit _ _ first start_eq finish_eq edits =>
    obtain ⟨behind, spans⟩ := first.exists_spans builtIn
    have stays := Number.ofNat_injective (finish_eq.symm.trans spans.finish_eq)
    have edited := (conserving binding first.exists_yields.1).conserves edits
    rw [spans.reads.index_eq_iff.mp stays] at edited
    exact edited.append (.refl [token])
  | @replacement token rest place middle binding found edit covers _ first start_eq finish_eq edits =>
    obtain ⟨behind, spans⟩ := first.exists_spans builtIn
    obtain ⟨piece, taken, tokens_eq, -⟩ := spans.reads.exists_covers
    have ends := Number.ofNat_injective (finish_eq.symm.trans spans.finish_eq)
    have edited := (conserving binding first.exists_yields.1).conserves edits
    have all : found.tokens = token :: rest := by
      rw [tokens_eq, ← covers.eq_of_index taken ends]
      exact List.filter_eq_self.mpr visible
    rwa [all] at edited

/-- What is written for segments of visible tokens conserves them. -/
theorem Steps.conserves (steps : Steps world bindings start segments finish)
    (visible : ∀ token ∈ segments.flatMap Segment.source, token.isVisible = true) :
    Conserves (segments.flatMap Segment.source) (segments.flatMap Segment.output) := by
  induction steps with
  | nil => exact .refl []
  | cons step _ ih =>
    rw [List.flatMap_cons, List.forall_mem_append] at visible
    exact (step.conserves builtIn conserving visible.1).append (ih visible.2)

end Conserving

/-- A pass that returns has conserved visible tokens if its rules are built in and its actions merge, number or describe
tokens or leave them as they are. -/
theorem process_conserves {engine : Engine} {tokens : List Token} {fuel : Nat} {written : List Piece}
    (builtIn : ∀ binding ∈ engine.bindings, binding.rule.BuiltIn world)
    (conserving : ∀ binding ∈ engine.bindings, binding.action.IsConserving)
    (visible : ∀ token ∈ tokens, token.isVisible = true)
    (returns : (engine.process world fuel tokens).result = .ok written) :
    Conserves tokens (Passage.output written) := by
  obtain ⟨segments, decomposes, output_eq⟩ := exists_decomposes_of_result builtIn returns
  have source_eq := decomposes.flatMap_source
  obtain ⟨finish, steps, -⟩ := decomposes
  have conserves := steps.conserves builtIn conserving (by rwa [source_eq])
  rwa [source_eq, ← output_eq] at conserves

end Engine

namespace Brackets

/-- An engine that merges brackets around brackets into the group of their leaves and numbers what else it takes. -/
def mergingEngine : Engine where
  bindings := [⟨nested, .grouping .all none⟩, ⟨taking opening, .index 1⟩]

theorem pair_builtIn : pair.BuiltIn world := nested_builtIn.of_refers (.selfReferring rfl)

/-- Two opening brackets of which only the second is closed. -/
def openTokens : List Token := [opening, opening, closing]

theorem mergingEngine_writes :
    ∃ written, (mergingEngine.process world 12 openTokens).result = .ok written ∧
      (Passage.output written).length = 2 := by
  have computed : (mergingEngine.process world 12 openTokens).result.toOption.map
      (fun written => (Passage.output written).length) = some 2 := by decide +kernel
  obtain ⟨written, evaluated, size⟩ := Option.map_eq_some_iff.mp computed
  exact ⟨written, eq_ok_of_toOption evaluated, size⟩

end Brackets

theorem Engine.mergingEngine_conserves :
    ∃ written, (Brackets.mergingEngine.process Brackets.world 12 Brackets.openTokens).result = .ok written ∧
      (Passage.output written).length = 2 ∧ Conserves Brackets.openTokens (Passage.output written) := by
  obtain ⟨written, returns, size⟩ := Brackets.mergingEngine_writes
  refine ⟨written, returns, size, process_conserves ?_ ?_ ?_ returns⟩
  · intro binding member
    rcases List.mem_pair.mp member with rfl | rfl
    · exact Brackets.nested_builtIn
    · exact Brackets.pair_builtIn.of_refers (.shown (List.mem_cons_self ..))
  · intro binding member
    rcases List.mem_pair.mp member with rfl | rfl <;> trivial
  · simp [Brackets.openTokens, Brackets.opening, Brackets.closing, Brackets.word, Token.isVisible, Token.isShadow]

end TokenGrammar
