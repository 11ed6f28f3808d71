import TokenGrammar.Proofs.Fuel
import TokenGrammar.Proofs.Refinement
import TokenGrammar.Proofs.Soundness

namespace TokenGrammar

namespace Rule

open Run

/-- A rule stands for the rule that its name or key is bound to or that its cell holds. -/
inductive StandsFor (world : World) : Rule → Rule → Prop
  | named {name : Text} {target : Rule} (bound : world.bindings.rule? name = some target) :
      StandsFor world (.named name) target
  | selfReferring {cell : Nat} {target : Rule} (filled : world.store.content? cell = some target) :
      StandsFor world (.selfReferring cell) target
  | lazy {cell : Nat} {target : Rule} (filled : world.store.content? cell = some target) :
      StandsFor world (.lazy cell) target
  | reference {key : Text} {kind : ReferenceKind} {target : Rule} (looks : kind ≠ .tokens)
      (bound : world.bindings.rule? key = some target) : StandsFor world (.reference key kind) target

/-- Whether a rule can only stand for the rule that its name is bound to, and the name is bound to none. -/
inductive IsUnbound (world : World) : Rule → Prop
  | named {name : Text} (unbound : world.bindings.rule? name = none) : IsUnbound world (.named name)
  | reference {key : Text} (unbound : world.bindings.rule? key = none) : IsUnbound world (.reference key .rule)

/-- Two rules have the same form when they are made alike of parts that are related, or when they stand for rules that
are. -/
inductive SameForm (world : World) (related : Rule → Rule → Prop) : Rule → Rule → Prop
  | sequence {rules rules' : List Rule} (parts : List.Forall₂ related rules rules') :
      SameForm world related (.sequence rules) (.sequence rules')
  | anyOf {rules rules' : List Rule} (parts : List.Forall₂ related rules rules') :
      SameForm world related (.anyOf rules) (.anyOf rules')
  | allOf {rules rules' : List Rule} (parts : List.Forall₂ related rules rules') :
      SameForm world related (.allOf rules) (.allOf rules')
  | optional {rule rule' : Rule} {negated negated' : Bool}
      (part : related (rule.attempted negated) (rule'.attempted negated')) :
      SameForm world related (.optional rule negated) (.optional rule' negated')
  | repeated {rule rule' : Rule} {range : Range} {negated : Bool} (part : related rule rule') :
      SameForm world related (.repeated rule range negated) (.repeated rule' range negated)
  | lookaround {direction : Direction} {rule rule' : Rule} {negative : Bool} (part : related rule rule') :
      SameForm world related (.lookaround direction rule negative) (.lookaround direction rule' negative)
  | boundary {opening opening' closing closing' : Rule} (opens : related opening opening')
      (closes : related closing closing') :
      SameForm world related (.boundary opening closing) (.boundary opening' closing')
  | filledBoundary {opening opening' inner inner' closing closing' : Rule} (opens : related opening opening')
      (part : related inner inner') (closes : related closing closing') :
      SameForm world related (.filledBoundary opening inner closing) (.filledBoundary opening' inner' closing')
  | standing {rule rule' target target' : Rule} (stands : rule.StandsFor world target)
      (stands' : rule'.StandsFor world target') (part : related target target') : SameForm world related rule rule'
  | group {rule rule' : Rule} (part : related rule rule') : SameForm world related (.group rule) (.group rule')
  | capture {key : Text} {rule rule' : Rule} (part : related rule rule') :
      SameForm world related (.capture key rule) (.capture key rule')
  | not {rule rule' : Rule} (part : related rule rule') : SameForm world related (.not rule) (.not rule')

/-- At its outermost part a rule is kept, replaced by the built-in rule that it stands for, dropped, or kept with parts
replaced inside. -/
inductive Replaces (world : World) (related : Rule → Rule → Prop) : Rule → Rule → Prop
  | kept (rule : Rule) : Replaces world related rule rule
  | inlined {rule target : Rule} (stands : rule.StandsFor world target) (builtIn : target.BuiltIn world) :
      Replaces world related rule target
  | dropped {rule : Rule} (unbound : rule.IsUnbound world) : Replaces world related rule .never
  | inside {rule rule' : Rule} (same : SameForm world related rule rule') : Replaces world related rule rule'

/-- A rule becomes another one when some of the rules that it is made of are replaced by what they stand for. Rules may
refer to themselves, so what is replaced throughout them is replaced together. -/
def Inlines (world : World) (rule replaced : Rule) : Prop :=
  ∃ related : Rule → Rule → Prop, related rule replaced ∧
    ∀ rule replaced, related rule replaced → Replaces world related rule replaced

variable {world : World} {rule rule' replaced target : Rule} {related : Rule → Rule → Prop} {each each' : Rule → Run}
  {fuel fuel' : Nat}

namespace SameForm

theorem imp {related' : Rule → Rule → Prop} (same : SameForm world related rule rule')
    (weaken : ∀ inner inner', related inner inner' → related' inner inner') : SameForm world related' rule rule' := by
  cases same with
  | sequence parts => exact .sequence (parts.imp weaken)
  | anyOf parts => exact .anyOf (parts.imp weaken)
  | allOf parts => exact .allOf (parts.imp weaken)
  | optional part => exact .optional (weaken _ _ part)
  | repeated part => exact .repeated (weaken _ _ part)
  | lookaround part => exact .lookaround (weaken _ _ part)
  | boundary opens closes => exact .boundary (weaken _ _ opens) (weaken _ _ closes)
  | filledBoundary opens part closes =>
    exact .filledBoundary (weaken _ _ opens) (weaken _ _ part) (weaken _ _ closes)
  | standing stands stands' part => exact .standing stands stands' (weaken _ _ part)
  | group part => exact .group (weaken _ _ part)
  | capture part => exact .capture (weaken _ _ part)
  | not part => exact .not (weaken _ _ part)

theorem flip (same : SameForm world related rule rule') : SameForm world (Function.swap related) rule' rule := by
  cases same with
  | sequence parts => exact .sequence parts.flip
  | anyOf parts => exact .anyOf parts.flip
  | allOf parts => exact .allOf parts.flip
  | optional part => exact .optional part
  | repeated part => exact .repeated part
  | lookaround part => exact .lookaround part
  | boundary opens closes => exact .boundary opens closes
  | filledBoundary opens part closes => exact .filledBoundary opens part closes
  | standing stands stands' part => exact .standing stands' stands part
  | group part => exact .group part
  | capture part => exact .capture part
  | not part => exact .not part

end SameForm

/-- A rule that stands for another one passes its matches on. -/
theorem StandsFor.body_eq (stands : rule.StandsFor world target) :
    rule.body world fuel each = delegate (each target) rule := by
  cases stands with
  | named bound => rw [body, followNameTelling, bound]
  | selfReferring filled => rw [body, filled]
  | lazy filled => rw [body, filled]
  | reference looks bound => rw [body, followReference, followReferenceTelling, if_neg looks, bound]

theorem StandsFor.run_succ (stands : rule.StandsFor world target) (fuel : Nat) :
    rule.run world (fuel + 1) = settle (rule.kind world.store) (delegate (target.run world fuel) rule) := by
  have body_eq : rule.body world fuel (run world fuel) = delegate (target.run world fuel) rule := stands.body_eq
  rw [← body_eq]
  cases stands <;> rfl

theorem Replaces.imp {related' : Rule → Rule → Prop} (replaces : Replaces world related rule rule')
    (weaken : ∀ inner inner', related inner inner' → related' inner inner') : Replaces world related' rule rule' := by
  cases replaces with
  | kept => exact .kept rule
  | inlined stands builtIn => exact .inlined stands builtIn
  | dropped unbound => exact .dropped unbound
  | inside same => exact .inside (same.imp weaken)

/-- What is replaced at the outermost part and otherwise inside of the parts is replaced. -/
theorem Inlines.of_replaces (replaces : Replaces world (Inlines world) rule replaced) : rule.Inlines world replaced := by
  -- The two rules themselves join what is replaced together anyway.
  refine ⟨fun inner inner' => (inner = rule ∧ inner' = replaced) ∨ inner.Inlines world inner', .inl ⟨rfl, rfl⟩, ?_⟩
  intro inner inner' either
  rcases either with ⟨rfl, rfl⟩ | ⟨related, here, closed⟩
  · exact replaces.imp fun _ _ inlines => .inr inlines
  · exact (closed inner inner' here).imp fun _ _ part => .inr ⟨related, part, closed⟩

/-- The bodies of rules of the same form refine each other where the runs of their parts do. -/
theorem SameForm.body_refinedBy (same : SameForm world related rule rule') (enough : fuel ≤ fuel')
    (refines : ∀ inner inner', related inner inner' → (each inner).IsRefinedBy (each' inner')) :
    (rule.body world fuel each).IsRefinedBy (rule'.body world fuel' each') := by
  cases same with
  | sequence parts =>
    refine Attempt.RefinedBy.stream.bind_eq fun stream => ?_
    refine (IsRefinedBy.inTurn (parts.imp refines)).bind_eq fun tokens => ?_
    cases tokens with
    | none => exact IsRefinedBy.noMatch
    | some tokens => exact IsRefinedBy.since _ _ _ _
  | anyOf parts => exact IsRefinedBy.firstOf (parts.imp refines)
  | allOf parts => exact IsRefinedBy.farthestOf (parts.imp refines) .none
  | optional part =>
    refine Attempt.RefinedBy.stream.bind_eq fun stream => ?_
    refine Attempt.RefinedBy.bind (refines _ _ part) fun found found' together => ?_
    cases together with
    | none => exact IsRefinedBy.create _ _ _ _ _
    | some agrees =>
      dsimp only
      rw [agrees.finish_eq, agrees.tokens_eq]
      exact IsRefinedBy.create _ _ _ _ _
  | repeated part =>
    refine Attempt.RefinedBy.stream.bind_eq fun stream => ?_
    refine ((refines _ _ part).repeating _ _ enough 0).bind_eq fun counted => ?_
    dsimp only
    split
    · exact IsRefinedBy.since _ _ _ _
    · exact IsRefinedBy.noMatch
  | lookaround part => exact ((refines _ _ part).succeeds _).bind_eq fun matched => IsRefinedBy.hereIf _ _ _
  | boundary opens closes =>
    exact (refines _ _ opens).bounded (refines _ _ closes) IsRefinedBy.tokenStep enough _ _
  | filledBoundary opens part closes =>
    exact (refines _ _ opens).bounded (refines _ _ closes) (refines _ _ part).bodyStep enough _ _
  | standing stands stands' part =>
    rw [stands.body_eq, stands'.body_eq]
    exact (refines _ _ part).delegate _ _
  | group part => exact (refines _ _ part).insideGroup _ _
  | capture part =>
    refine Attempt.RefinedBy.bind ((refines _ _ part).delegate _ _) fun found found' together => ?_
    cases together with
    | none => exact IsRefinedBy.noMatch
    | some agrees =>
      refine Attempt.RefinedBy.captures.bind_eq fun captures => ?_
      rw [agrees.tokens_eq]
      refine (Attempt.RefinedBy.ofResult fun kept keeps => ⟨kept, keeps, rfl⟩).bind_eq fun kept => ?_
      exact (Attempt.RefinedBy.setCaptures kept).bind_eq fun _ => .pure (.some agrees)
  | not part =>
    refine Attempt.RefinedBy.stream.bind_eq fun stream => ?_
    split
    · exact ((refines _ _ part).succeeds id).bind_eq fun matched => IsRefinedBy.hereIf _ _ _
    · exact IsRefinedBy.noMatch

/-- A rule is refined by itself with more fuel. -/
theorem run_refinedBy_run (rule : Rule) (enough : fuel ≤ fuel') :
    (rule.run world fuel).IsRefinedBy (rule.run world fuel') := by
  intro situation situation' found after same answers
  exact IsRefinedBy.of_ignoresNotices (run_ignoresNotices world rule fuel') same (run_grows.eq_of_le answers enough)

/-- What a rule of the same form does settles the same way. -/
theorem SameForm.run_succ (same : SameForm world related rule rule') (fuel : Nat) :
    rule.run world (fuel + 1) = settle (rule.kind world.store) (rule.body world fuel (run world fuel)) := by
  cases same with
  | standing stands => rw [stands.run_succ, stands.body_eq]
  | _ => rfl

/-- An unbound rule does not match, but this is noticed. -/
theorem IsUnbound.run_succ (unbound : rule.IsUnbound world) (fuel : Nat) :
    ∃ notice, rule.run world (fuel + 1) = settle (rule.kind world.store) (do Attempt.notice notice; noMatch) := by
  cases unbound with
  | @named name free =>
    refine ⟨.recursionNotDefined name, ?_⟩
    rw [run, step, body, followNameTelling, free]
    intro number same
    cases same
  | @reference key free =>
    refine ⟨.referenceNotBound key .rule, ?_⟩
    rw [run, step, body, followReference, followReferenceTelling, if_neg (by decide), free]
    · rfl
    · intro number same
      cases same

/-- A replaced rule refines the rule with the same fuel, because nothing is passed on where a rule is inlined. -/
theorem run_refinedBy_replaced (closed : ∀ rule replaced, related rule replaced → Replaces world related rule replaced)
    (here : related rule replaced) : (rule.run world fuel).IsRefinedBy (replaced.run world fuel) := by
  -- What is replaced may lead back to itself, so the induction is on the fuel and not on the rule.
  induction fuel generalizing rule replaced with
  | zero => exact .exhaust _
  | succ fuel ih =>
    cases closed rule replaced here with
    | kept => exact run_refinedBy_run rule (Nat.le_refl _)
    | inlined stands builtIn =>
      -- The target runs with one unit less inside of the rule, and has settled already when it is passed on.
      rw [stands.run_succ]
      exact .of_settle_delegate (run_sound builtIn fuel) (run_refinedBy_run replaced (Nat.le_succ fuel)) _ _
    | dropped unbound =>
      obtain ⟨notice, run_eq⟩ := unbound.run_succ fuel
      rw [run_eq]
      exact IsRefinedBy.settle _ _ (.notice_left notice IsRefinedBy.noMatch)
    | inside same =>
      rw [same.run_succ, same.flip.run_succ]
      exact (same.body_refinedBy (Nat.le_refl fuel) fun _ _ part => ih part).settle _ _

/-- A rule refines the replaced rule with twice the fuel: each inlined rule on the way costs one unit more. -/
theorem replaced_run_refinedBy (closed : ∀ rule replaced, related rule replaced → Replaces world related rule replaced)
    (here : related rule replaced) (enough : 2 * fuel ≤ fuel') :
    (replaced.run world fuel).IsRefinedBy (rule.run world fuel') := by
  induction fuel generalizing rule replaced fuel' with
  | zero => exact .exhaust _
  | succ fuel ih =>
    obtain ⟨fuel', rfl⟩ := Nat.exists_eq_add_of_le' (Nat.zero_lt_of_lt enough)
    cases closed rule replaced here with
    | kept => exact run_refinedBy_run rule (by omega)
    | inlined stands builtIn =>
      rw [stands.run_succ]
      exact .to_settle_delegate (run_sound builtIn fuel') (run_refinedBy_run replaced (by omega)) _ _
    | dropped unbound =>
      obtain ⟨notice, run_eq⟩ := unbound.run_succ fuel'
      rw [run_eq]
      exact IsRefinedBy.settle _ _ (.notice_right notice IsRefinedBy.noMatch)
    | inside same =>
      rw [same.run_succ, same.flip.run_succ]
      exact (same.flip.body_refinedBy (by omega) fun _ _ part => ih part (by omega)).settle _ _

/-- A rule is refined by another one when that yields alike wherever it yields itself: both match or both do not, over
the same stretch and with the same tokens, and they leave the stream at the same place and the same captures. -/
def RefinedBy (world : World) (rule rule' : Rule) : Prop :=
  ∀ ⦃situation found after⦄, rule.Yields world situation found after →
    ∃ found' after', rule'.Yields world situation found' after' ∧ Option.Rel Match.Agrees found found' ∧
      after.SameScene after'

theorem refinedBy_of_run (refines : ∀ fuel, ∃ fuel', (rule.run world fuel).IsRefinedBy (rule'.run world fuel')) :
    rule.RefinedBy world rule' := by
  intro situation found after yields
  obtain ⟨fuel, answers⟩ := yields
  obtain ⟨fuel', refines⟩ := refines fuel
  obtain ⟨found', after', answers', together, sameAfter⟩ := refines ⟨rfl, rfl⟩ answers
  exact ⟨found', after', ⟨fuel', answers'⟩, together, sameAfter⟩

/-- A rule keeps its meaning when some of the rules that it is made of are replaced by what they stand for: the rule and
the replaced rule refine each other. -/
theorem match_inlined (inlines : rule.Inlines world replaced) :
    rule.RefinedBy world replaced ∧ replaced.RefinedBy world rule := by
  obtain ⟨related, here, closed⟩ := inlines
  constructor
  · exact refinedBy_of_run fun fuel => ⟨fuel, run_refinedBy_replaced closed here⟩
  · exact refinedBy_of_run fun fuel => ⟨2 * fuel, replaced_run_refinedBy closed here (Nat.le_refl _)⟩

end Rule

namespace Brackets

/-- A pair of brackets around a pair of brackets by its name, or around nothing. -/
def namedPair : Rule := .sequence [taking opening, .optional (.named "pair") false, taking closing]

/-- A world that knows the pairs of brackets by their name. -/
def naming : World := { bindings := { rules := [("pair", namedPair)] } }

theorem namedPair_builtIn : namedPair.BuiltIn naming := by
  let members := [namedPair, taking opening, .optional (.named "pair") false, taking closing, .named "pair"]
  refine Rule.Throughout.of_closed (fun rule => rule ∈ members) ?_ ?_ (List.mem_cons_self ..)
  · simp [members, namedPair, taking, Rule.IsMade, Token.value, opening, closing, word, Token.writeBefore, Text.isEmpty]
  · intro member target isMember refers
    simp only [members, List.mem_cons, List.not_mem_nil, or_false] at isMember
    rcases isMember with rfl | rfl | rfl | rfl | rfl
    · cases refers with
      | shown child =>
        rw [namedPair, Rule.children_sequence] at child
        exact List.mem_cons_of_mem _ (List.mem_append_left [_] child)
    · cases refers with
      | shown child => cases child
    · cases refers with
      | shown child =>
        rw [List.mem_singleton.mp child]
        simp [members, Rule.attempted]
    · cases refers with
      | shown child => cases child
    · cases refers with
      | shown child => cases child
      | named bound =>
        cases bound
        exact List.mem_cons_self ..

end Brackets

namespace Rule

open Brackets in
/-- With the name of the inner pair inlined and an unbound name dropped, the same nested brackets are matched. -/
theorem namedPair_inlined_agrees :
    Inlines naming (.anyOf [.named "quote", namedPair])
        (.anyOf [.never, .sequence [taking opening, .optional namedPair false, taking closing]]) ∧
      ∃ (found found' : Match) (after' : Situation), found.tokens.length = 4 ∧
        Yields naming (.anyOf [.never, .sequence [taking opening, .optional namedPair false, taking closing]])
          ⟨Brackets.stream, {}⟩ (some found') after' ∧ found.Agrees found' := by
  have same (rule : Rule) : rule.Inlines naming rule := .of_replaces (.kept rule)
  have inner : (Rule.named "pair").Inlines naming namedPair := .of_replaces (.inlined (.named rfl) namedPair_builtIn)
  have content : Inlines naming (.optional (.named "pair") false) (.optional namedPair false) :=
    .of_replaces (.inside (.optional inner))
  have pairs : namedPair.Inlines naming (.sequence [taking opening, .optional namedPair false, taking closing]) :=
    .of_replaces (.inside (.sequence (.cons (same _) (.cons content (.cons (same _) .nil)))))
  have quotes : (Rule.named "quote").Inlines naming .never := .of_replaces (.dropped (.named rfl))
  have inlines := Inlines.of_replaces (.inside (.anyOf (.cons quotes (.cons pairs .nil))))
  obtain ⟨found, after, yields, count⟩ :=
    exists_yields_of_count naming (.anyOf [.named "quote", namedPair]) 12 4 Brackets.stream (by decide +kernel)
  obtain ⟨found', after', yields', together, -⟩ := (match_inlined inlines).1 yields
  cases together with
  | some agrees => exact ⟨inlines, found, _, after', count, yields', agrees⟩

end Rule

end TokenGrammar
