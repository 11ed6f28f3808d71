import Mathlib.Logic.Relation
import TokenGrammar.Rule.Build
import TokenGrammar.Rule.Run

namespace TokenGrammar

namespace Rule

/-- A rule refers to the rules that it shows, to the rule that it stands for, and to every rule that a resolver
may find for it. -/
inductive Refers (world : World) : Rule → Rule → Prop
  | shown {rule part : Rule} (child : part ∈ rule.children world.store) : Refers world rule part
  | named {name : Text} {target : Rule} (bound : world.bindings.rule? name = some target) :
      Refers world (.named name) target
  | selfReferring {cell : Nat} {target : Rule} (filled : world.store.content? cell = some target) :
      Refers world (.selfReferring cell) target
  | lazy {cell : Nat} {target : Rule} (filled : world.store.content? cell = some target) :
      Refers world (.lazy cell) target
  | reference {key : Text} {kind : ReferenceKind} {target : Rule} (looks : kind ≠ .tokens)
      (bound : world.bindings.rule? key = some target) : Refers world (.reference key kind) target
  | resolved {key : Text} {captures : Captures} {target : Rule}
      (found : world.bindings.resolve? key captures = some (.rule target)) :
      Refers world (.reference key .dynamic) target

/-- A rule reaches itself and what the rules that it reaches refer to. -/
def Reaches (world : World) : Rule → Rule → Prop := Relation.ReflTransGen (Refers world)

/-- A property holds throughout a rule when it holds of every rule that the rule reaches. -/
def Throughout (world : World) (property : Rule → Prop) (rule : Rule) : Prop :=
  ∀ inner, rule.Reaches world inner → property inner

namespace Throughout

variable {world : World} {property : Rule → Prop} {rule inner : Rule}

theorem here (throughout : rule.Throughout world property) : property rule :=
  throughout rule Relation.ReflTransGen.refl

theorem of_refers (throughout : rule.Throughout world property) (refers : rule.Refers world inner) :
    inner.Throughout world property := by
  intro reached reaches
  exact throughout reached (Relation.ReflTransGen.head refers reaches)

/-- A property that a set of rules has, and that leads from its rules to its rules, holds throughout each of them. -/
theorem of_closed (members : Rule → Prop) (holds : ∀ member, members member → property member)
    (closed : ∀ member target, members member → member.Refers world target → members target)
    (member : members rule) : rule.Throughout world property := by
  intro reached reaches
  apply holds
  induction reaches with
  | refl => exact member
  | tail _ refers ih => exact closed _ _ ih refers

/-- A property of a rule and throughout the rules that it refers to holds throughout the rule. -/
theorem of_parts (here : property rule) (parts : ∀ inner, rule.Refers world inner → inner.Throughout world property) :
    rule.Throughout world property := by
  intro inner reaches
  rcases Relation.ReflTransGen.cases_head reaches with rfl | ⟨part, refers, rest⟩
  · exact here
  · exact parts part refers inner rest

end Throughout

/-- Whether a factory of the library can have made the outermost part of a rule, in either polarity. -/
def IsMade : Rule → Prop
  | .matcher (.value text _) _ => text.isEmpty = false
  | .matcher (.type types) _ => types ≠ []
  | .sequence rules => rules ≠ []
  | .anyOf alternatives => alternatives ≠ []
  | .allOf rules => rules ≠ []
  | .repeated _ range _ => range.most ≠ some 0
  | .named name => name ≠ ""
  | .capture key _ => key ≠ ""
  | .reference key _ => key ≠ ""
  | .external _ => False
  | _ => True

/-- A rule is built in when factories of the library have made all that it reaches. -/
def BuiltIn (world : World) (rule : Rule) : Prop := rule.Throughout world IsMade

def runsNone : Rule → Bool
  | .always | .never | .matcher .. | .anchor .. => true
  | _ => false

section BuiltIn

variable {world : World} {rule : Rule}

theorem builtIn_of_runsNone (made : rule.IsMade) (alone : rule.runsNone = true) : rule.BuiltIn world := by
  refine Throughout.of_parts made fun inner refers => ?_
  cases refers with
  | shown child =>
    cases rule with
    | matcher test negated => cases test <;> cases child
    | always | never | anchor => cases child
    | _ => cases alone
  | _ => cases alone

theorem BuiltIn.denied (builtIn : rule.BuiltIn world) : (Rule.not rule).BuiltIn world := by
  refine @Throughout.of_parts world IsMade (.not rule) trivial fun inner refers => ?_
  cases refers with
  | shown child =>
    rw [List.mem_singleton.mp child]
    exact builtIn

end BuiltIn

section Factories

variable {rule : Rule}

private theorem isMade_of_check {condition : Bool} {fault : Fault} {result : Rule}
    (made : (check condition fault >>= fun _ => pure result) = .ok rule) (holds : condition = true → result.IsMade) :
    rule.IsMade := by
  obtain ⟨given, same⟩ := check_bind_eq_ok_iff.mp made
  cases same
  exact holds given

theorem isMade_ofValue {text : Text} {ignoreCase : Bool} (made : ofValue text ignoreCase = .ok rule) :
    rule.IsMade :=
  isMade_of_check made fun given => by
    show text.isEmpty = false
    simpa using given

theorem isMade_ofPattern {data : Pattern.CharacterData} {source : PatternSource}
    (made : ofPattern data source = .ok rule) : rule.IsMade := by
  unfold ofPattern at made
  split at made
  · cases made
  · split at made <;> cases made
    trivial

theorem isMade_ofLengths {least most : Number} (made : ofLengths least most = .ok rule) : rule.IsMade := by
  unfold ofLengths at made
  cases created : Range.create .badLengthMinimum .badLengthMaximum .lengthsOutOfOrder least most <;>
    rw [created] at made <;> cases made
  trivial

theorem isMade_ofTypes {types : List TokenType} (made : ofTypes types = .ok rule) : rule.IsMade :=
  isMade_of_check made fun given => by
    show types ≠ []
    simpa using given

theorem isMade_ofSequence {rules : List Rule} (made : ofSequence rules = .ok rule) : rule.IsMade :=
  isMade_of_check made fun given => by
    show rules ≠ []
    simpa using given

theorem isMade_ofChoice {alternatives : List Rule} (made : ofChoice alternatives = .ok rule) : rule.IsMade :=
  isMade_of_check made fun given => by
    show alternatives ≠ []
    simpa using given

theorem isMade_ofConjunction {rules : List Rule} (made : ofConjunction rules = .ok rule) : rule.IsMade :=
  isMade_of_check made fun given => by
    show rules ≠ []
    simpa using given

theorem isMade_ofRepetitions {inner : Rule} {least most : Number} (made : ofRepetitions inner least most = .ok rule) :
    rule.IsMade := by
  unfold ofRepetitions at made
  cases created : Range.create .badRepetitionMinimum .badRepetitionMaximum .repetitionsOutOfOrder least most with
  | error fault =>
      rw [created] at made
      cases made
  | ok range =>
      rw [created] at made
      apply isMade_of_check made
      intro given
      show range.most ≠ some 0
      simpa using given

theorem isMade_ofName {name : Text} (made : ofName name = .ok rule) : rule.IsMade :=
  isMade_of_check made fun given => by
    show name ≠ ""
    simpa using given

theorem isMade_ofCapture {key : Text} {inner : Rule} (made : ofCapture key inner = .ok rule) : rule.IsMade :=
  isMade_of_check made fun given => by
    show key ≠ ""
    simpa using given

theorem isMade_ofReference {key : Text} {kind : ReferenceKind} (made : ofReference key kind = .ok rule) :
    rule.IsMade :=
  isMade_of_check made fun given => by
    show key ≠ ""
    simpa using given

end Factories

end Rule

namespace Brackets

def word (unit : UInt16) : Token := .simple ⟨.word, ⟨[unit]⟩, .unpositioned, .unpositioned, []⟩

def opening : Token := word 40

def closing : Token := word 41

/-- A token that rules do not see. -/
def comment : Token := Token.hide (word 35)

/-- Two brackets with comments between and around them, and a pair of brackets inside of them. -/
def stream : TokenStream := .ofTokens [comment, opening, comment, opening, closing, comment, closing, comment]

/-- The rule that takes a token of the same value. -/
def taking (token : Token) : Rule := .matcher (.value token.value false) false

/-- A pair of brackets around a pair of brackets or around nothing. -/
def pair : Rule := .sequence [taking opening, .optional (.selfReferring 0) false, taking closing]

/-- A world whose only cell holds the pairs of brackets. -/
def world : World := { store := { cells := #[some pair] } }

/-- The rule that refers to the cell of the pairs. -/
def nested : Rule := .selfReferring 0

/-- The rules that the rule of nested brackets reaches. -/
def members : List Rule := [nested, pair, taking opening, .optional nested false, taking closing]

theorem members_made : ∀ member ∈ members, member.IsMade := by
  simp [members, nested, pair, taking, Rule.IsMade, Token.value, opening, closing, word, Token.writeBefore,
    Text.isEmpty]

theorem members_closed : ∀ member ∈ members, ∀ target, member.Refers world target → target ∈ members := by
  intro member isMember target refers
  simp only [members, List.mem_cons, List.not_mem_nil, or_false] at isMember
  rcases isMember with rfl | rfl | rfl | rfl | rfl <;> cases refers <;>
    simp_all [members, nested, pair, taking, world, Rule.attempted, Rule.children, Rule.properties,
      Rule.testProperties, Rule.Property.children, RuleStore.content?]

theorem nested_throughout {property : Rule → Prop} (holds : ∀ member ∈ members, property member) :
    nested.Throughout world property :=
  Rule.Throughout.of_closed (fun rule => rule ∈ members) holds
    (fun member target isMember => members_closed member isMember target) (List.mem_cons_self ..)

theorem nested_builtIn : nested.BuiltIn world := nested_throughout members_made

theorem nested_answers :
    ∃ found, (nested.answer world 12 stream {}).result = .ok (some found) ∧ found.finish = 7 ∧
      found.tokens.length = 4 := by
  have computed : (nested.answer world 12 stream {}).result.toOption.map
      (Option.map fun found => (found.finish, found.tokens.length)) = some (some (7, 4)) := by decide +kernel
  match outcome : (nested.answer world 12 stream {}).result with
  | .ok (some found) => 
    rw [outcome] at computed
    simpa [Except.toOption] using computed
  | .ok none | .error stop => simp [outcome, Except.toOption] at computed

end Brackets

end TokenGrammar
