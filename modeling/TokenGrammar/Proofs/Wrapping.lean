import Mathlib.Data.List.Basic
import TokenGrammar.Grammar
import TokenGrammar.Proofs.Shortening.Rules

namespace TokenGrammar

open Run
open Attempt (Gives)

namespace Token

variable {members : List Token} {definition : Option Definition} {whole : Token}

/-- Two tokens can always be grouped when it is left open what they are. -/
theorem exists_ofGroup (enough : 2 ≤ members.length) : ∃ whole, ofGroup members none = .ok whole := by
  refine ⟨_, check_bind_eq_ok_iff.mpr ⟨decide_eq_true enough, check_bind_eq_ok_iff.mpr ⟨?_, rfl⟩⟩⟩
  exact beq_self_eq_true (joinedValue members)

theorem eq_group_of_ofGroup (grouped : ofGroup members definition = .ok whole) :
    ∃ definition, whole = .group definition [] members := by
  obtain ⟨-, accepted⟩ := check_bind_eq_ok_iff.mp grouped
  obtain ⟨-, made⟩ := check_bind_eq_ok_iff.mp accepted
  cases made
  exact ⟨_, rfl⟩

end Token

namespace Rule

variable {world : World} {rule : Rule} {situation after : Situation} {answer : Option Match} {found : Match}
  {token : Token} {members : List Token} {memory : Memory}

/-- What a mild rule takes among other tokens it also takes alone, whatever was captured before. -/
theorem HasGrade.yields_alone (mild : rule.HasGrade world .mild) (builtIn : rule.BuiltIn world)
    (yields : rule.Yields world situation (some found) after) (memory : Memory) :
    ∃ alone later, rule.Yields world ⟨.ofTokens found.tokens, memory⟩ (some alone) later ∧ alone.tokens = found.tokens := by
  have spans : found.Spans situation.stream after.stream := builtIn.settles yields
  have cut := TokenStream.CutTo.ofTokens spans.reads
  obtain ⟨fuel, answers⟩ := yields
  have shortened := run_shortens builtIn mild fuel situation ⟨.ofTokens found.tokens, memory⟩ cut
  rw [answers] at shortened
  generalize outcome : rule.run world fuel ⟨.ofTokens found.tokens, memory⟩ = result at shortened
  cases shortened with
  | fits enough same => exact ⟨_, _, ⟨fuel, outcome⟩, same⟩
  | exceeds long =>
    -- All that was taken is left.
    rw [TokenStream.ahead_ofTokens_of_reads spans.reads] at long
    exact absurd long (Nat.lt_irrefl _)

theorem group_builtIn (builtIn : rule.BuiltIn world) : (Rule.group rule).BuiltIn world := by
  refine .of_parts trivial fun inner refers => ?_
  cases refers with
  | shown child =>
    have same : inner = rule := by simpa using child
    exact same ▸ builtIn

theorem wrapRule_builtIn (builtIn : rule.BuiltIn world) : (Grammar.wrapRule rule).BuiltIn world := by
  refine .of_parts (List.cons_ne_nil _ _) fun inner refers => ?_
  cases refers with
  | shown child =>
    have either : inner = rule ∨ inner = .group rule := by simpa [Grammar.wrapRule] using child
    rcases either with rfl | rfl
    · exact builtIn
    · exact group_builtIn builtIn

/-- What a rule leaves is known from the end of its match and what it keeps. -/
theorem BuiltIn.eq_of_settles {later : Situation} (builtIn : rule.BuiltIn world)
    (yields : rule.Yields world situation answer later) (settles : Settles situation.stream answer after)
    (memory_eq : after.memory = later.memory) : after = later := by
  have settled := builtIn.settles yields
  cases answer with
  | none => exact Situation.ext (settles.trans settled.symm) memory_eq
  | some found => exact Situation.ext (settles.reads.unique settled.reads) memory_eq

/-- A wrapped rule does what the rule does, and what it does with groups where the rule does not match. -/
theorem yields_wrapRule_iff (builtIn : rule.BuiltIn world) :
    (Grammar.wrapRule rule).Yields world situation answer after ↔
      (answer.isSome = true ∧ rule.Yields world situation answer after) ∨
        ∃ middle, rule.Yields world situation none middle ∧ (Rule.group rule).Yields world middle answer after := by
  have stays {middle : Situation} (fails : rule.Yields world situation none middle) :
      { middle with stream := situation.stream } = middle := Situation.ext (builtIn.settles fails).symm rfl
  have body_eq : (Grammar.wrapRule rule).bodyRun world = fun fuel => firstOf (run world fuel) [rule, .group rule] := rfl
  rw [yields_iff (wrapRule_builtIn builtIn).traced, body_eq]
  constructor
  · intro holds
    obtain ⟨later, given, settles, memory_eq⟩ := holds
    rcases gives_firstOf_cons_iff.mp given with ⟨found, middle, yields, rfl, rfl⟩ | ⟨middle, fails, given⟩
    · rw [builtIn.eq_of_settles yields settles memory_eq]
      exact .inl ⟨rfl, yields⟩
    · rw [stays fails] at given
      have place : middle.stream = situation.stream := builtIn.settles fails
      rw [← place] at settles
      refine .inr ⟨middle, fails, ?_⟩
      rcases gives_firstOf_cons_iff.mp given with ⟨found, last, yields, rfl, rfl⟩ | ⟨last, yields, given⟩
      · rw [(group_builtIn builtIn).eq_of_settles yields settles memory_eq]
        exact yields
      · obtain ⟨rfl, rfl⟩ := gives_firstOf_nil_iff.mp given
        rw [(group_builtIn builtIn).eq_of_settles yields settles memory_eq]
        exact yields
  · intro given
    rcases given with ⟨matched, yields⟩ | ⟨middle, fails, yields⟩
    · obtain ⟨found, rfl⟩ := Option.isSome_iff_exists.mp matched
      exact ⟨_, gives_firstOf_cons_iff.mpr (.inl ⟨found, after, yields, rfl, rfl⟩), builtIn.settles yields, rfl⟩
    · have place : middle.stream = situation.stream := builtIn.settles fails
      have settles := (group_builtIn builtIn).settles yields
      rw [place] at settles
      refine ⟨{ after with stream := middle.stream }, gives_firstOf_cons_iff.mpr (.inr ⟨middle, fails, ?_⟩), settles, rfl⟩
      rw [stays fails]
      cases answer with
      | none => exact gives_firstOf_cons_iff.mpr (.inr ⟨after, yields, gives_firstOf_nil_iff.mpr ⟨rfl, rfl⟩⟩)
      | some found => exact gives_firstOf_cons_iff.mpr (.inl ⟨found, after, yields, rfl, rfl⟩)

/-- A rule recognises a token when it takes the token where that is alone. -/
def Recognises (world : World) (rule : Rule) (memory : Memory) (token : Token) : Prop :=
  ∃ found after, rule.Yields world ⟨.ofTokens [token], memory⟩ (some found) after ∧ found.tokens = [token]

/-- A rule passes a token over when it matches nothing in front of it. -/
def PassesOver (world : World) (rule : Rule) (memory : Memory) (token : Token) : Prop :=
  ∃ found after, rule.Yields world ⟨.ofTokens [token], memory⟩ (some found) after ∧ found.tokens = []

theorem read?_single (visible : token.isVisible = true) :
    ∃ next, (TokenStream.ofTokens [token]).read? = some (token, next) := by
  have current : (TokenStream.ofTokens [token]).current? = some token := by
    simp [TokenStream.current?, TokenStream.ofTokens, visible]
  exact TokenStream.exists_read_of_current current

/-- A match in front of a single token takes that or nothing. -/
theorem recognises_or_passesOver (builtIn : rule.BuiltIn world)
    (yields : rule.Yields world ⟨.ofTokens [token], memory⟩ (some found) after) :
    rule.Recognises world memory token ∨ rule.PassesOver world memory token := by
  have spans : found.Spans (.ofTokens [token]) after.stream := builtIn.settles yields
  have part : found.tokens.Sublist [token] := by
    have front := List.prefix_append found.tokens after.stream.ahead
    rw [← TokenStream.ahead_of_reads spans.reads] at front
    exact front.sublist.trans List.filter_sublist
  rcases List.sublist_singleton.mp part with nothing | taken
  · exact .inr ⟨found, after, yields, nothing⟩
  · exact .inl ⟨found, after, yields, taken⟩

/-- A wrapped rule recognises a group when the rule does, or does not match there and matches the members alone. -/
theorem recognises_wrapRule_iff (builtIn : rule.BuiltIn world) (visible : token.isVisible = true)
    (grouped : token.unwrap.members? = some members) :
    (Grammar.wrapRule rule).Recognises world memory token ↔
      rule.Recognises world memory token ∨
        ∃ failed, rule.Yields world ⟨.ofTokens [token], memory⟩ none failed ∧
          ∃ found after, rule.Yields world ⟨.ofTokens members, failed.memory⟩ (some found) after := by
  obtain ⟨next, read⟩ := read?_single visible
  have there {failed : Situation} (fails : rule.Yields world ⟨.ofTokens [token], memory⟩ none failed) :
      failed.stream.read? = some (token, next) := by
    have stays : failed.stream = .ofTokens [token] := builtIn.settles fails
    rw [stays, read]
  constructor
  · intro recognises
    obtain ⟨found, after, yields, taken⟩ := recognises
    rcases (yields_wrapRule_iff builtIn).mp yields with ⟨-, yields⟩ | ⟨failed, fails, yields⟩
    · exact .inl ⟨found, after, yields, taken⟩
    · obtain ⟨inner, middle, alone, ⟨-, absent, -⟩ | ⟨matched, -⟩⟩ :=
        (yields_group_iff (group_builtIn builtIn) (there fails) grouped).mp yields
      · cases absent
      · obtain ⟨found, rfl⟩ := Option.isSome_iff_exists.mp matched
        exact .inr ⟨failed, fails, found, middle, alone⟩
  · intro either
    rcases either with ⟨found, after, yields, taken⟩ | ⟨failed, fails, found, middle, alone⟩
    · exact ⟨found, after, (yields_wrapRule_iff builtIn).mpr (.inl ⟨rfl, yields⟩), taken⟩
    · have takes := (yields_group_iff (group_builtIn builtIn) (there fails) grouped).mpr
        ⟨some found, middle, alone, .inr ⟨rfl, rfl, rfl⟩⟩
      exact ⟨_, _, (yields_wrapRule_iff builtIn).mpr (.inr ⟨failed, fails, takes⟩), rfl⟩

/-- A wrapped rule that matches the members alone recognises a group unless the rule passes it over. -/
theorem recognises_wrapRule_iff_not_passesOver (builtIn : rule.BuiltIn world) (visible : token.isVisible = true)
    (grouped : token.unwrap.members? = some members)
    (alone : ∀ memory, ∃ found after, rule.Yields world ⟨.ofTokens members, memory⟩ (some found) after)
    (terminates : rule.Terminates world ⟨.ofTokens [token], memory⟩) :
    (Grammar.wrapRule rule).Recognises world memory token ↔ ¬ rule.PassesOver world memory token := by
  constructor
  · intro recognises passes
    obtain ⟨again, later, yields, takes⟩ := recognises
    obtain ⟨empty, last, matchesHere, takesNothing⟩ := passes
    have first := (yields_wrapRule_iff builtIn).mpr (.inl ⟨rfl, matchesHere⟩)
    obtain ⟨same, -⟩ := yields.unique first
    cases same
    rw [takesNothing] at takes
    cases takes
  · intro stays
    rw [recognises_wrapRule_iff builtIn visible grouped]
    obtain ⟨tried, failed, tries⟩ := builtIn.terminates_iff.mp terminates
    cases tried with
    | none => exact .inr ⟨failed, tries, alone failed.memory⟩
    | some tried => exact .inl ((recognises_or_passesOver builtIn tries).resolve_right stays)

/-- Two tokens or more were not taken by the part of a wrapped rule that matches groups. -/
theorem yields_of_yields_wrapRule (builtIn : rule.BuiltIn world)
    (yields : (Grammar.wrapRule rule).Yields world situation (some found) after) (several : 2 ≤ found.tokens.length) :
    rule.Yields world situation (some found) after := by
  rcases (yields_wrapRule_iff builtIn).mp yields with ⟨-, yields⟩ | ⟨middle, -, fuel, answers⟩
  · exact yields
  · have one := length_of_takesOne (group_builtIn builtIn) rfl answers
    omega

end Rule

namespace GrammarBuilder

variable {builder extended : GrammarBuilder} {store : RuleStore} {rule inner : Rule} {action : Action}
  {wrap : Option Bool} {notices : List Notice}

/-- What is registered for a rule that is to be wrapped. -/
theorem active_addRule (added : builder.addRule store rule action wrap = .ok (extended, notices))
    (wraps : wrap.getD action.isGrouping = true) :
    extended.active = builder.active ++
      [⟨if Grammar.isWrapped rule then rule else Grammar.wrapRule rule, action⟩] := by
  obtain ⟨-, made⟩ := check_bind_eq_ok_iff.mp added
  simp only [wraps, if_true] at made
  cases wrapped : Grammar.isWrapped rule <;> rw [wrapped] at made <;> cases made <;> rfl

/-- What a rule took can be grouped, and what is registered for the rule recognises the group exactly when the rule takes
the token of the group, or does not match there and takes something of the members alone. For a mild rule that means: unless
it matches nothing in front of the group. -/
theorem addRule_recognises {world : World} {situation after : Situation} {found : Match}
    (added : builder.addRule store rule action wrap = .ok (extended, notices))
    (wraps : wrap.getD action.isGrouping = true)
    (shape : rule = inner ∧ Grammar.isWrapped rule = false ∨
      rule = Grammar.wrapRule inner ∧ Grammar.isWrapped rule = true)
    (builtIn : rule.BuiltIn world) (yields : rule.Yields world situation (some found) after)
    (several : 2 ≤ found.tokens.length) (memory : Memory) :
    extended.active = builder.active ++ [⟨Grammar.wrapRule inner, action⟩] ∧
      ∃ whole, Token.ofGroup found.tokens none = .ok whole ∧
        ((Grammar.wrapRule inner).Recognises world memory whole ↔
          inner.Recognises world memory whole ∨
            ∃ failed, inner.Yields world ⟨.ofTokens [whole], memory⟩ none failed ∧
              ∃ alone later, inner.Yields world ⟨.ofTokens found.tokens, failed.memory⟩ (some alone) later) ∧
        (inner.HasGrade world .mild → inner.Terminates world ⟨.ofTokens [whole], memory⟩ →
          ((Grammar.wrapRule inner).Recognises world memory whole ↔ ¬ inner.PassesOver world memory whole)) := by
  have registered := active_addRule added wraps
  have innerBuiltIn : inner.BuiltIn world := by
    rcases shape with ⟨rfl, -⟩ | ⟨rfl, -⟩
    · exact builtIn
    · exact builtIn.of_refers (.shown (by simp [Grammar.wrapRule]))
  have taken : inner.Yields world situation (some found) after := by
    rcases shape with ⟨rfl, -⟩ | ⟨rfl, -⟩
    · exact yields
    · exact Rule.yields_of_yields_wrapRule innerBuiltIn yields several
  obtain ⟨whole, grouped⟩ := Token.exists_ofGroup several
  obtain ⟨kind, rfl⟩ := Token.eq_group_of_ofGroup grouped
  refine ⟨?_, _, grouped, Rule.recognises_wrapRule_iff innerBuiltIn rfl rfl, fun mild terminates => ?_⟩
  · rw [registered]
    rcases shape with ⟨rfl, wrapped⟩ | ⟨rfl, wrapped⟩
    · rw [wrapped, if_neg Bool.false_ne_true]
    · rw [wrapped, if_pos rfl]
  · refine Rule.recognises_wrapRule_iff_not_passesOver innerBuiltIn rfl rfl (fun memory => ?_) terminates
    obtain ⟨alone, later, takes, -⟩ := mild.yields_alone innerBuiltIn taken memory
    exact ⟨alone, later, takes⟩

end GrammarBuilder

namespace Brackets

/-- What stands between an opening bracket and the next closing one. -/
def bracketed : Rule := .boundary (taking opening) (taking closing)

theorem bracketed_builtIn : bracketed.BuiltIn {} := by
  refine Rule.Throughout.of_closed (fun rule => rule ∈ [bracketed, taking opening, .always, taking closing]) ?_ ?_
    (List.mem_cons_self ..)
  · simp [bracketed, taking, Rule.IsMade, Token.value, opening, closing, word, Token.writeBefore, Text.isEmpty]
  · intro member target isMember refers
    simp only [List.mem_cons, List.not_mem_nil, or_false] at isMember
    rcases isMember with rfl | rfl | rfl | rfl <;> cases refers <;>
      simp_all [bracketed, taking, Rule.children, Rule.properties, Rule.testProperties, Rule.Property.children]

theorem bracketed_mild : bracketed.HasGrade {} .mild :=
  Rule.hasGrade_iff.mpr ⟨nofun, Rule.hasGrade_iff.mpr trivial, Rule.hasGrade_iff.mpr trivial⟩

/-- The brackets of the stream up to the first closing one. -/
def upToClosing : List Token := [opening, opening, closing]

def groupUpToClosing : Token := .group (.exactly (Token.joinedValue upToClosing)) [] upToClosing

theorem bracketed_takes :
    bracketed.run {} 6 ⟨stream, {}⟩ =
      .ok (some ⟨0, 5, upToClosing, bracketed⟩)
        ⟨⟨[closing, opening, comment, opening, comment], [comment, closing, comment], 5, rfl⟩, {}⟩ := by
  rfl

theorem bracketed_fails :
    bracketed.run {} 6 ⟨.ofTokens [groupUpToClosing], {}⟩ = .ok none ⟨.ofTokens [groupUpToClosing], {}⟩ := by
  rfl

end Brackets

namespace GrammarBuilder

theorem wrapped_bracketed_recognises_group :
    ∃ extended notices found after,
      addRule {} {} Brackets.bracketed (.grouping .matched none) none = .ok (extended, notices) ∧
      Brackets.bracketed.Yields {} ⟨Brackets.stream, {}⟩ (some found) after ∧
      Token.ofGroup found.tokens none = .ok Brackets.groupUpToClosing ∧
      extended.active = [⟨Grammar.wrapRule Brackets.bracketed, .grouping .matched none⟩] ∧
      (Grammar.wrapRule Brackets.bracketed).Recognises {} {} Brackets.groupUpToClosing := by
  have yields : Brackets.bracketed.Yields {} ⟨Brackets.stream, {}⟩ _ _ := ⟨6, Brackets.bracketed_takes⟩
  have grouped : Token.ofGroup Brackets.upToClosing none = .ok Brackets.groupUpToClosing := rfl
  have terminates : Brackets.bracketed.Terminates {} ⟨.ofTokens [Brackets.groupUpToClosing], {}⟩ :=
    ⟨6, by rw [Brackets.bracketed_fails]; nofun⟩
  have added : addRule {} {} Brackets.bracketed (.grouping .matched none) none = .ok (_, _) := rfl
  obtain ⟨registered, whole, grouped', -, recognises⟩ := addRule_recognises added rfl (.inl ⟨rfl, rfl⟩)
    Brackets.bracketed_builtIn yields (by decide) {}
  cases grouped.symm.trans grouped'
  refine ⟨_, _, _, _, added, yields, grouped, registered, (recognises Brackets.bracketed_mild terminates).mpr ?_⟩
  intro passes
  obtain ⟨empty, after, matchesHere, -⟩ := passes
  obtain ⟨same, -⟩ := Rule.Yields.unique ⟨6, Brackets.bracketed_fails⟩ matchesHere
  cases same

end GrammarBuilder

namespace Brackets

/-- A pair of brackets with nothing between them, or nothing. -/
def pairIfAny : Rule := .optional (.sequence [taking opening, taking closing]) false

/-- The group of a pair of brackets. -/
def groupOfPair : Token := .group (.exactly (Token.joinedValue [opening, closing])) [] [opening, closing]

theorem pairIfAny_builtIn : pairIfAny.BuiltIn {} := by
  refine Rule.Throughout.of_closed (fun rule => rule ∈ [pairIfAny, .sequence [taking opening, taking closing],
    taking opening, taking closing]) ?_ ?_ (List.mem_cons_self ..)
  · simp [pairIfAny, taking, Rule.IsMade, Token.value, opening, closing, word, Token.writeBefore, Text.isEmpty]
  · intro member target isMember refers
    simp only [List.mem_cons, List.not_mem_nil, or_false] at isMember
    rcases isMember with rfl | rfl | rfl | rfl <;> cases refers <;>
      simp_all [pairIfAny, taking, Rule.attempted, Rule.children, Rule.properties, Rule.testProperties,
        Rule.Property.children]

theorem pairIfAny_takes :
    pairIfAny.run {} 6 ⟨.ofTokens [opening, closing], {}⟩ =
      .ok (some ⟨0, 2, [opening, closing], pairIfAny⟩) ⟨⟨[closing, opening], [], 2, rfl⟩, {}⟩ := by
  rfl

theorem wrapped_takesNothing :
    (Grammar.wrapRule pairIfAny).run {} 6 ⟨.ofTokens [groupOfPair], {}⟩ =
      .ok (some ⟨0, 0, [], pairIfAny⟩) ⟨.ofTokens [groupOfPair], {}⟩ := by
  rfl

end Brackets

namespace GrammarBuilder

/-- In front of a group of brackets that may be missing, the rule of these brackets matches nothing, and what is registered
for it does not go on to the group. -/
theorem not_addRule_recognises :
    ∃ extended notices found after,
      addRule {} {} Brackets.pairIfAny (.grouping .matched none) none = .ok (extended, notices) ∧
      Brackets.pairIfAny.BuiltIn {} ∧
      Brackets.pairIfAny.Yields {} ⟨.ofTokens [Brackets.opening, Brackets.closing], {}⟩ (some found) after ∧
      Token.ofGroup found.tokens none = .ok Brackets.groupOfPair ∧
      extended.active = [⟨Grammar.wrapRule Brackets.pairIfAny, .grouping .matched none⟩] ∧
      ¬ (Grammar.wrapRule Brackets.pairIfAny).Recognises {} {} Brackets.groupOfPair := by
  refine ⟨_, _, _, _, rfl, Brackets.pairIfAny_builtIn, ⟨6, Brackets.pairIfAny_takes⟩, rfl, rfl, ?_⟩
  intro recognises
  obtain ⟨found, after, yields, taken⟩ := recognises
  obtain ⟨same, -⟩ := Rule.Yields.unique ⟨6, Brackets.wrapped_takesNothing⟩ yields
  cases same
  cases taken

end GrammarBuilder

end TokenGrammar
