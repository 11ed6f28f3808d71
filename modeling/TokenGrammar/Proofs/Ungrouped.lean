import TokenGrammar.Proofs.Building
import TokenGrammar.Proofs.Comparison
import TokenGrammar.Proofs.Protection

namespace TokenGrammar

/-- No visible token is a group, nor annotates or numbers one. -/
def Token.Ungrouped (tokens : List Token) : Prop :=
  ∀ token ∈ tokens, token.isVisible = true → token.unwrap.isGroup = false

/-- A match keeps within a stream when it begins where the stream stands and ends there or further on, but not behind the
last token. -/
def Match.KeepsWithin (found : Match) (stream : TokenStream) : Prop :=
  found.start = .ofNat stream.index ∧
    ∃ finish, found.finish = .ofNat finish ∧ stream.index ≤ finish ∧ finish ≤ stream.size

/-- A caller's rule keeps within the stream among tokens when all of its matches there do. -/
def ExternalRule.KeepsAmong (tokens : List Token) (supplied : ExternalRule) : Prop :=
  ∀ stream captures found, stream.tokens = tokens → (supplied.behave stream captures).result = .ok (some found) →
    found.KeepsWithin stream

namespace Rule

/-- A rule keeps within the stream among tokens unless it is a caller's own and does not. -/
def KeepsAmong (store : RuleStore) (tokens : List Token) (rule : Rule) : Prop :=
  ∀ number supplied, rule.externalNumber? = some number → store.external? number = some supplied →
    supplied.KeepsAmong tokens

variable {world : World} {tokens : List Token} {rule : Rule} {situation after : Situation} {found : Match}

theorem keepsWithin_of_settle {kind : Text} {body : Run}
    (answers : Run.settle kind body situation = .ok (some found) after) : found.KeepsWithin situation.stream := by
  have leaves := @Run.settle_leavesToCaller situation kind body
  rw [answers] at leaves
  obtain ⟨begins, ends, onward, within, -⟩ := leaves
  exact ⟨begins, _, ends, onward, within⟩

/-- The matches of a rule keep within the stream if those of a caller's own rule do. -/
theorem keepsWithin_of_run (keeps : rule.KeepsAmong world.store tokens) (given : situation.stream.tokens = tokens)
    {fuel : Nat} (answers : rule.run world fuel situation = .ok (some found) after) :
    found.KeepsWithin situation.stream := by
  cases fuel with
  | zero => cases answers
  | succ fuel =>
    cases rule with
    | external number =>
      match known : world.store.external? number with
      | none =>
        simp only [run, step, known] at answers
        cases answers
      | some supplied =>
        have behaves := keeps number supplied rfl known situation.stream situation.memory.captures found given
        simp only [run, step, known, Run.leaveToCaller] at answers
        split at answers
        · cases answers
          exact behaves ‹_›
        · cases answers
    | _ => exact keepsWithin_of_settle answers

/-- A match that keeps within the stream is settled on. -/
theorem settle_of_keepsWithin {body : Run} (answers : body situation = .ok (some found) after)
    (keeps : found.KeepsWithin situation.stream) (kind : Text) :
    ∃ place, Run.settle kind body situation = .ok (some found) { after with stream := place } := by
  obtain ⟨start_eq, finish, finish_eq, onward, within⟩ := keeps
  have begins : found.start.same (.ofNat situation.stream.index) = true := by
    simp [start_eq]
  have moves : situation.stream.moveTo found.finish =
      .ok (situation.stream.forward (finish - situation.stream.index)) := by
    simp [finish_eq, TokenStream.moveTo, TokenStream.onward?_eq, onward, within]
  refine ⟨situation.stream.forward (finish - situation.stream.index), ?_⟩
  rw [Run.settle, Stateful.bind_apply, Attempt.apart_apply]
  simp only [id_eq, answers, Run.arrive, Attempt.stream_bind_apply, begins, if_true, moves]
  rfl

/-- A group rule does not match where the next visible token is no group. -/
theorem run_group_of_ungrouped (ungrouped : Token.Ungrouped situation.stream.tokens) (fuel : Nat) :
    (Rule.group rule).run world (fuel + 1) situation = .ok none situation := by
  have inside : Run.insideGroup (rule.run world fuel) (.group rule) situation = .ok none situation := by
    rw [Run.insideGroup, Attempt.stream_bind_apply, Attempt.stream_bind_apply]
    cases next : situation.stream.current? with
    | none => rfl
    | some token =>
      have ahead : token ∈ situation.stream.tokens :=
        List.mem_append_right _ (List.mem_of_find?_eq_some next)
      have alone := ungrouped token ahead (List.find?_some next)
      have memberless : token.unwrap.members? = none := by
        cases inner : token.unwrap with
        | group =>
          rw [inner] at alone
          cases alone
        | _ => rfl
      dsimp only
      rw [memberless]
      rfl
  exact Run.settle_none inside

/-- Among tokens that are no groups, to try a wrapped rule is to try the rule. -/
theorem apart_run_wrapRule (keeps : rule.KeepsAmong world.store tokens) (ungrouped : Token.Ungrouped tokens)
    (given : situation.stream.tokens = tokens) (fuel : Nat) :
    Attempt.apart id ((Grammar.wrapRule rule).run world (fuel + 1)) situation =
      Attempt.apart id (rule.run world fuel) situation := by
  have wrapped : (Grammar.wrapRule rule).run world (fuel + 1) =
      Run.settle ((Grammar.wrapRule rule).kind world.store) (Run.firstOf (run world fuel) [rule, .group rule]) := rfl
  rw [wrapped, Attempt.apart_apply, Attempt.apart_apply]
  simp only [id_eq]
  match outcome : rule.run world fuel situation with
  | .error stop after =>
    have stops : Run.firstOf (run world fuel) [rule, .group rule] situation =
        .error stop { after with stream := situation.stream } := by
      simp only [Run.firstOf, Stateful.bind_apply, Attempt.apart_apply, id_eq, outcome]
    rw [Run.settle_error stops]
  | .ok none after =>
    have fails : Run.firstOf (run world fuel) [rule, .group rule] situation =
        .ok none { after with stream := situation.stream } := by
      -- A rule that answers has had fuel, and the group rule has as much.
      obtain ⟨fuel, rfl⟩ : ∃ less, fuel = less + 1 := by
        cases fuel with
        | zero => cases outcome
        | succ less => exact ⟨less, rfl⟩
      have group : (Rule.group rule).run world (fuel + 1) { after with stream := situation.stream } = _ :=
        run_group_of_ungrouped (given.symm ▸ ungrouped) fuel
      simp only [Run.firstOf, Stateful.bind_apply, Attempt.apart_apply, id_eq, outcome, group]
      rfl
    rw [Run.settle_none fails]
  | .ok (some found) after =>
    have matched : Run.firstOf (run world fuel) [rule, .group rule] situation =
        .ok (some found) { after with stream := situation.stream } := by
      simp only [Run.firstOf, Stateful.bind_apply, Attempt.apart_apply, id_eq, outcome]
      rfl
    obtain ⟨place, settles⟩ := settle_of_keepsWithin matched (keepsWithin_of_run keeps given outcome)
      ((Grammar.wrapRule rule).kind world.store)
    rw [settles]

end Rule

/-- Of two bindings the first one wraps the second one when it has the same rule, or that rule wrapped where it keeps
within the stream, and the same action. -/
inductive RuleBinding.Wraps (store : RuleStore) (tokens : List Token) : RuleBinding → RuleBinding → Prop
  | same (binding : RuleBinding) : Wraps store tokens binding binding
  | wrapped {rule : Rule} (keeps : rule.KeepsAmong store tokens) (action : Action) :
      Wraps store tokens ⟨Grammar.wrapRule rule, action⟩ ⟨rule, action⟩

namespace Engine

variable {world : World} {tokens : List Token} {binding binding' : RuleBinding} {bindings bindings' : List RuleBinding}

/-- To try a wrapped rule takes one unit of fuel more than to try the rule. -/
theorem triedAlike_of_wraps (wraps : binding.Wraps world.store tokens binding') (ungrouped : Token.Ungrouped tokens)
    (fuel : Nat) : TriedAlike tokens (Rule.run world fuel) (Rule.run world (fuel + 1)) binding' binding := by
  cases wraps with
  | same => exact .refl (Nat.le_succ fuel) _
  | wrapped keeps action =>
    exact ⟨rfl, fun situation given => .inr (Rule.apart_run_wrapRule keeps ungrouped given fuel).symm⟩

/-- With the same fuel a wrapped rule has less of it left for the rule. -/
theorem triedAlike_of_wraps_symm (wraps : binding.Wraps world.store tokens binding')
    (ungrouped : Token.Ungrouped tokens) (fuel : Nat) :
    TriedAlike tokens (Rule.run world fuel) (Rule.run world fuel) binding binding' := by
  cases wraps with
  | same => exact .refl (Nat.le_refl _) _
  | @wrapped rule keeps action =>
    refine ⟨rfl, fun situation given => ?_⟩
    cases fuel with
    | zero => exact .inl ⟨situation, rfl⟩
    | succ fuel =>
      have approximates := (@Rule.run_approximates world rule _ _ (Nat.le_succ fuel)).apart id situation
      rw [← Rule.apart_run_wrapRule keeps ungrouped given fuel] at approximates
      exact approximates

/-- Passes with wrapped bindings and with the bindings themselves come to the same with enough fuel. -/
theorem exists_result_iff_of_wraps (wraps : List.Forall₂ (RuleBinding.Wraps world.store tokens) bindings bindings')
    (ungrouped : Token.Ungrouped tokens) {result : Except Stop (List Piece)} (finite : result ≠ .error .exhausted) :
    (∃ fuel, (process ⟨bindings⟩ world fuel tokens).result = result) ↔
      ∃ fuel, (process ⟨bindings'⟩ world fuel tokens).result = result := by
  constructor
  · rintro ⟨fuel, rfl⟩
    have alike := wraps.imp fun _ _ wraps => triedAlike_of_wraps_symm wraps ungrouped fuel
    exact ⟨fuel, ((result_process_of_alike (Nat.le_refl _) alike).resolve_left finite).symm⟩
  · rintro ⟨fuel, rfl⟩
    have alike := wraps.flip.imp fun _ _ wraps => triedAlike_of_wraps wraps ungrouped fuel
    exact ⟨fuel + 1, ((result_process_of_alike (Nat.le_succ fuel) alike).resolve_left finite).symm⟩

end Engine

/-- A pass of a grammar over tokens comes to pieces or to a fault when it does with some fuel. -/
def Grammar.ComesTo (grammar : Grammar) (store : RuleStore) (tokens : List Token)
    (result : Except Fault (List Piece)) : Prop :=
  ∃ fuel, (grammar.parse store fuel tokens).result = result.mapError Stop.fault

namespace Grammar.ComesTo

variable {grammar : Grammar} {store : RuleStore} {tokens : List Token} {result result' : Except Fault (List Piece)}

theorem ne_exhausted (result : Except Fault (List Piece)) : result.mapError Stop.fault ≠ .error .exhausted := by
  cases result <;> simp [Except.mapError]

theorem unique (comes : grammar.ComesTo store tokens result) (comes' : grammar.ComesTo store tokens result') :
    result = result' := by
  obtain ⟨fuel, comes⟩ := comes
  obtain ⟨fuel', comes'⟩ := comes'
  have same : result.mapError Stop.fault = result'.mapError Stop.fault := by
    rw [← comes, ← comes']
    exact Engine.result_process_unique (comes ▸ ne_exhausted result) (comes' ▸ ne_exhausted result')
  cases result <;> cases result' <;> cases same <;> rfl

end Grammar.ComesTo

namespace BuilderCall

/-- The call that does not have its rule wrapped. -/
def unwrapped : BuilderCall → BuilderCall
  | .define name rule action => .define name rule action
  | .defineDynamic name resolver => .defineDynamic name resolver
  | .addRule store rule action _ => .addRule store rule action (some false)
  | .build store => .build store

/-- A call keeps within the stream when a rule that it has wrapped does. -/
def KeepsAmong (store : RuleStore) (tokens : List Token) : BuilderCall → Prop
  | .addRule _ rule action wrap => wrap.getD action.isGrouping = true → rule.KeepsAmong store tokens
  | _ => True

end BuilderCall

/-- What came of a call is alike what came of the call that does not have its rule wrapped: both failed alike or both
succeeded, and the grammars that were built have the same definitions and bindings and come to the same over tokens. -/
inductive BuilderEvent.Alike (store : RuleStore) (tokens : List Token) : BuilderEvent → BuilderEvent → Prop
  | refused (call : BuilderCall) (fault : Fault) :
      Alike store tokens ⟨call, .error fault⟩ ⟨call.unwrapped, .error fault⟩
  | done (call : BuilderCall) (notices notices' : List Notice) :
      Alike store tokens ⟨call, .ok (.done notices)⟩ ⟨call.unwrapped, .ok (.done notices')⟩
  | built (call : BuilderCall) {grammar grammar' : Grammar} (notices notices' : List Notice)
      (definitions : grammar.definitions = grammar'.definitions) (bindings : grammar.bindings = grammar'.bindings)
      (passes : ∀ result, grammar.ComesTo store tokens result ↔ grammar'.ComesTo store tokens result) :
      Alike store tokens ⟨call, .ok (.grammar grammar notices)⟩ ⟨call.unwrapped, .ok (.grammar grammar' notices')⟩

namespace GrammarBuilder

variable {store : RuleStore} {tokens : List Token} {builder builder' : GrammarBuilder}

/-- Of two builders the first one wraps the second one when its active bindings wrap those of the other, and everything
else is the same. -/
structure Wraps (store : RuleStore) (tokens : List Token) (builder builder' : GrammarBuilder) : Prop where
  active : List.Forall₂ (RuleBinding.Wraps store tokens) builder.active builder'.active
  definitions : builder.definitions = builder'.definitions
  bindings : builder.bindings = builder'.bindings
  isBuilt : builder.isBuilt = builder'.isBuilt

theorem call_define (opened : builder.isBuilt = false) (name : Text) (rule : Rule) (action : Action) :
    builder.call (.define name rule action) = (builder.bindings.defineRule name rule).map fun made =>
      (.done [], { builder with
        bindings := made.2
        definitions := builder.definitions ++ [(name, ⟨rule, action⟩)] }) := by
  simp only [call, define, checkOpen_eq_ok_iff.mpr opened]
  cases builder.bindings.defineRule name rule <;> rfl

theorem call_defineDynamic (opened : builder.isBuilt = false) (name : Text) (resolver : DynamicResolver) :
    builder.call (.defineDynamic name resolver) = (builder.bindings.defineDynamic name resolver).map fun bindings =>
      (.done [], { builder with bindings }) := by
  simp only [call, defineDynamic, checkOpen_eq_ok_iff.mpr opened]
  cases builder.bindings.defineDynamic name resolver <;> rfl

theorem exists_call_addRule (opened : builder.isBuilt = false) (own : RuleStore) (rule : Rule) (action : Action)
    (wrap : Option Bool) : ∃ notices, builder.call (.addRule own rule action wrap) =
      .ok (.done notices, { builder with
        active := builder.active ++ [⟨Grammar.activeRule rule action wrap, action⟩] }) := by
  obtain ⟨notices, added⟩ := exists_addRule_eq_ok opened own rule action wrap
  exact ⟨notices, bind_eq_ok_iff.mpr ⟨_, added, rfl⟩⟩

theorem activeRule_wraps {rule : Rule} {action : Action} {wrap : Option Bool}
    (keeps : wrap.getD action.isGrouping = true → rule.KeepsAmong store tokens) :
    RuleBinding.Wraps store tokens ⟨Grammar.activeRule rule action wrap, action⟩ ⟨rule, action⟩ := by
  rw [Grammar.activeRule]
  split
  · rename_i wraps
    exact .wrapped (keeps (Bool.and_eq_true_iff.mp wraps).1) action
  · exact .same _

namespace Wraps

variable (wraps : builder.Wraps store tokens builder')
include wraps

/-- The grammars that two such builders keep come to the same. -/
theorem comesTo_iff (ungrouped : Token.Ungrouped tokens) (result : Except Fault (List Piece)) :
    builder.closed.kept.ComesTo store tokens result ↔ builder'.closed.kept.ComesTo store tokens result := by
  have bindings : builder.closed.kept.bindings = builder'.closed.kept.bindings := congrArg Bindings.close wraps.bindings
  simp only [Grammar.ComesTo, Grammar.parse, Grammar.world, bindings]
  exact Engine.exists_result_iff_of_wraps wraps.active ungrouped (Grammar.ComesTo.ne_exhausted result)

/-- A call on the one and the call on the other that does not have its rule wrapped have the same effect. -/
theorem perform (ungrouped : Token.Ungrouped tokens) {call : BuilderCall} (keeps : call.KeepsAmong store tokens) :
    BuilderEvent.Alike store tokens (builder.perform call).1 (builder'.perform call.unwrapped).1 ∧
      (builder.perform call).2.Wraps store tokens (builder'.perform call.unwrapped).2 := by
  cases built : builder.isBuilt with
  | true =>
    rw [perform_of_error (call_of_isBuilt built call),
      perform_of_error (call_of_isBuilt (wraps.isBuilt.symm.trans built) call.unwrapped)]
    exact ⟨.refused .., wraps⟩
  | false =>
    have built' : builder'.isBuilt = false := wraps.isBuilt.symm.trans built
    cases call with
    | define name rule action =>
      rw [BuilderCall.unwrapped, GrammarBuilder.perform, GrammarBuilder.perform, call_define built, call_define built',
        wraps.bindings]
      cases builder'.bindings.defineRule name rule with
      | error fault => exact ⟨.refused (.define ..) fault, wraps⟩
      | ok made =>
        exact ⟨.done (.define ..) [] [], wraps.active, congrArg (· ++ _) wraps.definitions, rfl, wraps.isBuilt⟩
    | defineDynamic name resolver =>
      rw [BuilderCall.unwrapped, GrammarBuilder.perform, GrammarBuilder.perform, call_defineDynamic built,
        call_defineDynamic built', wraps.bindings]
      cases builder'.bindings.defineDynamic name resolver with
      | error fault => exact ⟨.refused (.defineDynamic ..) fault, wraps⟩
      | ok bindings => exact ⟨.done (.defineDynamic ..) [] [], wraps.active, wraps.definitions, rfl, wraps.isBuilt⟩
    | addRule own rule action wrap =>
      obtain ⟨notices, adds⟩ := exists_call_addRule built own rule action wrap
      obtain ⟨notices', adds'⟩ := exists_call_addRule built' own rule action (some false)
      rw [BuilderCall.unwrapped, perform_of_ok adds, perform_of_ok adds']
      refine ⟨.done (.addRule ..) notices notices', ?_, wraps.definitions, wraps.bindings, wraps.isBuilt⟩
      exact List.rel_append wraps.active (.cons (activeRule_wraps keeps) .nil)
    | build own =>
      obtain ⟨notices, closes⟩ := call_build built own
      obtain ⟨notices', closes'⟩ := call_build built' own
      have bindings : builder.closed.bindings = builder'.closed.bindings := congrArg Bindings.close wraps.bindings
      rw [BuilderCall.unwrapped, perform_of_ok closes, perform_of_ok closes']
      exact ⟨.built (.build own) notices notices' wraps.definitions bindings (wraps.comesTo_iff ungrouped),
        wraps.active, wraps.definitions, bindings, rfl⟩

theorem performAll (ungrouped : Token.Ungrouped tokens) {calls : List BuilderCall}
    (keeps : ∀ call ∈ calls, call.KeepsAmong store tokens) :
    List.Forall₂ (BuilderEvent.Alike store tokens) (builder.performAll calls).1
      (builder'.performAll (calls.map BuilderCall.unwrapped)).1 := by
  induction calls generalizing builder builder' with
  | nil => exact .nil
  | cons call rest ih =>
    obtain ⟨alike, later⟩ := wraps.perform ungrouped (keeps call (List.mem_cons_self ..))
    exact .cons alike (ih later fun other member => keeps other (List.mem_cons_of_mem _ member))

end Wraps

/-- Among tokens of which no visible one is a group, the calls on a builder come to the same as the calls that have no
rule wrapped, if the callers' own rules that are wrapped keep within the stream. -/
theorem performAll_unwrapped (ungrouped : Token.Ungrouped tokens) (calls : List BuilderCall)
    (keeps : ∀ call ∈ calls, call.KeepsAmong store tokens) :
    List.Forall₂ (BuilderEvent.Alike store tokens) (({} : GrammarBuilder).performAll calls).1
      (({} : GrammarBuilder).performAll (calls.map BuilderCall.unwrapped)).1 :=
  Wraps.performAll ⟨.nil, rfl, rfl, rfl⟩ ungrouped keeps

end GrammarBuilder

namespace Brackets

/-- A caller's rule that takes the next token and all that is left behind it. -/
def greedy : ExternalRule where
  kind := "greedy"
  parts := none
  behave stream captures :=
    ⟨.ok (some ⟨.ofNat stream.index, .ofNat stream.size, stream.remaining, .always⟩), stream.index, captures⟩

/-- A caller's rule whose matches begin behind the next token. -/
def leaping : ExternalRule where
  kind := "leaping"
  parts := none
  behave stream captures :=
    ⟨.ok (some ⟨.ofNat (stream.index + 1), .ofNat (stream.index + 1), [], .always⟩), stream.index, captures⟩

/-- A caller's rule whose matches end behind the last token. -/
def overlong : ExternalRule where
  kind := "overlong"
  parts := none
  behave stream captures :=
    ⟨.ok (some ⟨.ofNat stream.index, .ofNat (stream.size + 1), [], .always⟩), stream.index, captures⟩

def failing : Action := .transform fun _ _ _ => .error (.general .precondition "failing")

/-- The store of one rule of a caller. -/
def storing (supplied : ExternalRule) : RuleStore := { externals := #[supplied] }

/-- The calls that have a rule of a caller wrapped and build. -/
def wrapping (supplied : ExternalRule) (action : Action) : List BuilderCall :=
  [.addRule (storing supplied) (.external 0) action (some true), .build (storing supplied)]

def builtBy (calls : List BuilderCall) : Grammar := (({} : GrammarBuilder).performAll calls).2.kept

theorem greedy_keepsAmong (tokens : List Token) : greedy.KeepsAmong tokens := by
  intro stream captures found among answers
  cases answers
  exact ⟨rfl, stream.size, rfl, Nat.le_add_right .., Nat.le_refl _⟩

theorem opening_ungrouped : Token.Ungrouped [opening] := by
  intro token member
  rw [List.mem_singleton.mp member]
  exact fun _ => rfl

end Brackets

namespace GrammarBuilder

open Brackets

/-- Where what came of the calls is alike, the grammars come to the same. -/
theorem comesTo_iff_of_alike {supplied : ExternalRule} {action : Action} {tokens : List Token}
    (alike : List.Forall₂ (BuilderEvent.Alike (storing supplied) tokens)
      (({} : GrammarBuilder).performAll (wrapping supplied action)).1
      (({} : GrammarBuilder).performAll ((wrapping supplied action).map BuilderCall.unwrapped)).1)
    (result : Except Fault (List Piece)) :
    (builtBy (wrapping supplied action)).ComesTo (storing supplied) tokens result ↔
      (builtBy ((wrapping supplied action).map BuilderCall.unwrapped)).ComesTo (storing supplied) tokens result := by
  have events : ∃ notices notices', (({} : GrammarBuilder).performAll (wrapping supplied action)).1 =
      [⟨.addRule (storing supplied) (.external 0) action (some true), .ok (.done notices)⟩,
        ⟨.build (storing supplied), .ok (.grammar (builtBy (wrapping supplied action)) notices')⟩] := ⟨_, _, rfl⟩
  have events' : ∃ notices notices',
      (({} : GrammarBuilder).performAll ((wrapping supplied action).map BuilderCall.unwrapped)).1 =
      [⟨.addRule (storing supplied) (.external 0) action (some false), .ok (.done notices)⟩,
        ⟨.build (storing supplied),
          .ok (.grammar (builtBy ((wrapping supplied action).map BuilderCall.unwrapped)) notices')⟩] := ⟨_, _, rfl⟩
  obtain ⟨_, _, events⟩ := events
  obtain ⟨_, _, events'⟩ := events'
  rw [events, events'] at alike
  cases alike with
  | cons _ rest =>
    cases rest with
    | cons built _ =>
      cases built with
      | built call _ _ _ _ passes => exact passes result

/-- A rule that takes all that is left is wrapped, and the grammar comes to what it comes to without that. -/
theorem greedy_comes_to_same_unwrapped :
    Token.Ungrouped [opening] ∧
      (∀ call ∈ wrapping greedy .identity, call.KeepsAmong (storing greedy) [opening]) ∧
      (builtBy (wrapping greedy .identity)).rules = [⟨Grammar.wrapRule (.external 0), .identity⟩] ∧
      (builtBy ((wrapping greedy .identity).map BuilderCall.unwrapped)).rules = [⟨.external 0, .identity⟩] ∧
      ∃ pieces, Passage.output pieces = [opening] ∧
        (builtBy (wrapping greedy .identity)).ComesTo (storing greedy) [opening] (.ok pieces) ∧
        (builtBy ((wrapping greedy .identity).map BuilderCall.unwrapped)).ComesTo (storing greedy) [opening]
          (.ok pieces) := by
  have keeps : ∀ call ∈ wrapping greedy .identity, call.KeepsAmong (storing greedy) [opening] := by
    intro call member
    rcases List.mem_pair.mp member with rfl | rfl
    · intro _ number supplied same known
      cases same
      cases known
      exact greedy_keepsAmong [opening]
    · trivial
  have alike := comesTo_iff_of_alike (performAll_unwrapped opening_ungrouped (wrapping greedy .identity) keeps)
  have comes : ∃ pieces, (builtBy (wrapping greedy .identity)).ComesTo (storing greedy) [opening] (.ok pieces) ∧
      Passage.output pieces = [opening] := ⟨_, ⟨3, rfl⟩, rfl⟩
  obtain ⟨pieces, comes, output_eq⟩ := comes
  exact ⟨opening_ungrouped, keeps, rfl, rfl, pieces, output_eq, comes, (alike _).mp comes⟩

/-- Where a caller's rule does not keep within the stream, wrapping makes a difference. A pass takes a match of no tokens
that begins elsewhere, and comes to the fault of the action on a match that ends elsewhere, but a choice stops at either of
them before the action is asked. -/
theorem not_alike_unwrapped_outside_stream :
    Token.Ungrouped [opening] ∧
      (∃ pieces, Passage.output pieces = [opening] ∧
        (builtBy ((wrapping leaping .identity).map BuilderCall.unwrapped)).ComesTo (storing leaping) [opening]
          (.ok pieces)) ∧
      (builtBy (wrapping leaping .identity)).ComesTo (storing leaping) [opening] (.error (.wrongStart "anyOf" 1 0)) ∧
      (builtBy ((wrapping overlong failing).map BuilderCall.unwrapped)).ComesTo (storing overlong) [opening]
        (.error (.general .precondition "failing")) ∧
      (builtBy (wrapping overlong failing)).ComesTo (storing overlong) [opening] (.error (.badTarget 0 2 1)) ∧
      ∀ supplied action, (supplied, action) ∈ [(leaping, .identity), (overlong, failing)] →
        ¬ List.Forall₂ (BuilderEvent.Alike (storing supplied) [opening])
          (({} : GrammarBuilder).performAll (wrapping supplied action)).1
          (({} : GrammarBuilder).performAll ((wrapping supplied action).map BuilderCall.unwrapped)).1 := by
  have begins : ∃ pieces, Passage.output pieces = [opening] ∧
      (builtBy ((wrapping leaping .identity).map BuilderCall.unwrapped)).ComesTo (storing leaping) [opening]
        (.ok pieces) := ⟨_, rfl, 3, rfl⟩
  have begins' : (builtBy (wrapping leaping .identity)).ComesTo (storing leaping) [opening]
      (.error (.wrongStart "anyOf" 1 0)) := ⟨3, rfl⟩
  have ends : (builtBy ((wrapping overlong failing).map BuilderCall.unwrapped)).ComesTo (storing overlong) [opening]
      (.error (.general .precondition "failing")) := ⟨3, rfl⟩
  have ends' : (builtBy (wrapping overlong failing)).ComesTo (storing overlong) [opening]
      (.error (.badTarget 0 2 1)) := ⟨3, rfl⟩
  refine ⟨opening_ungrouped, begins, begins', ends, ends', fun supplied action member alike => ?_⟩
  rcases List.mem_pair.mp member with same | same
  · cases same
    obtain ⟨pieces, -, comes⟩ := begins
    cases ((comesTo_iff_of_alike alike _).mp begins').unique comes
  · cases same
    cases ((comesTo_iff_of_alike alike _).mp ends').unique ends

end GrammarBuilder

end TokenGrammar
