import TokenGrammar.Proofs.Algebra.Delimiting
import TokenGrammar.Proofs.Shortening.Attempts

namespace TokenGrammar

namespace TokenStream

/-- The indices of the visible tokens behind a place, the nearest one first. -/
def indicesBehind (stream : TokenStream) : List Nat :=
  (List.range stream.index).reverse.filter fun index => stream.tokens[index]?.any Token.isVisible

/-- The place between what was passed, the nearest token first, and what remains. -/
def between (passed remaining : List Token) : TokenStream := ⟨passed, remaining, passed.length, rfl⟩

variable {stream : TokenStream} {token : Token} {passed remaining : List Token} {number first : Nat}

/-- What holds of the first place, and of a place whenever it holds one token before it, holds of every place. -/
@[elab_as_elim]
theorem backwards {motive : TokenStream → Prop} (stream : TokenStream)
    (start : ∀ remaining, motive (between [] remaining))
    (back : ∀ token passed remaining, motive (between passed (token :: remaining)) →
      motive (between (token :: passed) remaining)) : motive stream := by
  obtain ⟨passed, remaining, index, rfl⟩ := stream
  change motive (between passed remaining)
  induction passed generalizing remaining with
  | nil => exact start remaining
  | cons token passed ih => exact back token passed remaining (ih (token :: remaining))

theorem tokens_between_cons (token : Token) (passed remaining : List Token) :
    (between (token :: passed) remaining).tokens = (between passed (token :: remaining)).tokens := by
  simp [TokenStream.tokens, between]

theorem getElem?_tokens_between (token : Token) (passed remaining : List Token) :
    (between (token :: passed) remaining).tokens[passed.length]? = some token := by
  simp [TokenStream.tokens, between]

theorem forward_index (stream : TokenStream) : (ofTokens stream.tokens).forward stream.index = stream := by
  ext1 <;> simp [TokenStream.tokens, ofTokens, stream.index_eq]

/-- The index of a visible token just behind comes before those that are behind it. -/
theorem indicesBehind_between_cons (token : Token) (passed remaining : List Token) :
    (between (token :: passed) remaining).indicesBehind =
      if token.isVisible then passed.length :: (between passed (token :: remaining)).indicesBehind
      else (between passed (token :: remaining)).indicesBehind := by
  have index_eq : (between (token :: passed) remaining).index = passed.length + 1 := rfl
  rw [indicesBehind, index_eq, List.range_succ, List.reverse_append, List.reverse_singleton, List.singleton_append,
    List.filter_cons, getElem?_tokens_between, tokens_between_cons]
  rfl

theorem past_between_cons (token : Token) (passed remaining : List Token) :
    (between (token :: passed) remaining).past =
      if token.isVisible then token :: (between passed (token :: remaining)).past
      else (between passed (token :: remaining)).past :=
  List.filter_cons

theorem read?_between_of_visible (visible : token.isVisible = true) :
    (between passed (token :: remaining)).read? = some (token, between (token :: passed) remaining) :=
  read?_eq_some_iff.mpr ⟨visible, [], by simp, rfl, rfl⟩

/-- From before a shadow just the same is read as from behind it. -/
theorem read?_between_of_shadow (shadow : token.isVisible = false) :
    (between passed (token :: remaining)).read? = (between (token :: passed) remaining).read? := by
  have hidden : token.isShadow = true := by simpa [Token.isVisible] using shadow
  have current_eq : (between passed (token :: remaining)).current? = (between (token :: passed) remaining).current? := by
    simp [current?, between, shadow]
  have shadows_eq : (between passed (token :: remaining)).shadows.length =
      (between (token :: passed) remaining).shadows.length + 1 := by
    simp [shadows, between, hidden]
  rw [read?, read?, current_eq, shadows_eq]
  rfl

theorem length_indicesBehind (stream : TokenStream) : stream.indicesBehind.length = stream.past.length := by
  induction stream using backwards with
  | start remaining => rfl
  | back token passed remaining ih =>
    rw [indicesBehind_between_cons, past_between_cons, apply_ite List.length, apply_ite List.length,
      List.length_cons, List.length_cons, ih]

/-- From a visible token behind a place one reads the visible tokens up to the nearest one and ends just behind that. -/
theorem exists_reads_of_indicesBehind (there : stream.indicesBehind[number]? = some first) :
    ∃ last finish, stream.indicesBehind.head? = some last ∧ finish.index = last + 1 ∧ finish.read? = stream.read? ∧
      ((ofTokens stream.tokens).forward first).Reads (stream.past.take (number + 1)).reverse finish := by
  -- A visible token of a number is one of the next lower number one token back, if that token is visible.
  induction stream using backwards generalizing number with
  | start remaining => cases there
  | back token passed remaining ih =>
    rw [indicesBehind_between_cons] at there ⊢
    rw [past_between_cons, tokens_between_cons]
    cases visible : token.isVisible with
    | false =>
      simp only [visible, Bool.false_eq_true, if_false] at there ⊢
      rw [← read?_between_of_shadow visible]
      exact ih there
    | true =>
      simp only [visible, if_true] at there ⊢
      have read : (between passed (token :: remaining)).read? = some (token, between (token :: passed) remaining) :=
        read?_between_of_visible visible
      refine ⟨passed.length, between (token :: passed) remaining, rfl, rfl, rfl, ?_⟩
      cases number with
      | zero =>
        cases there
        have place : (ofTokens (between passed (token :: remaining)).tokens).forward passed.length =
            between passed (token :: remaining) := forward_index (between passed (token :: remaining))
        rw [place]
        exact .single read
      | succ number =>
        obtain ⟨_, finish, -, -, finish_read, reads⟩ := ih there
        rw [List.take_succ_cons, List.reverse_cons]
        exact reads.append (.single (finish_read.trans read))

theorem lt_index_of_indicesBehind (there : stream.indicesBehind[number]? = some first) : first < stream.index := by
  have inside := List.mem_of_getElem? there
  rw [indicesBehind, List.mem_filter, List.mem_reverse, List.mem_range] at inside
  exact inside.1

theorem seek_of_lt (behind : first < stream.index) : stream.seek first = (ofTokens stream.tokens).forward first :=
  if_neg (Nat.not_le.mpr behind)

end TokenStream

namespace Rule

variable {world : World} {rule : Rule} {rules : List Rule} {captures : Captures} {place next : TokenStream}
  {result : Option TokenStream} {situation : Situation} {number : Nat}

/-- Whether a rule for single tokens takes a token. -/
def accepts : Rule → Token → Bool
  | .matcher test negated, token => test.accepts token != negated
  | _, _ => false

theorem steady_of_isMatcher (matchers : ∀ member ∈ rules, member.isMatcher = true) :
    ∀ member ∈ rules, member.IsSteady world := by
  intro member inside
  have matcher := matchers member inside
  cases member with
  | matcher test negated => exact matcher_steady
  | _ => cases matcher

/-- A rule for single tokens goes behind the next visible token if it takes that, and nowhere else. -/
theorem goesTo_iff_of_isMatcher (matcher : rule.isMatcher = true) :
    rule.GoesTo world captures place result ↔
      result = (place.read?.filter fun read => rule.accepts read.1).map Prod.snd := by
  cases rule with
  | matcher test negated =>
    suffices goes : (Rule.matcher test negated).GoesTo world captures place
        ((place.read?.filter fun read => accepts (.matcher test negated) read.1).map Prod.snd) from
      ⟨fun other => other.unique goes, fun same => same ▸ goes⟩
    cases read : place.read? with
    | none =>
      have ended : place.hasMore = false := TokenStream.read?_eq_none_iff.mp read
      have yields : (Rule.matcher test negated).Yields world ⟨place, captures, []⟩ none _ := matcher_yields_of_ended ended
      exact yields.goesTo
    | some next =>
      obtain ⟨token, next⟩ := next
      obtain ⟨after, yields⟩ := @matcher_yields world ⟨place, captures, []⟩ test negated token next read
      have goes := yields.goesTo
      cases taken : test.accepts token != negated with
      | false =>
        rw [taken] at goes
        rwa [Option.filter_some_neg (by simp [accepts, taken])]
      | true =>
        rw [taken] at yields goes
        have spans : Match.Spans _ place after.stream := matcher_steady.sound.settles yields
        have arrives : after.stream = next := spans.reads.unique (.single read)
        rw [Option.filter_some_pos (by simp [accepts, taken]), ← arrives]
        exact goes
  | _ => cases matcher

theorem goesTo_some_iff_of_isMatcher (matcher : rule.isMatcher = true) :
    rule.GoesTo world captures place (some next) ↔
      ∃ token, place.read? = some (token, next) ∧ rule.accepts token = true := by
  rw [goesTo_iff_of_isMatcher matcher, eq_comm, Option.map_eq_some_iff]
  constructor
  · intro holds
    obtain ⟨⟨token, _⟩, read, rfl⟩ := holds
    exact ⟨token, Option.filter_eq_some_iff.mp read⟩
  · intro holds
    obtain ⟨token, taken⟩ := holds
    exact ⟨(token, next), Option.filter_eq_some_iff.mpr taken, rfl⟩

/-- Rules for single tokens in turn go behind the next visible tokens if they take these one by one. -/
theorem goesTo_sequence_some_iff_of_isMatcher (matchers : ∀ member ∈ rules, member.isMatcher = true) :
    (sequence rules).GoesTo world captures place (some next) ↔
      ∃ tokens, place.Reads tokens next ∧ List.Forall₂ (fun rule token => rule.accepts token = true) rules tokens := by
  induction rules generalizing place with
  | nil =>
    rw [goesTo_sequence_nil_iff]
    constructor
    · intro same
      cases same
      exact ⟨[], .nil _, .nil⟩
    · intro holds
      obtain ⟨tokens, reads, all⟩ := holds
      cases all
      rw [reads.eq_of_nil]
  | cons rule rules ih =>
    have matcher := matchers rule (List.mem_cons_self ..)
    have matchersRest : ∀ member ∈ rules, member.isMatcher = true := fun member inside =>
      matchers member (List.mem_cons_of_mem _ inside)
    rw [goesTo_sequence_cons_iff (steady_of_isMatcher matchers)]
    constructor
    · intro goes
      rcases goes with ⟨-, impossible⟩ | ⟨behind, begins, goesOn⟩
      · cases impossible
      · obtain ⟨token, read, accepts⟩ := (goesTo_some_iff_of_isMatcher matcher).mp begins
        obtain ⟨tokens, reads, all⟩ := (ih matchersRest).mp goesOn
        exact ⟨token :: tokens, .cons read reads, .cons accepts all⟩
    · intro holds
      obtain ⟨_, reads, all⟩ := holds
      cases all with
      | cons accepts all =>
        cases reads with
        | cons read reads =>
          exact .inr ⟨_, (goesTo_some_iff_of_isMatcher matcher).mpr ⟨_, read, accepts⟩,
            (ih matchersRest).mpr ⟨_, reads, all⟩⟩

/-- Rules for single tokens in turn always go somewhere or fail. -/
theorem exists_goesTo_sequence_of_isMatcher (world : World) (matchers : ∀ member ∈ rules, member.isMatcher = true)
    (captures : Captures) (place : TokenStream) : ∃ result, (sequence rules).GoesTo world captures place result := by
  induction rules generalizing place with
  | nil => exact ⟨_, goesTo_sequence_nil_iff.mpr rfl⟩
  | cons rule rules ih =>
    have matcher := matchers rule (List.mem_cons_self ..)
    have begins := (@goesTo_iff_of_isMatcher world rule captures place _ matcher).mpr rfl
    simp only [goesTo_sequence_cons_iff (steady_of_isMatcher matchers)]
    cases first : (place.read?.filter fun read => rule.accepts read.1).map Prod.snd with
    | none => exact ⟨none, .inl ⟨first ▸ begins, rfl⟩⟩
    | some next =>
      obtain ⟨result, goesOn⟩ := ih (fun member inside => matchers member (List.mem_cons_of_mem _ inside)) next
      exact ⟨result, .inr ⟨next, first ▸ begins, goesOn⟩⟩

/-- Rules for single tokens in turn match as far as they take the next visible tokens, of which there have to be as
many. -/
theorem exists_goesTo_some_iff_of_isMatcher (matchers : ∀ member ∈ rules, member.isMatcher = true) :
    (∃ next, (sequence rules).GoesTo world captures place (some next)) ↔
      List.Forall₂ (fun rule token => rule.accepts token = true) rules (place.ahead.take rules.length) := by
  simp only [goesTo_sequence_some_iff_of_isMatcher matchers]
  constructor
  · intro holds
    obtain ⟨next, tokens, reads, all⟩ := holds
    have isAhead : tokens <+: place.ahead := TokenStream.exists_reads_iff.mp ⟨next, reads⟩
    rw [all.length_eq, ← List.prefix_iff_eq_take.mp isAhead]
    exact all
  · intro all
    obtain ⟨next, reads⟩ := TokenStream.exists_reads_iff.mpr (List.take_prefix rules.length place.ahead)
    exact ⟨next, _, reads, all⟩

/-- A rule reaches back to the visible token of a number behind a place when it matches from there and ends just behind
the nearest one. -/
def ReachesBack (world : World) (rule : Rule) (number : Nat) (situation : Situation) : Prop :=
  ∃ first last found after, situation.stream.indicesBehind[number]? = some first ∧
    situation.stream.indicesBehind.head? = some last ∧
    rule.Yields world { situation with stream := situation.stream.seek first } (some found) after ∧
    found.finish = .ofNat (last + 1)

/-- Rules for single tokens in turn reach back when they take the visible tokens behind one by one. -/
theorem reachesBack_iff_of_isMatcher (matchers : ∀ member ∈ rules, member.isMatcher = true)
    (count : rules.length = number + 1) :
    (sequence rules).ReachesBack world number situation ↔
      List.Forall₂ (fun rule token => rule.accepts token = true) rules
        (situation.stream.past.take rules.length).reverse := by
  have sound : (sequence rules).IsSound world := (IsSteady.sequence (steady_of_isMatcher matchers)).sound
  constructor
  · intro reaches
    obtain ⟨first, last, found, after, there, -, yields, -⟩ := reaches
    obtain ⟨_, finish, -, -, -, reads⟩ := TokenStream.exists_reads_of_indicesBehind there
    rw [← TokenStream.seek_of_lt (TokenStream.lt_index_of_indicesBehind there), ← count] at reads
    have isAhead := TokenStream.exists_reads_iff.mp ⟨finish, reads⟩
    have enough : rules.length ≤ situation.stream.past.length := by
      rw [← TokenStream.length_indicesBehind, count]
      exact (List.getElem?_eq_some_iff.mp there).1
    have all := (exists_goesTo_some_iff_of_isMatcher matchers).mp ⟨_, yields.goesTo⟩
    rw [List.prefix_iff_eq_take.mp isAhead, List.length_reverse, List.length_take, Nat.min_eq_left enough]
    exact all
  · intro all
    have inside : number < situation.stream.indicesBehind.length := by
      have same := all.length_eq
      rw [List.length_reverse, List.length_take] at same
      rw [TokenStream.length_indicesBehind]
      omega
    have there := List.getElem?_eq_getElem inside
    obtain ⟨last, finish, nearest, ends, -, reads⟩ := TokenStream.exists_reads_of_indicesBehind there
    rw [← TokenStream.seek_of_lt (TokenStream.lt_index_of_indicesBehind there), ← count] at reads
    have goes := (@goesTo_sequence_some_iff_of_isMatcher world rules situation.memory.captures _ finish matchers).mpr
      ⟨_, reads, all⟩
    obtain ⟨found, after, yields, some_eq⟩ := goes.exists_yields situation.memory.notices
    obtain ⟨found, rfl, rfl⟩ := Option.map_eq_some_iff.mp some_eq.symm
    have spans : found.Spans _ after.stream := sound.settles yields
    exact ⟨_, last, found, after, there, nearest, yields, spans.finish_eq.trans (congrArg Number.ofNat ends)⟩

/-- A rule that goes somewhere matches there, and otherwise it fails. -/
theorem GoesTo.matchesWhen (goes : rule.GoesTo world situation.memory.captures situation.stream result) :
    rule.MatchesWhen world situation result.isSome := by
  obtain ⟨found, after, yields, rfl⟩ := goes.exists_yields situation.memory.notices
  rw [Option.isSome_map]
  exact yields.matchesWhen

/-- Looking back at rules for single tokens in turn, one sees the same rules the other way round reach back. -/
theorem goesTo_lookbehind_iff_reachesBack (filled : rules ≠ [])
    (matchers : ∀ member ∈ rules, member.isMatcher = true)
    (looks : (sequence rules.reverse).GoesTo world situation.memory.captures situation.stream.lookbehind result) :
    result.isSome = true ↔ (sequence rules).ReachesBack world (rules.length - 1) situation := by
  have count : rules.length = rules.length - 1 + 1 := by
    have := List.length_pos_iff.mpr filled
    omega
  have seen := @exists_goesTo_some_iff_of_isMatcher world rules.reverse situation.memory.captures
    situation.stream.lookbehind fun member inside => matchers member (List.mem_reverse.mp inside)
  rw [List.length_reverse] at seen
  rw [reachesBack_iff_of_isMatcher matchers count, ← List.forall₂_reverse_iff, List.reverse_reverse]
  refine Iff.trans ?_ seen
  constructor
  · intro somewhere
    obtain ⟨next, rfl⟩ := Option.isSome_iff_exists.mp somewhere
    exact ⟨next, looks⟩
  · intro holds
    obtain ⟨next, goes⟩ := holds
    rw [looks.unique goes]
    rfl

/-- A look back at rules for single tokens matches exactly when the rules the other way round reach back, and fails
everywhere else. -/
theorem lookbehind_reverse (filled : rules ≠ []) (matchers : ∀ member ∈ rules, member.isMatcher = true)
    (situation : Situation) :
    ((lookaround .behind (sequence rules.reverse) false).Matches world situation ↔
      (sequence rules).ReachesBack world (rules.length - 1) situation) ∧
    ((lookaround .behind (sequence rules.reverse) false).Fails world situation ↔
      ¬(sequence rules).ReachesBack world (rules.length - 1) situation) := by
  have matchersBack : ∀ member ∈ rules.reverse, member.isMatcher = true := fun member inside =>
    matchers member (List.mem_reverse.mp inside)
  obtain ⟨result, looks⟩ := exists_goesTo_sequence_of_isMatcher world matchersBack situation.memory.captures
    situation.stream.lookbehind
  have goes := (@goesTo_lookaround_iff world _ situation.memory.captures situation.stream _ .behind false
    (IsSteady.sequence (steady_of_isMatcher matchersBack))).mpr ⟨result, looks, rfl⟩
  have holds : (lookaround .behind (sequence rules.reverse) false).MatchesWhen world situation result.isSome := by
    cases result <;> exact goes.matchesWhen
  have reaches_iff := goesTo_lookbehind_iff_reachesBack filled matchers looks
  exact ⟨holds.matches_iff.trans reaches_iff, holds.fails_iff.trans (Bool.eq_false_iff.trans (not_congr reaches_iff))⟩

end Rule

namespace Brackets

/-- A rule for an opening bracket and one for anything else. -/
def opensFirst : List Rule := [taking opening, .matcher (.value opening.value false) true]

/-- The place in front of the last closing bracket, with a comment just behind. -/
def lastClosing : Situation := ⟨Brackets.stream.forward 6, {}⟩

end Brackets

namespace Rule

open Brackets in
/-- A look back passes over a comment and finds a closing bracket and an opening one behind it. -/
theorem lookbehind_passes_over_comment :
    opensFirst ≠ [] ∧ (∀ member ∈ opensFirst, member.isMatcher = true) ∧
      lastClosing.stream.indicesBehind = [4, 3, 1] ∧
      (lookaround .behind (sequence opensFirst.reverse) false).Matches Brackets.world lastClosing ∧
      (sequence opensFirst).ReachesBack Brackets.world 1 lastClosing := by
  have filled : opensFirst ≠ [] := List.cons_ne_nil _ _
  have matchers : ∀ member ∈ opensFirst, member.isMatcher = true := by simp [opensFirst, taking, isMatcher]
  obtain ⟨found, after, yields, -⟩ := exists_yields_of_count Brackets.world
    (lookaround .behind (sequence opensFirst.reverse) false) 12 0 lastClosing.stream (by decide +kernel)
  have holds : (lookaround .behind (sequence opensFirst.reverse) false).Matches Brackets.world lastClosing :=
    ⟨found, after, yields⟩
  exact ⟨filled, matchers, by decide +kernel, holds, (lookbehind_reverse filled matchers lastClosing).1.mp holds⟩

end Rule

end TokenGrammar
