/-
This file swaps adjacent rules that never match at the same place.
A pass whose rules capture nothing is a walk over places.
-/

import Mathlib.Order.Filter.AtTopBot.Basic
import Mathlib.Order.Filter.Finite
import TokenGrammar.Proofs.Algebra.Delimiting
import TokenGrammar.Proofs.Algebra.Reversal
import TokenGrammar.Proofs.Conservation
import TokenGrammar.Proofs.ExcludedMiddle

namespace TokenGrammar

/-- What an outcome comes to, without what it leaves in the memory. -/
def Outcome.reached {α : Type} : Outcome α → Except Stop (α × TokenStream)
  | .ok answer after => .ok (answer, after.stream)
  | .error stop _ => .error stop

namespace Attempt

variable {α β : Type} {attempt : Attempt α} {next : α → Attempt β} {place : TokenStream}

/-- What an attempt comes to at a place, with nothing captured before. -/
def afresh (attempt : Attempt α) (place : TokenStream) : Except Stop (α × TokenStream) :=
  Outcome.reached (attempt ⟨place, {}⟩)

theorem afresh_eq_ok_iff {answer : α} {behind : TokenStream} :
    attempt.afresh place = .ok (answer, behind) ↔ ∃ memory, attempt ⟨place, {}⟩ = .ok answer ⟨behind, memory⟩ := by
  unfold afresh
  constructor
  · intro reaches
    cases outcome : attempt ⟨place, {}⟩ with
    | error stop after =>
      rw [outcome] at reaches
      cases reaches
    | ok result after =>
      rw [outcome] at reaches
      cases reaches
      exact ⟨after.memory, rfl⟩
  · rintro ⟨memory, answers⟩
    rw [answers]
    rfl

/-- What ignores notices comes to the same whatever was noticed before. -/
theorem IgnoresNotices.reached_eq (ignores : attempt.IgnoresNotices) {situation : Situation}
    (bare : situation.memory.captures = {}) :
    Outcome.reached (attempt situation) = attempt.afresh situation.stream := by
  have earlier : situation = Situation.withEarlier ⟨situation.stream, {}⟩ situation.memory.notices :=
    Situation.ext rfl (Memory.ext bare rfl)
  have same := ignores ⟨situation.stream, {}⟩ situation.memory.notices
  rw [← earlier] at same
  rw [same, afresh]
  cases attempt ⟨situation.stream, {}⟩ <;> rfl

/-- An attempt that keeps captures leads from place to place. -/
theorem afresh_bind (keeps : attempt.KeepsCaptures) (ignores : ∀ answer, (next answer).IgnoresNotices)
    (place : TokenStream) :
    (attempt >>= next).afresh place = attempt.afresh place >>= fun here => (next here.1).afresh here.2 := by
  unfold afresh
  rw [Stateful.bind_apply]
  cases outcome : attempt ⟨place, {}⟩ with
  | error stop after => rfl
  | ok answer after => exact (ignores answer).reached_eq (keeps _ _ _ outcome)

/-- What is made of an answer at the end needs nothing that an attempt has left in the memory. -/
theorem afresh_bind_pure (attempt : Attempt α) (make : α → β) (place : TokenStream) :
    (attempt >>= fun answer => pure (make answer)).afresh place =
      attempt.afresh place >>= fun here => .ok (make here.1, here.2) := by
  unfold afresh
  rw [Stateful.bind_apply]
  cases attempt ⟨place, {}⟩ <;> rfl

theorem afresh_apart (view : TokenStream → TokenStream) (attempt : Attempt α) (place : TokenStream) :
    (Attempt.apart view attempt).afresh place = (attempt.afresh (view place)).map fun here => (here.1, place) := by
  unfold afresh
  rw [apart_apply]
  cases attempt { stream := view place, memory := {} } <;> rfl

end Attempt

/-- Two results concur when they are the same. Compared leniently, they also do when one of them is a stop. -/
def Concur {α : Type} (lenient : Prop) (first second : Except Stop α) : Prop :=
  first = second ∨ lenient ∧ ∃ stop, first = .error stop ∨ second = .error stop

namespace Concur

variable {α β : Type} {lenient : Prop} {first second : Except Stop α} {next next' : α → Except Stop β}

theorem refl (result : Except Stop α) : Concur lenient result result := .inl rfl

theorem bind (results : Concur lenient first second)
    (others : ∀ answer, second = .ok answer → Concur lenient (next answer) (next' answer)) :
    Concur lenient (first >>= next) (second >>= next') := by
  rcases results with rfl | ⟨allowed, stop, rfl | rfl⟩
  · cases first with
    | error stop => exact .refl _
    | ok answer => exact others answer rfl
  · exact .inr ⟨allowed, stop, .inl rfl⟩
  · exact .inr ⟨allowed, stop, .inr rfl⟩

/-- Results that concur and are no stops are the same. -/
theorem eq_of_ok {answer answer' : α} (results : Concur lenient first second) (returns : first = .ok answer)
    (returns' : second = .ok answer') : first = second := by
  rcases results with same | ⟨-, stop, stops | stops⟩
  · exact same
  · cases returns.symm.trans stops
  · cases returns'.symm.trans stops

end Concur

namespace Engine

variable {world : World} {each : Rule → Run} {bindings bindings' before rest : List RuleBinding}
  {first second : RuleBinding} {tokens : List Token} {place : TokenStream} {fuel : Nat} {lenient : Prop}

/-- The first of several bindings whose rule answers a match, given what rules answer. -/
def firstFound (answers : Rule → Except Stop (Option Match)) :
    List RuleBinding → Except Stop (Option (RuleBinding × Match))
  | [] => return none
  | binding :: rest => do
    match ← answers binding.rule with
    | none => firstFound answers rest
    | some found => return some (binding, found)

/-- What a rule answers at a place. -/
def answerOf (each : Rule → Run) (place : TokenStream) (rule : Rule) : Except Stop (Option Match) :=
  ((each rule).afresh place).map Prod.fst

theorem firstMatch_keepsCaptures (keeps : ∀ binding ∈ bindings, (each binding.rule).KeepsCaptures) :
    (firstMatch each bindings).KeepsCaptures := by
  induction bindings with
  | nil => exact Attempt.keepsCaptures_compositional.pure none ()
  | cons binding rest ih =>
    obtain ⟨here, others⟩ := List.forall_mem_cons.mp keeps
    refine (here.apart id).bind fun found => ?_
    cases found with
    | none => exact ih others
    | some found => exact Attempt.keepsCaptures_compositional.pure _ ()

/-- At a place, the first match is told by what the rules answer there. -/
theorem afresh_firstMatch (keeps : ∀ binding ∈ bindings, (each binding.rule).KeepsCaptures)
    (ignores : ∀ rule, (each rule).IgnoresNotices) :
    (firstMatch each bindings).afresh place =
      (firstFound (answerOf each place) bindings).map fun answer => (answer, place) := by
  induction bindings with
  | nil => rfl
  | cons binding rest ih =>
    obtain ⟨here, others⟩ := List.forall_mem_cons.mp keeps
    refine (Attempt.afresh_bind (here.apart id) (fun found => ?_) place).trans ?_
    · cases found with
      | none => exact Attempt.ignoresNotices_compositional.firstMatch (fun rule _ => ignores rule) ()
      | some found => exact Attempt.ignoresNotices_compositional.pure _ ()
    · rw [Attempt.afresh_apart, firstFound, answerOf]
      match (each binding.rule).afresh (id place) with
      | .error stop => rfl
      | .ok (none, _) => exact ih others
      | .ok (some found, _) => rfl

section Answers

variable {answers : Rule → Except Stop (Option Match)} {answer answer' : Option (RuleBinding × Match)}

/-- Of two adjacent rules one of which has no match, the other one comes first in either order. -/
theorem firstFound_swap (fails : answers first.rule = .ok none ∨ answers second.rule = .ok none)
    (before rest : List RuleBinding) :
    firstFound answers (before ++ first :: second :: rest) =
      firstFound answers (before ++ second :: first :: rest) := by
  induction before with
  | nil =>
    simp only [List.nil_append, firstFound]
    rcases fails with fails | fails <;> rw [fails]
    · match answers second.rule with
      | .error stop | .ok none | .ok (some found) => rfl
    · match answers first.rule with
      | .error stop | .ok none | .ok (some found) => rfl
  | cons binding before ih =>
    rw [List.cons_append, List.cons_append, firstFound, firstFound, ih]

/-- If two adjacent rules do not both match and both orders come to an answer, it is the same. -/
theorem firstFound_swap_of_ok
    (exclusive : ∀ found found', answers first.rule = .ok (some found) → answers second.rule ≠ .ok (some found'))
    (returns : firstFound answers (before ++ first :: second :: rest) = .ok answer)
    (returns' : firstFound answers (before ++ second :: first :: rest) = .ok answer') : answer = answer' := by
  induction before with
  | nil =>
    -- Each order asks the rule in front of it, so both rules answer.
    match here : answers first.rule, there : answers second.rule with
    | .error stop, _ =>
      rw [List.nil_append, firstFound, here] at returns
      cases returns
    | _, .error stop =>
      rw [List.nil_append, firstFound, there] at returns'
      cases returns'
    | .ok (some found), .ok (some found') => exact absurd there (exclusive found found' here)
    | .ok none, _ =>
      rw [firstFound_swap (.inl here) []] at returns
      exact Except.ok.inj (returns.symm.trans returns')
    | _, .ok none =>
      rw [firstFound_swap (.inr there) []] at returns
      exact Except.ok.inj (returns.symm.trans returns')
  | cons binding before ih =>
    rw [List.cons_append, firstFound] at returns returns'
    match asked : answers binding.rule with
    | .error stop =>
      rw [asked] at returns
      cases returns
    | .ok none =>
      rw [asked] at returns returns'
      exact ih returns returns'
    | .ok (some found) =>
      rw [asked] at returns returns'
      cases returns
      cases returns'
      rfl

end Answers

theorem writePieces_keepsCaptures (world : World) (answer : Option (RuleBinding × Match)) :
    (writePieces world answer).KeepsCaptures := by
  have compositional := Attempt.keepsCaptures_compositional
  cases answer with
  | none => exact compositional.copyToken _ ()
  | some answer => exact compositional.editMatchTelling (compositional.notice _) ()

theorem writePieces_ignoresNotices (world : World) (answer : Option (RuleBinding × Match)) :
    (writePieces world answer).IgnoresNotices := by
  have compositional := Attempt.ignoresNotices_compositional
  cases answer with
  | none => exact compositional.copyToken _ ()
  | some answer => exact compositional.editMatchTelling (compositional.notice _) ()

/-- A pass whose rules keep captures goes on from place to place. -/
theorem afresh_piecesFrom_succ (keeps : ∀ binding ∈ bindings, (each binding.rule).KeepsCaptures)
    (ignores : ∀ rule, (each rule).IgnoresNotices) :
    (piecesFrom world each bindings (fuel + 1)).afresh place =
      if place.hasMore then
        firstFound (answerOf each place.skipShadows) bindings >>= fun answer =>
          (writePieces world answer).afresh place.skipShadows >>= fun written =>
            (piecesFrom world each bindings fuel).afresh written.2 >>= fun others =>
              .ok ([Piece.shadows place.shadows] ++ written.1 ++ others.1, others.2)
      else .ok ([Piece.shadows place.shadows], place.skipShadows) := by
  have compositional := Attempt.ignoresNotices_compositional
  have later (made : List Piece) : Attempt.IgnoresNotices (piecesFrom world each bindings fuel >>= fun others =>
      pure ([Piece.shadows place.shadows] ++ made ++ others)) :=
    compositional.bind (compositional.piecesFrom (fun rule _ => ignores rule) fuel) (fun _ => compositional.pure _) ()
  have writes (answer : Option (RuleBinding × Match)) : Attempt.IgnoresNotices (writePieces world answer >>= fun made =>
      piecesFrom world each bindings fuel >>= fun others =>
        pure ([Piece.shadows place.shadows] ++ made ++ others)) :=
    compositional.bind (fun _ => writePieces_ignoresNotices world answer) (fun made _ => later made) ()
  rw [Attempt.afresh, piecesFrom_succ]
  split
  · refine (Attempt.afresh_bind (firstMatch_keepsCaptures keeps) writes place.skipShadows).trans ?_
    rw [afresh_firstMatch keeps ignores]
    cases firstFound (answerOf each place.skipShadows) bindings with
    | error stop => rfl
    | ok answer =>
      refine (Attempt.afresh_bind (writePieces_keepsCaptures world answer) later place.skipShadows).trans ?_
      exact congrArg _ (funext fun written => Attempt.afresh_bind_pure _ _ written.2)
  · rfl

/-- Two passes over the same tokens concur where what they find first does, at each place where a visible token is
ahead. -/
theorem concur_piecesFrom (keeps : ∀ binding ∈ bindings, (each binding.rule).KeepsCaptures)
    (keeps' : ∀ binding ∈ bindings', (each binding.rule).KeepsCaptures) (ignores : ∀ rule, (each rule).IgnoresNotices)
    (alike : ∀ place : TokenStream, place.tokens = tokens → place.hasMore = true →
      Concur lenient (firstFound (answerOf each place) bindings) (firstFound (answerOf each place) bindings'))
    (fuel : Nat) (given : place.tokens = tokens) :
    Concur lenient ((piecesFrom world each bindings fuel).afresh place)
      ((piecesFrom world each bindings' fuel).afresh place) := by
  induction fuel generalizing place with
  | zero => exact .refl _
  | succ fuel ih =>
    have behind : place.skipShadows.tokens = tokens := by
      rw [TokenStream.skipShadows, TokenStream.tokens_forward, given]
    rw [afresh_piecesFrom_succ keeps ignores, afresh_piecesFrom_succ keeps' ignores]
    split
    next more =>
      refine (alike _ behind (TokenStream.hasMore_skipShadows more)).bind fun answer _ => ?_
      refine Concur.bind (.refl _) fun written writes => ?_
      obtain ⟨memory, writes⟩ := Attempt.afresh_eq_ok_iff.mp writes
      exact (ih ((tokens_of_writePieces writes).trans behind)).bind fun others _ => .refl _
    next => exact .refl _

/-- A pass comes to what it comes to at the first place of its tokens. -/
theorem result_process_eq_afresh (bindings : List RuleBinding) (world : World) (fuel : Nat) (tokens : List Token) :
    (process ⟨bindings⟩ world fuel tokens).result =
      ((piecesFrom world (Rule.run world fuel) bindings fuel).afresh (.ofTokens tokens)).map Prod.fst := by
  show (process ⟨bindings⟩ world fuel tokens).result = Except.map Prod.fst
    (Outcome.reached (pieces world fuel bindings { stream := .ofTokens tokens, memory := {} }))
  rw [process]
  cases pieces world fuel bindings { stream := .ofTokens tokens, memory := {} } <;> rfl

/-- Passes over the same tokens whose rules capture nothing concur where what they find first does. -/
theorem concur_process (nothing : ∀ binding ∈ bindings, binding.rule.CapturesNothing world)
    (permuted : bindings.Perm bindings') (fuel : Nat)
    (alike : ∀ place : TokenStream, place.tokens = tokens → place.hasMore = true →
      Concur lenient (firstFound (answerOf (Rule.run world fuel) place) bindings)
        (firstFound (answerOf (Rule.run world fuel) place) bindings')) :
    Concur lenient (process ⟨bindings⟩ world fuel tokens).result (process ⟨bindings'⟩ world fuel tokens).result := by
  have keeps (binding : RuleBinding) (member : binding ∈ bindings) :=
    Rule.run_keepsCaptures (nothing binding member) fuel
  rw [result_process_eq_afresh, result_process_eq_afresh]
  exact (concur_piecesFrom keeps (fun binding member => keeps binding (permuted.mem_iff.mpr member))
    (fun rule => Rule.run_ignoresNotices world rule fuel) alike fuel (TokenStream.tokens_ofTokens tokens)).bind
      fun answer _ => .refl (.ok answer.1)

/-- What a rule answers a match at a place with, it matches there. -/
theorem matches_of_answerOf {rule : Rule} {found : Match}
    (answers : answerOf (Rule.run world fuel) place rule = .ok (some found)) : rule.Matches world ⟨place, {}⟩ := by
  unfold answerOf at answers
  cases reaches : (rule.run world fuel).afresh place with
  | error stop =>
    rw [reaches] at answers
    cases answers
  | ok here =>
    rw [reaches] at answers
    obtain ⟨answer, behind⟩ := here
    cases answers
    obtain ⟨memory, yields⟩ := Attempt.afresh_eq_ok_iff.mp reaches
    exact ⟨found, _, fuel, yields⟩

open Filter in
/-- With enough fuel, a rule answers that there is no match where it fails. -/
theorem eventually_answerOf_of_fails {rule : Rule} (fails : rule.Fails world ⟨place, {}⟩) :
    ∀ᶠ fuel in atTop, answerOf (Rule.run world fuel) place rule = .ok none := by
  obtain ⟨after, fuel, yields⟩ := fails
  filter_upwards [eventually_ge_atTop fuel] with more enough
  have reaches := Attempt.afresh_eq_ok_iff.mpr ⟨after.memory, Rule.run_grows.eq_of_le yields enough⟩
  rw [answerOf, reaches]
  rfl

open Filter in
/-- What holds with enough fuel at each place among tokens holds with enough fuel at all of them. -/
theorem eventually_places {property : Nat → TokenStream → Prop}
    (each : ∀ place : TokenStream, place.tokens = tokens → ∀ᶠ fuel in atTop, property fuel place) :
    ∀ᶠ fuel in atTop, ∀ place : TokenStream, place.tokens = tokens → property fuel place := by
  have numbered : ∀ᶠ fuel in atTop, ∀ index ∈ Finset.range (tokens.length + 1),
      property fuel ((TokenStream.ofTokens tokens).forward index) := by
    rw [eventually_all_finset]
    exact fun index _ => each _ (by simp)
  refine numbered.mono fun fuel holds place given => ?_
  have here := holds place.index (by
    have inside : place.index ≤ place.size := Nat.le_add_right ..
    rw [TokenStream.size_eq_length, given] at inside
    simpa [Nat.lt_succ_iff] using inside)
  rwa [← given, TokenStream.forward_index] at here

/-- If two adjacent rules do not both match, what either order finds first concurs, compared leniently. -/
theorem concur_firstFound_swap
    (exclusive : ¬ (first.rule.Matches world ⟨place, {}⟩ ∧ second.rule.Matches world ⟨place, {}⟩)) :
    Concur True (firstFound (answerOf (Rule.run world fuel) place) (before ++ first :: second :: rest))
      (firstFound (answerOf (Rule.run world fuel) place) (before ++ second :: first :: rest)) := by
  match found : firstFound (answerOf (Rule.run world fuel) place) (before ++ first :: second :: rest),
    found' : firstFound (answerOf (Rule.run world fuel) place) (before ++ second :: first :: rest) with
  | .error stop, _ => exact .inr ⟨trivial, stop, .inl rfl⟩
  | _, .error stop => exact .inr ⟨trivial, stop, .inr rfl⟩
  | .ok answer, .ok answer' =>
    refine .inl (congrArg _ (firstFound_swap_of_ok (fun found found' matched matched' => ?_) found found'))
    exact exclusive ⟨matches_of_answerOf matched, matches_of_answerOf matched'⟩

/-- With enough fuel, one of two rules answers that there is no match at each place where one of them fails. -/
theorem eventually_answerOf_none (fails : ∀ place : TokenStream, place.tokens = tokens → place.hasMore = true →
      first.rule.Fails world ⟨place, {}⟩ ∨ second.rule.Fails world ⟨place, {}⟩) :
    ∀ᶠ fuel in Filter.atTop, ∀ place : TokenStream, place.tokens = tokens → place.hasMore = true →
      answerOf (Rule.run world fuel) place first.rule = .ok none ∨
        answerOf (Rule.run world fuel) place second.rule = .ok none := by
  refine eventually_places fun place given => ?_
  by_cases more : place.hasMore = true
  · rcases fails place given more with fails | fails
    · exact (eventually_answerOf_of_fails fails).mono fun fuel none _ => .inl none
    · exact (eventually_answerOf_of_fails fails).mono fun fuel none _ => .inr none
  · exact .of_forall fun fuel ahead => absurd ahead more

/-- In a pass whose rules reach no capture, two adjacent bindings can be swapped when their rules never match both at the
same place among the tokens with a visible token ahead. Where both passes return, they write the same pieces. If of the
two rules one fails at each such place, so that none of them stops or goes on forever where the other one matches, both
passes come to the same with enough fuel, whether they return, stop or go on forever. -/
theorem process_swap (nothing : ∀ binding ∈ before ++ first :: second :: rest, binding.rule.CapturesNothing world)
    (exclusive : ∀ place : TokenStream, place.tokens = tokens → place.hasMore = true →
      ¬ (first.rule.Matches world ⟨place, {}⟩ ∧ second.rule.Matches world ⟨place, {}⟩)) :
    (∀ fuel fuel' written written',
      (process ⟨before ++ first :: second :: rest⟩ world fuel tokens).result = .ok written →
      (process ⟨before ++ second :: first :: rest⟩ world fuel' tokens).result = .ok written' → written = written') ∧
    ((∀ place : TokenStream, place.tokens = tokens → place.hasMore = true →
        first.rule.Fails world ⟨place, {}⟩ ∨ second.rule.Fails world ⟨place, {}⟩) →
      ∃ enough, ∀ fuel, enough ≤ fuel →
        (process ⟨before ++ first :: second :: rest⟩ world fuel tokens).result =
          (process ⟨before ++ second :: first :: rest⟩ world fuel tokens).result) := by
  have permuted : (before ++ first :: second :: rest).Perm (before ++ second :: first :: rest) :=
    (List.Perm.swap second first rest).append_left before
  constructor
  · intro fuel fuel' written written' returns returns'
    have returns := result_process_of_le returns (Nat.le_max_left fuel fuel')
    have returns' := result_process_of_le returns' (Nat.le_max_right fuel fuel')
    have concur := concur_process nothing permuted (max fuel fuel') fun place given more =>
      concur_firstFound_swap (exclusive place given more)
    exact Except.ok.inj (returns.symm.trans ((concur.eq_of_ok returns returns').trans returns'))
  · intro fails
    obtain ⟨enough, swaps⟩ := Filter.eventually_atTop.mp (eventually_answerOf_none fails)
    refine ⟨enough, fun fuel atLeast => ?_⟩
    have concur : Concur False (process ⟨before ++ first :: second :: rest⟩ world fuel tokens).result
        (process ⟨before ++ second :: first :: rest⟩ world fuel tokens).result :=
      concur_process nothing permuted fuel fun place given more =>
        .inl (firstFound_swap (swaps fuel atLeast place given more) before rest)
    exact concur.resolve_right fun impossible => impossible.1

end Engine

namespace Brackets

/-- The binding that takes an opening bracket. -/
def opens : RuleBinding := ⟨taking opening, .identity⟩

/-- The binding that writes a pair of brackets in front of a closing one and takes nothing. -/
def precedes : RuleBinding := ⟨.lookaround .ahead (taking closing) false, .wrap opening closing⟩

theorem opens_or_precedes_fails (place : TokenStream) (more : place.hasMore = true) :
    opens.rule.Fails world ⟨place, {}⟩ ∨ precedes.rule.Fails world ⟨place, {}⟩ := by
  obtain ⟨token, next, read⟩ := TokenStream.exists_read_of_hasMore more
  obtain ⟨after, here⟩ := @Rule.matcher_yields world ⟨place, {}⟩ (.value opening.value false) false token next read
  obtain ⟨after', there⟩ := @Rule.matcher_yields world ⟨place, {}⟩ (.value closing.value false) false token next read
  cases accepted : TokenTest.accepts (.value opening.value false) token with
  | false =>
    rw [accepted] at here
    exact .inl ⟨after, here⟩
  | true =>
    have value_eq : token.value = opening.value := by simpa [TokenTest.accepts, Text.agrees] using accepted
    have refused : TokenTest.accepts (.value closing.value false) token = false := by
      rw [TokenTest.accepts, value_eq]
      rfl
    rw [refused] at there
    exact .inr ⟨_, (Rule.yields_lookaround_iff (taking_steady closing).sound).mpr ⟨none, after', there, rfl, rfl⟩⟩

end Brackets

open Brackets in
/-- Whether the brackets are looked for in one order or in the other, a pair is written in front of the closing one. -/
theorem Engine.opens_and_precedes_swap :
    (∀ binding ∈ [opens, precedes], binding.rule.CapturesNothing Brackets.world) ∧
      ∃ fuel written,
        (process ⟨[opens, precedes]⟩ Brackets.world fuel [opening, comment, closing]).result = .ok written ∧
        (process ⟨[precedes, opens]⟩ Brackets.world fuel [opening, comment, closing]).result = .ok written ∧
        (Passage.output written).length = 5 := by
  have nothing : ∀ binding ∈ [opens, precedes], binding.rule.CapturesNothing Brackets.world :=
    List.forall_mem_cons.mpr ⟨(taking_steady opening).capturesNothing,
      List.forall_mem_singleton.mpr (taking_steady closing).lookaround.capturesNothing⟩
  have computed : (process ⟨[opens, precedes]⟩ Brackets.world 4 [opening, comment, closing]).result.toOption.map
      (fun written => (Passage.output written).length) = some 5 := by decide +kernel
  obtain ⟨written, evaluated, size⟩ := Option.map_eq_some_iff.mp computed
  have fails (place : TokenStream) (_ : place.tokens = [opening, comment, closing]) (more : place.hasMore = true) :=
    opens_or_precedes_fails place more
  obtain ⟨-, swaps⟩ := @process_swap Brackets.world [] [] opens precedes [opening, comment, closing] nothing
    fun place given more both => (fails place given more).elim
      (fun none => Rule.not_matches_of_fails none both.1) fun none => Rule.not_matches_of_fails none both.2
  obtain ⟨enough, same⟩ := swaps fails
  have returns := result_process_of_le (eq_ok_of_toOption evaluated) (Nat.le_max_right enough 4)
  exact ⟨nothing, max enough 4, written, returns, (same _ (Nat.le_max_left enough 4)).symm.trans returns, size⟩

end TokenGrammar
