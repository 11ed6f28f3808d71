/-
This file shows that productive rules halt.
A rule leads to the rules that it may run: at once, behind something that was taken, on members of a group, or behind.
-/

import TokenGrammar.Proofs.Halting.Runs
import TokenGrammar.Proofs.Laws.Around

namespace TokenGrammar

/-- The ways in which a rule comes to run another one. -/
inductive Link where
  | atOnce
  | behindTaken
  | inGroup
  | lookingBack
  deriving DecidableEq

/-- How much may remain for a rule that is run along a link, if so much remains for the rule that runs it. -/
def Link.Admits : Link → Nat → Nat → Prop
  | .atOnce, limit, extent => extent ≤ limit
  | .behindTaken, limit, extent | .inGroup, limit, extent => extent < limit
  | .lookingBack, _, _ => True

namespace Rule

open Run
open Attempt

/-- Whether a rule runs all rules that it refers to at its own place. -/
def runsAtOnce : Rule → Bool
  | .sequence _ | .boundary .. | .filledBoundary .. | .group _ | .lookaround .behind .. => false
  | _ => true

open Classical in
/-- The link to a rule that runs behind others, one of which may be never empty. -/
noncomputable def linkBehind (world : World) (before : List Rule) : Link :=
  if ∃ earlier ∈ before, earlier.NeverEmpty world then .behindTaken else .atOnce

/-- The rules that a rule may run, and how it comes to run them. -/
inductive Leads (world : World) : Rule → Link → Rule → Prop
  | member {before rest : List Rule} {target : Rule} :
      Leads world (.sequence (before ++ target :: rest)) (linkBehind world before) target
  | opening {opening closing : Rule} : Leads world (.boundary opening closing) .atOnce opening
  | closing {opening closing : Rule} : Leads world (.boundary opening closing) (linkBehind world [opening]) closing
  | filledOpening {opening body closing : Rule} : Leads world (.filledBoundary opening body closing) .atOnce opening
  | filledBody {opening body closing : Rule} :
      Leads world (.filledBoundary opening body closing) (linkBehind world [opening]) body
  | filledClosing {opening body closing : Rule} :
      Leads world (.filledBoundary opening body closing) (linkBehind world [opening]) closing
  | inside {rule : Rule} : Leads world (.group rule) .inGroup rule
  | behind {rule : Rule} {negative : Bool} : Leads world (.lookaround .behind rule negative) .lookingBack rule
  | other {rule target : Rule} (plain : rule.runsAtOnce = true) (refers : rule.Refers world target) :
      Leads world rule .atOnce target

variable {world : World} {rule self : Rule} {situation : Situation}

/-- A rule refers to all rules that it may run. -/
theorem Leads.refers {link : Link} {target : Rule} (leads : rule.Leads world link target) :
    rule.Refers world target := by
  cases leads with
  | member => exact .shown (by simp)
  | opening | closing | filledOpening | filledBody | filledClosing | inside | behind => exact .shown (by simp)
  | other _ refers => exact refers

theorem bodyRun_grows : Grows (rule.bodyRun world) := fun _ _ enough =>
  body_approximates (fun _ => run_approximates enough) enough

theorem terminates_of_body (traced : rule.Traced world) (halts : Halts (rule.bodyRun world) situation) :
    rule.Terminates world situation := by
  apply Halts.of_succ
  simp only [traced.run_succ]
  exact halts_settle _ bodyRun_grows halts

/-- A rule that stands for the content of a cell halts if the content does. -/
theorem halts_content {cell : Nat}
    (ready : ∀ target, world.store.content? cell = some target → target.Terminates world situation) :
    Halts (fun fuel =>
      match world.store.content? cell with
      | some target => delegate (target.run world fuel) self
      | none => noMatch) situation := by
  cases filled : world.store.content? cell with
  | none => exact finishes_noMatch.halts
  | some target => exact halts_delegate run_grows (ready target filled)

theorem halts_followReference {key : Text} {kind : ReferenceKind}
    (ready : ∀ target, Refers world (.reference key kind) target → target.Terminates world situation) :
    Halts (fun fuel => followReference world (run world fuel) key kind self) situation := by
  simp only [followReference, followReferenceTelling]
  cases bound : if kind = .tokens then none else world.bindings.rule? key with
  | some target =>
    rw [Option.ite_none_left_eq_some] at bound
    exact halts_delegate run_grows (ready target (.reference bound.1 bound.2))
  | none =>
    apply halts_captures_bind
    cases resolved : if kind = .dynamic then world.bindings.resolve? key situation.memory.captures else none with
    | some binding =>
      cases binding with
      | rule target =>
        rw [Option.ite_none_right_eq_some] at resolved
        obtain ⟨rfl, found⟩ := resolved
        exact halts_delegate run_grows (ready target (.resolved found))
      | tokens expected => exact (finishes_sameValues expected).halts
    | none =>
      cases if kind = .rule then none else situation.memory.captures.find? key with
      | some expected => exact (finishes_sameValues expected).halts
      | none => exact ((finishes_notice _).bind fun _ => finishes_noMatch).halts

/-- A group halts if the rule inside of it halts where less remains. -/
theorem halts_insideGroup
    (ready : ∀ later : Situation, later.stream.extent < situation.stream.extent → rule.Terminates world later) :
    Halts (fun fuel => insideGroup (run world fuel rule) self) situation := by
  apply halts_stream_bind
  apply halts_stream_bind
  cases current : situation.stream.current? with
  | none => exact finishes_noMatch.halts
  | some token =>
    dsimp only
    cases inside : token.unwrap.members? with
    | none => exact finishes_noMatch.halts
    | some members =>
      have halts : Halts (fun fuel => run world fuel rule) { situation with stream := .ofTokens members } :=
        ready _ (TokenStream.extent_members_lt current inside)
      refine Halts.bind_finishes (halts_succeeds run_grows halts) (succeeds_grows _ rule) fun matched => ?_
      cases matched with
      | false => exact finishes_noMatch
      | true =>
        exact finishes_stream.bind fun _ => (finishes_ofResult _).bind fun _ => (finishes_goTo _).bind fun _ =>
          finishes_since _ _

/-- A boundary halts if its opening rule does and, behind that, its closing rule and its steps do. -/
theorem halts_bounded {opening closing : Rule} {step : Nat → Attempt (Option (List Token))} (grows : Grows step)
    (opens : opening.BuiltIn world) (closes : closing.BuiltIn world) (ready : opening.Terminates world situation)
    (closesBehind : ∀ later : Situation, Within world situation.stream.extent [opening] later.stream →
      closing.Terminates world later)
    (stepsBehind : ∀ later : Situation, Within world situation.stream.extent [opening] later.stream →
      later.stream.hasMore = true → Halts step later)
    (progresses : ∀ (later : Situation) tokens after, later.stream.hasMore = true →
      Gives step later (some tokens) after → after.stream.extent < later.stream.extent) :
    Halts (fun fuel => bounded (opening.run world fuel) (closing.run world fuel) (step fuel) fuel self) situation := by
  apply halts_stream_bind
  have halts : Halts (fun fuel => run world fuel opening) situation := ready
  refine halts.bind run_grows (fun found => ?_) fun found middle yields => ?_
  · cases found with
    | none => exact Grows.const _
    | some found => exact (untilClosed_grows grows closing).bind fun _ => Grows.const _
  · cases found with
    | none => exact finishes_noMatch.halts
    | some found =>
      have within := (Within.nil (Nat.le_refl situation.stream.extent)).append opens yields
      have loops := halts_untilClosed grows closes (fun later atMost => closesBehind later (within.mono atMost))
        (fun later atMost => stepsBehind later (within.mono atMost)) progresses
      refine loops.bind_finishes (untilClosed_grows grows closing) fun tokens => ?_
      cases tokens with
      | none => exact finishes_noMatch
      | some tokens => exact finishes_since _ _

/-- What a step of a boundary without a body reads leaves less. -/
theorem tokenStep_progresses {tokens : List Token} {after : Situation} (more : situation.stream.hasMore = true)
    (steps : tokenStep situation = .ok (some tokens) after) : after.stream.extent < situation.stream.extent := by
  obtain ⟨token, behind, read⟩ := TokenStream.exists_read_of_hasMore more
  rw [tokenStep, Attempt.read_bind_apply _ read] at steps
  cases steps
  exact (TokenStream.Reads.single read).extent_lt (List.cons_ne_nil _ _)

/-- What a body takes in a step of a boundary leaves less. -/
theorem bodyStep_progresses {body : Rule} {tokens : List Token} {after : Situation} (builtIn : body.BuiltIn world)
    (steps : Gives (fun fuel => bodyStep (body.run world fuel)) situation (some tokens) after) :
    after.stream.extent < situation.stream.extent := by
  obtain ⟨found, yields, filled, -⟩ := gives_bodyStep_some_iff.mp steps
  exact builtIn.extent_lt yields filled

theorem halts_bodyStep {body : Rule} (ready : body.Terminates world situation) :
    Halts (fun fuel => bodyStep (body.run world fuel)) situation := by
  have halts : Halts (fun fuel => run world fuel body) situation := ready
  refine halts.bind_finishes run_grows fun found => ?_
  cases found <;> exact finishes_pure _

/-- A sequence halts if each of its rules halts behind the ones before it. -/
theorem halts_sequence {rules : List Rule} (builtIn : ∀ member ∈ rules, member.BuiltIn world)
    (ready : ∀ front target rest, rules = front ++ target :: rest → ∀ later : Situation,
      Within world situation.stream.extent front later.stream → target.Terminates world later) :
    Halts ((Rule.sequence rules).bodyRun world) situation := by
  apply halts_stream_bind
  have within : Within world situation.stream.extent [] situation.stream := .nil (Nat.le_refl _)
  refine (halts_inTurn builtIn ready within).bind_finishes (inTurn_grows rules) fun tokens => ?_
  cases tokens with
  | none => exact finishes_noMatch
  | some tokens => exact finishes_since _ _

theorem halts_optional {negated : Bool} (ready : (rule.attempted negated).Terminates world situation) :
    Halts ((Rule.optional rule negated).bodyRun world) situation := by
  apply halts_stream_bind
  have halts : Halts (fun fuel => run world fuel (rule.attempted negated)) situation := ready
  refine halts.bind_finishes run_grows fun found => ?_
  cases found <;> exact (finishes_ofResult _).bind fun _ => finishes_pure _

/-- A repetition halts, however often it may go on, if its rule halts wherever no more remains. -/
theorem halts_repeated {range : Range} {negated : Bool} (builtIn : rule.BuiltIn world)
    (ready : ∀ later : Situation, later.stream.extent ≤ situation.stream.extent → rule.Terminates world later) :
    Halts ((Rule.repeated rule range negated).bodyRun world) situation := by
  apply halts_stream_bind
  refine (halts_repetitions builtIn _ _ ready).bind_finishes (repetitions_grows ..) fun counted => ?_
  dsimp only
  split
  · exact finishes_since _ _
  · exact finishes_noMatch

theorem halts_lookaround {direction : Direction} {negative : Bool}
    (ready : rule.Terminates world { situation with stream := viewOf direction situation.stream }) :
    Halts ((Rule.lookaround direction rule negative).bodyRun world) situation :=
  (halts_succeeds run_grows ready).bind_finishes (succeeds_grows _ rule) fun _ => finishes_hereIf _

theorem halts_capture {key : Text} (ready : rule.Terminates world situation) :
    Halts ((Rule.capture key rule).bodyRun world) situation := by
  refine (halts_delegate run_grows ready).bind_finishes ?_ fun found => ?_
  · exact fun _ _ enough => delegate_approximates (run_approximates enough)
  · cases found with
    | none => exact finishes_noMatch
    | some found =>
      exact finishes_captures.bind fun _ => (finishes_ofResult _).bind fun _ => (finishes_setCaptures _).bind fun _ =>
        finishes_pure _

theorem halts_not (ready : rule.Terminates world situation) : Halts ((Rule.not rule).bodyRun world) situation := by
  apply halts_stream_bind
  cases situation.stream.hasMore with
  | false => exact finishes_noMatch.halts
  | true =>
    have tries := @halts_succeeds _ _ id run_grows ready
    exact tries.bind_finishes (succeeds_grows id rule) fun _ => finishes_hereIf _

theorem halts_named {name : Text}
    (ready : ∀ target, world.bindings.rule? name = some target → target.Terminates world situation) :
    Halts ((Rule.named name).bodyRun world) situation := by
  show Halts (fun fuel => (Rule.named name).body world fuel (run world fuel)) situation
  simp only [body, followNameTelling]
  cases bound : world.bindings.rule? name with
  | none => exact ((finishes_notice _).bind fun _ => finishes_noMatch).halts
  | some target => exact halts_delegate run_grows (ready target bound)

section Ready

variable (builtIn : rule.BuiltIn world)
  (ready : ∀ link target, rule.Leads world link target → ∀ later : Situation,
    link.Admits situation.stream.extent later.stream.extent → target.Terminates world later)
include ready

/-- A rule that is run behind others halts wherever these may lead. -/
theorem ready_behind {before : List Rule} {target : Rule} (leads : rule.Leads world (linkBehind world before) target)
    (later : Situation) (within : Within world situation.stream.extent before later.stream) :
    target.Terminates world later := by
  apply ready _ target leads later
  unfold linkBehind
  split
  · rename_i taken
    exact within.2 taken
  · exact within.1

theorem ready_atOnce {target : Rule} (leads : rule.Leads world .atOnce target) (later : Situation)
    (atMost : later.stream.extent ≤ situation.stream.extent) : target.Terminates world later :=
  ready .atOnce target leads later atMost

/-- A rule that is run at the place itself halts there. -/
theorem ready_here {target : Rule} (plain : rule.runsAtOnce = true) (refers : rule.Refers world target)
    (tried : Situation) (stays : tried.stream = situation.stream) : target.Terminates world tried :=
  ready_atOnce ready (.other plain refers) tried (Nat.le_of_eq (congrArg TokenStream.extent stays))

include builtIn

/-- The body of a rule halts if the rules halt that it leads to, on what it may leave them. -/
theorem halts_bodyRun : Halts (rule.bodyRun world) situation := by
  have inner {link : Link} {target : Rule} (leads : rule.Leads world link target) : target.BuiltIn world :=
    builtIn.of_refers leads.refers
  cases rule with
  | always => exact finishes_here.halts
  | never => exact finishes_noMatch.halts
  | matcher test negated => exact (finishes_ofTest _).halts
  | anchor place negated => exact (finishes_stream.bind fun _ => finishes_hereIf _).halts
  | external number => exact finishes_noMatch.halts
  | sequence rules =>
    refine halts_sequence (fun member inside => builtIn.of_refers (.shown (by simpa using inside))) ?_
    intro front target rest split later within
    subst split
    exact ready_behind ready .member later within
  | anyOf alternatives =>
    exact halts_firstOf fun member inside => ready_here ready rfl (.shown (by simpa using inside))
  | allOf rules =>
    exact halts_farthestOf (fun member inside => ready_here ready rfl (.shown (by simpa using inside))) none
  | optional rule negated => exact halts_optional (ready_here ready rfl (.shown (by simp)) situation rfl)
  | repeated rule range negated =>
    have leads : (Rule.repeated rule range negated).Leads world .atOnce rule := .other rfl (.shown (by simp))
    exact halts_repeated (inner leads) (ready_atOnce ready leads)
  | lookaround direction rule negative =>
    apply halts_lookaround
    cases direction with
    | ahead => exact ready_here ready rfl (.shown (by simp)) _ rfl
    | behind => exact ready .lookingBack rule .behind _ trivial
  | boundary opening closing =>
    refine halts_bounded (Grows.const _) (inner .opening) (inner .closing)
      (ready_atOnce ready .opening situation (Nat.le_refl _)) (ready_behind ready .closing)
      (fun _ _ _ => finishes_tokenStep.halts) ?_
    intro later tokens after more given
    exact tokenStep_progresses more (gives_const_iff.mp given)
  | filledBoundary opening body closing =>
    refine halts_bounded (bodyStep_grows body) (inner .filledOpening) (inner .filledClosing)
      (ready_atOnce ready .filledOpening situation (Nat.le_refl _)) (ready_behind ready .filledClosing)
      (fun later within _ => halts_bodyStep (ready_behind ready .filledBody later within)) ?_
    intro later tokens after _ given
    exact bodyStep_progresses (inner .filledBody) given
  | named name => exact halts_named fun target bound => ready_here ready rfl (.named bound) situation rfl
  | selfReferring cell =>
    exact halts_content fun target filled => ready_here ready rfl (.selfReferring filled) situation rfl
  | lazy cell => exact halts_content fun target filled => ready_here ready rfl (.lazy filled) situation rfl
  | group rule => exact halts_insideGroup fun later less => ready .inGroup rule .inside later less
  | capture key rule => exact halts_capture (ready_here ready rfl (.shown (by simp)) situation rfl)
  | reference key kind => exact halts_followReference fun target refers => ready_here ready rfl refers situation rfl
  | not rule => exact halts_not (ready_here ready rfl (.shown (by simp)) situation rfl)

/-- A rule terminates if the rules do that it leads to, on what it may leave them. -/
theorem terminates_of_leads : rule.Terminates world situation :=
  terminates_of_body builtIn.traced (halts_bodyRun builtIn ready)

end Ready

end Rule

end TokenGrammar
