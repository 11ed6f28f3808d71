/-
This file bounds how often the rules of a finite graph run each other.
Along its circles less and less remains, and from other links there is no way back.
-/

import Mathlib.Data.Fintype.Card
import Mathlib.Data.Set.Finite.Basic
import TokenGrammar.Proofs.Halting.Rules

namespace TokenGrammar.Rule

/-- A way from rule to rule, with the links that it goes along. -/
inductive Path (world : World) : Rule → List Link → Rule → Prop
  | nil (rule : Rule) : Path world rule [] rule
  | cons {rule next target : Rule} {link : Link} {links : List Link} (leads : rule.Leads world link next)
      (rest : Path world next links target) : Path world rule (link :: links) target

variable {world : World} {rule next target : Rule} {link : Link} {links others : List Link} {members : List Rule}

theorem Path.append (first : Path world rule links next) (second : Path world next others target) :
    Path world rule (links ++ others) target := by
  induction first with
  | nil => exact second
  | cons leads _ ih => exact .cons leads (ih second)

theorem Path.single (leads : rule.Leads world link target) : Path world rule [link] target := .cons leads (.nil target)

/-- A finite graph of rules that factories have made is productive when no circle in it looks back and each takes
something in any case or enters a group. -/
structure IsProductive (world : World) (members : List Rule) : Prop where
  made : ∀ rule ∈ members, rule.IsMade
  closed : ∀ rule ∈ members, ∀ target, rule.Refers world target → target ∈ members
  progresses : ∀ rule ∈ members, ∀ links, links ≠ [] → Path world rule links rule →
    .lookingBack ∉ links ∧ (.behindTaken ∈ links ∨ .inGroup ∈ links)

/-- One rule runs another one on a stream of which so much remains. -/
inductive Runs (world : World) : Rule × Nat → Rule × Nat → Prop
  | intro {rule target : Rule} {link : Link} {limit extent : Nat} (leads : rule.Leads world link target)
      (admits : link.Admits limit extent) : Runs world (target, extent) (rule, limit)

/-- There is a way from one rule to another one but none back. -/
def Below (world : World) (target rule : Rule) : Prop :=
  (∃ links, Path world rule links target) ∧ ¬ ∃ links, Path world target links rule

/-- There is a way from one rule to another one on which nothing needs to be taken. -/
def Onward (world : World) (target rule : Rule) : Prop :=
  ∃ links, links ≠ [] ∧ (∀ link ∈ links, link = .atOnce) ∧ Path world rule links target

/-- Two rules are on a circle when there are ways from each one to the other one. -/
def OnCircle (world : World) (rule other : Rule) : Prop :=
  (∃ links, Path world rule links other) ∧ ∃ links, Path world other links rule

/-- Among finitely many rules there is no end of going only where there is no way back. -/
theorem wellFounded_of_members {relation : Rule → Rule → Prop}
    (trans : ∀ first second third, relation first second → relation second third → relation first third)
    (irrefl : ∀ rule ∈ members, ¬ relation rule rule) :
    WellFounded fun first second : { rule // rule ∈ members } => relation first second := by
  have : Finite { rule // rule ∈ members } := members.finite_toSet
  have : IsTrans { rule // rule ∈ members } fun first second => relation first second :=
    ⟨fun first second third => trans first second third⟩
  have : Std.Irrefl fun first second : { rule // rule ∈ members } => relation first second :=
    ⟨fun rule => irrefl rule rule.property⟩
  exact Finite.wellFounded_of_trans_of_irrefl _

theorem below_trans {first second third : Rule} (lower : Below world first second) (upper : Below world second third) :
    Below world first third := by
  obtain ⟨⟨links, down⟩, noWay⟩ := lower
  obtain ⟨⟨links', down'⟩, -⟩ := upper
  refine ⟨⟨_, down'.append down⟩, fun back => ?_⟩
  obtain ⟨links'', up⟩ := back
  exact noWay ⟨_, up.append down'⟩

theorem not_below_self : ¬ Below world rule rule := fun below => below.2 ⟨[], .nil rule⟩

theorem onward_trans {first second third : Rule} (later : Onward world first second)
    (earlier : Onward world second third) : Onward world first third := by
  obtain ⟨links, filled, plain, path⟩ := later
  obtain ⟨links', -, plain', path'⟩ := earlier
  refine ⟨links' ++ links, by simp [filled], fun link member => ?_, path'.append path⟩
  exact (List.mem_append.mp member).elim (plain' link) (plain link)

namespace IsProductive

variable (productive : IsProductive world members)
include productive

theorem builtIn (member : rule ∈ members) : rule.BuiltIn world :=
  Throughout.of_closed (fun rule => rule ∈ members) productive.made
    (fun rule target member refers => productive.closed rule member target refers) member

theorem not_onward_self (member : rule ∈ members) : ¬ Onward world rule rule := by
  intro onward
  obtain ⟨links, filled, plain, path⟩ := onward
  rcases (productive.progresses rule member links filled path).2 with taken | entered
  · cases plain _ taken
  · cases plain _ entered

/-- A link either leads on along a circle, where no more remains and less unless the link is at once, or leads to a
rule with no way back. -/
theorem leaves_or_stays {other : Rule} {limit extent : Nat} (member : other ∈ members)
    (circle : OnCircle world rule other) (leads : other.Leads world link target) (admits : link.Admits limit extent) :
    Below world target rule ∨
      (OnCircle world rule target ∧ (extent < limit ∨ (extent = limit ∧ Onward world target other))) := by
  obtain ⟨⟨there, down⟩, ⟨back, up⟩⟩ := circle
  have reaches : ∃ links, Path world rule links target := ⟨_, down.append (.single leads)⟩
  by_cases returns : ∃ links, Path world target links rule
  · refine .inr ⟨⟨reaches, returns⟩, ?_⟩
    obtain ⟨links, returns⟩ := returns
    have around := (productive.progresses other member _ (List.cons_ne_nil _ _) (.cons leads (returns.append down))).1
    cases link with
    | atOnce =>
      rcases Nat.lt_or_eq_of_le admits with less | same
      · exact .inl less
      · exact .inr ⟨same, [.atOnce], List.cons_ne_nil _ _, by simp, .single leads⟩
    | behindTaken | inGroup => exact .inl admits
    | lookingBack => simp at around
  · exact .inl ⟨reaches, returns⟩

section Circle

variable (lower : ∀ target ∈ members, Below world target rule → ∀ limit, Acc (Runs world) (target, limit))
include lower

/-- On a circle, what halts where less remains halts where just so much remains: at once the rules lead on only
finitely often. -/
theorem acc_of_less {limit : Nat}
    (less : ∀ extent < limit, ∀ other ∈ members, OnCircle world rule other → Acc (Runs world) (other, extent)) :
    ∀ other : { rule // rule ∈ members }, OnCircle world rule other → Acc (Runs world) (other.val, limit) := by
  have ends : WellFounded fun later earlier : { rule // rule ∈ members } => Onward world later earlier :=
    wellFounded_of_members (fun _ _ _ => onward_trans) fun _ => productive.not_onward_self
  intro other
  induction other using ends.induction with
  | _ other ih =>
    intro circle
    constructor
    rintro ⟨target, extent⟩ runs
    cases runs with
    | intro leads admits =>
      have member := productive.closed other other.property target leads.refers
      -- A way back may be closed to the target, less may remain for it, or the link was at once.
      rcases productive.leaves_or_stays other.property circle leads admits with leaves | ⟨stays, fewer | ⟨rfl, onward⟩⟩
      · exact lower target member leaves extent
      · exact less extent fewer target member stays
      · exact ih ⟨target, member⟩ onward stays

theorem acc_of_lower (limit : Nat) :
    ∀ other ∈ members, OnCircle world rule other → Acc (Runs world) (other, limit) := by
  induction limit using Nat.strongRecOn with
  | ind limit ih => exact fun other member circle => productive.acc_of_less lower ih ⟨other, member⟩ circle

end Circle

/-- A rule of a productive graph runs others only finitely often, on whatever remains. -/
theorem acc (member : rule ∈ members) (limit : Nat) : Acc (Runs world) (rule, limit) := by
  have ends : WellFounded fun lower upper : { rule // rule ∈ members } => Below world lower upper :=
    wellFounded_of_members (fun _ _ _ => below_trans) fun _ _ => not_below_self
  -- The induction follows ways without return, so that what has been left behind already ends on any extent: looking
  -- back may give a rule more than there was.
  suffices all : ∀ rule : { rule // rule ∈ members }, ∀ limit, Acc (Runs world) (rule.val, limit) from
    all ⟨rule, member⟩ limit
  intro rule
  induction rule using ends.induction with
  | _ rule ih =>
    intro limit
    refine productive.acc_of_lower (fun target member below => ih ⟨target, member⟩ below) limit rule rule.property ?_
    exact ⟨⟨[], .nil _⟩, [], .nil _⟩

/-- Every rule of a productive graph terminates from every situation. -/
theorem terminates (member : rule ∈ members) (situation : Situation) : rule.Terminates world situation := by
  generalize configuration : (rule, situation.stream.extent) = pair
  have finitely : Acc (Runs world) pair := configuration ▸ productive.acc member _
  induction finitely generalizing rule situation with
  | intro pair _ ih =>
    subst configuration
    apply terminates_of_leads (productive.builtIn member)
    intro link target leads later admits
    exact ih _ (.intro leads admits) (productive.closed rule member target leads.refers) later rfl

end IsProductive

theorem leads_sequence {rules : List Rule} (leads : (Rule.sequence rules).Leads world link target) :
    ∃ before rest, rules = before ++ target :: rest ∧ link = linkBehind world before := by
  generalize same : Rule.sequence rules = rule at leads
  cases leads with
  | @member before rest =>
    cases same
    exact ⟨before, rest, rfl, rfl⟩
  | other plain =>
    subst same
    cases plain
  | _ => cases same

theorem linkBehind_ne_lookingBack (before : List Rule) : linkBehind world before ≠ .lookingBack := by
  unfold linkBehind
  split <;> simp

theorem leads_lookingBack (leads : rule.Leads world .lookingBack target) :
    ∃ negative, rule = .lookaround .behind target negative := by
  generalize back : Link.lookingBack = link at leads
  cases leads with
  | member | closing | filledBody | filledClosing => exact absurd back.symm (linkBehind_ne_lookingBack _)
  | behind => exact ⟨_, rfl⟩
  | _ => cases back

/-- A graph that never looks back progresses when ranks go down along each link that is at once. -/
theorem progresses_of_rank (rank : Rule → Nat)
    (closed : ∀ rule ∈ members, ∀ target, rule.Refers world target → target ∈ members)
    (ahead : ∀ rule ∈ members, ∀ target, ¬ rule.Leads world .lookingBack target)
    (lower : ∀ rule ∈ members, ∀ target, rule.Leads world .atOnce target → rank target < rank rule) :
    ∀ rule ∈ members, ∀ links, links ≠ [] → Path world rule links rule →
      .lookingBack ∉ links ∧ (.behindTaken ∈ links ∨ .inGroup ∈ links) := by
  have along {rule target : Rule} {links : List Link} (member : rule ∈ members) (path : Path world rule links target) :
      .lookingBack ∉ links ∧
        (.behindTaken ∈ links ∨ .inGroup ∈ links ∨ rank target + links.length ≤ rank rule) := by
    induction path with
    | nil => simp
    | @cons rule next target link links leads _ ih =>
      obtain ⟨noBack, progress⟩ := ih (closed rule member next leads.refers)
      cases link with
      | lookingBack => exact absurd leads (ahead rule member next)
      | behindTaken | inGroup => simp [noBack]
      | atOnce =>
        have := lower rule member next leads
        refine ⟨by simp [noBack], ?_⟩
        rcases progress with taken | entered | ranked
        · exact .inl (by simp [taken])
        · exact .inr (.inl (by simp [entered]))
        · exact .inr (.inr (by rw [List.length_cons]; omega))
  intro rule member links filled path
  obtain ⟨noBack, progress⟩ := along member path
  refine ⟨noBack, ?_⟩
  rcases progress with taken | entered | ranked
  · exact .inl taken
  · exact .inr entered
  · have := List.length_pos_iff.mpr filled
    omega

/-- A test takes a token or does not match. -/
theorem ofTest_takes {test : Token → Bool} {situation : Situation} :
    Meets (Run.ofTest test rule situation) fun found _ => ∀ taken ∈ found, taken.isZeroWidth = false := by
  rw [Run.ofTest, Attempt.stream_bind_apply]
  cases more : situation.stream.hasMore with
  | false =>
    intro taken same
    cases same
  | true =>
    obtain ⟨token, behind, read⟩ := TokenStream.exists_read_of_hasMore more
    rw [if_pos rfl, Attempt.read_bind_apply _ read]
    cases test token with
    | false =>
      intro taken same
      cases same
    | true =>
      have reads : situation.stream.Reads [token] behind := .single read
      have spans := Match.spans_between reads rule
      have taken := @Run.since_apply { situation with stream := behind } situation.stream rule [token] reads
      rw [if_pos rfl, taken]
      intro found same
      cases same
      exact spans.isZeroWidth_eq.trans (decide_eq_false (List.cons_ne_nil _ _))

/-- A rule that takes a token that passes a test is never empty. -/
theorem matcher_neverEmpty (test : TokenTest) (negated : Bool) : (Rule.matcher test negated).NeverEmpty world := by
  intro situation found after yields
  have traced : (Rule.matcher test negated).Traced world := ⟨nofun, fun _ _ => Run.ofTest_traces⟩
  obtain ⟨middle, given, -⟩ := (yields_some_iff traced).mp yields
  exact given.meets (fun _ => ofTest_takes) found rfl

/-- How deep a rule of brackets is: what may be inside of brackets comes before the brackets. -/
def bracketRank : Rule → Nat
  | .optional .. => 3
  | .selfReferring _ => 2
  | .sequence _ => 1
  | _ => 0

/-- Brackets may hold brackets, but only behind the opening one, which is taken. -/
theorem brackets_isProductive : IsProductive Brackets.world Brackets.members := by
  refine ⟨Brackets.members_made, Brackets.members_closed, progresses_of_rank bracketRank Brackets.members_closed ?_ ?_⟩
  · intro rule member target leads
    obtain ⟨negative, same⟩ := leads_lookingBack leads
    simp [Brackets.members, Brackets.nested, Brackets.pair, Brackets.taking, same] at member
  · intro rule member target leads
    simp only [Brackets.members, List.mem_cons, List.not_mem_nil, or_false] at member
    rcases member with rfl | rfl | rfl | rfl | rfl
    · cases leads.refers with
      | shown child => cases child
      | selfReferring filled =>
        cases filled
        decide
    · obtain ⟨before, rest, split, atOnce⟩ := leads_sequence leads
      cases before with
      | nil =>
        cases split
        decide
      | cons first others =>
        obtain ⟨rfl, -⟩ := List.cons.inj split
        have taken : ∃ earlier ∈ Brackets.taking Brackets.opening :: others, earlier.NeverEmpty Brackets.world :=
          ⟨_, List.mem_cons_self .., matcher_neverEmpty _ _⟩
        rw [linkBehind, if_pos taken] at atOnce
        cases atOnce
    · cases leads.refers with
      | shown child => cases child
    · cases leads.refers with
      | shown child =>
        cases List.mem_singleton.mp child
        decide
    · cases leads.refers with
      | shown child => cases child

/-- Every rule of a productive graph answers, whatever the tokens, the place among them and the memory are. -/
theorem match_returns (productive : IsProductive world members) (member : rule ∈ members) (stream : TokenStream)
    (memory : Memory) :
    ∃ found after enough, ∀ fuel, enough ≤ fuel → rule.run world fuel ⟨stream, memory⟩ = .ok found after := by
  have terminates := productive.terminates member ⟨stream, memory⟩
  obtain ⟨found, after, enough, answers⟩ := (productive.builtIn member).terminates_iff.mp terminates
  exact ⟨found, after, enough, fun fuel atLeast => run_grows.eq_of_le answers atLeast⟩

theorem nested_returns :
    IsProductive Brackets.world Brackets.members ∧ Brackets.nested ∈ Brackets.members ∧
      ∃ found after enough, ∀ fuel, enough ≤ fuel →
        Brackets.nested.run Brackets.world fuel ⟨Brackets.stream, {}⟩ = .ok found after := by
  have member : Brackets.nested ∈ Brackets.members := List.mem_cons_self ..
  exact ⟨brackets_isProductive, member, match_returns brackets_isProductive member Brackets.stream {}⟩

end TokenGrammar.Rule
