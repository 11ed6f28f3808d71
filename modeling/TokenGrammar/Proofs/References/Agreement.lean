/-
This file compares the search over mentions, each kept once, with the search over the objects that rules are.
-/

import Mathlib.Data.Fin.VecNotation
import Mathlib.Tactic.FinCases
import TokenGrammar.Proofs.References.Depiction
import TokenGrammar.Proofs.References.Order

namespace TokenGrammar

open Grammar (noteNames NotedAlike mentionsOf)

namespace RuleGraph

variable {size : Nat} {graph : RuleGraph size} {bindings : Bindings}

/-- Objects in the order in which a search comes to them. -/
def walk (graph : RuleGraph size) : NameWalk (Fin size) where
  own object := (graph.requiredName? object).toList
  parts object := (graph.children object).reverse

@[simp] theorem own_walk (object : Fin size) : graph.walk.own object = (graph.requiredName? object).toList := rfl

@[simp] theorem parts_walk (object : Fin size) : graph.walk.parts object = (graph.children object).reverse := rfl

theorem noting_eq (object : Fin size) (missing : List Text) :
    graph.noting bindings object missing = noteNames bindings missing (graph.walk.own object) := by
  rw [noting, own_walk]
  cases graph.requiredName? object <;> rfl

theorem finish_of_cons {object : Fin size} {rest : List (Fin size)} {visited : Finset (Fin size)} {missing : List Text} :
    graph.finish bindings ⟨object :: rest, visited, missing⟩ =
      graph.finish bindings (graph.round bindings ⟨object :: rest, visited, missing⟩) := by
  rw [finish, if_neg (List.cons_ne_nil _ _)]

def search (graph : RuleGraph size) (bindings : Bindings) : StackSearch graph.walk bindings (Finset (Fin size)) where
  run visited missing pending := (graph.finish bindings ⟨pending, visited, missing⟩).missing
  been visited object := object ∈ visited
  ending visited missing := by rw [finish, if_pos rfl]
  passing visited missing object rest known := by rw [finish_of_cons, round_of_visited rfl known]
  looking visited missing object rest fresh := by
    refine ⟨insert object visited, fun other inside => (Finset.mem_insert.mp inside).symm, ?_⟩
    rw [finish_of_cons, round_of_fresh rfl fresh, noting_eq, parts_walk]

theorem unboundNames_eq_noteNames {roots : List (Fin size)} {names : List Text}
    (unfolds : graph.walk.Unfolds roots.reverse names) : graph.unboundNames bindings roots = noteNames bindings [] names :=
  (graph.search bindings).run_eq unfolds ∅ fun object inside => absurd inside (Finset.notMem_empty object)

/-- In an acyclic graph no object is shown by what it shows. -/
def IsAcyclic (graph : RuleGraph size) : Prop :=
  ∀ object, ∀ part ∈ graph.children object, ¬ graph.Shows part object

theorem isAcyclic_of_lt (later : ∀ object, ∀ part ∈ graph.children object, object < part) : graph.IsAcyclic := by
  intro object part child shows
  have behind : part ≤ object := by
    clear child
    induction shows with
    | refl => exact le_rfl
    | tail _ child ih => exact ih.trans (later _ _ child).le
  exact absurd (later object part child) (not_lt.mpr behind)

theorem IsAcyclic.exists_unfolds (acyclic : graph.IsAcyclic) (objects : List (Fin size)) :
    ∃ names, graph.walk.Unfolds objects names := by
  let below (part object : Fin size) : Prop :=
    Relation.TransGen (fun outer inner => inner ∈ graph.children outer) object part
  have : IsTrans (Fin size) below := ⟨fun _ _ _ first second => second.trans first⟩
  have : Std.Irrefl below := ⟨fun object circle => by
    obtain ⟨part, child, shows⟩ := Relation.TransGen.head'_iff.mp circle
    exact acyclic object part child shows⟩
  refine NameWalk.exists_unfolds (Subrelation.wf ?_ (Finite.wellFounded_of_trans_of_irrefl below)) objects
  exact fun child => Relation.TransGen.single (List.mem_reverse.mp child)

end RuleGraph

/-- Mentions in the order in which the check of a grammar comes to them. -/
def Mention.walk (store : RuleStore) : NameWalk Mention where
  own
    | .name found => [found]
    | .external _ => []
  parts
    | .name _ => []
    | .external number => mentionsOf ((Rule.external number).children store)

namespace Grammar

variable {store : RuleStore} {bindings : Bindings}

/-- The mentions that a walk passes over: rules of a caller that it has looked into, or that do not exist. -/
def Passed (store : RuleStore) (visited : List Nat) : Mention → Prop
  | .name _ => False
  | .external number => ¬ (number < store.externals.size ∧ visited.contains number = false)

def search (store : RuleStore) (bindings : Bindings) : StackSearch (Mention.walk store) bindings (List Nat) where
  run visited missing pending := missingNames store bindings visited missing pending
  been := Passed store
  ending visited missing := by rw [missingNames]
  passing visited missing mention rest passed := by
    cases mention with
    | name name => cases passed
    | external number => rw [missingNames, dif_neg passed]
  looking visited missing mention rest fresh := by
    cases mention with
    | name name =>
      refine ⟨visited, fun _ => .inl, ?_⟩
      rw [missingNames]
      rfl
    | external number =>
      have inside := not_not.mp fresh
      refine ⟨number :: visited, fun other passed => ?_, ?_⟩
      · cases other with
        | name name => cases passed
        | external other =>
          by_cases same : other = number
          · exact .inr (congrArg _ same)
          · exact .inl fun given => passed ⟨given.1, by simpa [same] using given.2⟩
      · rw [missingNames, dif_pos inside]
        rfl

/-- Nothing has been looked into at first, and rules that do not exist mention nothing. -/
theorem settled_of_passed {mention : Mention} (passed : Passed store [] mention) (missing : List Text) :
    (Mention.walk store).Settled bindings missing mention := by
  intro name leads unbound
  cases mention with
  | name other => cases passed
  | external number =>
    have outside : store.externals.size ≤ number := by simpa [Passed] using passed
    rcases NameWalk.leadsTo_iff.mp leads with own | ⟨part, under, -⟩
    · cases own
    · simp [Mention.walk, children_external_of_le outside, mentionsOf] at under

theorem unboundNames_eq_noteNames_of_mentions {roots : List Rule} {names : List Text}
    (unfolds : (Mention.walk store).Unfolds (mentionsOf roots) names) :
    unboundNames store bindings roots = noteNames bindings [] names :=
  (search store bindings).run_eq unfolds [] fun _ passed => settled_of_passed passed []

end Grammar

/-- Rules in the order in which a search comes to them. -/
def Rule.walk (store : RuleStore) : NameWalk Rule where
  own rule := rule.requiredName?.toList
  parts rule := (rule.children store).reverse

namespace Mention

variable {store : RuleStore} {first second : List Mention} {names laterNames : List Text}

/-- Mentions that are joined are those of both lists, without what was mentioned before. -/
theorem exists_unfolds_join (unfolds : (walk store).Unfolds first names) (later : (walk store).Unfolds second laterNames) :
    ∃ joined, (walk store).Unfolds (join first second) joined ∧ NotedAlike joined (names ++ laterNames) := by
  obtain ⟨kept, unfoldsKept, same⟩ := later.filter fun mention => !first.contains mention
  refine ⟨names ++ kept, unfolds.append unfoldsKept, fun bindings missing => ?_⟩
  rw [Grammar.noteNames_append, Grammar.noteNames_append]
  exact same bindings _ fun mention left => unfolds.settled bindings missing (by simpa using left)

/-- What a rule mentions itself unfolds to the name that it requires. -/
theorem unfolds_ownMentions {rule : Rule} (own : rule.externalNumber? = none) :
    (walk store).Unfolds rule.ownMentions rule.requiredName?.toList := by
  have mentions : rule.ownMentions = rule.requiredName?.toList.map Mention.name := by
    cases rule with
    | external number => cases own
    | _ => simp [Rule.ownMentions, Option.toList_map]
  rw [mentions]
  cases rule.requiredName? with
  | none => exact .nil
  | some name =>
    have nothing : (walk store).Unfolds ((walk store).parts (.name name)) [] := .nil
    exact nothing.single

theorem mentionsOf_concat (rules : List Rule) (rule : Rule) :
    mentionsOf (rules ++ [rule]) = join rule.mentions (mentionsOf rules) := by
  simp [mentionsOf, joinAll]

/-- What a rule mentions, given what the rules that it shows mention. -/
theorem exists_unfolds_mentions {rule : Rule} {inner alike : List Text}
    (parts : (walk store).Unfolds (mentionsOf (rule.children store)) alike) (same : NotedAlike alike inner) :
    ∃ mentioned, (walk store).Unfolds rule.mentions mentioned ∧
      NotedAlike mentioned (rule.requiredName?.toList ++ inner) := by
  cases own : rule.externalNumber? with
  | none =>
    obtain ⟨joined, unfolds, joins⟩ := exists_unfolds_join (unfolds_ownMentions own) parts
    refine ⟨joined, by rwa [Rule.mentions_eq store rule own], fun bindings missing => ?_⟩
    rw [joins, Grammar.noteNames_append, Grammar.noteNames_append, same]
  | some number =>
    cases rule <;> cases own
    have under : (walk store).Unfolds ((walk store).parts (.external number)) alike := parts
    refine ⟨alike, ?_, same⟩
    rw [Rule.mentions]
    exact under.single

end Mention

/-- Mentions of rules unfold to the names that rules unfold to, each kept at least where it comes first. -/
theorem Rule.exists_unfolds_mentionsOf {store : RuleStore} {rules : List Rule} {names : List Text}
    (unfolds : (walk store).Unfolds rules names) :
    ∃ mentioned, (Mention.walk store).Unfolds (mentionsOf rules.reverse) mentioned ∧ NotedAlike mentioned names := by
  induction unfolds with
  | nil => exact ⟨[], .nil, fun _ _ => rfl⟩
  | @cons rule rest inner outer _ _ ih_under ih_behind =>
    obtain ⟨alike, parts, same⟩ := ih_under
    obtain ⟨later, behind, sameLater⟩ := ih_behind
    obtain ⟨mentioned, here, sameHere⟩ := Mention.exists_unfolds_mentions
      (by simpa only [walk, List.reverse_reverse] using parts) same
    obtain ⟨joined, together, joins⟩ := Mention.exists_unfolds_join here behind
    refine ⟨joined, ?_, fun bindings missing => ?_⟩
    · rwa [List.reverse_cons, Mention.mentionsOf_concat]
    · rw [joins]
      exact sameHere.append sameLater bindings missing

namespace RuleGraph

variable {size : Nat} {graph : RuleGraph size} {bindings : Bindings} {store : RuleStore} {rule : Fin size → Rule}

/-- The check of a grammar finds the names that the search over objects finds. -/
theorem Depicts.unboundNames_perm (depicts : graph.Depicts store rule) (roots : List (Fin size)) :
    (Grammar.unboundNames store bindings (roots.map rule)).Perm (graph.unboundNames bindings roots) := by
  refine (List.perm_ext_iff_of_nodup (Grammar.nodup_unboundNames _)
    (graph.nodup_unboundNames_of_graph bindings roots)).mpr fun name => ?_
  rw [Grammar.mem_unboundNames_iff, mem_unboundNames_iff_requires]
  simp only [List.mem_map, exists_exists_and_eq_and, depicts.requires_iff]

/-- Where no object shows itself again, the check finds them in the same order. -/
theorem Depicts.unboundNames_eq (depicts : graph.Depicts store rule) (acyclic : graph.IsAcyclic)
    (roots : List (Fin size)) :
    Grammar.unboundNames store bindings (roots.map rule) = graph.unboundNames bindings roots := by
  obtain ⟨names, unfolds⟩ := acyclic.exists_unfolds roots.reverse
  have ofRules : (Rule.walk store).Unfolds (roots.map rule).reverse names := by
    rw [← List.map_reverse]
    refine unfolds.map (fun object => ?_) fun object => ?_
    · simp only [Rule.walk, walk, depicts.requiredName?_eq]
    · simp only [Rule.walk, walk, List.map_reverse, depicts.map_children]
  obtain ⟨mentioned, ofMentions, same⟩ := Rule.exists_unfolds_mentionsOf ofRules
  rw [List.reverse_reverse] at ofMentions
  rw [unboundNames_eq_noteNames unfolds, Grammar.unboundNames_eq_noteNames_of_mentions ofMentions, same]

/-- Whatever rules are checked, some objects depict them, and the search over these finds what the check finds. -/
theorem exists_unboundNames_perm (store : RuleStore) (bindings : Bindings) (rules : List Rule) :
    ∃ (size : Nat) (graph : RuleGraph size) (rule : Fin size → Rule) (roots : List (Fin size)),
      graph.Depicts store rule ∧ roots.map rule = rules ∧
        (Grammar.unboundNames store bindings rules).Perm (graph.unboundNames bindings roots) := by
  obtain ⟨size, graph, rule, roots, depicts, rfl⟩ := exists_depicts store rules
  exact ⟨size, graph, rule, roots, depicts, rfl, depicts.unboundNames_perm roots⟩

/-- Whatever objects show and bindings bind, the search over objects ends, within as many rounds as there are roots and
places at which objects hold objects, and has then found, each once, exactly the names that objects shown by the roots
require and that nothing binds. The check of a grammar finds these names for all rules that the objects depict, and in the
same order unless an object shows itself again. -/
theorem unboundNames_exact (graph : RuleGraph size) (bindings : Bindings) (roots : List (Fin size)) :
    (∃ rounds ≤ roots.length + ∑ object, (graph.children object).length,
      ((graph.round bindings)^[rounds] (start roots)).pending = [] ∧
        ((graph.round bindings)^[rounds] (start roots)).missing = graph.unboundNames bindings roots) ∧
    (graph.unboundNames bindings roots).Nodup ∧
    (∀ name, name ∈ graph.unboundNames bindings roots ↔
      (∃ root ∈ roots, graph.Requires root name) ∧ bindings.hasRule name = false) ∧
    ∀ (store : RuleStore) (rule : Fin size → Rule), graph.Depicts store rule →
      (Grammar.unboundNames store bindings (roots.map rule)).Perm (graph.unboundNames bindings roots) ∧
        (graph.IsAcyclic →
          Grammar.unboundNames store bindings (roots.map rule) = graph.unboundNames bindings roots) := by
  refine ⟨?_, graph.nodup_unboundNames_of_graph bindings roots,
    fun name => graph.mem_unboundNames_iff_requires bindings roots,
    fun store rule depicts => ⟨depicts.unboundNames_perm roots, fun acyclic => depicts.unboundNames_eq acyclic roots⟩⟩
  obtain ⟨rounds, bounded, comes, ended⟩ := graph.exists_rounds bindings (start roots)
  rw [load_start] at bounded
  exact ⟨rounds, bounded, by rw [← comes, ended], by rw [← comes, unboundNames]⟩

/-- A choice that shows one rule twice, and itself through a rule of a caller. -/
def tangle : RuleGraph 4 where
  object := ![⟨"anyOf", [("alternatives", .list [some 1, some 2, some 1])]⟩, ⟨"recursive", [("name", .text "quote")]⟩,
    ⟨"raw", [("parts", .list [some 0, some 3, some 1])]⟩, ⟨"recursive", [("name", .text "list")]⟩]

def tangleRules : Fin 4 → Rule :=
  ![.anyOf [.named "quote", .external 0, .named "quote"], .named "quote", .external 0, .named "list"]

/-- A store with the rule of a caller that is in a tangle. -/
def tangleStore : RuleStore where
  externals := #[⟨"raw", some [tangleRules 0, .named "list", .named "quote"], fun stream captures =>
    ⟨.ok none, stream.index, captures⟩⟩]

/-- A sequence that shows a group twice, once before and once behind what is in it. -/
def strand : RuleGraph 3 where
  object := ![⟨"sequence", [("rules", .list [some 1, some 2, some 1])]⟩, ⟨"group", [("rule", .rule 2)]⟩,
    ⟨"reference", [("key", .text "quote"), ("type", .text "rule")]⟩]

def strandRules : Fin 3 → Rule :=
  ![.sequence [.group (.reference "quote" .rule), .reference "quote" .rule, .group (.reference "quote" .rule)],
    .group (.reference "quote" .rule), .reference "quote" .rule]

theorem unboundNames_through_tangle :
    tangle.Depicts tangleStore tangleRules ∧
    (Grammar.unboundNames tangleStore { rules := [("quote", .never)] } [tangleRules 0, tangleRules 2]).Perm
      (tangle.unboundNames { rules := [("quote", .never)] } [0, 2]) ∧
    ("list" : Text) ∈ tangle.unboundNames { rules := [("quote", .never)] } [0, 2] ∧
    ("quote" : Text) ∉ tangle.unboundNames { rules := [("quote", .never)] } [0, 2] ∧
    strand.Depicts {} strandRules ∧ strand.IsAcyclic ∧
    Grammar.unboundNames {} .empty [strandRules 0] = strand.unboundNames .empty [0] := by
  have depicts : tangle.Depicts tangleStore tangleRules := by
    intro object
    fin_cases object <;> rfl
  have depictsStrand : strand.Depicts {} strandRules := by
    intro object
    fin_cases object <;> rfl
  have acyclic : strand.IsAcyclic := isAcyclic_of_lt (by decide)
  obtain ⟨-, -, found, agrees⟩ := unboundNames_exact tangle { rules := [("quote", .never)] } [0, 2]
  refine ⟨depicts, (agrees _ _ depicts).1, (found "list").mpr ⟨?_, by decide⟩, fun member => ?_, depictsStrand, acyclic,
    ((unboundNames_exact strand .empty [0]).2.2.2 {} strandRules depictsStrand).2 acyclic⟩
  · exact ⟨2, by decide, 3, .single (by decide), by decide⟩
  · exact absurd ((found "quote").mp member).2 (by decide)

end RuleGraph

end TokenGrammar
