import TokenGrammar.Rule.Store

namespace TokenGrammar

namespace Mention

@[simp] theorem join_nil (mentions : List Mention) : join mentions [] = mentions := by simp [join]

@[simp] theorem nil_join (mentions : List Mention) : join [] mentions = mentions := by
  simp [join]

@[simp] theorem joinAll_nil : joinAll [] = [] := rfl

theorem mem_join {mention : Mention} {first second : List Mention} :
    mention ∈ join first second ↔ mention ∈ first ∨ mention ∈ second := by
  by_cases present : mention ∈ first <;> simp [join, present]

theorem mem_joinAll {mention : Mention} {mentions : List (List Mention)} :
    mention ∈ joinAll mentions ↔ ∃ part ∈ mentions, mention ∈ part := by
  suffices general : ∀ later : List Mention,
      mention ∈ mentions.foldl (fun later earlier => join earlier later) later ↔
        mention ∈ later ∨ ∃ part ∈ mentions, mention ∈ part by
    simpa [joinAll] using general []
  induction mentions with
  | nil => simp
  | cons first rest ih =>
    intro later
    rw [List.foldl_cons, ih, mem_join]
    simp only [List.mem_cons, exists_eq_or_imp, or_assoc, or_left_comm]

end Mention

namespace Rule

def ownMentions (rule : Rule) : List Mention :=
  match rule with
  | .external number => [.external number]
  | rule => (rule.requiredName?.map Mention.name).toList

theorem mentions_negate (rule : Rule) : rule.negate.mentions = rule.mentions := by
  cases rule <;> simp [negate, mentions]

theorem mentions_attempted (rule : Rule) (negated : Bool) : (rule.attempted negated).mentions = rule.mentions := by
  cases negated <;> simp [attempted, mentions_negate]

/-- Whether a rule is a caller's own. -/
def externalNumber? : Rule → Option Nat
  | .external number => some number
  | _ => none

/-- A rule of the library mentions what it mentions itself and what the rules that it shows mention. -/
theorem mentions_eq (store : RuleStore) (rule : Rule) (own : rule.externalNumber? = none) :
    rule.mentions = Mention.join rule.ownMentions (Mention.joinAll ((rule.children store).map mentions)) := by
  cases rule with
  | external number => simp [externalNumber?] at own
  | matcher test negated =>
    cases test <;> simp [mentions, ownMentions, requiredName?, children, properties, testProperties,
      Property.children]
  | reference key kind =>
    cases kind <;> simp [mentions, ownMentions, requiredName?, children, properties, Property.children]
  | optional rule negated =>
    simp [mentions, ownMentions, requiredName?, children, properties, Property.children, mentions_attempted,
      Mention.joinAll]
  | _ =>
    simp [mentions, ownMentions, requiredName?, children, properties, Property.children, Mention.joinAll]

end Rule

end TokenGrammar
