import TokenGrammar.Token

namespace TokenGrammar

/-- Tokens kept under keys; each key stands once. -/
structure Captures where
  entries : List (Text × List Token) := []

namespace Captures

def empty : Captures := ⟨[]⟩

def find? (captures : Captures) (key : Text) : Option (List Token) := captures.entries.lookup key

/-- Whether something is kept under a key. -/
def has (captures : Captures) (key : Text) : Bool := (captures.find? key).isSome

def keep (captures : Captures) (key : Text) (tokens : List Token) : Captures :=
  ⟨(key, tokens) :: captures.entries.filter fun entry => entry.1 ≠ key⟩

/-- Keeps tokens under a key that is not empty. -/
def capture (captures : Captures) (key : Text) (tokens : List Token) : Except Fault Captures := do
  check (key ≠ "") .emptyCaptureKey
  return captures.keep key tokens

@[simp] theorem find?_empty (key : Text) : empty.find? key = none := rfl

theorem find?_keep_self (captures : Captures) (key : Text) (tokens : List Token) :
    (captures.keep key tokens).find? key = some tokens := by
  simp [keep, find?]

theorem find?_keep_other (captures : Captures) {key other : Text} (tokens : List Token)
    (different : other ≠ key) : (captures.keep key tokens).find? other = captures.find? other := by
  obtain ⟨entries⟩ := captures
  simp only [keep, find?, List.lookup_cons, beq_false_of_ne different]
  induction entries with
  | nil => rfl
  | cons entry rest ih =>
    obtain ⟨name, kept⟩ := entry
    by_cases same : name = key
    · subst same
      simpa [List.lookup_cons, beq_false_of_ne different] using ih
    · by_cases equal : other = name
      · subst equal
        simp [same]
      · simpa [same, List.lookup_cons, beq_false_of_ne equal] using ih

end Captures

end TokenGrammar
