import TokenGrammar.Token

namespace TokenGrammar

/-- A place in a list of tokens: what was passed, the nearest token first, and what remains. Every token counts for the
index, but only visible ones are read. -/
structure TokenStream where
  passed : List Token
  remaining : List Token
  index : Nat
  index_eq : index = passed.length

namespace TokenStream

@[ext] theorem ext {first second : TokenStream} (passed : first.passed = second.passed)
    (remaining : first.remaining = second.remaining) : first = second := by
  obtain ⟨passed₁, remaining₁, index₁, index_eq₁⟩ := first
  obtain ⟨passed₂, remaining₂, index₂, index_eq₂⟩ := second
  simp only at passed remaining
  subst passed remaining index_eq₁ index_eq₂
  rfl

/-- The start of a list of tokens. -/
def ofTokens (tokens : List Token) : TokenStream := ⟨[], tokens, 0, rfl⟩

def size (stream : TokenStream) : Nat := stream.index + stream.remaining.length

def tokens (stream : TokenStream) : List Token := stream.passed.reverse ++ stream.remaining

/-- Whether there are no tokens at all. -/
def isEmpty (stream : TokenStream) : Bool := stream.passed.isEmpty && stream.remaining.isEmpty

/-- The place so many tokens further, or the end. -/
def forward : Nat → TokenStream → TokenStream
  | 0, stream => stream
  | count + 1, stream =>
    match stream with
    | ⟨_, [], _, _⟩ => stream
    | ⟨passed, token :: rest, index, index_eq⟩ =>
      forward count ⟨token :: passed, rest, index + 1, by simp [index_eq]⟩

/-- The place so many tokens further, if there are as many. -/
def forward? : Nat → TokenStream → Option TokenStream
  | 0, stream => some stream
  | count + 1, stream =>
    match stream with
    | ⟨_, [], _, _⟩ => none
    | ⟨passed, token :: rest, index, index_eq⟩ =>
      forward? count ⟨token :: passed, rest, index + 1, by simp [index_eq]⟩

/-- The place at an index, or the end. -/
def seek (stream : TokenStream) (index : Nat) : TokenStream :=
  if stream.index ≤ index then stream.forward (index - stream.index)
  else (ofTokens stream.tokens).forward index

def rewind (stream : TokenStream) : TokenStream := ofTokens stream.tokens

/-- The start of the passed tokens, which come nearest first. -/
def lookbehind (stream : TokenStream) : TokenStream := ofTokens stream.passed

def hasMore (stream : TokenStream) : Bool := stream.remaining.any Token.isVisible

def current? (stream : TokenStream) : Option Token := stream.remaining.find? Token.isVisible

/-- The shadows in front of the next visible token. -/
def shadows (stream : TokenStream) : List Token := stream.remaining.takeWhile Token.isShadow

/-- Passes over the shadows in front of the next visible token. -/
def skipShadows (stream : TokenStream) : TokenStream := stream.forward stream.shadows.length

/-- The next visible token and the place behind it. -/
def read? (stream : TokenStream) : Option (Token × TokenStream) :=
  match stream.current? with
  | some token => some (token, stream.forward (stream.shadows.length + 1))
  | none => none

/-- The visible token of a number, where the first one has number zero. -/
def visibleAt? : List Token → Nat → Option Token
  | [], _ => none
  | token :: rest, number =>
    if token.isVisible then
      match number with
      | 0 => some token
      | number + 1 => visibleAt? rest number
    else visibleAt? rest number

/-- A visible token ahead; the next one has number zero. -/
def ahead? (stream : TokenStream) (number : Nat) : Option Token := visibleAt? stream.remaining number

/-- A visible token behind; the nearest one has number zero. -/
def behind? (stream : TokenStream) (number : Nat) : Option Token := visibleAt? stream.passed number

def previous? (stream : TokenStream) : Option Token := stream.behind? 0

/-- The visible token at an offset from the next one, counting backwards below zero. An offset between two
tokens is that of the farther one, and what is no offset finds the very next token. -/
def peek? (stream : TokenStream) (offset : Number) : Option Token :=
  match offset with
  | .finite distance =>
    if 0 ≤ distance.num then stream.ahead? distance.ceil.toNat
    else stream.behind? ((-distance).ceil.toNat - 1)
  | .infinite _ => none
  | .notANumber => stream.remaining.head?

/-- Reads so many visible tokens, if there are as many. -/
def skip? : Nat → TokenStream → Option TokenStream
  | 0, stream => some stream
  | count + 1, stream =>
    match stream.read? with
    | some (_, behind) => skip? count behind
    | none => none

/-- A place in a list of tokens, up to the place behind the last one. -/
def at? (tokens : List Token) (index : Number) : Except Fault TokenStream :=
  match index.toNat? with
  | some count =>
    if count ≤ tokens.length then .ok ((ofTokens tokens).forward count)
    else .error (.outsideStream index tokens.length)
  | none => .error (.outsideStream index tokens.length)

def copyAt (stream : TokenStream) (index : Number) : Except Fault TokenStream := at? stream.tokens index

/-- The complaint that no visible token remains. -/
def endFault (stream : TokenStream) : Fault := .endOfStream stream.index stream.size

/-- The next visible token, which there has to be. -/
def current (stream : TokenStream) : Except Fault Token :=
  match stream.current? with
  | some token => .ok token
  | none => .error stream.endFault

/-- The next visible token, which there has to be, and the place behind it. -/
def read (stream : TokenStream) : Except Fault (Token × TokenStream) :=
  match stream.read? with
  | some result => .ok result
  | none => .error stream.endFault

/-- Reads so many visible tokens, of which there have to be as many. -/
def advance (stream : TokenStream) (count : Number) : Except Fault TokenStream :=
  match count.toNat? with
  | none => .error (.badAdvance count)
  | some steps =>
    match stream.skip? steps with
    | some behind => .ok behind
    | none => .error (.advancePastEnd count stream.index stream.size)

/-- The place at an index, if it is not behind. -/
def onward? (stream : TokenStream) (index : Nat) : Option TokenStream :=
  if stream.index ≤ index then stream.forward? (index - stream.index) else none

def moveTo (stream : TokenStream) (target : Number) : Except Fault TokenStream :=
  match target.toNat?.bind stream.onward? with
  | some place => .ok place
  | none => .error (.badTarget stream.index target stream.size)

/-- The place that a bound of a slice stands for; a negative bound counts from the end. -/
def sliceBound (size : Nat) (bound : Number) : Nat :=
  match bound with
  | .finite value =>
    let whole := value.num.tdiv value.den
    if whole < 0 then (size + whole).toNat else min whole.toNat size
  | .infinite negative => if negative then 0 else size
  | .notANumber => 0

/-- The tokens from one bound up to, not including, another. -/
def slice (stream : TokenStream) (start finish : Number) : List Token :=
  let first := sliceBound stream.size start
  let last := sliceBound stream.size finish
  (stream.tokens.drop first).take (last - first)

@[simp] theorem tokens_ofTokens (tokens : List Token) : (ofTokens tokens).tokens = tokens := by
  simp [ofTokens, TokenStream.tokens]

@[simp] theorem tokens_forward (count : Nat) (stream : TokenStream) :
    (stream.forward count).tokens = stream.tokens := by
  induction count generalizing stream with
  | zero => rfl
  | succ count ih =>
    obtain ⟨passed, remaining, index, index_eq⟩ := stream
    cases remaining with
    | nil => rfl
    | cons token rest =>
      rw [forward, ih]
      simp [TokenStream.tokens]

theorem size_eq_length (stream : TokenStream) : stream.size = stream.tokens.length := by
  simp [size, TokenStream.tokens, stream.index_eq]

theorem visibleAt?_eq (tokens : List Token) (number : Nat) :
    visibleAt? tokens number = (tokens.filter Token.isVisible)[number]? := by
  induction tokens generalizing number with
  | nil => simp [visibleAt?]
  | cons token rest ih =>
    by_cases visible : token.isVisible
    · cases number <;> simp [visibleAt?, visible, ih]
    · simp [visibleAt?, visible, ih]

theorem forward?_eq (count : Nat) (stream : TokenStream) :
    stream.forward? count = if count ≤ stream.remaining.length then some (stream.forward count) else none := by
  induction count generalizing stream with
  | zero => simp [forward?, forward]
  | succ count ih =>
    obtain ⟨passed, remaining, index, index_eq⟩ := stream
    cases remaining with
    | nil => simp [forward?]
    | cons token rest => simp [forward?, forward, ih]

theorem onward?_eq (stream : TokenStream) (index : Nat) :
    stream.onward? index =
      if stream.index ≤ index ∧ index ≤ stream.size then some (stream.forward (index - stream.index))
      else none := by
  have bound : index ≤ stream.size ↔ index ≤ stream.index + stream.remaining.length := Iff.rfl
  rw [onward?, forward?_eq]
  grind

@[simp] theorem passed_forward (count : Nat) (stream : TokenStream) :
    (stream.forward count).passed = (stream.remaining.take count).reverse ++ stream.passed := by
  induction count generalizing stream with
  | zero => rfl
  | succ count ih =>
    obtain ⟨passed, remaining, index, index_eq⟩ := stream
    cases remaining with
    | nil => rfl
    | cons token rest => simp [forward, ih]

@[simp] theorem remaining_forward (count : Nat) (stream : TokenStream) :
    (stream.forward count).remaining = stream.remaining.drop count := by
  induction count generalizing stream with
  | zero => rfl
  | succ count ih =>
    obtain ⟨passed, remaining, index, index_eq⟩ := stream
    cases remaining with
    | nil => rfl
    | cons token rest => simp [forward, ih]

theorem index_forward (count : Nat) (stream : TokenStream) (inside : count ≤ stream.remaining.length) :
    (stream.forward count).index = stream.index + count := by
  induction count generalizing stream with
  | zero => rfl
  | succ count ih =>
    obtain ⟨passed, remaining, index, index_eq⟩ := stream
    cases remaining with
    | nil => simp at inside
    | cons token rest =>
      rw [forward, ih _ (by simpa using inside)]
      simp only
      omega

end TokenStream

end TokenGrammar
