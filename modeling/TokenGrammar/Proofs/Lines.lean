import TokenGrammar.Proofs.ExcludedMiddle
import TokenGrammar.Proofs.Lexing

namespace TokenGrammar

namespace TokenStream

variable {stream next : TokenStream} {token : Token} {tokens : List Token} {index : Nat}

theorem previous?_of_read? (read : stream.read? = some (token, next)) : next.previous? = some token := by
  rw [previous?, behind?, visibleAt?_eq, (filter_of_read? read).2, List.getElem?_cons_zero]

theorem ahead?_zero_of_read? (read : stream.read? = some (token, next)) : stream.ahead? 0 = some token := by
  rw [ahead?, visibleAt?_eq, (filter_of_read? read).1, List.getElem?_cons_zero]

theorem ahead?_succ_of_read? (read : stream.read? = some (token, next)) (number : Nat) :
    stream.ahead? (number + 1) = next.ahead? number := by
  rw [ahead?, ahead?, visibleAt?_eq, visibleAt?_eq, (filter_of_read? read).1, List.getElem?_cons_succ]

/-- At an index the token of the index is ahead. -/
theorem ahead?_forward (there : tokens[index]? = some token) (visible : token.isVisible = true) :
    ((ofTokens tokens).forward index).ahead? 0 = some token := by
  have remaining : ((ofTokens tokens).forward index).remaining = token :: tokens.drop (index + 1) := by
    rw [remaining_forward, ofTokens, List.drop_eq_getElem?_toList_append, there, Option.toList_some,
      List.singleton_append]
  rw [ahead?, remaining, visibleAt?, if_pos visible]

/-- At an index the token before it is behind. -/
theorem previous?_forward (there : tokens[index]? = some token) (visible : token.isVisible = true) :
    ((ofTokens tokens).forward (index + 1)).previous? = some token := by
  have passed : ((ofTokens tokens).forward (index + 1)).passed = token :: (tokens.take index).reverse := by
    simp [ofTokens, List.take_add_one, there]
  rw [previous?, behind?, passed, visibleAt?, if_pos visible]

end TokenStream

namespace Anchor

/-- A line ends at a token exactly when a line starts behind it. -/
theorem atLineEnd_eq_atLineStart {stream next : TokenStream} {token : Token}
    (read : stream.read? = some (token, next)) : atLineEnd stream = atLineStart next := by
  rw [atLineEnd, atLineStart, TokenStream.ahead?_zero_of_read? read, TokenStream.previous?_of_read? read]
  dsimp only
  rw [TokenStream.ahead?_succ_of_read? read]

end Anchor

namespace Rule

variable {world : World}

/-- An anchor matches where it holds, or where it does not hold if it is negated, and fails everywhere else. -/
theorem anchor_matchesWhen (place : Anchor) (negated : Bool) (situation : Situation) :
    (Rule.anchor place negated).MatchesWhen world situation (place.holds situation.stream != negated) := by
  obtain ⟨after, yields⟩ := anchor_yields world place negated situation
  exact matchesWhen_of_yields yields

/-- Where a visible token remains, the end of a line is there exactly when the start of a line is behind that token, and
just so for the negated anchors. -/
theorem endLine_matches_iff_startLine (situation : Situation) (more : situation.stream.hasMore = true) :
    ∃ token next, situation.stream.read = .ok (token, next) ∧ ∀ negated,
      ((Rule.anchor .endLine negated).Matches world situation ↔
        (Rule.anchor .startLine negated).Matches world { situation with stream := next }) ∧
      ((Rule.anchor .endLine negated).Fails world situation ↔
        (Rule.anchor .startLine negated).Fails world { situation with stream := next }) := by
  obtain ⟨token, next, read⟩ := TokenStream.exists_read_of_hasMore more
  refine ⟨token, next, by rw [TokenStream.read, read], fun negated => ?_⟩
  have ends := @anchor_matchesWhen world .endLine negated situation
  have starts := @anchor_matchesWhen world .startLine negated { situation with stream := next }
  have same : Anchor.endLine.holds situation.stream = Anchor.startLine.holds next :=
    Anchor.atLineEnd_eq_atLineStart read
  rw [same] at ends
  exact ⟨ends.matches_iff.trans starts.matches_iff.symm, ends.fails_iff.trans starts.fails_iff.symm⟩

end Rule

namespace Brackets

/-- A group that ends in a line feed, among shadows, and a closing bracket behind it. -/
def broken : Situation := ⟨.ofTokens [comment, .group .word [] [opening, word 10], comment, closing], {}⟩

end Brackets

namespace Rule

/-- In front of a group that ends in a line feed a line ends, and behind it another one starts. -/
theorem line_ends_and_starts_at_broken :
    Brackets.broken.stream.hasMore = true ∧
      ∃ token next, Brackets.broken.stream.read = .ok (token, next) ∧
        (Rule.anchor .endLine false).Matches {} Brackets.broken ∧
        (Rule.anchor .startLine false).Matches {} { Brackets.broken with stream := next } ∧
        (Rule.anchor .startLine true).Fails {} { Brackets.broken with stream := next } := by
  refine ⟨rfl, ?_⟩
  obtain ⟨token, next, read, dual⟩ := @endLine_matches_iff_startLine {} Brackets.broken rfl
  have ends : (Rule.anchor .endLine false).Matches {} Brackets.broken :=
    (anchor_matchesWhen .endLine false Brackets.broken).matches_iff.mpr rfl
  have endsNot : (Rule.anchor .endLine true).Fails {} Brackets.broken :=
    (anchor_matchesWhen .endLine true Brackets.broken).fails_iff.mpr rfl
  exact ⟨token, next, read, ends, (dual false).1.mp ends, (dual true).2.mp endsNot⟩

end Rule

namespace Text

theorem occursIn_singleton (unit : UInt16) (units : List UInt16) : occursIn [unit] units = units.contains unit := by
  induction units with
  | nil => rfl
  | cons first rest ih => rw [occursIn, ih, List.contains_cons, List.isPrefixOf, List.isPrefixOf, Bool.and_true]

/-- A text holds a line feed when one of its codes is it. -/
theorem contains_lineFeed_ofCodes {codes : List Nat} (bounded : ∀ code ∈ codes, code < 0x110000) :
    (ofCodes codes).contains "\n" = decide (lineFeed ∈ codes) := by
  have units_eq : (ofString "\n").units = [10] := rfl
  rw [contains, units_eq, occursIn_singleton, ofCodes, Bool.eq_iff_iff, List.contains_iff_mem,
    List.mem_flatMap, decide_eq_true_iff]
  constructor
  · intro holds
    obtain ⟨code, member, unit⟩ := holds
    have same : code = lineFeed := (mem_unitsOf_iff (bounded code member) rfl).mp unit
    exact same ▸ member
  · exact fun inside => ⟨_, inside, (mem_unitsOf_iff (bounded _ inside) rfl).mpr rfl⟩

end Text

namespace Position

variable {start finish : Position} {text : Text}

theorem fst_foldl_nextPlace {codes : List Nat} (plain : '\n'.toNat ∉ codes) (place : Number × Number) :
    (codes.foldl nextPlace place).1 = place.1 := by
  induction codes generalizing place with
  | nil => rfl
  | cons code rest ih =>
    rw [List.mem_cons, not_or] at plain
    rw [List.foldl_cons, ih plain.2, nextPlace, if_neg (Ne.symm plain.1)]

theorem line_of_create {line characterInLine absoluteCharacter : Number}
    (made : create line characterInLine absoluteCharacter = .ok finish) :
    finish.line = line ∧ finish.isPositioned = true := by
  obtain ⟨-, made⟩ := check_bind_eq_ok_iff.mp made
  obtain ⟨-, made⟩ := check_bind_eq_ok_iff.mp made
  obtain ⟨counted, made⟩ := check_bind_eq_ok_iff.mp made
  cases made
  obtain ⟨count, reads⟩ := Option.isSome_iff_exists.mp counted
  simp [isPositioned, Number.eq_ofNat_of_toNat? reads]

/-- A text ends on the line where it begins, unless a character before its last one is a line feed. -/
theorem line_of_endOf (ends : start.endOf text = .ok finish) (positioned : start.isPositioned = true)
    (plain : '\n'.toNat ∉ text.codes.dropLast) : finish.line = start.line ∧ finish.isPositioned = true := by
  have walked : text.codes.take (min (text.length - 1) text.length) = text.codes.dropLast := by
    rw [List.dropLast_eq_take, Nat.min_eq_left (Nat.sub_le ..)]
    rfl
  rw [endOf, shift, if_pos positioned, walkLength_ofNat, walked] at ends
  obtain ⟨line_eq, counted⟩ := line_of_create ends
  exact ⟨line_eq.trans (fst_foldl_nextPlace plain _), counted⟩

end Position

/-- A token stands on a line when rules see it and it both begins and ends there. -/
structure Token.StandsOn (token : Token) (line : Nat) : Prop where
  visible : token.isVisible = true
  begins : token.position.line = .ofNat line
  begins_positioned : token.position.isPositioned = true
  ends : token.endPosition.line = .ofNat line
  ends_positioned : token.endPosition.isPositioned = true

/-- The line behind a token: the next one behind a line feed, and otherwise the line where it stands. -/
def Token.lineBehind (token : Token) (line : Nat) : Nat := if Anchor.holdsLineFeed token then line + 1 else line

/-- Tokens go down the lines from a line on when each of them stands on the line behind the one before it or on a later
one. -/
inductive GoDown : Nat → List Token → Prop
  | nil (line : Nat) : GoDown line []
  | cons {line begins : Nat} {token : Token} {rest : List Token} (later : line ≤ begins)
      (stands : token.StandsOn begins) (goesOn : GoDown (token.lineBehind begins) rest) : GoDown line (token :: rest)

namespace GoDown

variable {line other index : Nat} {token previous : Token} {tokens : List Token}

theorem mono (down : GoDown line tokens) (before : other ≤ line) : GoDown other tokens := by
  cases down with
  | nil => exact .nil other
  | cons later stands goesOn => exact .cons (Nat.le_trans before later) stands goesOn

theorem exists_standsOn (down : GoDown line tokens) (there : tokens[index]? = some token) :
    ∃ begins, token.StandsOn begins := by
  induction down generalizing index with
  | nil => cases there
  | @cons line begins first rest later stands goesOn ih =>
    cases index with
    | zero =>
      cases there
      exact ⟨begins, stands⟩
    | succ index => exact ih there

/-- Each token stands on the line behind the one before it or on a later one. -/
theorem exists_lines (down : GoDown line tokens) (before : tokens[index]? = some previous)
    (there : tokens[index + 1]? = some token) :
    ∃ upper lower, previous.StandsOn upper ∧ token.StandsOn lower ∧ previous.lineBehind upper ≤ lower := by
  induction down generalizing index with
  | nil => cases there
  | @cons line begins first rest later stands goesOn ih =>
    cases index with
    | succ index => exact ih before there
    | zero =>
      cases before
      cases goesOn with
      | nil => cases there
      | cons later' stands' goesOn' =>
        cases there
        exact ⟨begins, _, stands, stands', later'⟩

end GoDown

theorem Place.line_after_of_not_mem {codes : List Nat} (plain : Text.lineFeed ∉ codes) (place : Place) :
    (place.after codes).line = place.line := by
  induction codes generalizing place with
  | nil => rfl
  | cons code rest ih =>
    rw [List.mem_cons, not_or] at plain
    rw [Place.after_cons, ih plain.2, Place.next, if_neg (Ne.symm plain.1)]

/-- What is known of a token that begins at a place and whose codes lead to the place behind it. -/
structure Token.Covers (token : Token) (place behind : Place) : Prop where
  stands : token.StandsOn place.line
  lineBehind_eq : token.lineBehind place.line = behind.line

namespace Token

variable {token : Token} {place : Place} {codes : List Nat} {finish : Position} (written : Text.AreCodes codes)
include written

/-- A token that ends where its codes do covers them, if no code before the last one is a line feed. -/
theorem covers_of_endOf (visible : token.isVisible = true) (value_eq : token.value = .ofCodes codes)
    (position_eq : token.position = place.position) (endPosition_eq : token.endPosition = finish)
    (ends : place.position.endOf (.ofCodes codes) = .ok finish) (plain : Text.lineFeed ∉ codes.dropLast) :
    token.Covers place (place.after codes) where
  stands := by
    have positioned : place.position.isPositioned = true := Position.isPositioned_ofCounts ..
    have plainCodes : '\n'.toNat ∉ (Text.ofCodes codes).codes.dropLast := by
      rw [show (Text.ofCodes codes).codes = codes from written]
      exact plain
    obtain ⟨line_eq, counted⟩ := Position.line_of_endOf ends positioned plainCodes
    exact ⟨visible, by rw [position_eq]; rfl, by rw [position_eq]; exact positioned, by rw [endPosition_eq, line_eq]; rfl,
      by rw [endPosition_eq]; exact counted⟩
  lineBehind_eq := by
    have holds : Anchor.holdsLineFeed token = decide (Text.lineFeed ∈ codes) := by
      rw [Anchor.holdsLineFeed, value_eq, Text.contains_lineFeed_ofCodes written.lt]
    rw [lineBehind, holds]
    cases codes using List.reverseRecOn with
    | nil => rfl
    | append_singleton front last =>
      rw [List.dropLast_concat] at plain
      rw [Place.after_append, Place.after_cons, Place.after_nil, Place.next]
      have line_eq := Place.line_after_of_not_mem plain place
      by_cases feed : last = Text.lineFeed
      · simp [feed, line_eq]
      · simp [feed, Ne.symm feed, plain, line_eq]

theorem covers_of_ofWord {definition : Definition}
    (made : ofWord definition (.ofCodes codes) place.position = .ok token) (plain : Text.lineFeed ∉ codes.dropLast) :
    token.Covers place (place.after codes) := by
  obtain ⟨-, made⟩ := check_bind_eq_ok_iff.mp made
  obtain ⟨finish, ends, made⟩ := bind_eq_ok_iff.mp made
  cases made
  exact covers_of_endOf written rfl (value_simple _) rfl rfl ends plain

theorem covers_of_ofEscape {code : Nat} (same : codes = (Lexeme.escape code).codes)
    (made : ofEscape (.ofCodes codes) place.position none = .ok token) : token.Covers place (place.after codes) := by
  subst same
  rw [ofEscape, TokenReader.escapedCharacter?_escape written] at made
  obtain ⟨-, made⟩ := check_bind_eq_ok_iff.mp made
  obtain ⟨finish, ends, made⟩ := bind_eq_ok_iff.mp made
  cases made
  exact covers_of_endOf written rfl (value_escaped ..) rfl rfl ends
    (by simp [Lexeme.codes, Text.backslash, Text.lineFeed])

end Token

/-- An open word is on a line when it began there and holds no line feed. -/
def OpenWord.IsOn (word : OpenWord) (line : Nat) : Prop := word.start.line = line ∧ Text.lineFeed ∉ word.codes

namespace TokenReader

variable {reader : TokenReader} {text rest : List Nat} {place : Place} {word : Option OpenWord} {code : Nat}
  {line : Nat} {tokens made : List Token}

def openCodes (word : Option OpenWord) : List Nat := (word.elim [] OpenWord.codes).reverse

/-- The token of a finished word stands on the line of the word. -/
theorem goDown_of_finish (finishes : finish word = .ok made) (isOn : ∀ opened ∈ word, opened.IsOn line)
    (written : Text.AreCodes (openCodes word)) (down : GoDown line tokens) : GoDown line (made ++ tokens) := by
  cases word with
  | none =>
    cases finishes
    exact down
  | some opened =>
    obtain ⟨token, makes, single⟩ := bind_eq_ok_iff.mp finishes
    cases single
    obtain ⟨start_eq, plain⟩ := isOn opened rfl
    have plain' : Text.lineFeed ∉ openCodes (some opened) := by simpa [openCodes] using plain
    obtain ⟨stands, behind_eq⟩ := Token.covers_of_ofWord written makes fun inside =>
      plain' (List.dropLast_subset _ inside)
    rw [Place.line_after_of_not_mem plain', start_eq] at behind_eq
    rw [start_eq] at stands
    exact .cons (Nat.le_refl line) stands (behind_eq.symm ▸ down)

/-- The token of a separator stands on the line of the separator, and what is read next behind it. -/
theorem goDown_of_ofSeparator (bounded : code < 0x110000) (separates : reader.ofSeparator code place = .ok made)
    (down : GoDown (place.next code).line tokens) : GoDown place.line (made ++ tokens) := by
  have forward : place.line ≤ (place.next code).line := by
    unfold Place.next
    split <;> simp
  rw [ofSeparator] at separates
  split at separates
  · cases separates
    exact down.mono forward
  · obtain ⟨token, makes, single⟩ := bind_eq_ok_iff.mp separates
    cases single
    obtain ⟨stands, behind_eq⟩ := Token.covers_of_ofWord (Text.areCodes_singleton bounded) makes (by simp)
    exact .cons (Nat.le_refl _) stands (behind_eq.symm ▸ down)

/-- What a reader reads from a place on goes down the lines from there. -/
theorem goDown_of_readFrom (breaks : Text.lineFeed ∈ reader.separators)
    (isOn : ∀ opened ∈ word, opened.IsOn place.line) (written : Text.AreCodes (openCodes word ++ rest))
    (reads : reader.readFrom text place word rest = .ok tokens) : GoDown place.line tokens := by
  induction place, word, rest using readFrom.induct reader generalizing tokens with
  | case1 place word =>
    rw [readFrom] at reads
    have down := goDown_of_finish reads isOn written.of_append.1 (.nil _)
    rwa [List.append_nil] at down
  | case2 place word rest ih =>
    rw [readFrom, if_pos rfl] at reads
    obtain ⟨before, finishes, reads⟩ := bind_eq_ok_iff.mp reads
    cases rest with
    | nil => cases reads
    | cons escaped rest =>
      obtain ⟨token, makes, reads⟩ := bind_eq_ok_iff.mp reads
      obtain ⟨behind, readsRest, joins⟩ := bind_eq_ok_iff.mp reads
      cases joins
      obtain ⟨front, back⟩ := written.of_append
      have pair : Text.AreCodes (Lexeme.escape escaped).codes :=
        (@Text.AreCodes.of_append (Lexeme.escape escaped).codes rest back).1
      obtain ⟨stands, behind_eq⟩ := Token.covers_of_ofEscape pair rfl makes
      refine goDown_of_finish finishes isOn front (.cons (Nat.le_refl _) stands ?_)
      rw [behind_eq]
      exact ih (by simp) back.tail.tail readsRest
  | case3 place word code rest plain separates ih =>
    rw [readFrom, if_neg plain, if_pos separates] at reads
    obtain ⟨before, finishes, reads⟩ := bind_eq_ok_iff.mp reads
    obtain ⟨here, separator, reads⟩ := bind_eq_ok_iff.mp reads
    obtain ⟨behind, readsRest, joins⟩ := bind_eq_ok_iff.mp reads
    cases joins
    obtain ⟨front, back⟩ := written.of_append
    rw [List.append_assoc]
    exact goDown_of_finish finishes isOn front
      (goDown_of_ofSeparator (back.lt code (List.mem_cons_self ..)) separator (ih (by simp) back.tail readsRest))
  | case4 place word code rest plain separates allowed ih =>
    rw [readFrom, if_neg plain, if_neg separates, if_pos allowed] at reads
    -- The line feed separates, so that the word goes on along the line.
    have other : code ≠ Text.lineFeed := by
      intro feed
      exact separates (feed ▸ List.contains_iff_mem.mpr breaks)
    have line_eq : (place.next code).line = place.line := by rw [Place.next, if_neg other]
    have longer : openCodes (some (extend word place code)) ++ rest = openCodes word ++ code :: rest := by
      cases word <;> simp [openCodes, extend]
    rw [← line_eq]
    refine ih ?_ (longer ▸ written) reads
    intro opened same
    cases same
    rw [line_eq]
    cases word with
    | none => exact ⟨rfl, by simpa [extend] using other.symm⟩
    | some opened =>
      obtain ⟨start_eq, plain⟩ := isOn opened rfl
      exact ⟨start_eq, by simpa [extend, other.symm] using plain⟩
  | case5 place word code rest plain separates allowed =>
    rw [readFrom, if_neg plain, if_neg separates, if_neg allowed] at reads
    cases reads

end TokenReader

namespace Anchor

variable {previous token : Token} {upper lower : Nat}

theorem isLater_eq (stands : previous.StandsOn upper) (stands' : token.StandsOn lower) :
    isLater previous token = decide (upper < lower) := by
  rw [isLater, stands.ends_positioned, stands'.begins_positioned, stands.ends, stands'.begins, Number.lessThan_ofNat,
    Bool.true_and, Bool.true_and]

/-- Behind a token a line starts at the next one exactly when that stands on a later line. -/
theorem holdsLineFeed_or_isLater (stands : previous.StandsOn upper) (stands' : token.StandsOn lower)
    (behind : previous.lineBehind upper ≤ lower) :
    (holdsLineFeed previous || isLater previous token) = previous.position.line.lessThan token.position.line := by
  rw [isLater_eq stands stands', stands.begins, stands'.begins, Number.lessThan_ofNat]
  rw [Token.lineBehind] at behind
  cases feed : holdsLineFeed previous with
  | false => rfl
  | true =>
    rw [feed, if_pos rfl] at behind
    rw [Bool.true_or, eq_comm, decide_eq_true_iff]
    omega

end Anchor

namespace TokenReader

variable {reader : TokenReader} {tokens : List Token}

/-- In the tokens that a reader makes of a text a line starts at the first of them, at each one that stands on a later
line than the one before it, and behind the last one if that holds a line feed. -/
theorem startLine_matchesWhen_read {data : Pattern.CharacterData} {definitions : List Definition} {allowed : AllowedCharacters}
    {separators : List Text} {text : Text} (made : create data definitions allowed separators = .ok reader)
    (reads : reader.read text = .ok tokens) (world : World) (memory : Memory) :
    (Rule.anchor .startLine false).Matches world ⟨.ofTokens tokens, memory⟩ ∧
    (∀ index previous token, tokens[index]? = some previous → tokens[index + 1]? = some token →
      (Rule.anchor .startLine false).MatchesWhen world ⟨(TokenStream.ofTokens tokens).forward (index + 1), memory⟩
        (previous.position.line.lessThan token.position.line)) ∧
    ∀ last, tokens.getLast? = some last →
      (Rule.anchor .startLine false).MatchesWhen world ⟨(TokenStream.ofTokens tokens).forward tokens.length, memory⟩
        (last.value.contains "\n") := by
  have down : GoDown 0 tokens := goDown_of_readFrom (lineFeed_mem_separators made) (by simp) text.areCodes_codes reads
  have holds (stream : TokenStream) : (Rule.anchor .startLine false).MatchesWhen world ⟨stream, memory⟩
      (Anchor.atLineStart stream) := by
    have holds := @Rule.anchor_matchesWhen world .startLine false ⟨stream, memory⟩
    rwa [Bool.bne_false] at holds
  refine ⟨holds (.ofTokens tokens), ?_, ?_⟩
  · intro index previous token before there
    obtain ⟨upper, lower, stands, stands', behind⟩ := down.exists_lines before there
    have starts := holds ((TokenStream.ofTokens tokens).forward (index + 1))
    rw [Anchor.atLineStart, TokenStream.previous?_forward before stands.visible,
      TokenStream.ahead?_forward there stands'.visible] at starts
    rwa [← Anchor.holdsLineFeed_or_isLater stands stands' behind]
  · intro last ends
    have filled : tokens.length = (tokens.length - 1) + 1 := by
      cases tokens with
      | nil => cases ends
      | cons first rest => rfl
    rw [List.getLast?_eq_getElem?] at ends
    obtain ⟨line, stands⟩ := down.exists_standsOn ends
    have starts := holds ((TokenStream.ofTokens tokens).forward tokens.length)
    have behind : ((TokenStream.ofTokens tokens).forward tokens.length).previous? = some last :=
      filled ▸ TokenStream.previous?_forward ends stands.visible
    have nothing : ((TokenStream.ofTokens tokens).forward tokens.length).ahead? 0 = none := by
      simp [TokenStream.ahead?, TokenStream.ofTokens, TokenStream.visibleAt?]
    rw [Anchor.atLineStart, behind, nothing] at starts
    simpa [Anchor.holdsLineFeed] using starts

/-- A line feed that is dropped and one that is escaped: lines start at the third and at the last of five tokens. -/
theorem startLine_behind_lineFeeds :
    create Brackets.asciiOnly [.char "(", .char ")"] (.predicate Brackets.isLetters) [" ", "(", ")"] = .ok Brackets.reader ∧
      ∃ tokens, Brackets.reader.read "(a\nb\\\nc" = .ok tokens ∧
        tokens.map (fun token => token.position.line) = [0, 0, 1, 1, 2].map Number.ofNat ∧
        (Rule.anchor .startLine false).Fails {} ⟨(TokenStream.ofTokens tokens).forward 1, {}⟩ ∧
        (Rule.anchor .startLine false).Matches {} ⟨(TokenStream.ofTokens tokens).forward 2, {}⟩ ∧
        (Rule.anchor .startLine false).Fails {} ⟨(TokenStream.ofTokens tokens).forward 3, {}⟩ ∧
        (Rule.anchor .startLine false).Matches {} ⟨(TokenStream.ofTokens tokens).forward 4, {}⟩ ∧
        (Rule.anchor .startLine false).Fails {} ⟨(TokenStream.ofTokens tokens).forward 5, {}⟩ := by
  have made : create Brackets.asciiOnly [.char "(", .char ")"] (.predicate Brackets.isLetters) [" ", "(", ")"] =
      .ok Brackets.reader := rfl
  have splits : Brackets.reader.Splits (Text.codes "(a\nb\\\nc")
      [.separator '('.toNat, .word ['a'.toNat], .separator Text.lineFeed, .word ['b'.toNat], .escape Text.lineFeed,
        .word ['c'.toNat]] := by
    refine ⟨by decide, ?_, ?_⟩
    · simp [Fits, Brackets.reader]
      decide
    · simp [Lexeme.isWord]
  have reads := (read_eq_ok_iff_splits (backslash_mem_separators made) (by decide)).mpr ⟨_, splits, rfl⟩
  obtain ⟨-, between, behind⟩ := startLine_matchesWhen_read made reads {} {}
  refine ⟨made, _, reads, by decide +kernel, ?_, ?_, ?_, ?_, ?_⟩
  · exact between 0 _ _ rfl rfl
  · exact between 1 _ _ rfl rfl
  · exact between 2 _ _ rfl rfl
  · exact between 3 _ _ rfl rfl
  · exact behind _ rfl

end TokenReader

end TokenGrammar
