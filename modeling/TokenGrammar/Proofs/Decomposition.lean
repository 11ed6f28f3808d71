import Mathlib.Data.List.TakeWhile
import TokenGrammar.Proofs.Productive
import TokenGrammar.Proofs.Segments

namespace TokenGrammar

namespace TokenStream

variable {start place : TokenStream} {token : Token} {tokens rest : List Token}

theorem Covers.skipShadows_eq (covers : start.Covers tokens place) (hidden : ∀ token ∈ tokens, token.isShadow = true)
    (behind : ∀ token ∈ place.remaining.head?, token.isVisible = true) : start.skipShadows = place := by
  rw [skipShadows, ← covers.eq_shadows hidden behind]
  exact (Covers.forward covers.remaining_eq).unique covers

/-- A visible token that is next is read. -/
theorem Covers.read?_eq (covers : start.Covers [token] place) (visible : token.isVisible = true) :
    start.read? = some (token, place) :=
  read?_eq_some_iff.mpr ⟨visible, [], by simp, covers.remaining_eq, covers.passed_eq⟩

theorem Covers.moveTo_eq (covers : start.Covers tokens place) : start.moveTo (.ofNat place.index) = .ok place := by
  have inside : start.index ≤ place.index ∧ place.index ≤ start.size := by
    rw [size, covers.index_eq, covers.remaining_eq, List.length_append]
    omega
  have arrived : start.forward (place.index - start.index) = place := by
    rw [covers.index_eq, Nat.add_sub_cancel_left]
    exact (Covers.forward covers.remaining_eq).unique covers
  simp [moveTo, onward?_eq, inside, arrived]

/-- The shadows in front of a place are followed by a visible token or by nothing. -/
theorem covers_shadows (start : TokenStream) : start.Covers start.shadows start.skipShadows :=
  Covers.forward List.takeWhile_append_dropWhile.symm

theorem head_skipShadows (start : TokenStream) :
    ∀ token ∈ start.skipShadows.remaining.head?, token.isVisible = true := by
  intro token found
  have dropped : start.skipShadows.remaining = start.remaining.dropWhile Token.isShadow := by
    have split := start.covers_shadows.remaining_eq
    rw [← List.takeWhile_append_dropWhile (p := Token.isShadow) (l := start.remaining)] at split
    exact (List.append_cancel_left split).symm
  have stops := List.head?_dropWhile_not Token.isShadow start.remaining
  rw [← dropped, Option.mem_def.mp found] at stops
  simpa [Token.isVisible] using stops

end TokenStream

/-- An action is total when it makes something of every match. -/
def Action.IsTotal (store : RuleStore) (action : Action) : Prop :=
  ∀ captures found, ∃ edit, action.apply store captures found = .ok edit

namespace Engine

open Attempt (Gives)

variable {world : World} {bindings : List RuleBinding} {tokens : List Token} {situation start place after : Situation}
  {finish middle : Situation} {segment : Segment} {segments before : List Segment} {answer : Option (RuleBinding × Match)}

/-- At a visible token a pass writes what is written for the segment there, and hands out what its action does. -/
theorem Step.exists_pieces (step : Step world bindings situation segment after) {token : Token}
    (ahead : token ∈ situation.stream.remaining.head?) (visible : token.isVisible = true) :
    ∃ answer middle made, FirstMatch world bindings situation answer middle ∧
      writePieces world answer middle = .ok made after ∧ Passage.output made = segment.output ∧
        Passage.extracted made = segment.extracted := by
  cases step with
  | shadows covers filled hidden =>
    obtain ⟨first, others, rfl⟩ := List.exists_cons_of_ne_nil filled
    have same : first = token := by simpa [covers.remaining_eq] using ahead
    exact absurd (hidden first (List.mem_cons_self ..)) (by simpa [Token.isVisible, same] using visible)
  | @unmatched token place middle covers visible refused =>
    have read := covers.read?_eq visible
    rw [← refused.stream_eq] at read
    exact ⟨_, _, _, refused, copyToken_apply .unmatched read, rfl, rfl⟩
  | @insertion token place middle binding found edit covers visible first start_eq finish_eq edits =>
    have read : (noticed world binding found middle).stream.read? = some (token, place) := by
      rw [noticed, first.stream_eq]
      exact covers.read?_eq visible
    have empty : found.isZeroWidth = true := by simp [Match.isZeroWidth, start_eq, finish_eq]
    refine ⟨_, _, [.insertion found edit token], first, ?_, List.append_nil _, List.append_nil _⟩
    rw [writePieces_some edits, if_pos empty]
    exact copyToken_apply _ read
  | @replacement token rest place middle binding found edit covers visible first start_eq finish_eq edits =>
    have filled : found.isZeroWidth = false := by
      simp [Match.isZeroWidth, start_eq, finish_eq, covers.index_eq]
    have moves : middle.stream.moveTo found.finish = .ok place := by
      rw [first.stream_eq, finish_eq]
      exact covers.moveTo_eq
    refine ⟨_, _, [.replacement found edit], first, ?_, List.append_nil _, List.append_nil _⟩
    rw [writePieces_some edits, filled, moves]
    rfl

/-- A segment is made of shadows or begins with a visible token. -/
theorem Step.shadows_or_ahead (step : Step world bindings situation segment after) :
    (∃ hidden, segment = .shadows hidden) ∨ ∃ token ∈ situation.stream.remaining.head?, token.isVisible = true := by
  cases step with
  | shadows => exact .inl ⟨_, rfl⟩
  | unmatched covers visible | insertion covers visible | replacement covers visible =>
    exact .inr ⟨_, by simp [covers.remaining_eq], visible⟩

/-- Behind shadows that were passed over, a pass writes these and what is written for the segments up to the end. -/
theorem Steps.exists_pieces (steps : Steps world bindings start segments finish) (ends : finish.stream.remaining = [])
    {front : TokenStream} {passed : List Token} (covers : front.Covers passed start.stream)
    (hidden : ∀ token ∈ passed, token.isShadow = true) :
    ∃ written after, Gives (fun fuel => pieces world fuel bindings) { start with stream := front } written after ∧
      Passage.output written = passed ++ segments.flatMap Segment.output := by
  -- A pass goes over shadows together with the visible token behind them, so a segment of shadows is only added to
  -- what was passed over and written with the next segment.
  induction steps generalizing front passed with
  | nil situation =>
    have noMore : front.hasMore = false := by
      rw [TokenStream.hasMore, covers.remaining_eq, ends]
      simpa [Token.isVisible] using hidden
    refine ⟨_, _, gives_pieces_of_end noMore, ?_⟩
    simp [Passage.output, Piece.output, ← covers.eq_shadows hidden (by simp [ends])]
  | @cons start next finish segment segments step rest ih =>
    rcases step.shadows_or_ahead with ⟨tokens, rfl⟩ | ⟨token, ahead, visible⟩
    · cases step with
      | @shadows _ place between filled allHidden before behind =>
        obtain ⟨written, after, gives, output_eq⟩ := ih ends (covers.append between) fun token member =>
          (List.mem_append.mp member).elim (hidden token) (allHidden token)
        refine ⟨written, after, gives, ?_⟩
        rw [output_eq, List.flatMap_cons, List.append_assoc]
        rfl
    · have behind : ∀ token ∈ start.stream.remaining.head?, token.isVisible = true := by
        intro other found
        rwa [Option.mem_unique found ahead]
      have more : front.hasMore = true := by
        have member := List.mem_of_mem_head? ahead
        exact List.any_eq_true.mpr ⟨token, by simp [covers.remaining_eq, member], visible⟩
      have skips := covers.skipShadows_eq hidden behind
      obtain ⟨answer, middle, made, first, writes, made_eq, -⟩ := step.exists_pieces ahead visible
      obtain ⟨written, after, gives, output_eq⟩ := @ih ends next.stream [] ⟨rfl, rfl⟩ (by simp)
      refine ⟨_, after, gives_pieces_of_first more ?_ writes gives, ?_⟩
      · rw [skips]
        exact first
      · have made_eq : made.flatMap Piece.output = segment.output := made_eq
        have written_eq : written.flatMap Piece.output = segments.flatMap Segment.output := output_eq
        simp [Passage.output, Piece.output, made_eq, written_eq, ← covers.eq_shadows hidden behind]

/-- No run of shadows is cut in two at a place. -/
def Borders (place : TokenStream) : Prop :=
  (∀ token ∈ place.passed.head?, token.isVisible = true) ∨ ∀ token ∈ place.remaining.head?, token.isVisible = true

/-- Tokens that end with a visible one lead to a place behind a visible token. -/
theorem visible_behind_of_covers {front behind : TokenStream} (covers : front.Covers tokens behind) (filled : tokens ≠ [])
    (ends : ∀ token ∈ tokens.getLast?, token.isVisible = true) :
    ∀ token ∈ behind.passed.head?, token.isVisible = true := by
  obtain ⟨first, last, rfl⟩ := (List.eq_nil_or_concat tokens).resolve_left filled
  simpa [covers.passed_eq] using ends

/-- The first match spans a stretch from the place where the bindings are tried. -/
theorem FirstMatch.exists_spans {binding : RuleBinding} {found : Match}
    (builtIn : ∀ binding ∈ bindings, binding.rule.BuiltIn world)
    (first : FirstMatch world bindings situation (some (binding, found)) middle) :
    ∃ behind, found.Spans situation.stream behind := by
  obtain ⟨member, tried, behind, stays, yields⟩ := first.exists_yields
  rw [← stays]
  exact ⟨behind.stream, (builtIn binding member).settles yields⟩

/-- At a visible token the first match makes a segment, which ends behind a visible token, if the action of its binding
makes something of it. -/
theorem exists_step_of_edits (builtIn : ∀ binding ∈ bindings, binding.rule.BuiltIn world) {token : Token}
    (ahead : token ∈ situation.stream.remaining.head?) (visible : token.isVisible = true)
    (first : FirstMatch world bindings situation answer middle)
    (edits : ∀ binding found, answer = some (binding, found) →
      ∃ edit, binding.action.apply world.store middle.memory.captures found = .ok edit) :
    ∃ segment after, Step world bindings situation segment after ∧
      ∀ token ∈ after.stream.passed.head?, token.isVisible = true := by
  obtain ⟨rest, split⟩ := List.head?_eq_some_iff.mp ahead
  have single : situation.stream.Covers [token] (situation.stream.forward 1) := TokenStream.Covers.forward split
  have borders := visible_behind_of_covers single (List.cons_ne_nil _ _) (by simpa using visible)
  cases answer with
  | none => exact ⟨_, _, .unmatched single visible first, borders⟩
  | some answer =>
    obtain ⟨binding, found⟩ := answer
    obtain ⟨edit, edits⟩ := edits binding found rfl
    obtain ⟨behind, spans⟩ := first.exists_spans builtIn
    obtain ⟨piece, covers, -, ends⟩ := spans.reads.exists_covers
    cases piece with
    | nil =>
      have start_eq := spans.start_eq
      have finish_eq := spans.finish_eq
      rw [covers.index_eq] at finish_eq
      exact ⟨_, _, .insertion single visible first start_eq finish_eq edits, borders⟩
    | cons head others =>
      have same : head = token := by simpa [covers.remaining_eq] using ahead
      subst same
      refine ⟨_, _, .replacement covers visible first spans.start_eq spans.finish_eq edits, ?_⟩
      exact visible_behind_of_covers covers (List.cons_ne_nil _ _) ends

section Total

variable (builtIn : ∀ binding ∈ bindings, binding.rule.BuiltIn world)
  (total : ∀ binding ∈ bindings, binding.action.IsTotal world.store)
include builtIn total

/-- Where all actions are total, the first match at a visible token makes a segment. -/
theorem exists_step_of_first {token : Token} (ahead : token ∈ situation.stream.remaining.head?)
    (visible : token.isVisible = true) (first : FirstMatch world bindings situation answer middle) :
    ∃ segment after, Step world bindings situation segment after ∧ Borders after.stream := by
  obtain ⟨segment, after, step, behind⟩ := exists_step_of_edits builtIn ahead visible first fun binding found answers =>
    total binding (answers ▸ first).exists_yields.1 middle.memory.captures found
  exact ⟨segment, after, step, .inl behind⟩

/-- Where segments lead to a place, a segment follows unless no token remains. -/
theorem exists_step (terminates : ∀ rule situation, Tries world bindings tokens rule situation →
      rule.Terminates world situation)
    (reached : Steps world bindings { stream := .ofTokens tokens, memory := {} } before place)
    (borders : Borders place.stream) (more : place.stream.remaining ≠ []) :
    ∃ segment after, Step world bindings place segment after ∧ Borders after.stream := by
  obtain ⟨token, rest, split⟩ := List.exists_cons_of_ne_nil more
  have ahead : token ∈ place.stream.remaining.head? := by simp [split]
  cases shadow : token.isShadow with
  | true =>
    have filled : place.stream.shadows ≠ [] := by simp [TokenStream.shadows, split, shadow]
    have hidden : ∀ token ∈ place.stream.shadows, token.isShadow = true := fun _ => List.mem_takeWhile_imp
    have behind := place.stream.head_skipShadows
    have apart : ∀ token ∈ place.stream.passed.head?, token.isVisible = true := by
      rcases borders with visible | visible
      · exact visible
      · simpa [Token.isVisible, shadow] using visible token ahead
    exact ⟨_, _, .shadows place.stream.covers_shadows filled hidden apart behind, .inr behind⟩
  | false =>
    have visible : token.isVisible = true := by simp [Token.isVisible, shadow]
    obtain ⟨answer, middle, first⟩ : ∃ answer middle, FirstMatch world bindings place answer middle := by
      apply FirstMatch.exists_of_answers
      intro earlier binding rest tried split inVain
      have member : binding ∈ bindings := by simp [split]
      apply (builtIn binding member).terminates_iff.mp
      exact terminates _ _ ⟨before, place, earlier, binding, rest, reached, ⟨token, ahead, visible⟩, split, rfl, inVain⟩
    exact exists_step_of_first builtIn total ahead visible first

/-- Where segments lead to a place, further segments lead to the end. -/
theorem exists_steps (terminates : ∀ rule situation, Tries world bindings tokens rule situation →
      rule.Terminates world situation)
    (reached : Steps world bindings { stream := .ofTokens tokens, memory := {} } before place)
    (borders : Borders place.stream) :
    ∃ segments finish, Steps world bindings place segments finish ∧ finish.stream.remaining = [] := by
  induction size : place.stream.remaining.length using Nat.strongRecOn generalizing place before with
  | ind size ih =>
    subst size
    by_cases more : place.stream.remaining = []
    · exact ⟨[], place, .nil place, more⟩
    · obtain ⟨segment, after, step, borders⟩ := exists_step builtIn total terminates reached borders more
      have shorter : after.stream.remaining.length < place.stream.remaining.length := by
        have filled := List.length_pos_iff.mpr step.source_ne_nil
        rw [step.covers.remaining_eq, List.length_append]
        omega
      obtain ⟨segments, finish, steps, ends⟩ :=
        ih _ shorter (reached.append (.cons step (.nil after))) borders rfl
      exact ⟨segment :: segments, finish, .cons step steps, ends⟩

end Total

theorem decomposes_unique {others : List Segment} (first : Decomposes world bindings tokens segments)
    (second : Decomposes world bindings tokens others) : segments = others := by
  obtain ⟨_, steps, ends⟩ := first
  obtain ⟨_, steps', ends'⟩ := second
  exact steps.unique ends steps' ends'

theorem Decomposes.flatMap_source (decomposes : Decomposes world bindings tokens segments) :
    segments.flatMap Segment.source = tokens := by
  obtain ⟨finish, steps, ends⟩ := decomposes
  have split : tokens = _ ++ _ := steps.covers.remaining_eq
  rw [split, ends, List.append_nil]

/-- A pass over tokens that decompose writes what is written for the segments. -/
theorem Decomposes.exists_pieces (decomposes : Decomposes world bindings tokens segments) :
    ∃ written after,
      Gives (fun fuel => pieces world fuel bindings) { stream := .ofTokens tokens, memory := {} } written after ∧
      Passage.output written = segments.flatMap Segment.output := by
  obtain ⟨finish, steps, ends⟩ := decomposes
  exact @Steps.exists_pieces _ _ _ _ _ steps ends (.ofTokens tokens) [] ⟨rfl, rfl⟩ (by simp)

theorem result_process {engine : Engine} {fuel : Nat} {written : List Piece}
    (writes : pieces world fuel engine.bindings { stream := .ofTokens tokens, memory := {} } = .ok written after) :
    (engine.process world fuel tokens).result = .ok written := by
  rw [process, writes]

/-- Where rules are built in and the tries of a pass terminate, the tokens decompose into segments in exactly one way,
and with enough fuel the pass writes the outputs of the segments. It runs rules on the given tokens only: what they
would answer on other tokens, such as those that it writes, makes no difference. -/
theorem process_decomposes (engine : Engine) (tokens : List Token)
    (builtIn : ∀ binding ∈ engine.bindings, binding.rule.BuiltIn world)
    (total : ∀ binding ∈ engine.bindings, binding.action.IsTotal world.store)
    (terminates : ∀ rule situation, Tries world engine.bindings tokens rule situation → rule.Terminates world situation) :
    ∃ segments,
      Decomposes world engine.bindings tokens segments ∧
      (∀ others, Decomposes world engine.bindings tokens others → others = segments) ∧
      segments.flatMap Segment.source = tokens ∧ (∀ segment ∈ segments, segment.source ≠ []) ∧
      (∃ enough, ∀ fuel, enough ≤ fuel → ∃ written, (engine.process world fuel tokens).result = .ok written ∧
        Passage.output written = segments.flatMap Segment.output) ∧
      ∀ each fuel,
        (∀ rule situation, situation.stream.tokens = tokens → each rule situation = rule.run world fuel situation) →
        piecesFrom world each engine.bindings fuel { stream := .ofTokens tokens, memory := {} } =
          pieces world fuel engine.bindings { stream := .ofTokens tokens, memory := {} } := by
  have borders : Borders (.ofTokens tokens) := .inl (by simp [TokenStream.ofTokens])
  obtain ⟨segments, finish, steps, ends⟩ := exists_steps builtIn total terminates (.nil _) borders
  have decomposes : Decomposes world engine.bindings tokens segments := ⟨finish, steps, ends⟩
  refine ⟨segments, decomposes, fun others other => decomposes_unique other decomposes, decomposes.flatMap_source,
    steps.source_ne_nil, ?_, ?_⟩
  · obtain ⟨written, after, ⟨enough, writes⟩, output_eq⟩ := decomposes.exists_pieces
    refine ⟨enough, fun fuel atLeast => ⟨written, ?_, output_eq⟩⟩
    exact result_process ((pieces_grows engine.bindings).eq_of_le writes atLeast)
  · intro each fuel agree
    exact piecesFrom_congr agree fuel (TokenStream.tokens_ofTokens tokens)

end Engine

/-- An engine that puts further brackets around brackets. -/
def Brackets.engine : Engine := { bindings := [⟨nested, .wrap opening closing⟩] }

theorem Engine.exists_segments_of_pass :
    ∃ segments,
      Decomposes Brackets.world Brackets.engine.bindings Brackets.stream.tokens segments ∧
      segments.flatMap Segment.source = Brackets.stream.tokens ∧
      ∃ fuel written, (Brackets.engine.process Brackets.world fuel Brackets.stream.tokens).result = .ok written ∧
        Passage.output written = segments.flatMap Segment.output := by
  have builtIn : ∀ binding ∈ Brackets.engine.bindings, binding.rule.BuiltIn Brackets.world := by
    intro binding member
    rw [List.mem_singleton.mp member]
    exact Brackets.nested_builtIn
  have total : ∀ binding ∈ Brackets.engine.bindings, binding.action.IsTotal Brackets.world.store := by
    intro binding member captures found
    rw [List.mem_singleton.mp member]
    exact ⟨_, rfl⟩
  have terminates : ∀ rule situation,
      Tries Brackets.world Brackets.engine.bindings Brackets.stream.tokens rule situation →
        rule.Terminates Brackets.world situation := by
    intro rule situation tries
    obtain ⟨_, _, before, binding, rest, -, -, split, rfl, -⟩ := tries
    have member : binding ∈ Brackets.engine.bindings := by simp [split]
    rw [List.mem_singleton.mp member]
    exact Rule.brackets_isProductive.terminates (List.mem_cons_self ..) situation
  obtain ⟨segments, decomposes, -, source_eq, -, ⟨enough, writes⟩, -⟩ :=
    process_decomposes Brackets.engine Brackets.stream.tokens builtIn total terminates
  obtain ⟨written, result_eq, output_eq⟩ := writes enough (Nat.le_refl enough)
  exact ⟨segments, decomposes, source_eq, enough, written, result_eq, output_eq⟩

end TokenGrammar
