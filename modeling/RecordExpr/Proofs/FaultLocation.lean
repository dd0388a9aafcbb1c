import RecordExpr.Proofs.BlamedCalls
import RecordExpr.Proofs.DecidableOutcomes
import RecordExpr.Proofs.Reprinting
import RecordExpr.Proofs.TokenRanges

set_option autoImplicit false

namespace RecordExpr

open String (utf8Len)

variable {α β : Type} {all : List Token} {token : Token}

/-- The error shows one of these tokens, which is not the end of the text; or it says that the text
ends too early, or that the name of an attribute is missing. -/
def ParseError.Shows (all : List Token) : ParseError → Prop
  | unexpectedToken token => token ∈ all ∧ token.kind ≠ .endOfText
  | unexpectedEnd _ => True
  | expectedClosingParen token => token ∈ all ∧ token.kind ≠ .endOfText
  | expectedAttributeName token => token ∈ all

theorem ParseError.shows_atDelimiter (member : token ∈ all) : (atDelimiter token).Shows all := by
  unfold atDelimiter
  split
  · trivial
  · rename_i inside
    refine ⟨member, ?_⟩
    intro isEnd
    exact inside (beq_iff_eq.mpr isEnd)

namespace Expr

/-- What is read is good, or the error shows one of these tokens. -/
def Reads (all : List Token) (good : α → Prop) : Except ParseError (α × Nat) → Prop
  | .ok (a, _) => good a
  | .error e => e.Shows all

/-- A reader that goes on with what another one has read. -/
theorem Reads.bind {good : α → Prop} {better : β → Prop} {x : Except ParseError (α × Nat)}
    {f : α × Nat → Except ParseError (β × Nat)} (first : Reads all good x)
    (second : ∀ a n, good a → Reads all better (f (a, n))) : Reads all better (x >>= f) := by
  cases x with
  | ok read => exact second read.1 read.2 first
  | error e => exact first

/-- All calls in the tree have their tokens from these, and none of them is the end of the text. -/
def CallsFrom (all : List Token) : Expr → Prop :=
  EveryCall fun token _ _ => token ∈ all ∧ token.kind ≠ .endOfText

theorem callsFrom_of_children {e : Expr} (noCall : ∀ token name args, e ≠ call token name args)
    (below : ∀ child ∈ e.children, child.CallsFrom all) : e.CallsFrom all :=
  .of_children (fun token name args same => absurd same (noCall token name args)) below

theorem CallsFrom.member {target : Expr} (inside : target.CallsFrom all) (token : Token)
    (name : String) : (member token target name).CallsFrom all :=
  callsFrom_of_children nofun (List.forall_mem_singleton.mpr inside)

theorem CallsFrom.unary {operand : Expr} (inside : operand.CallsFrom all) (token : Token)
    (op : UnaryOp) : (unary token op operand).CallsFrom all :=
  callsFrom_of_children nofun (List.forall_mem_singleton.mpr inside)

theorem CallsFrom.binary {lhs rhs : Expr} (left : lhs.CallsFrom all) (right : rhs.CallsFrom all)
    (token : Token) (op : BinaryOp) : (binary token op lhs rhs).CallsFrom all :=
  callsFrom_of_children nofun
    (List.forall_mem_cons.mpr ⟨left, List.forall_mem_singleton.mpr right⟩)

theorem callsFrom_call {name : String} {args : List Expr} (member : token ∈ all)
    (isWord : token.kind = .word name) (inside : ∀ arg ∈ args, arg.CallsFrom all) :
    (call token name args).CallsFrom all := by
  refine EveryCall.of_children ?_ inside
  rintro _ _ _ ⟨⟩
  rw [isWord]
  exact ⟨member, TokenKind.noConfusion⟩

theorem reads_members {target : Expr} {tokens : List Token} (within : tokens ⊆ all)
    (known : target.CallsFrom all) : Reads all (CallsFrom all) (parseMembers target tokens) := by
  fun_induction parseMembers target tokens with
  | case1 => exact known
  | case2 => trivial
  | case3 => exact known
  | case4 target dot name rest isDot token next attributeName isWord ih =>
      have later : rest ⊆ all := (List.cons_subset.mp (List.cons_subset.mp within).2).2
      exact (ih attributeName later (known.member token attributeName)).bind fun e n good => good
  | case5 target dot name rest isDot token next attributeName isField ih =>
      have later : rest ⊆ all := (List.cons_subset.mp (List.cons_subset.mp within).2).2
      exact (ih attributeName later (known.member token attributeName)).bind fun e n good => good
  | case6 target dot name rest => exact within (List.mem_cons_of_mem dot List.mem_cons_self)
  | case7 => exact known

theorem drop_within {rest : List Token} (within : rest ⊆ all) (n : Nat) : rest.drop n ⊆ all :=
  List.Subset.trans (List.drop_subset n rest) within

-- The induction follows the parser, as for the tokens that it takes. Here the readers fail too, so
-- it goes through their definitions and not through the rules for when they succeed.
mutual

theorem reads_expr (strength : Nat) {tokens : List Token} (within : tokens ⊆ all) :
    Reads all (CallsFrom all) (parseExpr strength tokens) := by
  rw [parseExpr]
  apply (reads_operand within).bind
  intro first n known
  exact (reads_operators strength (drop_within within n) known).bind fun e m good => good
termination_by (tokens.length, 3)
decreasing_by
  · rw [Prod.lex_def]
    omega
  · rw [Prod.lex_def, List.length_drop]
    omega

theorem reads_operators (strength : Nat) {lhs : Expr} {tokens : List Token}
    (within : tokens ⊆ all) (known : lhs.CallsFrom all) :
    Reads all (CallsFrom all) (parseOperators strength lhs tokens) := by
  match tokens with
  | [] =>
      rw [parseOperators]
      exact known
  | token :: rest =>
      have later : rest ⊆ all := (List.cons_subset.mp within).2
      rw [parseOperators]
      split
      · rename_i op isOp
        split
        · apply (reads_operand later).bind
          intro first n firstKnown
          apply (reads_stronger op.strength (drop_within later n) firstKnown).bind
          intro rhs m right
          exact (reads_operators strength (drop_within later (n + m))
            (known.binary right token op)).bind fun e k good => good
        · exact known
      · exact known
termination_by (tokens.length, 2)
decreasing_by
  all_goals rw [Prod.lex_def]
  all_goals simp only [List.length_drop, List.length_cons]
  all_goals omega

theorem reads_stronger (strength : Nat) {rhs : Expr} {tokens : List Token}
    (within : tokens ⊆ all) (known : rhs.CallsFrom all) :
    Reads all (CallsFrom all) (parseStronger strength rhs tokens) := by
  match tokens with
  | [] =>
      rw [parseStronger]
      exact known
  | token :: rest =>
      rw [parseStronger]
      split
      · rename_i next isOp
        split
        · apply (reads_operators next.strength within known).bind
          intro e n inside
          have later := drop_within (List.cons_subset.mp within).2 (n - 1)
          exact (reads_stronger strength later inside).bind fun e m good => good
        · exact known
      · exact known
termination_by (tokens.length, 3)
decreasing_by
  · exact Prod.Lex.right _ (by decide)
  · rw [Prod.lex_def, List.length_drop, List.length_cons]
    omega

theorem reads_operand {tokens : List Token} (within : tokens ⊆ all) :
    Reads all (CallsFrom all) (parseOperand tokens) := by
  match tokens with
  | [] =>
      rw [parseOperand]
      trivial
  | token :: rest =>
      obtain ⟨isToken, later⟩ := List.cons_subset.mp within
      rw [parseOperand]
      split
      · exact (reads_operand later).bind fun operand n good => good.unary token .negate
      · exact (reads_expr notStrength later).bind fun operand n good => good.unary token .not
      · apply (reads_primary isToken later).bind
        intro target n known
        exact (reads_members (drop_within later n) known).bind fun e m good => good
termination_by (tokens.length, 2)
decreasing_by
  all_goals rw [Prod.lex_def, List.length_cons]
  all_goals omega

theorem reads_primary {token : Token} {rest : List Token} (isToken : token ∈ all)
    (within : rest ⊆ all) :
    Reads all (CallsFrom all) (parsePrimary token rest) := by
  rw [parsePrimary]
  split
  · exact callsFrom_of_children nofun nofun
  · exact callsFrom_of_children nofun nofun
  · rename_i name isWord
    cases behind : rest with
    | nil => exact callsFrom_of_children nofun nofun
    | cons paren inner =>
        have shorter : inner.length < rest.length := by
          rw [behind]
          exact Nat.lt_succ_self _
        have later : inner ⊆ all := (List.cons_subset.mp (behind ▸ within)).2
        simp only
        split
        · exact (reads_arguments later).bind fun args n good => callsFrom_call isToken isWord good
        · exact callsFrom_of_children nofun nofun
  · apply (reads_expr 1 within).bind
    intro e n known
    simp only
    split
    · trivial
    · rename_i close more behind
      split
      · exact known
      · apply ParseError.shows_atDelimiter
        exact drop_within within n (behind ▸ List.mem_cons_self)
  · trivial
  · rename_i other
    exact ⟨isToken, other⟩
termination_by (rest.length, 4)
decreasing_by
  all_goals rw [Prod.lex_def]
  all_goals omega

theorem reads_arguments {tokens : List Token} (within : tokens ⊆ all) :
    Reads all (fun args => ∀ arg ∈ args, arg.CallsFrom all) (parseArguments tokens) := by
  rcases empty_or_more tokens with ⟨right, rest, rfl, isRight⟩ | same
  · rw [parseArguments_empty isRight]
    exact nofun
  · rw [same]
    exact reads_moreArguments within
termination_by (tokens.length, 5)
decreasing_by
  rw [Prod.lex_def]
  omega

theorem reads_moreArguments {tokens : List Token} (within : tokens ⊆ all) :
    Reads all (fun args => ∀ arg ∈ args, arg.CallsFrom all) (parseMoreArguments tokens) := by
  rw [parseMoreArguments]
  apply (reads_expr 1 within).bind
  intro first n known
  simp only
  split
  · trivial
  · rename_i delimiter rest behind
    obtain ⟨isToken, later⟩ := List.cons_subset.mp (behind ▸ drop_within within n)
    have shorter : rest.length < tokens.length := by
      have := congrArg List.length behind
      rw [List.length_drop, List.length_cons] at this
      omega
    split
    · apply (reads_moreArguments later).bind
      intro more m others
      exact List.forall_mem_cons.mpr ⟨known, others⟩
    · split
      · exact List.forall_mem_singleton.mpr known
      · exact ParseError.shows_atDelimiter isToken
termination_by (tokens.length, 4)
decreasing_by
  all_goals rw [Prod.lex_def]
  all_goals omega

end

/-- The whole list is a tree whose calls are from it. -/
theorem callsFrom_of_parsed {tokens : List Token} {e : Expr} (parsed : ofTokens tokens = .ok e) :
    e.CallsFrom tokens := by
  have read := reads_expr 1 (List.Subset.refl tokens)
  obtain ⟨n, whole, -⟩ := ofTokens_eq_ok.mp parsed
  rw [whole] at read
  exact read

theorem shows_of_unparsed {tokens : List Token} {e : ParseError}
    (failed : ofTokens tokens = .error e) : e.Shows tokens := by
  have read := reads_expr 1 (List.Subset.refl tokens)
  rw [ofTokens] at failed
  cases parsed : parseExpr 1 tokens with
  | error problem =>
      rw [parsed] at read failed
      cases failed
      exact read
  | ok found =>
      rw [parsed] at failed
      simp only [bind, Except.bind] at failed
      split at failed
      · cases failed
      · rename_i token rest behind
        split at failed
        · cases failed
        · rename_i inside
          cases failed
          refine ⟨List.mem_of_mem_drop (behind ▸ List.mem_cons_self), ?_⟩
          intro isEnd
          exact inside (beq_iff_eq.mpr isEnd)

end Expr

/-- A text that cannot be cut into tokens shows the character where that is so: behind tokens and
blanks, one that is no blank and begins no token. -/
theorem error_of_scan {front cs : List Char} {e : LexError}
    (failed : Token.scan (.behind front) cs = .error e) :
    ∃ before c back kinds, cs = before ++ c :: back ∧ Lexes cs kinds (c :: back) ∧
      Lexeme.isSpace c = false ∧ lexeme? c back = none ∧
      e = LexError.atCharacter (.behind (front ++ before)) c := by
  match cs, failed with
  | [], failed =>
      rw [Token.scan] at failed
      cases failed
  | c :: cs, failed =>
      by_cases isSpace : Lexeme.isSpace c = true
      · rw [Token.scan_blank isSpace, ← Position.behind_append_singleton] at failed
        obtain ⟨before, d, back, kinds, rfl, lexes, visible, nothing, rfl⟩ := error_of_scan failed
        refine ⟨c :: before, d, back, kinds, rfl, .blank isSpace lexes, visible, nothing, ?_⟩
        rw [List.append_assoc, List.singleton_append]
      · have visible := Bool.eq_false_iff.mpr isSpace
        cases found : lexeme? c cs with
        | none =>
            rw [Token.scan, if_neg isSpace, found] at failed
            cases failed
            exact ⟨[], c, cs, [], rfl, .done, visible, found, by rw [List.append_nil]⟩
        | some token =>
            obtain ⟨kind, width⟩ := token
            rw [Token.scan_lexeme visible found, ← Position.behind_append] at failed
            cases later : Token.scan (.behind (front ++ c :: cs.take width)) (cs.drop width) with
            | ok more =>
                rw [later] at failed
                cases failed
            | error problem =>
                rw [later] at failed
                cases failed
                obtain ⟨before, d, back, kinds, split, lexes, visibleThere, nothing, rfl⟩ :=
                  error_of_scan later
                refine ⟨c :: (cs.take width ++ before), d, back, kind :: kinds, ?_,
                  .token visible found lexes, visibleThere, nothing, ?_⟩
                · rw [List.cons_append, List.append_assoc, ← split, List.take_append_drop]
                · rw [List.append_assoc, List.cons_append]
termination_by cs.length
decreasing_by
  · exact Nat.lt_succ_self _
  · rw [List.length_drop, List.length_cons]
    omega

theorem range_atCharacter (here : Position) {c : Char} (visible : Lexeme.isSpace c = false) :
    (LexError.atCharacter here c).range = ⟨here, here.next c⟩ := by
  have sameLine : c ≠ '\n' := by
    rintro rfl
    cases visible
  rw [Position.next, if_neg sameLine]
  unfold LexError.atCharacter
  split
  · rfl
  · split
    · rfl
    · rfl

/-- Where an error in this text comes from: the character that begins no token, or one of the
tokens. -/
def Fault.Within (text : String) : Fault → Prop
  | lex e => ∃ before c back, text.toList = before ++ c :: back ∧ Lexeme.isSpace c = false ∧
      e = LexError.atCharacter (.behind before) c
  | parse e => ∃ tokens, Expr.tokenize text = .ok tokens ∧ e.Shows tokens
  | eval e => ∃ tokens, Expr.tokenize text = .ok tokens ∧ e.token ∈ tokens ∧
      e.token.kind ≠ .endOfText

namespace ExprError

/-- The errors that tokens, tree and value of a text can end with: the value in both modes, for any
record, and whoever answers what is asked. -/
inductive Arises (text : String) : ExprError → Prop where
  | tokenize {e : ExprError} (failed : Expr.tokenize text = .error e) : Arises text e
  | parse {e : ExprError} (failed : Expr.ofText text = .error e) : Arises text e
  | evaluate {e : ExprError} {σ : Type} (mode : Mode) (subject : Record)
      (answer : Reference → StateM σ (Option Record)) (s : σ)
      (failed : ((Expr.evaluateText mode subject text).run answer s).1 = .error e) : Arises text e

variable {text : String} {e : ExprError}

theorem within_of_tokenize (failed : Expr.tokenize text = .error e) :
    e.source = text ∧ e.fault.Within text := by
  rw [Expr.tokenize] at failed
  cases scanned : Token.ofText text.toList with
  | ok tokens =>
      rw [scanned] at failed
      cases failed
  | error problem =>
      rw [scanned] at failed
      cases failed
      have begins : Token.scan (.behind []) text.toList = .error problem := scanned
      obtain ⟨before, c, back, -, split, -, visible, -, shown⟩ := error_of_scan begins
      exact ⟨rfl, before, c, back, split, visible, shown⟩

theorem within_of_ofText (failed : Expr.ofText text = .error e) :
    e.source = text ∧ e.fault.Within text := by
  rw [Expr.ofText] at failed
  cases read : Expr.tokenize text with
  | error problem =>
      rw [read] at failed
      cases failed
      exact within_of_tokenize read
  | ok tokens =>
      rw [read] at failed
      cases parsed : Expr.ofTokens tokens with
      | ok tree =>
          simp only [bind, Except.bind, parsed] at failed
          cases failed
      | error problem =>
          simp only [bind, Except.bind, parsed] at failed
          cases failed
          exact ⟨rfl, tokens, read, Expr.shows_of_unparsed parsed⟩

/-- The token of a call that is blamed is one of the text. -/
theorem within_of_blamed {tree : Expr} {problem : EvalError} (parsed : Expr.ofText text = .ok tree)
    (blames : tree.Blames problem) : (Fault.eval problem).Within text := by
  obtain ⟨tokens, scanned, whole⟩ := Expr.ofText_eq_ok.mp parsed
  have read : Expr.tokenize text = .ok tokens := by
    rw [Expr.tokenize, scanned]
    rfl
  have known := Expr.callsFrom_of_parsed whole
  refine ⟨tokens, read, ?_⟩
  cases problem with
  | notDefined token name =>
      obtain ⟨args, inside, -⟩ := blames
      exact known token name args inside
  | wrongArgumentCount token name expected given =>
      obtain ⟨args, callee, inside, -⟩ := blames
      exact known token name args inside

theorem Arises.within (arises : e.Arises text) : e.source = text ∧ e.fault.Within text := by
  cases arises with
  | tokenize failed => exact within_of_tokenize failed
  | parse failed => exact within_of_ofText failed
  | evaluate mode subject answer s failed =>
      cases parsed : Expr.ofText text with
      | error problem =>
          rw [Expr.evaluateText_of_unparsed parsed] at failed
          cases failed
          exact within_of_ofText parsed
      | ok tree =>
          rw [Expr.evaluateText_of_parsed mode subject parsed, Dialogue.run_bind] at failed
          cases evaluated : ((tree.evaluate mode subject).run.run answer s).1 with
          | ok v =>
              rw [evaluated] at failed
              cases failed
          | error problem =>
              rw [evaluated] at failed
              cases failed
              exact ⟨rfl, within_of_blamed parsed (Expr.blames_of_failed evaluated)⟩

/-- The location begins and ends between two characters of the text, and is empty in an empty text
only. -/
structure Inside (e : ExprError) : Prop where
  start : String.Pos.Raw.IsValid e.source ⟨e.location.1⟩
  stop : String.Pos.Raw.IsValid e.source ⟨e.location.1 + e.location.2⟩
  within : e.location.1 + e.location.2 ≤ e.source.utf8ByteSize
  filled : e.source ≠ "" → 1 ≤ e.location.2

/-- The location is the place of `part` in the text. -/
theorem inside_of_part {front part back : List Char}
    (split : e.source.toList = front ++ part ++ back)
    (filled : e.source ≠ "" → part ≠ [])
    (located : e.location = (utf8Len front, utf8Len part)) : e.Inside := by
  have stop : e.location.1 + e.location.2 = utf8Len (front ++ part) := by
    rw [located, String.utf8Len_append]
  have valid := isValid_utf8Len split
  refine ⟨?_, stop ▸ valid, ?_, ?_⟩
  · rw [located]
    rw [List.append_assoc] at split
    exact isValid_utf8Len split
  · rw [stop]
    exact valid.le_utf8ByteSize
  · intro notEmpty
    rw [located]
    exact utf8Len_pos (filled notEmpty)

/-- The fault shows at the place of `part`, which is not empty. -/
theorem inside_of_range {front part back : List Char}
    (split : e.source.toList = front ++ part ++ back) (filled : part ≠ [])
    (shows : e.fault.range? = some ⟨.behind front, .behind (front ++ part)⟩) : e.Inside := by
  apply inside_of_part split fun _ => filled
  have some_bytes := utf8Len_pos filled
  rw [location, shows]
  simp only
  rw [split, Range.span_behind, Nat.max_eq_left some_bytes]

theorem inside_of_token {token : Token} (read : ∃ tokens, Expr.tokenize e.source = .ok tokens ∧
      token ∈ tokens ∧ token.kind ≠ .endOfText)
    (shows : e.fault.range? = some token.range) : e.Inside := by
  obtain ⟨tokens, read, member, visible⟩ := read
  rcases spans_of_tokenize read member with ⟨isEnd, -⟩ |
    ⟨front, word, isToken, ⟨back, split⟩, place⟩
  · exact absurd isEnd visible
  · rw [place] at shows
    exact inside_of_range split isToken.filled shows

theorem lastCharacter_append (front : List Char) (c : Char) :
    lastCharacter (front ++ [c]) = (utf8Len front, utf8Len [c]) := by
  have size : front.foldr (fun c size => c.utf8Size + size) 0 = utf8Len front := by
    induction front with
    | nil => rfl
    | cons d front ih => rw [List.foldr_cons, ih, String.utf8Len_cons, Nat.add_comm]
  rw [lastCharacter, List.getLast?_concat, List.dropLast_concat]
  simp only [size, String.utf8Len_cons, String.utf8Len_nil, Nat.zero_add]

/-- A text that ends too early is at fault in its last character, if it has one. -/
theorem inside_of_lastCharacter (nowhere : e.fault.range? = none) : e.Inside := by
  have located : e.location = lastCharacter e.source.toList := by
    rw [location, nowhere]
  rcases List.eq_nil_or_concat' e.source.toList with empty | ⟨front, c, split⟩
  · have whole : e.source.toList = [] ++ [] ++ [] := empty
    rw [empty] at located
    refine inside_of_part whole ?_ located
    intro notEmpty
    exact absurd (String.toList_eq_nil_iff.mp empty) notEmpty
  · have whole : e.source.toList = front ++ [c] ++ [] := by
      rw [split, List.append_nil]
    rw [split, lastCharacter_append] at located
    exact inside_of_part whole (fun _ => List.cons_ne_nil c []) located

/-- The text ends behind a dot, where the name of an attribute is missing. -/
def EndsWithDot (e : ExprError) : Prop :=
  ∃ token, e.fault = .parse (.expectedAttributeName token) ∧ token.kind = .endOfText

theorem location_of_endsWithDot (within : e.fault.Within e.source) (endsWithDot : e.EndsWithDot) :
    e.location = (e.source.utf8ByteSize, 1) := by
  obtain ⟨token, fault, isEnd⟩ := endsWithDot
  rw [fault] at within
  obtain ⟨tokens, read, member⟩ := within
  rcases spans_of_tokenize read member with ⟨-, -, place⟩ | ⟨_, _, isToken, -⟩
  · have spanned := Range.span_behind e.source.toList [] []
    rw [← place] at spanned
    simp only [List.append_nil] at spanned
    rw [location, fault]
    simp only [Fault.range?, ParseError.token]
    rw [spanned, String.utf8Len_toList]
    rfl
  · exact absurd isEnd isToken.ne_endOfText

theorem inside_of_within (within : e.fault.Within e.source) (other : ¬ e.EndsWithDot) :
    e.Inside := by
  obtain ⟨fault, text⟩ := e
  cases fault with
  | lex problem =>
      obtain ⟨before, c, back, split, visible, rfl⟩ := within
      have whole : text.toList = before ++ [c] ++ back := by
        rw [split, List.append_assoc, List.singleton_append]
      apply inside_of_range whole (List.cons_ne_nil c [])
      rw [Position.behind_append_singleton, ← range_atCharacter _ visible]
      rfl
  | eval problem => exact inside_of_token within rfl
  | parse problem =>
      cases problem with
      | unexpectedEnd token => exact inside_of_lastCharacter rfl
      | unexpectedToken token => exact inside_of_token within rfl
      | expectedClosingParen token => exact inside_of_token within rfl
      | expectedAttributeName token =>
          obtain ⟨tokens, read, member⟩ := within
          refine inside_of_token ⟨tokens, read, member, ?_⟩ rfl
          exact fun isEnd => other ⟨token, rfl, isEnd⟩

/-- Every error of a text lies inside the text, unless the text ends with a dot: then it lies behind
the last character, and one byte of its location is out of the text. -/
theorem location_inside (arises : e.Arises text) :
    e.source = text ∧ (¬ e.EndsWithDot → e.Inside) ∧
      (e.EndsWithDot → e.location = (text.utf8ByteSize, 1)) := by
  obtain ⟨rfl, within⟩ := arises.within
  exact ⟨rfl, inside_of_within within, location_of_endsWithDot within⟩

/-- A call of an unknown function in the second line, behind a character of two bytes. -/
def zonesText : String := "'höhe' +\n  zones()"

theorem zones_located :
    ∃ e : ExprError, e.Arises zonesText ∧ ¬ e.EndsWithDot ∧ e.location = (12, 5) ∧ e.Inside := by
  let e : ExprError := ⟨.eval (.notDefined ⟨.word "zones", ⟨⟨2, 3⟩, ⟨2, 8⟩⟩⟩ "zones"), zonesText⟩
  have other : ¬ e.EndsWithDot := by
    rintro ⟨_, ⟨⟩, -⟩
  have arises : e.Arises zonesText := by
    apply Arises.evaluate .value .empty (fun _ => (pure none : StateM Unit (Option Record))) ()
    decide +kernel
  refine ⟨e, arises, other, ?_, (location_inside arises).2.1 other⟩
  decide +kernel

/-- Behind the dot at the end of a text the location leaves the text. -/
theorem dot_at_the_end_outside :
    ∃ e, Expr.ofText "{a}." = .error e ∧ e.location = (4, 1) ∧ ¬ e.Inside := by
  let e : ExprError :=
    ⟨.parse (.expectedAttributeName ⟨.endOfText, ⟨⟨1, 5⟩, ⟨1, 5⟩⟩⟩), "{a}."⟩
  have unparsed : Expr.ofText "{a}." = .error e := by
    with_unfolding_all rfl
  have located : e.location = (4, 1) := by
    decide +kernel
  refine ⟨e, unparsed, located, ?_⟩
  intro inside
  have within := inside.within
  rw [located] at within
  exact absurd within (by decide)

end ExprError

end RecordExpr
