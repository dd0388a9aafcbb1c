import RecordExpr.Proofs.DecidableOutcomes
import RecordExpr.Proofs.Nodes
import RecordExpr.Proofs.Unplaced

set_option autoImplicit false

namespace RecordExpr

open Lexeme

/-- A word begins with a letter or an underscore, and has letters, digits and underscores. -/
def IsWord (name : String) : Prop :=
  ∃ c more, name.toList = c :: more ∧ isWordStart c = true ∧ ∀ d ∈ more, isWordPart d = true

namespace Expr

/-- The text of the node does not run into its own or its target's text. -/
def Legible : Expr → Prop
  | literal _ (.string s) => s.toList.getLast? ≠ some '\\'
  | member _ target name => IsWord name ∧ ¬target.IsNegation
  | _ => True

/-- What is known of a node that was read from a text. -/
def Known : Expr → Prop
  | literal _ (.number x) => x.isNegative = false ∧ x.isNaN = false
  | field _ name => '\x7d' ∉ name.toList
  | call _ name _ => IsName name
  | _ => True

end Expr

/-- There is one positive infinity. -/
theorem Number.eq_infinity {x : Number} (number : x.isNaN = false) (infinite : x.isFinite = false)
    (positive : x.isNegative = false) : x = infinity false := by
  rw [infinity, ← magnitude_of_infinite number infinite, ← positive, ofMagnitude_magnitude]

namespace Printed

/-- The characters of a string up to its closing quote; a backslash counts only before a quote. -/
def readString : List Char → Option (List Char × List Char)
  | [] => none
  | '\\' :: '\'' :: rest => (readString rest).map fun (body, rest) => ('\'' :: body, rest)
  | '\'' :: rest => some ([], rest)
  | c :: rest => (readString rest).map fun (body, rest) => (c :: body, rest)

/-- The literals that are printed as words. -/
def wordLiteral? (word : List Char) : Option Literal :=
  [.bool true, .bool false, .null, .number (Number.infinity false)].find? fun l =>
    l.text.toList = word

def operators : List BinaryOp :=
  [.or, .and, .compare .equal, .compare .notEqual, .compare .less, .compare .lessEqual,
    .compare .greater, .compare .greaterEqual, .compare .like, .add, .subtract, .multiply, .divide,
    .modulo]

def operator? (symbol : List Char) : Option BinaryOp :=
  operators.find? fun op => op.symbol.toList = symbol

/-- The accesses behind a tree. -/
def readAccesses (target : Expr) (cs : List Char) : Expr × List Char :=
  match cs with
  | '.' :: rest =>
    readAccesses (.member Token.missing target (String.ofList (rest.takeWhile isWordPart)))
      (rest.dropWhile isWordPart)
  | _ => (target, cs)
termination_by cs.length
decreasing_by
  have := (List.dropWhile_suffix (l := rest) isWordPart).length_le
  simp only [List.length_cons]
  omega

section Readers

variable (read : List Char → Option (Expr × List Char))

/-- One or more arguments, up to the closing parenthesis. -/
def readMoreArguments : Nat → List Char → Option (List Expr × List Char)
  | 0, _ => none
  | limit + 1, cs =>
    match read cs with
    | some (first, ')' :: rest) => some ([first], rest)
    | some (first, ',' :: ' ' :: rest) =>
      (readMoreArguments limit rest).map fun (more, rest) => (first :: more, rest)
    | _ => none

def readArguments : List Char → Option (List Expr × List Char)
  | [] => none
  | c :: rest =>
    if c = ')' then some ([], rest) else readMoreArguments read (c :: rest).length (c :: rest)

/-- A call, or a literal that is printed as a word. -/
def readWord (word : List Char) : List Char → Option (Expr × List Char)
  | '(' :: rest =>
    (readArguments read rest).map fun (args, rest) =>
      (.call Token.missing (String.ofList word) args, rest)
  | rest => (wordLiteral? word).map fun l => (.literal Token.missing l, rest)

/-- What stands in parentheses: a `not` with its operand, or an operator between its operands. -/
def readGroup : List Char → Option (Expr × List Char)
  | 'n' :: 'o' :: 't' :: ' ' :: rest =>
    match read rest with
    | some (operand, ')' :: rest) => some (.unary Token.missing .not operand, rest)
    | _ => none
  | cs =>
    match read cs with
    | some (lhs, ' ' :: rest) =>
      match operator? (rest.takeWhile (· ≠ ' ')), read ((rest.dropWhile (· ≠ ' ')).drop 1) with
      | some op, some (rhs, ')' :: rest) => some (.binary Token.missing op lhs rhs, rest)
      | _, _ => none
    | _ => none

/-- A tree that is no negation, without the accesses behind it. -/
def readHead (c : Char) (rest : List Char) : Option (Expr × List Char) :=
  if c = '(' then readGroup read rest
  else if c = '\x7b' then
    some (.field Token.missing (String.ofList (rest.takeWhile (· ≠ '\x7d'))),
      (rest.dropWhile (· ≠ '\x7d')).drop 1)
  else if c = '\'' then
    (readString rest).map fun (body, rest) =>
      (.literal Token.missing (.string (String.ofList body)), rest)
  else if c.isDigit then
    match number c rest with
    | (.literal l, width) => some (.literal Token.missing l, rest.drop width)
    | _ => none
  else readWord read ((c :: rest).takeWhile isWordPart) ((c :: rest).dropWhile isWordPart)

end Readers

/-- The tree that the text begins with, and the text behind it. This is not the reader of
expressions, which takes backslashes in strings for escapes and the text of an infinite number for a
name. -/
def readTree : Nat → List Char → Option (Expr × List Char)
  | 0, _ => none
  | _ + 1, [] => none
  | depth + 1, c :: rest =>
    if c = '-' then
      (readTree depth rest).map fun (operand, rest) => (.unary Token.missing .negate operand, rest)
    else
      (readHead (readTree depth) c rest).map fun (head, rest) => readAccesses head rest

/-- No quote comes first in a string that is written with escapes. -/
theorem head_escape {body : List Char} (filled : body ≠ []) (rest : List Char) :
    ∀ c ∈ (body.flatMap escape ++ rest).head?, c ≠ '\'' := by
  cases body with
  | nil => exact absurd rfl filled
  | cons d body =>
      rw [List.flatMap_cons, List.append_assoc]
      by_cases quote : d = '\''
      · rw [escape, if_pos quote]
        rintro _ ⟨rfl⟩
        decide
      · rw [escape, if_neg quote]
        rintro _ ⟨rfl⟩
        exact quote

theorem readString_plain {c : Char} {rest : List Char} (other : c ≠ '\'')
    (plain : c = '\\' → ∀ d ∈ rest.head?, d ≠ '\'') :
    readString (c :: rest) = (readString rest).map fun (body, rest) => (c :: body, rest) := by
  rw [readString]
  · rintro more rfl rfl
    exact plain rfl '\'' rfl rfl
  · exact other

/-- A string is read up to its closing quote unless it ends in a backslash. -/
theorem readString_escape {body : List Char} (ends : body.getLast? ≠ some '\\')
    (rest : List Char) :
    readString (body.flatMap escape ++ '\'' :: rest) = some (body, rest) := by
  induction body with
  | nil => rfl
  | cons c body ih =>
      rw [List.flatMap_cons, List.append_assoc]
      have inside : body.getLast? ≠ some '\\' := by
        cases body with
        | nil => exact nofun
        | cons d body => rwa [List.getLast?_cons_cons] at ends
      by_cases quote : c = '\''
      · rw [escape, if_pos quote, quote, List.cons_append, List.singleton_append, readString,
          ih inside]
        rfl
      · rw [escape, if_neg quote, List.singleton_append, readString_plain quote, ih inside]
        · rfl
        · intro backslash
          apply head_escape
          rintro rfl
          exact ends (congrArg some backslash)

theorem operator?_symbol (op : BinaryOp) : operator? op.symbol.toList = some op := by
  cases op with
  | compare relation => cases relation <;> decide +kernel
  | _ => decide +kernel

theorem symbol_unspaced (op : BinaryOp) : op.symbol.toList.all (fun c => c ≠ ' ') = true := by
  cases op with
  | compare relation => cases relation <;> decide +kernel
  | _ => decide +kernel

/-- Accesses to these attributes. -/
def accesses (names : List String) : List Char := names.flatMap fun name => '.' :: name.toList

/-- What can stand behind a tree with all its accesses. -/
structure Ends (rest : List Char) : Prop where
  follows : Follows rest
  noAccess : ∀ more, rest ≠ '.' :: more

theorem ends_nil : Ends [] := ⟨.nothing, nofun⟩

theorem ends_blank (rest : List Char) : Ends (' ' :: rest) := ⟨.blank rest, nofun⟩

theorem ends_paren (rest : List Char) : Ends (')' :: rest) := ⟨.paren rest, nofun⟩

theorem ends_comma (rest : List Char) : Ends (',' :: rest) := ⟨.comma rest, nofun⟩

variable {names : List String} {rest : List Char}

theorem follows_accesses (words : ∀ name ∈ names, IsWord name) (ends : Ends rest) :
    Follows (accesses names ++ rest) := by
  cases names with
  | nil => exact ends.follows
  | cons name names =>
      obtain ⟨c, more, chars, start, -⟩ := words name List.mem_cons_self
      rw [accesses, List.flatMap_cons, chars]
      exact .access start

/-- All accesses behind a tree are read. -/
theorem readAccesses_accesses (words : ∀ name ∈ names, IsWord name) (ends : Ends rest)
    (target : Expr) :
    readAccesses target (accesses names ++ rest) =
      (names.foldl (Expr.member Token.missing) target, rest) := by
  induction names generalizing target with
  | nil =>
      rw [accesses, List.flatMap_nil, List.nil_append, readAccesses]
      · rfl
      · exact ends.noAccess
  | cons name names ih =>
      obtain ⟨word, others⟩ := List.forall_mem_cons.mp words
      obtain ⟨c, more, chars, start, parts⟩ := word
      have inWord : ∀ d ∈ name.toList, isWordPart d = true := by
        rw [chars]
        exact List.forall_mem_cons.mpr ⟨isWordPart_of_isWordStart start, parts⟩
      obtain ⟨taken, behind⟩ := takeWhile_stretch (accesses names ++ rest) inWord
        (follows_accesses others ends).endsWord
      have split : accesses (name :: names) ++ rest =
          '.' :: (name.toList ++ (accesses names ++ rest)) := by
        rw [accesses, List.flatMap_cons, List.cons_append, List.cons_append, List.append_assoc,
          ← accesses]
      rw [split, readAccesses, taken, behind, String.ofList_toList, ih others]
      rfl

section Heads

variable {read : List Char → Option (Expr × List Char)} {c : Char} {body more behind : List Char}

theorem readHead_word (start : isWordStart c = true) (parts : ∀ d ∈ more, isWordPart d = true)
    (ends : ∀ d ∈ behind.head?, isWordPart d = false) :
    readHead read c (more ++ behind) = readWord read (c :: more) behind := by
  have inWord : ∀ d ∈ c :: more, isWordPart d = true :=
    List.forall_mem_cons.mpr ⟨isWordPart_of_isWordStart start, parts⟩
  obtain ⟨taken, left⟩ := takeWhile_stretch behind inWord ends
  have notMark : c ≠ '(' ∧ c ≠ '\x7b' ∧ c ≠ '\'' := by
    refine ⟨?_, ?_, ?_⟩ <;> rintro rfl <;> cases start
  rw [readHead, if_neg notMark.1, if_neg notMark.2.1, if_neg notMark.2.2,
    if_neg (Bool.eq_false_iff.mp (isDigit_of_isWordStart start)), ← List.cons_append, taken, left]

/-- A word that no parenthesis follows is a literal. -/
theorem readWord_literal {word : List Char} {l : Literal} (isLiteral : wordLiteral? word = some l)
    (follows : Follows behind) :
    readWord read word behind = some (.literal Token.missing l, behind) := by
  cases follows with
  | nothing => rw [readWord, isLiteral] <;> first | rfl | exact nofun
  | blank | paren | comma | access => rw [readWord, isLiteral] <;> first | rfl | exact nofun

/-- A literal that is printed as a word. -/
theorem readHead_literalWord {l : Literal} (start : isWordStart c = true)
    (parts : more.all isWordPart = true) (isLiteral : wordLiteral? (c :: more) = some l)
    (follows : Follows behind) :
    readHead read c (more ++ behind) = some (.literal Token.missing l, behind) := by
  rw [readHead_word start (List.all_eq_true.mp parts) follows.endsWord,
    readWord_literal isLiteral follows]

theorem readHead_number {x : Number} (finite : x.isFinite = true) (positive : x.isNegative = false)
    (text : x.text.toList = c :: body) (follows : Follows behind) :
    readHead read c (body ++ behind) = some (.literal Token.missing (.number x), behind) := by
  obtain ⟨whole, fraction, nonempty, digits, shape, value⟩ := Number.text_shape finite positive
  rw [text] at shape
  have isDigit : c.isDigit = true := by
    cases whole with
    | nil => exact absurd rfl nonempty
    | cons d whole =>
        rw [(List.cons.inj shape).1]
        exact digits d (List.mem_cons_self ..)
  have notMark : c ≠ '(' ∧ c ≠ '\x7b' ∧ c ≠ '\'' := by
    refine ⟨?_, ?_, ?_⟩ <;> rintro rfl <;> cases isDigit
  have ends := follows.endsNumber
  rw [readHead, if_neg notMark.1, if_neg notMark.2.1, if_neg notMark.2.2, if_pos isDigit,
    number_append shape digits ends.1 fun _ => ends.2, value]
  simp only [List.drop_left]

theorem readHead_string {string : String} (ends : string.toList.getLast? ≠ some '\\') :
    readHead read '\'' (string.toList.flatMap escape ++ '\'' :: behind) =
      some (.literal Token.missing (.string string), behind) := by
  rw [readHead, if_neg (by decide), if_neg (by decide), if_pos rfl, readString_escape ends]
  simp only [Option.map_some, String.ofList_toList]

theorem readHead_field {name : String} (unbraced : '\x7d' ∉ name.toList) :
    readHead read '\x7b' (name.toList ++ '\x7d' :: behind) =
      some (.field Token.missing name, behind) := by
  have inside : ∀ d ∈ name.toList, decide (d ≠ '\x7d') = true := fun d here =>
    decide_eq_true fun same => unbraced (same ▸ here)
  have closed : ∀ d ∈ ('\x7d' :: behind).head?, decide (d ≠ '\x7d') = false := by
    rintro _ ⟨rfl⟩
    rfl
  obtain ⟨taken, left⟩ := takeWhile_stretch ('\x7d' :: behind) inside closed
  rw [readHead, if_neg (by decide), if_pos rfl, taken, left, String.ofList_toList]
  rfl

/-- The tree is read with whatever may stand behind it. -/
def Recovers (read : List Char → Option (Expr × List Char)) (e : Expr) : Prop :=
  ∀ rest, Ends rest → read (e.text.toList ++ rest) = some (e.bare, rest)

theorem length_arguments (args : List Expr) (behind : List Char) :
    args.length ≤ ((joinTexts ", " (Expr.texts args)).toList ++ ')' :: behind).length := by
  induction args with
  | nil => exact Nat.zero_le _
  | cons first others ih =>
      cases others with
      | nil =>
          simp only [List.length_append, List.length_cons, List.length_nil]
          omega
      | cons next more =>
          rw [Expr.arguments_cons]
          simp only [List.length_append, List.length_cons] at ih ⊢
          omega

theorem readMoreArguments_texts {args : List Expr} (filled : args ≠ [])
    (reads : ∀ arg ∈ args, Recovers read arg) {limit : Nat} (enough : args.length ≤ limit) :
    readMoreArguments read limit ((joinTexts ", " (Expr.texts args)).toList ++ ')' :: behind) =
      some (Expr.bares args, behind) := by
  induction args generalizing limit with
  | nil => exact absurd rfl filled
  | cons first others ih =>
      obtain ⟨here, there⟩ := List.forall_mem_cons.mp reads
      obtain ⟨limit, rfl⟩ := Nat.exists_eq_add_one.mpr (Nat.lt_of_lt_of_le (Nat.succ_pos _) enough)
      cases others with
      | nil =>
          rw [Expr.texts, Expr.texts, joinTexts, String.intercalate_singleton, readMoreArguments,
            here _ (ends_paren behind)]
          rfl
      | cons next more =>
          have later := ih (List.cons_ne_nil _ _) there (Nat.le_of_succ_le_succ enough)
          rw [Expr.arguments_cons, readMoreArguments, here _ (ends_comma _)]
          simp only [later, Option.map_some]
          rfl

/-- The arguments of a call are read up to its closing parenthesis. -/
theorem readArguments_texts {args : List Expr} (reads : ∀ arg ∈ args, Recovers read arg)
    (noTree : ∀ rest, read (')' :: rest) = none) :
    readArguments read ((joinTexts ", " (Expr.texts args)).toList ++ ')' :: behind) =
      some (Expr.bares args, behind) := by
  cases args with
  | nil => rfl
  | cons first others =>
      have whole := @readMoreArguments_texts read behind _ (List.cons_ne_nil _ _) reads _
        (length_arguments _ behind)
      cases text : (joinTexts ", " (Expr.texts (first :: others))).toList ++ ')' :: behind with
      | nil => exact absurd text (List.append_ne_nil_of_right_ne_nil _ (List.cons_ne_nil _ _))
      | cons c rest =>
          rw [text] at whole
          rw [readArguments, if_neg, whole]
          rintro rfl
          rw [List.length_cons, readMoreArguments, noTree] at whole
          cases whole

theorem readHead_call {name : String} {args : List Expr} (isName : IsName name)
    (reads : ∀ arg ∈ args, Recovers read arg) (noTree : ∀ rest, read (')' :: rest) = none)
    (text : name.toList = c :: more) :
    readHead read c
        (more ++ '(' :: ((joinTexts ", " (Expr.texts args)).toList ++ ')' :: behind)) =
      some (.call Token.missing name (Expr.bares args), behind) := by
  obtain ⟨_, _, chars, start, parts⟩ := isName.isWord
  obtain ⟨rfl, rfl⟩ := List.cons.inj (text.symm.trans chars)
  have ends : ∀ d ∈ ('(' :: ((joinTexts ", " (Expr.texts args)).toList ++ ')' :: behind)).head?,
      isWordPart d = false := by
    rintro _ ⟨rfl⟩
    rfl
  rw [readHead_word start parts ends, readWord, readArguments_texts reads noTree, ← text,
    String.ofList_toList]
  rfl

theorem readHead_not {operand : Expr} (reads : Recovers read operand) :
    readHead read '(' ('n' :: 'o' :: 't' :: ' ' :: (operand.text.toList ++ ')' :: behind)) =
      some (.unary Token.missing .not operand.bare, behind) := by
  rw [readHead, if_pos rfl, readGroup, reads _ (ends_paren behind)]
  rfl

theorem readHead_binary {lhs rhs : Expr} (op : BinaryOp) (left : Recovers read lhs)
    (right : Recovers read rhs)
    (noTree : ∀ rest, read ('n' :: 'o' :: 't' :: ' ' :: rest) = none) :
    readHead read '(' (lhs.text.toList ++ ' ' :: (op.symbol.toList ++ ' ' ::
        (rhs.text.toList ++ ')' :: behind))) =
      some (.binary Token.missing op lhs.bare rhs.bare, behind) := by
  have first := left _ (ends_blank (op.symbol.toList ++ ' ' ::
    (rhs.text.toList ++ ')' :: behind)))
  have unspaced := List.all_eq_true.mp (symbol_unspaced op)
  have blank : ∀ d ∈ (' ' :: (rhs.text.toList ++ ')' :: behind)).head?,
      decide (d ≠ ' ') = false := by
    rintro _ ⟨rfl⟩
    rfl
  obtain ⟨taken, left⟩ := takeWhile_stretch _ unspaced blank
  rw [readHead, if_pos rfl, readGroup, first]
  · simp only [taken, left, List.drop_one, List.tail_cons, operator?_symbol,
      right _ (ends_paren behind)]
  · intro rest isNot
    rw [isNot, noTree] at first
    cases first

theorem readHead_literal {l : Literal} {token : Token} (legible : (Expr.literal token l).Legible)
    (known : (Expr.literal token l).Known) (follows : Follows behind) :
    ∃ c body, l.text.toList = c :: body ∧ c ≠ '-' ∧
      readHead read c (body ++ behind) = some (.literal Token.missing l, behind) := by
  cases l with
  | number x =>
      obtain ⟨positive, number⟩ := known
      by_cases finite : x.isFinite = true
      · obtain ⟨whole, fraction, nonempty, digits, shape, -⟩ := Number.text_shape finite positive
        cases whole with
        | nil => exact absurd rfl nonempty
        | cons c whole =>
            refine ⟨c, whole ++ Number.fractionPart fraction, shape, ?_,
              readHead_number finite positive shape follows⟩
            rintro rfl
            exact absurd (digits '-' List.mem_cons_self) (by decide)
      · obtain rfl := Number.eq_infinity number (Bool.eq_false_iff.mpr finite) positive
        exact ⟨'i', ['n', 'f'], by decide +kernel, by decide,
          readHead_literalWord rfl rfl (by decide +kernel) follows⟩
  | string s =>
      refine ⟨'\'', s.toList.flatMap escape ++ ['\''], ?_, by decide, ?_⟩
      · rw [Literal.text, Literal.quote, String.toList_ofList]
        rfl
      · rw [List.append_assoc]
        exact readHead_string legible
  | bool b =>
      cases b with
      | true => exact ⟨'t', ['r', 'u', 'e'], by decide +kernel, by decide,
          readHead_literalWord rfl rfl (by decide +kernel) follows⟩
      | false => exact ⟨'f', ['a', 'l', 's', 'e'], by decide +kernel, by decide,
          readHead_literalWord rfl rfl (by decide +kernel) follows⟩
  | null => exact ⟨'n', ['u', 'l', 'l'], by decide +kernel, by decide,
      readHead_literalWord rfl rfl (by decide +kernel) follows⟩

end Heads

theorem readTree_of_head {depth : Nat} {c : Char} {cs : List Char} {head : Expr} (plain : c ≠ '-')
    (found : readHead (readTree depth) c cs = some (head, accesses names ++ rest))
    (words : ∀ name ∈ names, IsWord name) (ends : Ends rest) :
    readTree (depth + 1) (c :: cs) =
      some (names.foldl (Expr.member Token.missing) head, rest) := by
  rw [readTree, if_neg plain, found]
  exact congrArg some (readAccesses_accesses words ends head)

/-- No tree begins with a closing parenthesis. -/
theorem readTree_paren (depth : Nat) (rest : List Char) : readTree depth (')' :: rest) = none := by
  cases depth with
  | zero => rfl
  | succ depth =>
      have taken : (')' :: rest).takeWhile isWordPart = [] := List.takeWhile_cons_of_neg (by decide)
      have left : (')' :: rest).dropWhile isWordPart = ')' :: rest :=
        List.dropWhile_cons_of_neg (by decide)
      have noLiteral : wordLiteral? [] = none := by decide +kernel
      rw [readTree, if_neg (by decide), readHead, if_neg (by decide), if_neg (by decide),
        if_neg (by decide), if_neg (by decide), taken, left, readWord, noLiteral]
      · rfl
      · exact nofun

/-- No tree begins with a `not` that is not in parentheses. -/
theorem readTree_not (depth : Nat) (rest : List Char) :
    readTree depth ('n' :: 'o' :: 't' :: ' ' :: rest) = none := by
  cases depth with
  | zero => rfl
  | succ depth =>
      have ends : ∀ d ∈ (' ' :: rest).head?, isWordPart d = false := by
        rintro _ ⟨rfl⟩
        rfl
      have word : readHead (readTree depth) 'n' (['o', 't'] ++ ' ' :: rest) =
          readWord (readTree depth) ['n', 'o', 't'] (' ' :: rest) :=
        readHead_word rfl (List.all_eq_true.mp rfl) ends
      have noLiteral : wordLiteral? ['n', 'o', 't'] = none := by decide +kernel
      rw [List.cons_append, List.singleton_append, readWord, noLiteral] at word
      · rw [readTree, if_neg (by decide), word]
        rfl
      · exact nofun

end Printed

namespace Expr

open Printed

variable {names : List String} {rest : List Char} {e : Expr} {depth : Nat}

/-- The printed form of the tree with accesses behind it is read as the tree with these accesses. -/
def ReadBack (e : Expr) : Prop :=
  ∀ (depth : Nat) (names : List String) (rest : List Char), sizeOf e ≤ depth →
    (∀ name ∈ names, IsWord name) → (names = [] ∨ ¬e.IsNegation) → Ends rest →
    readTree depth (e.text.toList ++ (accesses names ++ rest)) =
      some (names.foldl (member Token.missing) e.bare, rest)

theorem ReadBack.reads (back : e.ReadBack) (enough : sizeOf e ≤ depth) :
    Recovers (readTree depth) e := fun rest ends =>
  back depth [] rest enough (fun _ inside => absurd inside List.not_mem_nil) (.inl rfl) ends

theorem readBack_literal {token : Token} {l : Literal} (legible : (literal token l).Legible)
    (known : (literal token l).Known) : (literal token l).ReadBack := by
  intro depth names rest enough words _ ends
  simp only [literal.sizeOf_spec] at enough
  obtain ⟨depth, rfl⟩ : ∃ d, depth = d + 1 := ⟨depth - 1, by omega⟩
  obtain ⟨c, body, text, plain, found⟩ := readHead_literal legible known
    (follows_accesses words ends)
  rw [Expr.text, text]
  exact readTree_of_head plain found words ends

theorem readBack_field {token : Token} {name : String} (unbraced : '\x7d' ∉ name.toList) :
    (field token name).ReadBack := by
  intro depth names rest enough words _ ends
  simp only [field.sizeOf_spec] at enough
  obtain ⟨depth, rfl⟩ : ∃ d, depth = d + 1 := ⟨depth - 1, by omega⟩
  have written : (field token name).text.toList ++ (accesses names ++ rest) =
      '\x7b' :: (name.toList ++ '\x7d' :: (accesses names ++ rest)) := by
    simp only [Expr.text, String.toList_append, List.append_assoc]
    rfl
  rw [written]
  exact readTree_of_head (by decide) (readHead_field unbraced) words ends

/-- An access is read with the ones behind it. -/
theorem readBack_member {token : Token} {target : Expr} {name : String} (back : target.ReadBack)
    (isWord : IsWord name) (positive : ¬target.IsNegation) :
    (member token target name).ReadBack := by
  intro depth names rest enough words _ ends
  simp only [member.sizeOf_spec] at enough
  have written : (member token target name).text.toList ++ (accesses names ++ rest) =
      target.text.toList ++ (accesses (name :: names) ++ rest) := by
    simp only [Expr.text, String.toList_append, List.append_assoc, accesses, List.flatMap_cons]
    rfl
  have named : ∀ n ∈ name :: names, IsWord n := List.forall_mem_cons.mpr ⟨isWord, words⟩
  rw [written, back depth (name :: names) rest (by omega) named (.inr positive) ends]
  rfl

theorem readBack_call {token : Token} {name : String} {args : List Expr} (isName : IsName name)
    (back : ∀ arg ∈ args, arg.ReadBack) : (call token name args).ReadBack := by
  intro depth names rest enough words _ ends
  simp only [call.sizeOf_spec] at enough
  obtain ⟨depth, rfl⟩ : ∃ d, depth = d + 1 := ⟨depth - 1, by omega⟩
  have reads : ∀ arg ∈ args, Recovers (readTree depth) arg := by
    intro arg member
    have smaller := List.sizeOf_lt_of_mem member
    exact (back arg member).reads (by omega)
  obtain ⟨c, more, text, start, -⟩ := isName.isWord
  have plain : c ≠ '-' := by
    rintro rfl
    cases start
  have written : (call token name args).text.toList ++ (accesses names ++ rest) =
      c :: (more ++ '(' :: ((joinTexts ", " (texts args)).toList ++
        ')' :: (accesses names ++ rest))) := by
    rw [← List.cons_append, ← text]
    simp only [Expr.text, String.toList_append, List.append_assoc]
    rfl
  rw [written]
  exact readTree_of_head plain (readHead_call isName reads (readTree_paren depth) text) words ends

theorem readBack_negate {token : Token} {operand : Expr} (back : operand.ReadBack) :
    (unary token .negate operand).ReadBack := by
  intro depth names rest enough _ free ends
  simp only [unary.sizeOf_spec] at enough
  obtain ⟨depth, rfl⟩ : ∃ d, depth = d + 1 := ⟨depth - 1, by omega⟩
  obtain rfl : names = [] := free.resolve_right fun positive => positive trivial
  have written : (unary token .negate operand).text.toList ++ (accesses [] ++ rest) =
      '-' :: (operand.text.toList ++ rest) := by
    simp only [Expr.text, String.toList_append, List.append_assoc]
    rfl
  have inside := back.reads (by omega : sizeOf operand ≤ depth) rest ends
  rw [written, readTree, if_pos rfl, inside]
  rfl

theorem readBack_not {token : Token} {operand : Expr} (back : operand.ReadBack) :
    (unary token .not operand).ReadBack := by
  intro depth names rest enough words _ ends
  simp only [unary.sizeOf_spec] at enough
  obtain ⟨depth, rfl⟩ : ∃ d, depth = d + 1 := ⟨depth - 1, by omega⟩
  have written : (unary token .not operand).text.toList ++ (accesses names ++ rest) =
      '(' :: ('n' :: 'o' :: 't' :: ' ' :: (operand.text.toList ++
        ')' :: (accesses names ++ rest))) := by
    simp only [Expr.text, String.toList_append, List.append_assoc]
    rfl
  rw [written]
  exact readTree_of_head (by decide) (readHead_not (back.reads (by omega))) words ends

theorem readBack_binary {token : Token} {op : BinaryOp} {lhs rhs : Expr} (left : lhs.ReadBack)
    (right : rhs.ReadBack) : (binary token op lhs rhs).ReadBack := by
  intro depth names rest enough words _ ends
  simp only [binary.sizeOf_spec] at enough
  obtain ⟨depth, rfl⟩ : ∃ d, depth = d + 1 := ⟨depth - 1, by omega⟩
  have written : (binary token op lhs rhs).text.toList ++ (accesses names ++ rest) =
      '(' :: (lhs.text.toList ++ ' ' :: (op.symbol.toList ++ ' ' ::
        (rhs.text.toList ++ ')' :: (accesses names ++ rest)))) := by
    simp only [Expr.text, String.toList_append, List.append_assoc]
    rfl
  rw [written]
  exact readTree_of_head (by decide) (readHead_binary op (left.reads (by omega))
    (right.reads (by omega)) (readTree_not depth)) words ends

/-- Where no text runs into another, the printed form of a tree is read as the tree. -/
theorem readTree_text (clear : ∀ node ∈ e.nodes, node.Legible ∧ node.Known) : e.ReadBack := by
  induction e using tree_induction with
  | literal token l =>
      obtain ⟨legible, known⟩ := clear _ (mem_nodes_self _)
      exact readBack_literal legible known
  | field token name => exact readBack_field (clear _ (mem_nodes_self _)).2
  | member token target name ih =>
      obtain ⟨⟨isWord, positive⟩, -⟩ := clear _ (mem_nodes_self _)
      have back : target.ReadBack := ih fun node inside =>
        clear node (mem_nodes_of_child List.mem_cons_self inside)
      exact readBack_member back isWord positive
  | call token name args ih =>
      exact readBack_call (clear _ (mem_nodes_self _)).2 fun arg isArg =>
        ih arg isArg fun node inside => clear node (mem_nodes_of_child isArg inside)
  | unary token op operand ih =>
      have back : operand.ReadBack := ih fun node inside =>
        clear node (mem_nodes_of_child List.mem_cons_self inside)
      cases op with
      | negate => exact readBack_negate back
      | not => exact readBack_not back
  | binary token op lhs rhs ihl ihr =>
      have below : ∀ child ∈ [lhs, rhs], ∀ node ∈ child.nodes, node.Legible ∧ node.Known :=
        fun child isChild node inside => clear node (mem_nodes_of_child isChild inside)
      exact readBack_binary (ihl (below lhs (by simp))) (ihr (below rhs (by simp)))

/-- So no two such trees are printed alike. -/
theorem bare_eq_of_text_eq {e e' : Expr} (same : e.text = e'.text)
    (clear : ∀ node ∈ e.nodes, node.Legible ∧ node.Known)
    (clear' : ∀ node ∈ e'.nodes, node.Legible ∧ node.Known) : e.bare = e'.bare := by
  have first := (readTree_text clear).reads (Nat.le_max_left (sizeOf e) (sizeOf e')) [] ends_nil
  have second := (readTree_text clear').reads (Nat.le_max_right (sizeOf e) (sizeOf e')) [] ends_nil
  rw [same, second] at first
  exact (Prod.mk.inj (Option.some.inj first)).1.symm

end Expr

theorem Number.isNaN_ofMagnitude (negative : Bool) {m : Nat} (small : m ≤ infinityMagnitude) :
    (ofMagnitude negative m).isNaN = false := by
  rw [← Bool.not_eq_true, isNaN_iff, magnitude_ofMagnitude negative (small.trans_lt (by decide))]
  exact Nat.not_lt_of_le small

/-- Rounding gives no NaN. -/
theorem Number.isNaN_ofRatio (negative : Bool) (num den : Nat) :
    (ofRatio negative num den).isNaN = false := by
  unfold ofRatio
  split
  · exact isNaN_ofMagnitude negative (Nat.zero_le _)
  · exact isNaN_ofMagnitude negative (Nat.min_le_right _ _)

/-- A number among the tokens of a text is not a NaN. -/
def TokenKind.Numeric : TokenKind → Prop
  | .literal (.number x) => x.isNaN = false
  | _ => True

theorem numeric_mark {c : Char} {rest : List Char} {kind : TokenKind} {width : Nat}
    (found : mark? c rest = some (kind, width)) : kind.Numeric := by
  unfold mark? at found
  grind [TokenKind.Numeric]

theorem numeric_of_lexeme {c : Char} {rest : List Char} {kind : TokenKind} {width : Nat}
    (found : lexeme? c rest = some (kind, width)) : kind.Numeric := by
  unfold lexeme? at found
  split at found
  · simp only at found
    split at found
    · cases found
      trivial
    · cases found
  · split at found
    · cases found
      rw [TokenKind.Numeric, Decimal.toNumber_eq_nearest]
      exact Number.isNaN_ofRatio _ _ _
    · split at found
      · obtain ⟨_, -, ⟨⟩⟩ := Option.map_eq_some_iff.mp found
        trivial
      · split at found
        · cases found
          unfold wordKind
          split <;> trivial
        · exact numeric_mark found

namespace Expr

variable {e : Expr}

theorem forall_nodes {P : Expr → Prop} (here : P e)
    (below : ∀ child ∈ e.children, ∀ node ∈ child.nodes, P node) : ∀ node ∈ e.nodes, P node := by
  intro node inside
  rcases mem_nodes_iff.mp inside with rfl | ⟨child, isChild, deeper⟩
  · exact here
  · exact below child isChild node deeper

/-- What is known of the tokens is known of the nodes that they stand for. -/
theorem known_of_labelled (labelled : e.Labelled)
    (read : ∀ kind ∈ e.walk, kind.Read ∧ kind.Numeric) : ∀ node ∈ e.nodes, node.Known := by
  induction labelled with
  | @literal token l label =>
      refine forall_nodes ?_ nofun
      have known := read token.kind (List.mem_singleton_self _)
      rw [label] at known
      cases l with
      | number x => exact known
      | _ => trivial
  | field label =>
      exact forall_nodes (read_attribute label (read _ (List.mem_singleton_self _)).1).1 nofun
  | member label _ ih =>
      refine forall_nodes trivial (List.forall_mem_singleton.mpr (ih ?_))
      exact fun kind here => read kind (List.mem_append_left _ here)
  | @call token name args label _ ih =>
      have isName := (read token.kind (List.mem_cons_self ..)).1
      rw [label] at isName
      refine forall_nodes isName fun arg isArg => ih arg isArg fun kind here => ?_
      exact read kind (List.mem_cons_of_mem _ (mem_walks isArg here))
  | negate label _ ih | not label _ ih =>
      refine forall_nodes trivial (List.forall_mem_singleton.mpr (ih ?_))
      exact fun kind here => read kind (List.mem_cons_of_mem _ here)
  | binary label _ _ ihl ihr =>
      obtain ⟨left, right⟩ := List.forall_mem_append.mp read
      refine forall_nodes trivial (List.forall_mem_cons.mpr ⟨ihl left, ?_⟩)
      exact List.forall_mem_singleton.mpr (ihr (List.forall_mem_cons.mp right).2)

theorem known_nodes {text : String} (parsed : ofText text = .ok e) :
    ∀ node ∈ e.nodes, node.Known := by
  obtain ⟨labelled, read⟩ := walk_of_lexemes
    (fun found => (⟨read_of_lexeme found, numeric_of_lexeme found⟩ :
      TokenKind.Read _ ∧ TokenKind.Numeric _)) ⟨trivial, trivial⟩ parsed
  exact known_of_labelled labelled read

/-- Two texts whose trees are printed alike mean the same for every record and every lookup, if
nothing in the printed trees runs into each other. -/
theorem sameMeaning_of_text_eq {text text' : String} {e e' : Expr} (parsed : ofText text = .ok e)
    (parsed' : ofText text' = .ok e') (same : e.text = e'.text)
    (legible : ∀ node ∈ e.nodes, node.Legible) (legible' : ∀ node ∈ e'.nodes, node.Legible)
    (mode : Mode) (subject : Record) :
    SameMeaning (evaluateText mode subject text) (evaluateText mode subject text') := by
  refine sameMeaning_of_bare_eq parsed parsed' (bare_eq_of_text_eq same ?_ ?_) mode subject
  · exact fun node inside => ⟨legible node inside, known_nodes parsed node inside⟩
  · exact fun node inside => ⟨legible' node inside, known_nodes parsed' node inside⟩

/-- The texts have trees that are printed alike. -/
def PrintedAlike (text text' : String) : Prop :=
  ∃ e e', ofText text = .ok e ∧ ofText text' = .ok e' ∧ e.text = e'.text

theorem PrintedAlike.of_texts (shown : String) {text text' : String}
    (first : (ofText text).map Expr.text = .ok shown)
    (second : (ofText text').map Expr.text = .ok shown) : PrintedAlike text text' := by
  cases parsed : ofText text with
  | error problem =>
      rw [parsed] at first
      cases first
  | ok e =>
      cases parsed' : ofText text' with
      | error problem =>
          rw [parsed'] at second
          cases second
      | ok e' =>
          rw [parsed] at first
          rw [parsed'] at second
          exact ⟨e, e', parsed, parsed', Except.ok.inj (first.trans second.symm)⟩

/-- An owner's name compared with a string, from tokens at these places. -/
def ownerNamed (operator name field literal : Range) : Expr :=
  .binary ⟨.operator (.compare .equal), operator⟩ (.compare .equal)
    (.member ⟨.word "name", name⟩ (.field ⟨.field "owner", field⟩ "owner") "name")
    (.literal ⟨.literal (.string "a\\b"), literal⟩ (.string "a\\b"))

theorem legible_ownerNamed (operator name field literal : Range) :
    ∀ node ∈ (ownerNamed operator name field literal).nodes, node.Legible := by
  have isWord : IsWord "name" :=
    ⟨'n', ['a', 'm', 'e'], rfl, rfl, List.all_eq_true.mp rfl⟩
  simp [ownerNamed, nodes, Legible, IsNegation, isWord]

/-- Quotes of either kind, blanks and parentheses are written differently, and mean the same. -/
theorem either_quote_means_the_same :
    PrintedAlike "{owner}.name = 'a\\\\b'" "(\x7b owner \x7d .name == \"a\\\\b\")" ∧
      SameMeaning (evaluateText .value Record.empty "{owner}.name = 'a\\\\b'")
        (evaluateText .value Record.empty "(\x7b owner \x7d .name == \"a\\\\b\")") := by
  let e := ownerNamed (columns 14 15) (columns 8 13) (columns 1 8) (columns 16 22)
  let e' := ownerNamed (columns 18 20) (columns 12 17) (columns 2 11) (columns 21 27)
  have parsed : ofText "{owner}.name = 'a\\\\b'" = .ok e := by with_unfolding_all rfl
  have parsed' : ofText "(\x7b owner \x7d .name == \"a\\\\b\")" = .ok e' := by
    with_unfolding_all rfl
  have same : e.text = e'.text := by simp only [e, e', ownerNamed, text]
  exact ⟨⟨e, e', parsed, parsed', same⟩,
    sameMeaning_of_text_eq parsed parsed' same (legible_ownerNamed _ _ _ _)
      (legible_ownerNamed _ _ _ _) .value Record.empty⟩

/-- A record with a number inside another record. -/
def owner : Record :=
  ⟨[("a", .record ⟨[("b", .number Number.one), ("b.c", .string "inside")]⟩)]⟩

/-- An access to an attribute of a negation is printed as the negation of an access, an attribute
with a point in its name as two accesses, and a string of one backslash takes in its closing quote
and all text up to the next one. -/
theorem printed_alike_with_other_meanings :
    (PrintedAlike "(-{a}).b" "-{a}.b" ∧
      ¬SameMeaning (evaluateText .value owner "(-{a}).b") (evaluateText .value owner "-{a}.b")) ∧
    (PrintedAlike "{a}.{b.c}" "{a}.b.c" ∧
      ¬SameMeaning (evaluateText .value owner "{a}.{b.c}") (evaluateText .value owner "{a}.b.c")) ∧
    PrintedAlike "concat('\\\\', ', \x7b', '\x7d, \x7b', \x7bz\x7d)"
        "concat('\\', ', \x7b', '\x7d, \x7b', \x7bz\x7d)" ∧
      ¬SameMeaning (evaluateText .value owner "concat('\\\\', ', \x7b', '\x7d, \x7b', \x7bz\x7d)")
        (evaluateText .value owner "concat('\\', ', \x7b', '\x7d, \x7b', \x7bz\x7d)") := by
  have negation : evaluateText .value owner "(-{a}).b" = .done (.ok .null) := by
    decide +kernel
  have access : evaluateText .value owner "-{a}.b" = .done (.ok (.number (-Number.one))) := by
    decide +kernel
  have pointed : evaluateText .value owner "{a}.{b.c}" = .done (.ok (.string "inside")) := by
    decide +kernel
  have twice : evaluateText .value owner "{a}.b.c" = .done (.ok .null) := by
    decide +kernel
  have escaped : evaluateText .value owner "concat('\\\\', ', \x7b', '\x7d, \x7b', \x7bz\x7d)" =
      .done (.ok (.string "\\, \x7b\x7d, \x7b")) := by
    decide +kernel
  have merged : evaluateText .value owner "concat('\\', ', \x7b', '\x7d, \x7b', \x7bz\x7d)" =
      .done (.ok (.string "', ")) := by
    decide +kernel
  rw [negation, access, pointed, twice, escaped, merged]
  refine ⟨⟨?_, not_sameMeaning_of_values (by rintro ⟨⟩)⟩,
    ⟨?_, not_sameMeaning_of_values (by rintro ⟨⟩)⟩, ?_, not_sameMeaning_of_values ?_⟩
  · exact PrintedAlike.of_texts "-{a}.b" (by decide +kernel) (by decide +kernel)
  · exact PrintedAlike.of_texts "{a}.b.c" (by decide +kernel) (by decide +kernel)
  · exact PrintedAlike.of_texts "concat('\\', ', \x7b', '\x7d, \x7b', \x7bz\x7d)"
      (by decide +kernel) (by decide +kernel)
  intro same
  have texts : "\\, \x7b\x7d, \x7b" = "', " := Value.string.inj same
  exact absurd texts (by decide)

end Expr

end RecordExpr
