import RecordExpr.Proofs.Grammar
import RecordExpr.Proofs.Lexemes

set_option autoImplicit false

namespace RecordExpr

open Lexeme

def Literal.Reprintable : Literal → Prop
  | .number x => x.isFinite = true
  | .string s => '\\' ∉ s.toList
  | _ => True

namespace Expr

def IsNegation : Expr → Prop
  | unary _ .negate _ => True
  | _ => False

/-- Printing this tree loses nothing but its tokens. A backslash in a string is not doubled, the
text of an infinite number is a word, the name of an attribute loses its braces, and a minus sign
takes in the access to an attribute of a negation. -/
inductive Reprintable : Expr → Prop where
  | literal {token : Token} {l : Literal} (value : l.Reprintable) : Reprintable (literal token l)
  | field {token : Token} {name : String} : Reprintable (field token name)
  | member {token : Token} {target : Expr} {name : String} (isName : IsName name)
      (positive : ¬target.IsNegation) (inside : Reprintable target) :
      Reprintable (member token target name)
  | call {token : Token} {name : String} {args : List Expr}
      (inside : ∀ arg ∈ args, Reprintable arg) : Reprintable (call token name args)
  | unary {token : Token} {op : UnaryOp} {operand : Expr} (inside : Reprintable operand) :
      Reprintable (unary token op operand)
  | binary {token : Token} {op : BinaryOp} {lhs rhs : Expr} (left : Reprintable lhs)
      (right : Reprintable rhs) : Reprintable (binary token op lhs rhs)

mutual

/-- The tokens that printing puts down. -/
def printed : Expr → List TokenKind
  | literal _ l => [.literal l]
  | field _ name => [.field name]
  | member _ target name => target.printed ++ [.dot, .word name]
  | call _ name args => .word name :: .leftParen :: (printedArguments args ++ [.rightParen])
  | unary _ .negate operand => .operator .subtract :: operand.printed
  | unary _ .not operand => .leftParen :: .not :: (operand.printed ++ [.rightParen])
  | binary _ op lhs rhs =>
    .leftParen :: (lhs.printed ++ .operator op :: (rhs.printed ++ [.rightParen]))

def printedArguments : List Expr → List TokenKind
  | [] => []
  | [last] => last.printed
  | first :: next :: rest => first.printed ++ .comma :: printedArguments (next :: rest)

end

end Expr

/-- What can stand behind a tree in a printed text. -/
inductive Follows : List Char → Prop where
  | nothing : Follows []
  | blank (rest : List Char) : Follows (' ' :: rest)
  | paren (rest : List Char) : Follows (')' :: rest)
  | comma (rest : List Char) : Follows (',' :: rest)
  | access {c : Char} {rest : List Char} (start : isWordStart c = true) :
      Follows ('.' :: c :: rest)

namespace Follows

variable {rest : List Char}

theorem endsNumber (follows : Follows rest) : EndsNumber rest := by
  cases follows with
  | nothing =>
      constructor
      · rintro _ ⟨⟩
      · rintro _ ⟨⟩
  | blank | paren | comma =>
      constructor
      · rintro _ ⟨rfl⟩
        rfl
      · rintro _ ⟨⟩
  | access start =>
      constructor
      · rintro _ ⟨rfl⟩
        rfl
      · rintro _ ⟨rfl⟩ _ ⟨rfl⟩
        exact isDigit_of_isWordStart start

theorem endsWord (follows : Follows rest) : ∀ c ∈ rest.head?, isWordPart c = false := by
  cases follows with
  | nothing =>
      rintro _ ⟨⟩
  | blank | paren | comma | access =>
      rintro _ ⟨rfl⟩
      rfl

end Follows

/-- A mark of one character. -/
theorem lexes_mark {c : Char} {cs rest : List Char} {kind : TokenKind} {kinds : List TokenKind}
    (visible : isSpace c = false) (found : lexeme? c cs = some (kind, 0))
    (more : Lexes cs kinds rest) : Lexes (c :: cs) (kind :: kinds) rest :=
  .token visible found more

theorem lexes_literal {l : Literal} (value : l.Reprintable) (read : (TokenKind.literal l).Read)
    {rest : List Char} (follows : Follows rest) :
    Lexes (l.text.toList ++ rest) [.literal l] rest := by
  have ends := follows.endsWord
  cases l with
  | number x => exact lexes_number value read follows.endsNumber
  | string s => exact lexes_string value rest
  | bool b =>
      cases b with
      | true => exact @lexes_word 't' ['r', 'u', 'e'] _ rfl (List.all_eq_true.mp rfl) ends
      | false => exact @lexes_word 'f' ['a', 'l', 's', 'e'] _ rfl (List.all_eq_true.mp rfl) ends
  | null => exact @lexes_word 'n' ['u', 'l', 'l'] _ rfl (List.all_eq_true.mp rfl) ends

namespace Expr

/-- The name of an attribute can stand in braces, however it was written. -/
theorem read_attribute {kind : TokenKind} {name : String} (label : attribute? kind = some name)
    (read : kind.Read) : '\x7d' ∉ name.toList ∧ Text.trim name = name := by
  cases kind with
  | word _ =>
      cases label
      exact ⟨read.unbraced, read.trimmed⟩
  | field _ =>
      cases label
      exact read
  | _ => cases label

theorem mem_walks {args : List Expr} {arg : Expr} {kind : TokenKind} (member : arg ∈ args)
    (here : kind ∈ arg.walk) : kind ∈ walks args := by
  induction args with
  | nil => cases member
  | cons first others ih =>
      rw [walks]
      rcases List.mem_cons.mp member with rfl | later
      · exact List.mem_append_left _ here
      · exact List.mem_append_right _ (ih later)

/-- The text of the tree is cut into the tokens that printing puts down, whatever stands behind
it. -/
def Relexes (e : Expr) : Prop :=
  ∀ ⦃rest : List Char⦄, Follows rest → Lexes (e.text.toList ++ rest) e.printed rest

/-- The text of several arguments. -/
theorem arguments_cons (first next : Expr) (more : List Expr) (rest : List Char) :
    (joinTexts ", " (texts (first :: next :: more))).toList ++ rest =
      first.text.toList ++
        (',' :: ' ' :: ((joinTexts ", " (texts (next :: more))).toList ++ rest)) := by
  simp only [texts, joinTexts, String.intercalate_cons_cons, String.toList_append,
    List.append_assoc]
  rfl

theorem lexes_arguments {args : List Expr} (rest : List Char)
    (inside : ∀ arg ∈ args, arg.Relexes) :
    Lexes ((joinTexts ", " (texts args)).toList ++ ')' :: rest) (printedArguments args)
      (')' :: rest) := by
  induction args with
  | nil => exact .done
  | cons first others ih =>
      obtain ⟨here, there⟩ := List.forall_mem_cons.mp inside
      cases others with
      | nil =>
          rw [texts, texts, joinTexts, String.intercalate_singleton]
          exact here (.paren rest)
      | cons next more =>
          rw [arguments_cons]
          exact (here (.comma _)).append
            (lexes_mark rfl rfl (.blank rfl (ih there)))

variable {token : Token} {name : String}

theorem relexes_field (unbraced : '\x7d' ∉ name.toList) (trimmed : Text.trim name = name) :
    (field token name).Relexes := by
  intro rest _
  have written : (field token name).text.toList ++ rest =
      '\x7b' :: (name.toList ++ '\x7d' :: rest) := by
    simp only [text, String.toList_append, List.append_assoc]
    rfl
  rw [written]
  exact lexes_field unbraced trimmed rest

theorem relexes_member {target : Expr} (isName : IsName name) (inside : target.Relexes) :
    (member token target name).Relexes := by
  intro rest follows
  obtain ⟨c, more, chars, start, parts⟩ := isName.isWord
  have written : (member token target name).text.toList ++ rest =
      target.text.toList ++ '.' :: (name.toList ++ rest) := by
    simp only [text, String.toList_append, List.append_assoc]
    rfl
  have access : Follows ('.' :: (name.toList ++ rest)) := by
    rw [chars]
    exact .access start
  rw [written]
  exact (inside access).append (lexes_mark rfl rfl (lexes_name isName follows.endsWord))

theorem relexes_call {args : List Expr} (isName : IsName name)
    (inside : ∀ arg ∈ args, arg.Relexes) : (call token name args).Relexes := by
  intro rest _
  have written : (call token name args).text.toList ++ rest =
      name.toList ++ '(' :: ((joinTexts ", " (texts args)).toList ++ ')' :: rest) := by
    simp only [text, String.toList_append, List.append_assoc]
    rfl
  have ends : ∀ c ∈ ('(' :: ((joinTexts ", " (texts args)).toList ++ ')' :: rest)).head?,
      isWordPart c = false := by
    rintro _ ⟨rfl⟩
    rfl
  have arguments := (lexes_arguments rest inside).append (lexes_mark rfl rfl .done)
  rw [written]
  exact (lexes_name isName ends).append (lexes_mark rfl rfl arguments)

theorem relexes_negate {operand : Expr} (inside : operand.Relexes) :
    (unary token .negate operand).Relexes := by
  intro rest follows
  have written : (unary token .negate operand).text.toList ++ rest =
      '-' :: (operand.text.toList ++ rest) := by
    simp only [text, String.toList_append, List.append_assoc]
    rfl
  rw [written]
  exact lexes_mark rfl rfl (inside follows)

theorem relexes_not {operand : Expr} (inside : operand.Relexes) :
    (unary token .not operand).Relexes := by
  intro rest _
  have written : (unary token .not operand).text.toList ++ rest =
      '(' :: ('n' :: (['o', 't'] ++ ' ' :: (operand.text.toList ++ ')' :: rest))) := by
    simp only [text, String.toList_append, List.append_assoc]
    rfl
  have ends : ∀ c ∈ (' ' :: (operand.text.toList ++ ')' :: rest)).head?, isWordPart c = false := by
    rintro _ ⟨rfl⟩
    rfl
  have closed := (inside (.paren rest)).append (lexes_mark rfl rfl .done)
  rw [written]
  exact lexes_mark rfl rfl
    ((lexes_word rfl (List.all_eq_true.mp rfl) ends).append (.blank rfl closed))

theorem relexes_binary {lhs rhs : Expr} (op : BinaryOp) (left : lhs.Relexes)
    (right : rhs.Relexes) : (binary token op lhs rhs).Relexes := by
  intro rest _
  have written : (binary token op lhs rhs).text.toList ++ rest =
      '(' :: (lhs.text.toList ++ ' ' :: (op.symbol.toList ++ ' ' ::
        (rhs.text.toList ++ ')' :: rest))) := by
    simp only [text, String.toList_append, List.append_assoc]
    rfl
  have closed := (right (.paren rest)).append (lexes_mark rfl rfl .done)
  have operation := (lexes_symbol op _).append (.blank rfl closed)
  rw [written]
  exact lexes_mark rfl rfl ((left (.blank _)).append (.blank rfl operation))

/-- The text of a tree is cut into the tokens that printing puts down. -/
theorem lexes_text {e : Expr} (labelled : e.Labelled) (read : ∀ kind ∈ e.walk, kind.Read)
    (reprintable : e.Reprintable) : e.Relexes := by
  induction e using tree_induction with
  | literal token l =>
      intro rest follows
      cases labelled with | literal label =>
      cases reprintable with | literal value =>
      exact lexes_literal value (label ▸ read token.kind (List.mem_singleton_self _)) follows
  | field token name =>
      cases labelled with | field label =>
      obtain ⟨unbraced, trimmed⟩ := read_attribute label (read _ (List.mem_singleton_self _))
      exact relexes_field unbraced trimmed
  | member token target name ih =>
      cases labelled with | member label labelled =>
      cases reprintable with | member isName positive reprintable =>
      have readTarget := (List.forall_mem_append.mp read).1
      exact relexes_member isName (ih labelled readTarget reprintable)
  | call token name args ih =>
      cases labelled with | call label labelled =>
      cases reprintable with | call reprintable =>
      have isName : IsName name := by
        have known := read token.kind (List.mem_cons_self ..)
        rwa [label] at known
      refine relexes_call isName fun arg member => ?_
      have readArg : ∀ kind ∈ arg.walk, kind.Read := fun kind here =>
        read kind (List.mem_cons_of_mem _ (mem_walks member here))
      exact ih arg member (labelled arg member) readArg (reprintable arg member)
  | unary token op operand ih =>
      cases reprintable with | unary reprintable =>
      have readOperand := (List.forall_mem_cons.mp read).2
      cases labelled with
      | negate label labelled => exact relexes_negate (ih labelled readOperand reprintable)
      | not label labelled => exact relexes_not (ih labelled readOperand reprintable)
  | binary token op lhs rhs ihl ihr =>
      cases labelled with | binary label left right =>
      cases reprintable with | binary left' right' =>
      obtain ⟨readLeft, readRight⟩ := List.forall_mem_append.mp read
      have readOperand := (List.forall_mem_cons.mp readRight).2
      exact relexes_binary op (ihl left readLeft left') (ihr right readOperand right')

end Expr

end RecordExpr
