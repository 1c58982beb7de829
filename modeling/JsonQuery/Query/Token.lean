import JsonQuery.Decimal.Spelling
import JsonQuery.Text.Quoted
import JsonQuery.Value

/-!
# Tokens

The words of a query: literals, function names and parentheses. `lexeme` reads the one in front
of a text; offsets within it count characters. `length_pos_of_lexeme` says that a token takes at
least one character.
-/

namespace JsonQuery.Query

/-! ### Positions -/

/-- Lines and columns count from one. A column is a character, and only a line feed ends a line. -/
structure Position where
  line : Nat
  column : Nat
  deriving DecidableEq, Repr

namespace Position

def first : Position := ⟨1, 1⟩

def after (p : Position) (c : Char) : Position :=
  if c = '\n' then ⟨p.line + 1, 1⟩ else ⟨p.line, p.column + 1⟩

def advance (p : Position) (text : List Char) : Position := text.foldl after p

theorem advance_append (p : Position) (a b : List Char) :
    p.advance (a ++ b) = (p.advance a).advance b := List.foldl_append

def message (p : Position) : String :=
  "line " ++ toString p.line ++ ", column " ++ toString p.column

end Position

/-! ### Words -/

inductive Literal where
  | null
  | boolean (b : Bool)
  | integer (n : Int64)
  | string (s : String)
  deriving DecidableEq, Repr

def Literal.value : Literal → Value
  | null => .null
  | boolean b => .boolean b
  | integer n => .integer n
  | string s => .string s

inductive Token where
  | literal (l : Literal)
  | identifier (name : String)
  | lparen
  | rparen
  | eof
  deriving DecidableEq, Repr

def Token.message : Token → String
  | .literal .null => "null"
  | .literal (.boolean b) => if b then "true" else "false"
  | .literal (.integer n) => "integer " ++ String.ofList (integerText n.toInt)
  | .literal (.string s) => "string " ++ Text.quoted s
  | .identifier name => "identifier '" ++ name ++ "'"
  | .lparen => "'('"
  | .rparen => "')'"
  | .eof => "end of input"

/-- What is wrong with a text that no token starts. -/
inductive Fault where
  | unexpected (found : Char)
  | badEscape (found : Char) (offset : Nat)
  | unterminated (offset : Nat)
  | overflow (digits : List Char)
  deriving DecidableEq, Repr

/-- What stands in front of a text, and how many characters were read to see it. -/
structure Lexeme where
  outcome : Except Fault Token
  length : Nat

/-- Why there is no character after a backslash and `u`: the first character that is no digit is
at fault, or else the backslash at `offset`. -/
def unicodeFault (offset : Nat) (text : List Char) : Lexeme :=
  let good := ((text.take 4).takeWhile fun c => (Text.hexDigit? c).isSome).length
  if good = 4 then ⟨.error (.badEscape 'u' offset), offset + 6⟩
  else if good < text.length then
    ⟨.error (.badEscape 'u' (offset + 2 + good)), offset + 2 + good⟩
  else ⟨.error (.unterminated offset), offset + 2 + good⟩

/-- A string from `offset` on. The characters decoded so far come latest first. -/
def stringFrom (offset : Nat) (decoded : List Char) : List Char → Lexeme
  | [] => ⟨.error (.unterminated 0), offset⟩
  | '"' :: _ => ⟨.ok (.literal (.string (String.ofList decoded.reverse))), offset + 1⟩
  | '\\' :: text =>
    match text with
    | [] => ⟨.error (.unterminated 0), offset + 1⟩
    | 'u' :: a :: b :: c :: d :: rest =>
      match Text.codePoint? [a, b, c, d] with
      | some char => stringFrom (offset + 6) (char :: decoded) rest
      | none => unicodeFault offset (a :: b :: c :: d :: rest)
    | 'u' :: few => unicodeFault offset few
    | c :: rest =>
      match Text.escaped? c with
      | some char => stringFrom (offset + 2) (char :: decoded) rest
      | none => ⟨.error (.badEscape c offset), offset + 1⟩
  | c :: rest => stringFrom (offset + 1) (c :: decoded) rest

/-- An integer of any number of digits, but not of any size. -/
def integer (digits : List Char) : Lexeme :=
  let value := Nat.ofDigitChars 10 digits 0
  ⟨if value < Value.integerBound then .ok (.literal (.integer (Int64.ofNat value)))
    else .error (.overflow digits), digits.length⟩

/-- Three words are literals and all others are names. -/
def wordToken (word : String) : Token :=
  if word = "true" then .literal (.boolean true)
  else if word = "false" then .literal (.boolean false)
  else if word = "null" then .literal .null
  else .identifier word

/-- The longest lexeme at the front of `c :: text`. -/
def lexeme (c : Char) (text : List Char) : Lexeme :=
  if c = '(' then ⟨.ok .lparen, 1⟩
  else if c = ')' then ⟨.ok .rparen, 1⟩
  else if c = '"' then stringFrom 1 [] text
  else if c.isAlpha then
    let word := c :: text.takeWhile Char.isAlphanum
    ⟨.ok (wordToken (String.ofList word)), word.length⟩
  else if c.isDigit then integer (c :: text.takeWhile Char.isDigit)
  else ⟨.error (.unexpected c), 0⟩

theorem offset_lt_of_stringFrom {offset : Nat} {decoded text : List Char} {token : Token}
    (h : (stringFrom offset decoded text).outcome = .ok token) :
    offset < (stringFrom offset decoded text).length := by
  fun_induction stringFrom offset decoded text <;>
    simp_all [unicodeFault] <;> grind

theorem length_pos_of_lexeme {c : Char} {text : List Char} {token : Token}
    (h : (lexeme c text).outcome = .ok token) : 0 < (lexeme c text).length := by
  unfold lexeme at h ⊢
  split; · exact Nat.one_pos
  split; · exact Nat.one_pos
  split
  · simp_all only [if_false, if_true]
    exact Nat.lt_of_le_of_lt (Nat.zero_le _) (offset_lt_of_stringFrom h)
  split; · simp
  split
  · simp [integer]
  · simp_all

end JsonQuery.Query
