import JsonQuery.Text.Characters

/-!
# Switches in TOML

A file of switches has lines of the form `key = true` or `key = false`, blank lines and comments.
Lines end with a line feed, which a carriage return may precede. Keys are bare or quoted.
-/

namespace JsonQuery.Settings.Toml

def isSpace (c : Char) : Bool := c = ' ' || c = '\t'

/-- Control characters other than the tab have no place in a line. -/
def isPlain (c : Char) : Bool := c = '\t' || 0x20 ≤ c.toNat && c ≠ '\x7f'

def isBareKeyChar (c : Char) : Bool := c.isAlphanum || c = '_' || c = '-'

def skipSpace (text : List Char) : List Char := text.dropWhile isSpace

/-- The lines of a text without their ends. Nothing ends the last line. -/
def lines : List Char → List (List Char)
  | [] => [[]]
  | '\n' :: rest => [] :: lines rest
  | '\r' :: '\n' :: rest => [] :: lines rest
  | c :: rest =>
    match lines rest with
    | [] => [[c]]
    | line :: others => (c :: line) :: others

/-- A key in double quotes, and the text after the closing quote. -/
def basicKey? : List Char → Option (List Char × List Char)
  | [] => none
  | '"' :: rest => some ([], rest)
  | '\\' :: text =>
    match text with
    | 'u' :: a :: b :: c :: d :: rest => do
      let char ← Text.codePoint? [a, b, c, d]
      let (key, rest) ← basicKey? rest
      return (char :: key, rest)
    | 'U' :: a :: b :: c :: d :: e :: f :: g :: h :: rest => do
      let char ← Text.codePoint? [a, b, c, d, e, f, g, h]
      let (key, rest) ← basicKey? rest
      return (char :: key, rest)
    | '/' :: _ => none
    | letter :: rest => do
      let char ← Text.escaped? letter
      let (key, rest) ← basicKey? rest
      return (char :: key, rest)
    | [] => none
  | c :: rest =>
    if isPlain c then (basicKey? rest).map fun found => (c :: found.1, found.2) else none

def literalKey? (text : List Char) : Option (List Char × List Char) :=
  match text.dropWhile fun c => isPlain c && c ≠ '\'' with
  | '\'' :: rest => some (text.takeWhile fun c => isPlain c && c ≠ '\'', rest)
  | _ => none

def key? : List Char → Option (List Char × List Char)
  | '"' :: text => basicKey? text
  | '\'' :: text => literalKey? text
  | text =>
    if (text.takeWhile isBareKeyChar).isEmpty then none
    else some (text.takeWhile isBareKeyChar, text.dropWhile isBareKeyChar)

/-- Blanks, and perhaps a comment. -/
def isTrailing (text : List Char) : Bool :=
  match skipSpace text with
  | [] => true
  | '#' :: comment => comment.all isPlain
  | _ => false

def switch? : List Char → Option (Bool × List Char)
  | 't' :: 'r' :: 'u' :: 'e' :: rest => some (true, rest)
  | 'f' :: 'a' :: 'l' :: 's' :: 'e' :: rest => some (false, rest)
  | _ => none

/-- A key and its switch on a line of their own. -/
def entry? (line : List Char) : Option (String × Bool) := do
  let (key, rest) ← key? (skipSpace line)
  match skipSpace rest with
  | '=' :: rest =>
    let (on, rest) ← switch? (skipSpace rest)
    if isTrailing rest then return (String.ofList key, on) else none
  | _ => none

/-- The entries of a file in their order. A byte order mark in front is skipped. -/
def entries? (text : List Char) : Option (List (String × Bool)) :=
  let text := match text with
    | '\ufeff' :: rest => rest
    | text => text
  ((lines text).filter fun line => !isTrailing line).mapM entry?

end JsonQuery.Settings.Toml
