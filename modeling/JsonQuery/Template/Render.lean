import JsonQuery.Template.Specifier
import JsonQuery.Json.Printer

/-!
# Filling templates

`fill` puts values in the places of specifiers. A value that does not fit the verb of its
specifier is written as its plain text. A specifier that is out of range, or that no value is
left for, stands for itself.
-/

namespace JsonQuery.Template

structure Format where
  left : Bool
  plus : Bool
  zero : Bool
  width : Option Nat
  precision : Option Nat
  verb : Char
  deriving DecidableEq, Repr

def maxWidth : Nat := 1000000

def maxPrecision : Nat := 65535

def number? (digits : List Char) : Option Nat :=
  if digits.all Char.isDigit then some (Nat.ofDigitChars 10 digits 0) else none

/-- A number up to `limit`, if there is one; fails if it is out of range. -/
def bounded? (limit : Nat) (digits : List Char) : Option Nat :=
  (number? digits).filter (· ≤ limit)

/-- Fails if the width or the precision is out of range. -/
def Specifier.format? (s : Specifier) : Option Format := do
  let width ← if s.width.isEmpty then some none else (bounded? maxWidth s.width).map some
  let precision ← match s.precision with
    | none => some none
    | some digits => (bounded? maxPrecision digits).map some
  return {
    left := s.flags.contains '-'
    plus := s.flags.contains '+'
    zero := s.flags.contains '0'
    width
    precision
    verb := s.verb }

/-- Verbs for numbers, which may be filled up with zeros. -/
def isNumeric (verb : Char) : Bool :=
  ['d', 'f', 'F', 'e', 'E', 'g', 'x', 'X', 'o', 'b'].contains verb

def withPlus (plus nonNegative : Bool) (text : List Char) : List Char :=
  if plus && nonNegative then '+' :: text else text

def upper (text : List Char) : List Char := text.map Char.toUpper

/-- The digits of an integer as a word of 64 bits. -/
def wordDigits (base : Nat) (n : Int64) : List Char := Nat.toDigits base n.toUInt64.toNat

/-- Two hexadecimal digits for every byte of the UTF-8 encoding. -/
def hexBytes (s : String) : List Char :=
  (s.toList.flatMap String.utf8EncodeChar).flatMap fun byte =>
    let ds := Text.hex byte.toNat
    zeros (2 - ds.length) ++ ds

def Format.body (f : Format) (value : Value) : List Char :=
  match f.verb, value with
  | 's', .string s | 'v', .string s =>
    match f.precision with
    | some most => s.toList.take most
    | none => s.toList
  | 'q', .string s => Json.quote s
  | 'd', .integer n => withPlus f.plus (0 ≤ n.toInt) (integerText n.toInt)
  | 'x', .integer n => wordDigits 16 n
  | 'X', .integer n => upper (wordDigits 16 n)
  | 'o', .integer n => wordDigits 8 n
  | 'b', .integer n => wordDigits 2 n
  | 'x', .string s => hexBytes s
  | 'X', .string s => upper (hexBytes s)
  | verb, value =>
    match value.asFloat? with
    | none => value.text.toList
    | some x =>
      if verb = 'f' ∨ verb = 'F' then
        withPlus f.plus (0 ≤ x) (fixedText (f.precision.getD 6) x).toList
      else if verb = 'e' then
        withPlus f.plus (0 ≤ x) (scientificText (f.precision.getD 6) x).toList
      else if verb = 'E' then
        withPlus f.plus (0 ≤ x) (upper (scientificText (f.precision.getD 6) x).toList)
      else value.text.toList

/-- A sign in front and the text after it. -/
def splitSign : List Char → List Char × List Char
  | '-' :: text => (['-'], text)
  | '+' :: text => (['+'], text)
  | text => ([], text)

/-- Fills up to the width: with blanks after the text, with zeros between sign and digits, or
with blanks in front. -/
def Format.pad (f : Format) (numeric : Bool) (text : List Char) : List Char :=
  let fill := f.width.getD 0 - text.length
  if f.left then text ++ List.replicate fill ' '
  else if f.zero && numeric then
    (splitSign text).1 ++ (zeros fill ++ (splitSign text).2)
  else List.replicate fill ' ' ++ text

def Format.render (f : Format) (value : Value) : List Char :=
  f.pad (isNumeric f.verb && value.asFloat?.isSome) (f.body value)

/-- Takes the values in order, one for each specifier that needs one. -/
def fillPieces : List Piece → List Value → List Char
  | [], _ => []
  | .ordinary c :: rest, values => c :: fillPieces rest values
  | .specifier s :: rest, values =>
    match s.format?, values with
    | none, values => s.spelling ++ fillPieces rest values
    | some f, values =>
      if f.verb = '%' then '%' :: fillPieces rest values
      else
        match values with
        | [] => s.spelling ++ fillPieces rest []
        | value :: values => f.render value ++ fillPieces rest values

def fill (template : String) (values : List Value) : String :=
  String.ofList (fillPieces (pieces template.toList) values)

end JsonQuery.Template
