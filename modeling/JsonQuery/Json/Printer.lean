import JsonQuery.Decimal.Spelling
import JsonQuery.Text.Quoted
import JsonQuery.Value

/-!
# Writing JSON

A value is written on one line or indented by two spaces a level, with or without terminal
colors. Fields are written in key order. Strings and keys never hold a raw control character, and
a float that is not finite is written as `null`.
-/

namespace JsonQuery.Json

structure Style where
  pretty : Bool
  color : Bool
  /-- the switch of the terminal, without which no color that is asked for is shown -/
  colorizes : Bool := true
  deriving DecidableEq, Repr

/-- What a colored piece of text is. -/
inductive Paint where
  | key
  | string
  | number
  | boolean
  | null
  deriving DecidableEq, Repr

/-- The parameters of the escape sequence that starts the color. -/
def Paint.code : Paint → String
  | .key => "1;34"
  | .string => "32"
  | .number => "36"
  | .boolean => "33"
  | .null => "90"

def Style.paint (style : Style) (paint : Paint) (text : List Char) : List Char :=
  if style.color && style.colorizes then
    '\x1b' :: '[' :: (paint.code.toList ++ 'm' :: (text ++ ['\x1b', '[', '0', 'm']))
  else text

/-- The control characters of ASCII and of its upper half. -/
def isControl (c : Char) : Bool :=
  c.toNat < 0x20 || 0x7f ≤ c.toNat && c.toNat < 0xa0

def escapeChar (c : Char) : List Char :=
  match c with
  | '"' => ['\\', '"']
  | '\\' => ['\\', '\\']
  | '\n' => ['\\', 'n']
  | '\r' => ['\\', 'r']
  | '\t' => ['\\', 't']
  | c =>
    if isControl c then
      let ds := Text.hex c.toNat
      '\\' :: 'u' :: (zeros (4 - ds.length) ++ ds)
    else [c]

def quote (s : String) : List Char :=
  '"' :: (s.toList.flatMap escapeChar ++ ['"'])

/-- A number, or `null` for what JSON cannot write as a number. -/
def numberText (x : Float) : List Char :=
  match Binary64.ofFloat x with
  | .finite .. => (positionalText x).toList
  | _ => "null".toList

def indent (level : Nat) : List Char := List.replicate (2 * level) ' '

/-- Encloses the parts of a container that starts on `level`. -/
def Style.enclose (style : Style) (level : Nat) (opening closing : Char)
    (parts : List (List Char)) : List Char :=
  if parts.isEmpty then [opening, closing]
  else if style.pretty then
    opening :: '\n' ::
      (List.intercalate [',', '\n'] (parts.map (indent (level + 1) ++ ·)) ++
        '\n' :: (indent level ++ [closing]))
  else opening :: (List.intercalate [','] parts ++ [closing])

namespace Style

/-- A field of an object, given the text of its value. -/
def member (style : Style) (field : String × List Char) : List Char :=
  style.paint .key (quote field.1) ++ ':' :: ((if style.pretty then [' '] else []) ++ field.2)

mutual

def write (style : Style) (level : Nat) : Value → List Char
  | .null => style.paint .null "null".toList
  | .boolean b => style.paint .boolean (if b then "true".toList else "false".toList)
  | .integer n => style.paint .number (integerText n.toInt)
  | .float x => style.paint .number (numberText x)
  | .string s => style.paint .string (quote s)
  | .array items => style.enclose level '[' ']' (style.writeItems (level + 1) items)
  | .object fields =>
    style.enclose level '{' '}'
      ((Entries.sorted (style.writeFields (level + 1) fields)).map style.member)

def writeItems (style : Style) (level : Nat) : List Value → List (List Char)
  | [] => []
  | item :: rest => style.write level item :: style.writeItems level rest

def writeFields (style : Style) (level : Nat) : Entries Value → Entries (List Char)
  | [] => []
  | (key, value) :: rest => (key, style.write level value) :: style.writeFields level rest

end

end Style

def compact : Style := { pretty := false, color := false }

def pretty : Style := { pretty := true, color := false }

def print (style : Style) (value : Value) : String :=
  String.ofList (style.write 0 value)

end JsonQuery.Json

namespace JsonQuery.Value

/-- What a value contributes to other text: a string stands for itself, a float is written with an
exponent if it is large or small, and everything else is compact JSON. -/
def text : Value → String
  | .string s => s
  | .float x => generalText x
  | value => Json.print Json.compact value

end JsonQuery.Value
