import JsonQuery.Json.Printer
import JsonQuery.Json.Reader
import Mathlib

/-!
# String literals

A string literal is read back as it was written: every character goes through `escapeChar` and
comes out of `Literal.push` as its UTF-8 bytes (`pushAll?_escapeChar`), and the bytes of all
characters together are the string again when the literal closes (`push_quote`).
-/

namespace JsonQuery.Json

/-! ### UTF-8 -/

def bytesOf (text : List Char) : List UInt8 := text.flatMap String.utf8EncodeChar

theorem bytesOf_cons (c : Char) (text : List Char) :
    bytesOf (c :: text) = String.utf8EncodeChar c ++ bytesOf text := List.flatMap_cons

theorem bytesOf_append (a b : List Char) : bytesOf (a ++ b) = bytesOf a ++ bytesOf b :=
  List.flatMap_append

theorem toList_toUTF8 (text : List Char) :
    (String.ofList text).toUTF8.data.toList = bytesOf text := by
  rw [String.toUTF8, String.toByteArray_ofList, List.utf8Encode, List.data_toByteArray]
  rfl

theorem fromUTF8?_bytesOf (s : String) :
    String.fromUTF8? (bytesOf s.toList).toByteArray = some s := by
  have bytes : (bytesOf s.toList).toByteArray = s.toByteArray := String.utf8Encode_toList
  rw [bytes, String.fromUTF8?, dif_pos s.isValidUTF8]
  rfl

theorem bytesOf_injective {a b : List Char} (h : bytesOf a = bytesOf b) : a = b := by
  have read (text : List Char) := fromUTF8?_bytesOf (String.ofList text)
  simp only [String.toList_ofList] at read
  have same := read a
  rw [h, read b] at same
  exact (String.ofList_injective (Option.some.inj same)).symm

theorem utf8EncodeChar_ascii {c : Char} (h : c.toNat < 128) :
    String.utf8EncodeChar c = [c.toUInt8] := by
  have small : c.val.toNat ≤ 0x7f := Nat.le_of_lt_succ h
  unfold String.utf8EncodeChar
  rw [if_pos small]
  rfl

theorem ofUInt8_toUInt8 {c : Char} (h : c.toNat < 128) : Char.ofUInt8 c.toUInt8 = c := by
  apply Char.ext
  apply UInt32.toNat_inj.mp
  have same : c.toUInt8.toNat = c.toNat := by
    show c.val.toNat % 256 = c.val.toNat
    exact Nat.mod_eq_of_lt (Nat.lt_trans h (by decide))
  show c.toUInt8.toUInt32.toNat = c.toNat
  rw [UInt8.toNat_toUInt32, same]

/-- Beyond ASCII no byte is the code of a character of ASCII. -/
theorem le_of_mem_utf8EncodeChar {c : Char} (h : 128 ≤ c.toNat) {byte : UInt8}
    (mem : byte ∈ String.utf8EncodeChar c) : 128 ≤ byte.toNat := by
  have big : ¬c.val.toNat ≤ 0x7f := Nat.not_le.mpr h
  unfold String.utf8EncodeChar at mem
  dsimp only at mem
  rw [if_neg big] at mem
  have ofNat {n : Nat} (low : 128 ≤ n) (high : n < 256) : 128 ≤ (UInt8.ofNat n).toNat := by
    rw [UInt8.toNat_ofNat_of_lt' high]
    exact low
  split at mem
  · rcases List.mem_cons.mp mem with rfl | mem
    · exact ofNat (by omega) (by omega)
    rcases List.mem_singleton.mp mem with rfl
    exact ofNat (by omega) (by omega)
  split at mem
  · rcases List.mem_cons.mp mem with rfl | mem
    · exact ofNat (by omega) (by omega)
    rcases List.mem_cons.mp mem with rfl | mem
    · exact ofNat (by omega) (by omega)
    rcases List.mem_singleton.mp mem with rfl
    exact ofNat (by omega) (by omega)
  · rcases List.mem_cons.mp mem with rfl | mem
    · exact ofNat (by omega) (by omega)
    rcases List.mem_cons.mp mem with rfl | mem
    · exact ofNat (by omega) (by omega)
    rcases List.mem_cons.mp mem with rfl | mem
    · exact ofNat (by omega) (by omega)
    rcases List.mem_singleton.mp mem with rfl
    exact ofNat (by omega) (by omega)

/-! ### Reading inside a literal -/

namespace Literal

/-- Reads bytes that do not close the literal. -/
def pushAll? : Literal → List UInt8 → Option Literal
  | l, [] => some l
  | l, byte :: bytes =>
    match l.push byte with
    | .more next => next.pushAll? bytes
    | _ => none

theorem pushAll?_append {l middle : Literal} {a : List UInt8} (h : l.pushAll? a = some middle)
    (b : List UInt8) : l.pushAll? (a ++ b) = middle.pushAll? b := by
  induction a generalizing l with
  | nil =>
    cases h
    rfl
  | cons byte a ih =>
    rw [List.cons_append, pushAll?]
    rw [pushAll?] at h
    split at h
    case h_1 next same => exact ih h
    case h_2 => cases h

/-- A byte that stands for itself. -/
def Ordinary (byte : UInt8) : Prop :=
  Char.ofUInt8 byte ≠ '"' ∧ Char.ofUInt8 byte ≠ '\\' ∧ ¬byte < 0x20

theorem pushAll?_ordinary {bytes : List UInt8} (h : ∀ byte ∈ bytes, Ordinary byte)
    (read : List UInt8) :
    pushAll? ⟨read, .outside⟩ bytes = some ⟨bytes.reverse ++ read, .outside⟩ := by
  induction bytes generalizing read with
  | nil => rfl
  | cons byte bytes ih =>
    obtain ⟨⟨quote, backslash, control⟩, others⟩ := List.forall_mem_cons.mp h
    have step : push ⟨read, .outside⟩ byte = .more ⟨byte :: read, .outside⟩ := by
      simp only [push, quote, backslash, control, if_false]
    rw [pushAll?, step]
    dsimp only
    rw [ih others, List.reverse_cons, List.append_assoc]
    rfl

theorem ordinary_of_le {byte : UInt8} (h : 128 ≤ byte.toNat) : Ordinary byte := by
  have code : (Char.ofUInt8 byte).toNat = byte.toNat := UInt8.toNat_toUInt32 byte
  refine ⟨?_, ?_, ?_⟩
  · intro same
    rw [same] at code
    have : '"'.toNat = 34 := rfl
    omega
  · intro same
    rw [same] at code
    have : '\\'.toNat = 92 := rfl
    omega
  · intro less
    have : byte.toNat < 0x20 := less
    omega

theorem pushAll?_plain {c : Char} (quote : c ≠ '"') (backslash : c ≠ '\\')
    (control : isControl c = false) (read : List UInt8) :
    pushAll? ⟨read, .outside⟩ (bytesOf [c]) =
      some ⟨(String.utf8EncodeChar c).reverse ++ read, .outside⟩ := by
  rw [bytesOf_cons, bytesOf, List.flatMap_nil, List.append_nil]
  refine pushAll?_ordinary (fun byte mem => ?_) read
  by_cases ascii : c.toNat < 128
  · rw [utf8EncodeChar_ascii ascii] at mem
    obtain rfl := List.mem_singleton.mp mem
    unfold Ordinary
    rw [ofUInt8_toUInt8 ascii]
    refine ⟨quote, backslash, fun less => ?_⟩
    have small : c.toNat % 256 < 0x20 := less
    rw [isControl, Bool.or_eq_false_iff, decide_eq_false_iff_not] at control
    omega
  · exact ordinary_of_le (le_of_mem_utf8EncodeChar (Nat.le_of_not_lt ascii) mem)

theorem pushAll?_letter {letter c : Char} (ascii : letter.toNat < 128) (other : letter ≠ 'u')
    (escaped : Text.escaped? letter = some c) (read : List UInt8) :
    pushAll? ⟨read, .outside⟩ (bytesOf ['\\', letter]) =
      some ⟨(String.utf8EncodeChar c).reverse ++ read, .outside⟩ := by
  have bytes : bytesOf ['\\', letter] = ['\\'.toUInt8, letter.toUInt8] := by
    rw [bytesOf_cons, bytesOf_cons, utf8EncodeChar_ascii ascii]
    rfl
  have first : push ⟨read, .outside⟩ '\\'.toUInt8 = .more ⟨read, .backslash⟩ := rfl
  have second : push ⟨read, .backslash⟩ letter.toUInt8 =
      .more ⟨(String.utf8EncodeChar c).reverse ++ read, .outside⟩ := by
    simp only [push, ofUInt8_toUInt8 ascii, other, if_false, escaped]
    rfl
  rw [bytes, pushAll?, first]
  dsimp only
  rw [pushAll?, second]
  rfl

end Literal

/-! ### Escapes by number -/

/-- Four hexadecimal digits. -/
def codeDigits (n : Nat) : List Char := zeros (4 - (Text.hex n).length) ++ Text.hex n

theorem hexDigit?_digitChar : ∀ d < 16, Text.hexDigit? d.digitChar = some d := by decide

theorem toNat_digitChar_lt : ∀ d < 16, d.digitChar.toNat < 128 := by decide

theorem hexValue?_snoc (digits : List Char) (c : Char) :
    Text.hexValue? (digits ++ [c]) =
      (Text.hexValue? digits).bind fun n => (Text.hexDigit? c).map fun d => 16 * n + d := by
  rw [Text.hexValue?, List.foldl_append]
  show (do return 16 * (← Text.hexValue? digits) + (← Text.hexDigit? c)) = _
  cases Text.hexValue? digits with
  | none => rfl
  | some n => cases Text.hexDigit? c <;> rfl

/-- Hexadecimal digits are ASCII and spell the number. -/
theorem hexValue?_hex (n : Nat) :
    Text.hexValue? (Text.hex n) = some n ∧ ∀ c ∈ Text.hex n, c.toNat < 128 := by
  unfold Text.hex
  induction n using Nat.strongRecOn with
  | ind n ih =>
    by_cases small : n < 16
    · rw [Nat.toDigits_of_lt_base small]
      have value : Text.hexValue? [n.digitChar] = some n := by
        rw [← List.nil_append [n.digitChar], hexValue?_snoc, hexDigit?_digitChar n small]
        simp [Text.hexValue?]
      refine ⟨value, fun c mem => ?_⟩
      obtain rfl := List.mem_singleton.mp mem
      exact toNat_digitChar_lt n small
    · obtain ⟨value, ascii⟩ := ih (n / 16) (by omega)
      have digit : n % 16 < 16 := Nat.mod_lt n (by decide)
      have parts : Nat.toDigits 16 n = Nat.toDigits 16 (n / 16) ++ [(n % 16).digitChar] :=
        Nat.toDigits_of_base_le (by decide) (by omega)
      rw [parts]
      constructor
      · rw [hexValue?_snoc, value, hexDigit?_digitChar _ digit]
        simp only [Option.bind_some, Option.map_some, Option.some.injEq]
        omega
      · intro c mem
        rcases List.mem_append.mp mem with mem | mem
        · exact ascii c mem
        · obtain rfl := List.mem_singleton.mp mem
          exact toNat_digitChar_lt _ digit

theorem hexValue?_zeros (count : Nat) (digits : List Char) :
    Text.hexValue? (zeros count ++ digits) = Text.hexValue? digits := by
  induction count with
  | zero => rfl
  | succ count ih => exact ih

theorem length_hex_le {n : Nat} (small : n < 16 ^ 4) : (Text.hex n).length ≤ 4 :=
  (Nat.length_toDigits_le_iff (by decide) (by decide)).mpr small

theorem codeDigits_spec {n : Nat} (small : n < 16 ^ 4) :
    (codeDigits n).length = 4 ∧ (∀ c ∈ codeDigits n, c.toNat < 128) ∧
      Text.hexValue? (codeDigits n) = some n := by
  obtain ⟨value, ascii⟩ := hexValue?_hex n
  have short := length_hex_le small
  unfold codeDigits
  refine ⟨?_, fun c mem => ?_, ?_⟩
  · rw [List.length_append, zeros, List.length_replicate]
    omega
  · rcases List.mem_append.mp mem with mem | mem
    · rw [(List.mem_replicate.mp mem).2]
      decide
    · exact ascii c mem
  · rw [hexValue?_zeros, value]

theorem codeDigits_four {n : Nat} (small : n < 16 ^ 4) :
    ∃ w x y z, codeDigits n = [w, x, y, z] := by
  match digits : codeDigits n, (codeDigits_spec small).1 with
  | [w, x, y, z], _ => exact ⟨w, x, y, z, rfl⟩

namespace Literal

/-- An escape sequence of a backslash, `u` and the digits of a code that is no surrogate. -/
theorem pushAll?_code {c : Char} (small : c.toNat < 0xd800) (read : List UInt8) :
    pushAll? ⟨read, .outside⟩ (bytesOf ('\\' :: 'u' :: codeDigits c.toNat)) =
      some ⟨(String.utf8EncodeChar c).reverse ++ read, .outside⟩ := by
  have within : c.toNat < 16 ^ 4 := by omega
  obtain ⟨-, ascii, value⟩ := codeDigits_spec within
  obtain ⟨w, x, y, z, digits⟩ := codeDigits_four within
  rw [digits] at ascii value
  simp only [List.forall_mem_cons] at ascii
  obtain ⟨hw, hx, hy, hz, -⟩ := ascii
  have bytes : bytesOf ['\\', 'u', w, x, y, z] =
      ['\\'.toUInt8, 'u'.toUInt8, w.toUInt8, x.toUInt8, y.toUInt8, z.toUInt8] := by
    simp only [bytesOf_cons, utf8EncodeChar_ascii hw, utf8EncodeChar_ascii hx,
      utf8EncodeChar_ascii hy, utf8EncodeChar_ascii hz]
    rfl
  have unit : Text.hexValue? (List.map Char.ofUInt8
      [w.toUInt8, x.toUInt8, y.toUInt8, z.toUInt8]) = some c.toNat := by
    simp only [List.map_cons, List.map_nil, ofUInt8_toUInt8 hw, ofUInt8_toUInt8 hx,
      ofUInt8_toUInt8 hy, ofUInt8_toUInt8 hz]
    exact value
  have last : push ⟨read, .hex none [y.toUInt8, x.toUInt8, w.toUInt8]⟩ z.toUInt8 =
      .more ⟨(String.utf8EncodeChar c).reverse ++ read, .outside⟩ := by
    have low : isLowSurrogate c.toNat = false := by simp [isLowSurrogate]; omega
    have high : isHighSurrogate c.toNat = false := by simp [isHighSurrogate]; omega
    show pushUnit _ none [w.toUInt8, x.toUInt8, y.toUInt8, z.toUInt8] = _
    unfold pushUnit
    rw [unit]
    simp only [low, high, Char.ofNat_toNat]
    rfl
  rw [digits, bytes]
  show (match push ⟨read, .hex none [y.toUInt8, x.toUInt8, w.toUInt8]⟩ z.toUInt8 with
    | .more next => next.pushAll? []
    | _ => none) = _
  rw [last]
  rfl

/-- A character is read as it was written. -/
theorem pushAll?_escapeChar (c : Char) (read : List UInt8) :
    pushAll? ⟨read, .outside⟩ (bytesOf (escapeChar c)) =
      some ⟨(String.utf8EncodeChar c).reverse ++ read, .outside⟩ := by
  unfold escapeChar
  split
  · exact pushAll?_letter (by decide) (by decide) rfl read
  · exact pushAll?_letter (by decide) (by decide) rfl read
  · exact pushAll?_letter (by decide) (by decide) rfl read
  · exact pushAll?_letter (by decide) (by decide) rfl read
  · exact pushAll?_letter (by decide) (by decide) rfl read
  case h_6 quote backslash _ _ _ =>
    split
    case isTrue control =>
      refine pushAll?_code ?_ read
      simp only [isControl, Bool.or_eq_true, Bool.and_eq_true, decide_eq_true_eq] at control
      omega
    case isFalse control =>
      exact pushAll?_plain quote backslash (by simpa using control) read

theorem pushAll?_escaped (cs : List Char) (read : List UInt8) :
    pushAll? ⟨read, .outside⟩ (bytesOf (cs.flatMap escapeChar)) =
      some ⟨(bytesOf cs).reverse ++ read, .outside⟩ := by
  induction cs generalizing read with
  | nil => rfl
  | cons c cs ih =>
    rw [List.flatMap_cons, bytesOf_append, pushAll?_append (pushAll?_escapeChar c read), ih,
      bytesOf_cons, List.reverse_append, List.append_assoc]

theorem push_quote (s : String) :
    push ⟨(bytesOf s.toList).reverse, .outside⟩ '"'.toUInt8 = .closed s := by
  have closing : Char.ofUInt8 '"'.toUInt8 = '"' := rfl
  simp only [push, closing, if_true, List.reverse_reverse, fromUTF8?_bytesOf]

end Literal

end JsonQuery.Json
