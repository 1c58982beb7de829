import JsonQuery.Proofs.Json.Literals
import JsonQuery.Template.Render

/-!
# Digits read back

`numberIn?` reads the digits of a number in a base up to sixteen, `integerOf?` a decimal number with
a sign and `bytesOfHex?` two hexadecimal digits for every byte. They undo how a template writes
words of 64 bits (`numberIn?_wordDigits`), integers (`integerOf?_signed`) and the bytes of texts
(`bytesOfHex?_hexBytes`).
-/

namespace JsonQuery.Template

/-! ### Readers -/

def digitIn? (base : Nat) (c : Char) : Option Nat := (Text.hexDigit? c).filter (· < base)

def digitsValue? (base : Nat) (ds : List Char) : Option Nat :=
  ds.foldl (fun value c => do return base * (← value) + (← digitIn? base c)) (some 0)

/-- The number that the digits spell, most significant first. A text without digits spells none. -/
def numberIn? (base : Nat) (ds : List Char) : Option Nat :=
  if ds = [] then none else digitsValue? base ds

def integerOf? : List Char → Option Int
  | '-' :: ds => (numberIn? 10 ds).map fun n => -Int.ofNat n
  | '+' :: ds => (numberIn? 10 ds).map Int.ofNat
  | ds => (numberIn? 10 ds).map Int.ofNat

/-- Two digits for each byte. -/
def bytesOfHex? : List Char → Option (List UInt8)
  | [] => some []
  | [_] => none
  | high :: low :: ds => do
    let byte := 16 * (← Text.hexDigit? high) + (← Text.hexDigit? low)
    return UInt8.ofNat byte :: (← bytesOfHex? ds)

/-! ### Digits of a number -/

section Digits

variable {base : Nat} {ds : List Char} {n : Nat}

theorem digitsValue?_snoc (base : Nat) (ds : List Char) (c : Char) :
    digitsValue? base (ds ++ [c]) =
      (digitsValue? base ds).bind fun n => (digitIn? base c).map fun d => base * n + d := by
  rw [digitsValue?, List.foldl_append]
  show (do return base * (← digitsValue? base ds) + (← digitIn? base c)) = _
  cases digitsValue? base ds with
  | none => rfl
  | some n => cases digitIn? base c <;> rfl

/-- `spell` may write the digits in another way, such as in upper case. -/
theorem digitsValue?_toDigits (two : 1 < base) {spell : Char → Char}
    (read : ∀ d < base, digitIn? base (spell d.digitChar) = some d) (n : Nat) :
    digitsValue? base ((Nat.toDigits base n).map spell) = some n := by
  induction n using Nat.strongRecOn with
  | ind n ih =>
    by_cases small : n < base
    · rw [Nat.toDigits_of_lt_base small]
      have value := digitsValue?_snoc base [] (spell n.digitChar)
      rw [read n small] at value
      simpa [digitsValue?] using value
    · have smaller : n / base < n := Nat.div_lt_self (by omega) two
      rw [Nat.toDigits_of_base_le two (by omega), List.map_append, List.map_singleton,
        digitsValue?_snoc, ih _ smaller, read _ (Nat.mod_lt n (by omega)), Option.bind_some,
        Option.map_some, Nat.div_add_mod]

theorem numberIn?_toDigits (two : 1 < base) {spell : Char → Char}
    (read : ∀ d < base, digitIn? base (spell d.digitChar) = some d) (n : Nat) :
    numberIn? base ((Nat.toDigits base n).map spell) = some n := by
  have digits : (Nat.toDigits base n).map spell ≠ [] := by simp [Nat.toDigits_ne_nil]
  rw [numberIn?, if_neg digits, digitsValue?_toDigits two read]

theorem numberIn?_zeros (pos : 0 < base) (count : Nat) (h : numberIn? base ds = some n) :
    numberIn? base (zeros count ++ ds) = some n := by
  have zero : digitIn? base '0' = some 0 := by
    rw [digitIn?, show Text.hexDigit? '0' = some 0 from rfl, Option.filter_some]
    simp [pos]
  unfold numberIn? at h ⊢
  split at h
  · cases h
  · rename_i digits
    rw [if_neg (by simp [digits])]
    induction count with
    | zero => exact h
    | succ count ih =>
      rw [← ih, zeros, List.replicate_succ, List.cons_append, digitsValue?, List.foldl_cons, zero]
      rfl

theorem isSome_hexDigit?_of_mem (h : digitsValue? base ds = some n) {c : Char} (mem : c ∈ ds) :
    (Text.hexDigit? c).isSome = true := by
  induction ds using List.reverseRecOn generalizing n with
  | nil => cases mem
  | append_singleton ds last ih =>
    rw [digitsValue?_snoc] at h
    obtain ⟨value, front, h⟩ := Option.bind_eq_some_iff.mp h
    obtain ⟨d, digit, -⟩ := Option.map_eq_some_iff.mp h
    rcases List.mem_append.mp mem with mem | mem
    · exact ih front mem
    · obtain rfl := List.mem_singleton.mp mem
      rw [(Option.filter_eq_some_iff.mp digit).1]
      rfl

theorem digits_of_numberIn? (h : numberIn? base ds = some n) :
    ds ≠ [] ∧ ∀ c ∈ ds, (Text.hexDigit? c).isSome = true := by
  unfold numberIn? at h
  split at h
  · cases h
  · rename_i digits
    exact ⟨digits, fun c mem => isSome_hexDigit?_of_mem h mem⟩

end Digits

/-! ### Words and integers -/

theorem toNat_toUInt64 (n : Int64) : n.toUInt64.toNat = (n.toInt % 2 ^ 64).toNat := by
  have word : n.toInt = n.toBitVec.toInt := rfl
  have bits : n.toUInt64.toNat = n.toBitVec.toNat := rfl
  have bound := n.toBitVec.isLt
  rw [word, bits, BitVec.toInt_eq_toNat_cond]
  split <;> omega

theorem numberIn?_wordDigits {base : Nat} (mem : base ∈ [16, 8, 2]) (n : Int64) :
    numberIn? base (wordDigits base n) = some (n.toInt % 2 ^ 64).toNat := by
  have read : ∀ b ∈ [16, 8, 2], 1 < b ∧ ∀ d < b, digitIn? b (id d.digitChar) = some d := by decide
  obtain ⟨two, read⟩ := read base mem
  rw [← toNat_toUInt64, wordDigits, ← numberIn?_toDigits two read, List.map_id]

theorem numberIn?_upper_wordDigits (n : Int64) :
    numberIn? 16 (upper (wordDigits 16 n)) = some (n.toInt % 2 ^ 64).toNat := by
  rw [← toNat_toUInt64]
  exact numberIn?_toDigits (by decide) (by decide) _

theorem numberIn?_digits (n : Nat) : numberIn? 10 (digits n) = some n := by
  have read := @numberIn?_toDigits 10 (by decide) id (by decide) n
  rwa [List.map_id] at read

/-- A sign in front of a number, or none. -/
def signs : List (List Char) := [[], ['-'], ['+']]

theorem integerOf?_signed {n : Int} {sign : List Char} (mem : sign ∈ signs)
    (negative : n < 0 ↔ sign = ['-']) {ds : List Char} (h : numberIn? 10 ds = some n.natAbs) :
    integerOf? (sign ++ ds) = some n := by
  have plain : ds.head? ≠ some '-' ∧ ds.head? ≠ some '+' := by
    have digits := (digits_of_numberIn? h).2
    constructor <;>
    · intro first
      exact absurd (digits _ (List.mem_of_mem_head? first)) (by decide)
  simp only [signs, List.mem_cons, List.not_mem_nil, or_false] at mem
  rcases mem with rfl | rfl | rfl
  · have nonneg : ¬n < 0 := by simp [negative]
    rw [List.nil_append, integerOf?, h, Option.map_some]
    · exact congrArg some (Int.natAbs_of_nonneg (by omega))
    · rintro rest rfl
      exact plain.1 rfl
    · rintro rest rfl
      exact plain.2 rfl
  · have neg : n < 0 := negative.mpr rfl
    show (numberIn? 10 ds).map (fun n => -Int.ofNat n) = _
    rw [h, Option.map_some]
    exact congrArg some (by simp only [Int.ofNat_eq_natCast]; omega)
  · have nonneg : ¬n < 0 := by simp [negative]
    show (numberIn? 10 ds).map Int.ofNat = _
    rw [h, Option.map_some]
    exact congrArg some (Int.natAbs_of_nonneg (by omega))

/-! ### Bytes -/

theorem byteDigits (byte : UInt8) :
    zeros (2 - (Text.hex byte.toNat).length) ++ Text.hex byte.toNat =
      [(byte.toNat / 16).digitChar, (byte.toNat % 16).digitChar] := by
  have bound := byte.toNat_lt
  by_cases small : byte.toNat < 16
  · rw [Text.hex, Nat.toDigits_of_lt_base small, Nat.div_eq_of_lt small, Nat.mod_eq_of_lt small]
    rfl
  · rw [Text.hex, Nat.toDigits_of_base_le (by decide) (by omega),
      Nat.toDigits_of_lt_base (by omega)]
    rfl

theorem bytesOfHex?_byteDigits {spell : Char → Char}
    (read : ∀ d < 16, Text.hexDigit? (spell d.digitChar) = some d) (bytes : List UInt8) :
    bytesOfHex? ((bytes.flatMap fun byte =>
        [(byte.toNat / 16).digitChar, (byte.toNat % 16).digitChar]).map spell) = some bytes := by
  induction bytes with
  | nil => rfl
  | cons byte bytes ih =>
    have bound := byte.toNat_lt
    have value : UInt8.ofNat (16 * (byte.toNat / 16) + byte.toNat % 16) = byte := by
      rw [Nat.div_add_mod, UInt8.ofNat_toNat]
    rw [List.flatMap_cons, List.map_append, List.map_cons, List.map_singleton, List.cons_append,
      List.singleton_append, bytesOfHex?, read _ (by omega), read _ (by omega), ih]
    exact congrArg (fun first => some (first :: bytes)) value

/-- The bytes of a text in UTF-8, in lower or in upper case. -/
theorem bytesOfHex?_hexBytes (t : String) :
    bytesOfHex? (hexBytes t) = some t.toUTF8.data.toList ∧
      bytesOfHex? (upper (hexBytes t)) = some t.toUTF8.data.toList := by
  have bytes : t.toUTF8.data.toList = t.toList.flatMap String.utf8EncodeChar := by
    rw [← Json.bytesOf, ← Json.toList_toUTF8, String.ofList_toList]
  have digits : hexBytes t = t.toUTF8.data.toList.flatMap fun byte =>
      [(byte.toNat / 16).digitChar, (byte.toNat % 16).digitChar] := by
    rw [hexBytes, bytes]
    exact congrArg (List.flatMap · _) (funext byteDigits)
  rw [upper, digits]
  constructor
  · have lower := @bytesOfHex?_byteDigits id (by decide) t.toUTF8.data.toList
    rwa [List.map_id] at lower
  · exact bytesOfHex?_byteDigits (by decide) _

theorem even_of_bytesOfHex? {ds : List Char} {bytes : List UInt8}
    (h : bytesOfHex? ds = some bytes) :
    ds.length = 2 * bytes.length ∧ ∀ c ∈ ds, (Text.hexDigit? c).isSome = true := by
  fun_induction bytesOfHex? ds generalizing bytes with
  | case1 =>
    cases h
    exact ⟨rfl, List.forall_mem_nil _⟩
  | case2 => cases h
  | case3 high low ds ih =>
    obtain ⟨x, first, h⟩ := Option.bind_eq_some_iff.mp h
    obtain ⟨y, second, h⟩ := Option.bind_eq_some_iff.mp h
    obtain ⟨others, more, h⟩ := Option.bind_eq_some_iff.mp h
    obtain rfl := Option.some.inj h
    obtain ⟨even, digits⟩ := ih more
    refine ⟨?_, ?_⟩
    · simp only [List.length_cons, even]
      omega
    · simp only [List.forall_mem_cons, first, second, Option.isSome_some, true_and]
      exact digits

end JsonQuery.Template
