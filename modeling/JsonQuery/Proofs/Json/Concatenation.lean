import JsonQuery.Json.Reader

/-!
# Streams in a row

A reader never looks at the values that it has read (`step_onto`), and it stands outside all
containers when it is between two values (`Outside`). So a stream that is read to its end goes on
after a blank as another stream would begin (`decodeAll_append`). Only the locations of errors tell
the two apart: they count from the beginning of the whole stream.
-/

namespace JsonQuery.Json

namespace Location

theorem shift_start (p : Location) : p.shift start = p := by
  simp [shift, start]

theorem after_shift (p q : Location) (byte : UInt8) :
    (p.shift q).after byte = p.shift (q.after byte) := by
  unfold after
  split
  · simp [shift, Nat.add_assoc]
  · cases lines : q.lines with
    | zero => simp [shift, lines, Nat.add_assoc]
    | succ n => simp [shift, lines]

end Location

namespace Reader

/-- The reader with other values read before its own, latest first like them. -/
def onto (r : Reader) (earlier : List Value) : Reader := { r with values := r.values ++ earlier }

section Onto

variable (r : Reader) (earlier : List Value)

theorem settle_onto (value : Value) :
    (r.onto earlier).settle value = (r.settle value).onto earlier := by
  obtain ⟨values, stack, mode⟩ := r
  cases stack <;> rfl

theorem openContainer_onto (mode : Mode) :
    (r.onto earlier).openContainer mode = (r.openContainer mode).onto earlier := by
  unfold openContainer
  split
  case isTrue room => rw [if_pos (show r.stack.length < maxDepth from room)]; rfl
  case isFalse full => rw [if_neg (show ¬r.stack.length < maxDepth from full)]; rfl

theorem begin_onto (c : Char) : (r.onto earlier).begin c = (r.begin c).onto earlier := by
  unfold begin
  split
  · exact openContainer_onto r earlier _
  · exact openContainer_onto r earlier _
  · rfl
  · rfl
  · rfl
  · rfl
  · cases Numeral.start? c <;> rfl

theorem stepNext_onto (container : Container) (c : Char) :
    (r.onto earlier).stepNext container c = (r.stepNext container c).onto earlier := by
  unfold stepNext
  split
  · rfl
  · exact settle_onto r earlier _
  · rfl
  · exact settle_onto r earlier _
  · split <;> rfl

theorem stepAfter_onto (value : Value) (c : Char) :
    (r.onto earlier).stepAfter value c = (r.stepAfter value c).onto earlier := by
  obtain ⟨values, stack, mode⟩ := r
  unfold stepAfter
  cases stack with
  | nil =>
    dsimp only [onto]
    split
    · rfl
    split
    · exact begin_onto (settle ⟨values, [], mode⟩ value) earlier c
    · rfl
  | cons frame rest => exact stepNext_onto ⟨values, rest, .next (frame.place value)⟩ earlier _ c

/-- What a byte does has nothing to do with the values read before. -/
theorem step_onto (byte : UInt8) : (r.onto earlier).step byte = (r.step byte).onto earlier := by
  obtain ⟨values, stack, mode⟩ := r
  unfold step
  cases mode with
  | between | value =>
    dsimp only [onto]
    split
    · rfl
    · exact begin_onto ⟨values, stack, _⟩ earlier _
  | firstItem =>
    dsimp only [onto]
    split
    · rfl
    split
    · exact settle_onto ⟨values, stack, .firstItem⟩ earlier _
    · exact begin_onto ⟨values, .array [] :: stack, .firstItem⟩ earlier _
  | firstKey =>
    dsimp only [onto]
    split
    · rfl
    split
    · exact settle_onto ⟨values, stack, .firstKey⟩ earlier _
    split <;> rfl
  | nextKey fields =>
    dsimp only [onto]
    split
    · rfl
    split <;> rfl
  | key fields literal =>
    dsimp only [onto]
    cases literal.push byte <;> rfl
  | colon fields key =>
    dsimp only [onto]
    split
    · rfl
    split <;> rfl
  | next container => exact stepNext_onto ⟨values, stack, .next container⟩ earlier container _
  | string literal =>
    dsimp only [onto]
    cases literal.push byte with
    | more | failed => rfl
    | closed s => exact settle_onto ⟨values, stack, .string literal⟩ earlier _
  | number numeral =>
    dsimp only [onto]
    cases numeral.push? (Char.ofUInt8 byte) with
    | some next =>
      dsimp only
      split <;> rfl
    | none =>
      cases numeral.endsBefore (Char.ofUInt8 byte) with
      | false => rfl
      | true =>
        cases numeral.value? with
        | none => rfl
        | some x => exact stepAfter_onto ⟨values, stack, .number numeral⟩ earlier _ _
  | word left value =>
    cases left with
    | nil => exact stepAfter_onto ⟨values, stack, .word [] value⟩ earlier _ _
    | cons expected left =>
      dsimp only [onto]
      split <;> rfl
  | failed => rfl

/-- Neither has the location at which the reading begins. -/
theorem read_onto (p q : Location) (bytes : List UInt8) :
    (r.onto earlier).read (p.shift q) bytes =
      ((r.read q bytes).1.onto earlier, p.shift (r.read q bytes).2) := by
  induction bytes generalizing r q with
  | nil => rfl
  | cons byte rest ih =>
    have failed : (r.onto earlier).hasFailed = r.hasFailed := rfl
    unfold read
    rw [failed]
    split
    · rfl
    · rw [step_onto, Location.after_shift]
      exact ih (r.step byte) (q.after byte)

theorem finish_onto : (r.onto earlier).finish = (earlier.reverse ++ r.finish.1, r.finish.2) := by
  have ending : (r.onto earlier).mode.ending (r.onto earlier).stack = r.mode.ending r.stack := rfl
  have values : (r.onto earlier).values = r.values ++ earlier := rfl
  unfold finish
  rw [ending, values]
  cases r.mode.ending r.stack with
  | ok last => exact Prod.ext (by simp) rfl
  | error problem => exact Prod.ext List.reverse_append rfl

end Onto

/-! ### Between two values -/

/-- Between two values no container is open. -/
def Outside (r : Reader) : Prop := r.mode = .between → r.stack = []

variable {r : Reader}

theorem outside_of_mode (inside : r.mode ≠ .between) : r.Outside := fun mode => absurd mode inside

theorem outside_settle (value : Value) : (r.settle value).Outside := by
  obtain ⟨values, stack, mode⟩ := r
  cases stack with
  | nil => exact fun _ => rfl
  | cons frame rest => exact outside_of_mode nofun

theorem outside_openContainer {mode : Mode} (inside : mode ≠ .between) :
    (r.openContainer mode).Outside := by
  unfold openContainer
  split
  · exact outside_of_mode inside
  · exact outside_of_mode nofun

theorem outside_begin (c : Char) : (r.begin c).Outside := by
  unfold begin
  split
  · exact outside_openContainer nofun
  · exact outside_openContainer nofun
  · exact outside_of_mode nofun
  · exact outside_of_mode nofun
  · exact outside_of_mode nofun
  · exact outside_of_mode nofun
  · split
    · exact outside_of_mode nofun
    · exact outside_of_mode nofun

theorem Outside.stepNext (h : r.Outside) (container : Container) (c : Char) :
    (r.stepNext container c).Outside := by
  unfold Reader.stepNext
  split
  · exact outside_of_mode nofun
  · exact outside_settle _
  · exact outside_of_mode nofun
  · exact outside_settle _
  · split
    · exact h
    · exact outside_of_mode nofun

theorem outside_stepAfter (value : Value) (c : Char) : (r.stepAfter value c).Outside := by
  unfold stepAfter
  split
  · split
    · exact outside_settle _
    split
    · exact outside_begin _
    · exact outside_of_mode nofun
  case h_2 frame rest _ =>
    refine Outside.stepNext (outside_of_mode ?_) _ _
    exact nofun

theorem Outside.step (h : r.Outside) (byte : UInt8) : (r.step byte).Outside := by
  unfold Reader.step
  dsimp only
  split
  case h_1 | h_2 =>
    split
    · exact h
    · exact outside_begin _
  case h_3 =>
    split
    · exact h
    split
    · exact outside_settle _
    · exact outside_begin _
  case h_4 =>
    split
    · exact h
    split
    · exact outside_settle _
    split
    · exact outside_of_mode nofun
    · exact outside_of_mode nofun
  case h_5 =>
    split
    · exact h
    split
    · exact outside_of_mode nofun
    · exact outside_of_mode nofun
  case h_6 =>
    split
    · exact outside_of_mode nofun
    · exact outside_of_mode nofun
    · exact outside_of_mode nofun
  case h_7 =>
    split
    · exact h
    split
    · exact outside_of_mode nofun
    · exact outside_of_mode nofun
  case h_8 container _ => exact h.stepNext container _
  case h_9 =>
    split
    · exact outside_of_mode nofun
    · exact outside_settle _
    · exact outside_of_mode nofun
  case h_10 =>
    split
    · split
      · exact outside_of_mode nofun
      · exact outside_of_mode nofun
    split
    · exact outside_stepAfter _ _
    · exact outside_of_mode nofun
    · exact outside_of_mode nofun
  case h_11 => exact outside_stepAfter _ _
  case h_12 =>
    split
    · exact outside_of_mode nofun
    · exact outside_of_mode nofun
  case h_13 => exact h

theorem Outside.foldl (h : r.Outside) (bytes : List UInt8) :
    (bytes.foldl Reader.step r).Outside := by
  induction bytes generalizing r with
  | nil => exact h
  | cons byte rest ih => exact ih (h.step byte)

theorem push?_blank (numeral : Numeral) : numeral.push? ' ' = none := by
  obtain ⟨negative, phase, significand, scale, shrinks, exponent⟩ := numeral
  cases phase <;> rfl

/-- After a blank a reader that might have stopped waits for the next value. -/
theorem step_blank {values : List Value} (outside : r.Outside)
    (whole : r.finish = (values, none)) : r.step 0x20 = start.onto values.reverse := by
  unfold finish at whole
  split at whole
  case h_2 => cases whole
  case h_1 last ends =>
    obtain ⟨all, stack, mode⟩ := r
    have values : values.reverse = last ++ all := by
      rw [← (Prod.mk.inj whole).1, List.reverse_reverse]
    rw [values]
    have last? {value : Value} (ends : lastValue value stack = .ok last) :
        stack = [] ∧ last = [value] := by
      cases stack with
      | nil => exact ⟨rfl, (Except.ok.inj ends).symm⟩
      | cons frame rest => cases ends
    cases mode with
    | between =>
      obtain rfl : stack = [] := outside rfl
      cases ends
      rfl
    | word left value =>
      cases left with
      | cons expected left => cases ends
      | nil =>
        obtain ⟨rfl, rfl⟩ := last? ends
        rfl
    | number numeral =>
      unfold Mode.ending at ends
      dsimp only at ends
      split at ends
      case h_1 x complete value =>
        obtain ⟨rfl, rfl⟩ := last? ends
        have stops : numeral.push? (Char.ofUInt8 0x20) = none := push?_blank numeral
        have digit : (Char.ofUInt8 0x20).isDigit = false := by decide
        simp only [step, stops, Numeral.endsBefore, digit, complete, value, Bool.and_false,
          Bool.not_false, Bool.and_true]
        rfl
      case h_2 => cases ends
      case h_3 => cases ends
    | _ => cases ends

/-- A reader that has not failed after `a` goes on from where `a` ends. -/
theorem read_append {a : List UInt8} (alive : (a.foldl step r).hasFailed = false) (p : Location)
    (b : List UInt8) : r.read p (a ++ b) = (a.foldl step r).read (p.advance a) b := by
  induction a generalizing r p with
  | nil => rfl
  | cons byte rest ih =>
    have here : r.hasFailed = false := hasFailed_of_foldl alive
    rw [List.cons_append, read, here]
    exact ih alive (p.after byte)

end Reader

/-- A stream that is read to its end can be followed by another one, after a blank. An error in the
other one is located behind the blank. -/
theorem decodeAll_append {a : List UInt8} {values : List Value}
    (whole : decodeAll a = (values, none)) (b : List UInt8) :
    decodeAll (a ++ 0x20 :: b) = (values ++ (decodeAll b).1,
      (decodeAll b).2.map (.shift (Location.start.advance (a ++ [0x20])))) := by
  have outside : (a.foldl Reader.step Reader.start).Outside :=
    Reader.Outside.foldl (fun _ => rfl) a
  have between : (a ++ [0x20]).foldl Reader.step Reader.start =
      Reader.start.onto values.reverse := by
    rw [List.foldl_append]
    exact Reader.step_blank outside (decodeAll_eq_iff.mp whole)
  have alive : ((a ++ [0x20]).foldl Reader.step Reader.start).hasFailed = false := by
    rw [between]
    rfl
  have read := Reader.read_append alive .start b
  rw [between, ← Location.shift_start (Location.start.advance (a ++ [0x20])), Reader.read_onto,
    List.append_assoc, List.singleton_append] at read
  unfold decodeAll
  rw [read]
  dsimp only
  rw [Reader.finish_onto, List.reverse_reverse, Option.map_map]
  rfl

end JsonQuery.Json
