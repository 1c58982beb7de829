import JsonQuery.Proofs.Stream.Writer

/-!
# Writing to an output with a limit

An output that takes only so many bytes gets the first of those that are written, whichever way they
go through the buffer (`takes_write`). A write fails only when the limit has been exceeded, but it
need not fail then: the excess may still be in the buffer.
-/

namespace JsonQuery.Stream

/-- What an output accepts of all these bytes. -/
def clip (limit : Option Nat) (bytes : ByteArray) : ByteArray :=
  match limit with
  | none => bytes
  | some n => bytes.extract 0 n

/-- That many bytes are within the limit. -/
def Fits (limit : Option Nat) (size : Nat) : Prop := ∀ n ∈ limit, size ≤ n

theorem fits_some {n size : Nat} : Fits (some n) size ↔ size ≤ n :=
  ⟨fun h => h n rfl, fun le _ same => Option.some.inj same ▸ le⟩

section Clip

variable {limit : Option Nat} {a b : ByteArray}

theorem Fits.mono {size more : Nat} (h : Fits limit more) (le : size ≤ more) : Fits limit size :=
  fun n mem => Nat.le_trans le (h n mem)

theorem clip_of_fits (h : Fits limit a.size) : clip limit a = a := by
  cases limit with
  | none => rfl
  | some n =>
    have le : a.size ≤ n := fits_some.mp h
    apply ByteArray.ext
    rw [clip, ByteArray.data_extract, Array.extract_eq_self_iff]
    exact .inr ⟨rfl, le⟩

/-- Nothing gets past an output that is full. -/
theorem clip_append (full : ¬Fits limit a.size) : clip limit (a ++ b) = clip limit a := by
  cases limit with
  | none => exact absurd nofun full
  | some n =>
    have lt : n < a.size := Nat.lt_of_not_le fun le => full (fits_some.mpr le)
    have none : b.extract (0 - a.size) (n - a.size) = .empty := by
      rw [← ByteArray.size_eq_zero_iff, ByteArray.size_extract]
      omega
    rw [clip, clip, ByteArray.extract_append, none, ByteArray.append_empty]

theorem clip_clip : clip limit (clip limit a) = clip limit a := by
  cases limit with
  | none => rfl
  | some n => rw [clip, clip, ByteArray.extract_extract, Nat.zero_add, Nat.zero_add, Nat.min_self]

theorem clip_some (n : Nat) (bytes : ByteArray) :
    clip (some n) bytes = bytes.extract 0 (min n bytes.size) :=
  calc bytes.extract 0 n
    _ = (bytes.extract 0 bytes.size).extract 0 n := by rw [ByteArray.extract_zero_size]
    _ = bytes.extract 0 (min n bytes.size) := by
      rw [ByteArray.extract_extract, Nat.zero_add, Nat.zero_add]

end Clip

/-! ### Sinks -/

/-- The sink has accepted no more than the limit and has room for the rest of it. -/
structure Sink.Within (limit : Option Nat) (s : Sink) : Prop where
  room : s.room = limit.map (· - s.accepted.size)
  fits : Fits limit s.accepted.size

section Write

variable {limit : Option Nat} {s : Sink} (h : s.Within limit) (bytes : ByteArray)

include h

theorem Sink.Within.accepted :
    (s.write bytes).1.accepted = clip limit (s.accepted ++ bytes) := by
  obtain ⟨accepted, room⟩ := s
  obtain rfl : room = limit.map (· - accepted.size) := h.room
  have fits : Fits limit accepted.size := h.fits
  cases limit with
  | none => rfl
  | some n =>
    have first : accepted.extract 0 n = accepted :=
      clip_of_fits (show Fits (some n) accepted.size from fits)
    rw [clip, ByteArray.extract_append, first, Nat.zero_sub]
    rfl

theorem Sink.Within.write : (s.write bytes).1.Within limit := by
  obtain ⟨accepted, room⟩ := s
  obtain rfl : room = limit.map (· - accepted.size) := h.room
  have fits : Fits limit accepted.size := h.fits
  cases limit with
  | none => exact ⟨rfl, nofun⟩
  | some n =>
    have le : accepted.size ≤ n := fits_some.mp fits
    have size : (accepted ++ bytes.extract 0 (n - accepted.size)).size ≤ n ∧
        n - accepted.size - bytes.size =
          n - (accepted ++ bytes.extract 0 (n - accepted.size)).size := by
      rw [ByteArray.size_append, ByteArray.size_extract]
      omega
    exact ⟨congrArg some size.2, fits_some.mpr size.1⟩

theorem Sink.Within.isEmpty_iff :
    (s.write bytes).2.isEmpty = true ↔ Fits limit (s.accepted ++ bytes).size := by
  obtain ⟨accepted, room⟩ := s
  obtain rfl : room = limit.map (· - accepted.size) := h.room
  have fits : Fits limit accepted.size := h.fits
  cases limit with
  | none => exact ⟨fun _ => nofun, fun _ => rfl⟩
  | some n =>
    have le : accepted.size ≤ n := fits_some.mp fits
    have left : (bytes.extract (n - accepted.size) bytes.size).isEmpty = true ↔
        accepted.size + bytes.size ≤ n := by
      rw [ByteArray.isEmpty, beq_iff_eq, ByteArray.size_extract]
      omega
    rw [fits_some, ByteArray.size_append]
    exact left

end Write

/-! ### Writers -/

/-- What a writer is after all these bytes: it has them, or the output has accepted its part of them
and some write has shown that this is not everything. -/
def Takes (limit : Option Nat) (all : ByteArray) : Writer × Bool → Prop
  | (w, true) => w.sink.Within limit ∧ w.written = all
  | (w, false) => w.output = clip limit all ∧ ¬Fits limit all.size

theorem Takes.append {limit : Option Nat} {all : ByteArray} {w : Writer}
    (h : Takes limit all (w, false)) (more : ByteArray) : Takes limit (all ++ more) (w, false) := by
  obtain ⟨output, full⟩ := h
  refine ⟨by rw [output, clip_append full], fun fits => full (fits.mono ?_)⟩
  rw [ByteArray.size_append]
  exact Nat.le_add_right _ _

namespace Writer

section Write

variable {limit : Option Nat} {w : Writer} (h : w.sink.Within limit)

include h

theorem output_eq_clip : w.output = clip limit w.written := h.accepted w.buffer

theorem flush_iff : w.flush.2 = true ↔ Fits limit w.written.size := h.isEmpty_iff w.buffer

/-- Flushing moves bytes and loses none, also if it fails. -/
theorem takes_flush : Takes limit w.written w.flush := by
  have within : w.flush.1.sink.Within limit := h.write w.buffer
  have all : w.flush.1.written = w.written := w.sink.accepted_append_left w.buffer
  cases flushed : w.flush.2 with
  | true =>
    rw [← Prod.eta w.flush, flushed]
    exact ⟨within, all⟩
  | false =>
    have full : ¬Fits limit w.written.size := by
      rw [← flush_iff h, flushed]
      exact nofun
    rw [← Prod.eta w.flush, flushed]
    exact ⟨by rw [output_eq_clip within, all], full⟩

theorem takes_store {bytes : ByteArray} (order : capacity ≤ bytes.size → w.buffer = .empty) :
    Takes limit (w.written ++ bytes) (w.store bytes) := by
  unfold store
  split
  case isFalse small => exact ⟨h, ByteArray.append_assoc.symm⟩
  case isTrue large =>
    have empty := order large
    have before : w.written = w.sink.accepted := by
      rw [written, empty, ByteArray.append_empty]
    have within := h.write bytes
    rw [before]
    dsimp only
    cases accepted : (w.sink.write bytes).2.isEmpty with
    | true =>
      refine ⟨within, ?_⟩
      rw [written, empty, ByteArray.append_empty]
      exact Sink.accepted_of_isEmpty accepted
    | false =>
      refine ⟨?_, fun fits => ?_⟩
      · rw [output_eq_clip within, written, empty, ByteArray.append_empty, h.accepted, clip_clip]
      · rw [(h.isEmpty_iff bytes).mpr fits] at accepted
        cases accepted

/-- The three ways through the buffer come to the same. -/
theorem takes_write (bytes : ByteArray) : Takes limit (w.written ++ bytes) (w.write bytes) := by
  unfold write
  split
  case isTrue room =>
    refine takes_store h fun large => ByteArray.size_eq_zero_iff.mp ?_
    rw [capacity] at large room
    omega
  case isFalse =>
    have flushed := takes_flush h
    split
    case h_1 w' eq =>
      rw [eq] at flushed
      obtain ⟨within, same⟩ := flushed
      have empty := (written_of_flush (congrArg Prod.snd eq)).2
      rw [eq] at empty
      rw [← same]
      exact takes_store within fun _ => empty
    case h_2 w' eq =>
      rw [eq] at flushed
      exact flushed.append bytes

end Write

end Writer

end JsonQuery.Stream
