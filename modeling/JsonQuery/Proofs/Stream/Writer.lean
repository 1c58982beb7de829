import JsonQuery.Stream.Writer

/-!
# What a writer has written

As long as no write fails, the bytes that the sink has accepted and those in the buffer are together
all that has been written (`Writer.written`). Once the buffer is empty the sink has them.
-/

namespace JsonQuery.Stream

theorem eq_empty_of_isEmpty {bytes : ByteArray} (h : bytes.isEmpty = true) : bytes = .empty :=
  ByteArray.size_eq_zero_iff.mp (by simpa [ByteArray.isEmpty] using h)

/-- A sink that leaves nothing has accepted everything. -/
theorem Sink.accepted_of_isEmpty {s : Sink} {bytes : ByteArray}
    (h : (s.write bytes).2.isEmpty = true) :
    (s.write bytes).1.accepted = s.accepted ++ bytes := by
  have all := s.accepted_append_left bytes
  rw [eq_empty_of_isEmpty h, ByteArray.append_empty] at all
  exact all

namespace Writer

/-- All bytes written, whether the sink has them already or not. -/
def written (w : Writer) : ByteArray := w.sink.accepted ++ w.buffer

variable {w w' : Writer} {bytes : ByteArray}

theorem accepted_of_flush (h : w.flush.2 = true) : w.flush.1.sink.accepted = w.written :=
  Sink.accepted_of_isEmpty h

theorem written_of_flush (h : w.flush.2 = true) :
    w.flush.1.written = w.written ∧ w.flush.1.buffer = .empty := by
  have empty : w.flush.1.buffer = .empty := eq_empty_of_isEmpty h
  exact ⟨by rw [written, empty, ByteArray.append_empty, accepted_of_flush h], empty⟩

/-- Data that passes the buffer by must not overtake anything in it. -/
theorem written_of_store (order : capacity ≤ bytes.size → w.buffer = .empty)
    (h : (w.store bytes).2 = true) : (w.store bytes).1.written = w.written ++ bytes := by
  unfold store at h ⊢
  split at h
  case isTrue large =>
    rw [if_pos large, written, written, order large, ByteArray.append_empty,
      ByteArray.append_empty]
    exact Sink.accepted_of_isEmpty h
  case isFalse small =>
    rw [if_neg small]
    exact ByteArray.append_assoc.symm

theorem written_of_write (h : w.write bytes = (w', true)) : w'.written = w.written ++ bytes := by
  unfold write at h
  split at h
  case isTrue room =>
    have order : capacity ≤ bytes.size → w.buffer = .empty := by
      intro large
      refine ByteArray.size_eq_zero_iff.mp ?_
      rw [capacity] at large room
      omega
    have stored := written_of_store order (congrArg Prod.snd h)
    rwa [h] at stored
  case isFalse =>
    split at h
    case h_1 flushed eq =>
      obtain ⟨kept, empty⟩ := written_of_flush (congrArg Prod.snd eq)
      rw [eq] at kept empty
      have stored := written_of_store (fun _ => empty) (congrArg Prod.snd h)
      rw [h, kept] at stored
      exact stored
    case h_2 => cases h

theorem output_of_flush (h : w.flush.2 = true) : w.output = w.written := accepted_of_flush h

end Writer

end JsonQuery.Stream
