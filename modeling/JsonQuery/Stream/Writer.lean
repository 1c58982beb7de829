/-!
# Buffered output

A `Sink` accepts bytes until it is full; a write that does not fit is accepted in part and fails.
A `Writer` collects up to `capacity` bytes before it hands them on. Data that does not fit the
buffer empties it first, and data of the size of the buffer or more passes it by.
-/

namespace JsonQuery.Stream

/-- What has been accepted, and how many more bytes will be. -/
structure Sink where
  accepted : ByteArray
  room : Option Nat

/-- The sink after a write, and the bytes that it did not accept. -/
def Sink.write (s : Sink) (bytes : ByteArray) : Sink × ByteArray :=
  match s.room with
  | none => ({ s with accepted := s.accepted ++ bytes }, .empty)
  | some room =>
    (⟨s.accepted ++ bytes.extract 0 room, some (room - bytes.size)⟩, bytes.extract room bytes.size)

theorem extract_append_rest (bytes : ByteArray) (n : Nat) :
    bytes.extract 0 n ++ bytes.extract n bytes.size = bytes := by
  rw [ByteArray.extract_append_extract, Nat.zero_min]
  apply ByteArray.ext
  rw [ByteArray.data_extract, Array.extract_eq_self_iff]
  exact Or.inr ⟨rfl, Nat.le_max_right _ _⟩

/-- A write loses nothing: what is not accepted is left. -/
theorem Sink.accepted_append_left (s : Sink) (bytes : ByteArray) :
    (s.write bytes).1.accepted ++ (s.write bytes).2 = s.accepted ++ bytes := by
  unfold Sink.write
  split
  · exact ByteArray.append_empty
  · rw [ByteArray.append_assoc, extract_append_rest]

structure Writer where
  sink : Sink
  buffer : ByteArray

namespace Writer

def capacity : Nat := 65536

def start (room : Option Nat) : Writer := ⟨⟨.empty, room⟩, .empty⟩

/-- Empties the buffer as far as the sink accepts it, and says whether it accepted everything. -/
def flush (w : Writer) : Writer × Bool :=
  let (sink, left) := w.sink.write w.buffer
  (⟨sink, left⟩, left.isEmpty)

/-- Puts data into the buffer, or into the sink if it is large. -/
def store (w : Writer) (bytes : ByteArray) : Writer × Bool :=
  if capacity ≤ bytes.size then
    let (sink, left) := w.sink.write bytes
    ({ w with sink }, left.isEmpty)
  else ({ w with buffer := w.buffer ++ bytes }, true)

/-- Writes data, and says whether no write to the sink has failed. -/
def write (w : Writer) (bytes : ByteArray) : Writer × Bool :=
  if bytes.size ≤ capacity - w.buffer.size then w.store bytes
  else
    match w.flush with
    | (w, true) => w.store bytes
    | (w, false) => (w, false)

/-- What the sink has accepted once the writer is done with. A last attempt is made to empty the
buffer. -/
def output (w : Writer) : ByteArray := w.flush.1.sink.accepted

end Writer

end JsonQuery.Stream
