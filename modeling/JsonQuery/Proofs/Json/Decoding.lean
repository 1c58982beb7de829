import JsonQuery.Json.Reader
import JsonQuery.Proofs.Entries
import JsonQuery.Proofs.Value.Inside

/-!
# What the reader makes

`Readable p` says that `p` holds of the values that texts are read as, level by level. Every step of
the reader keeps that all it holds satisfies `p`, so all that is inside a decoded value does
(`everywhere_decode`).
-/

namespace JsonQuery.Json

open Value (Everywhere everywhere_array everywhere_object everywhere_leaf)

/-- What the reader asks of a property of values. It makes floats but no integers, and tables in
key order. -/
structure Readable (p : Value → Prop) : Prop where
  null : p .null
  boolean (b : Bool) : p (.boolean b)
  float (x : Float) : p (.float x)
  string (s : String) : p (.string s)
  array (items : List Value) : p (.array items)
  ascending {fields : Entries Value} (h : fields.Ascending) : p (.object fields)

/-- The fields that an object has so far are in key order, and all inside them satisfies `p`. -/
def FieldsSatisfy (p : Value → Prop) (fields : Entries Value) : Prop :=
  fields.Ascending ∧ ∀ field ∈ fields, Everywhere p field.2

def Container.Satisfies (p : Value → Prop) : Container → Prop
  | .array items => ∀ item ∈ items, Everywhere p item
  | .object fields => FieldsSatisfy p fields

def Frame.Satisfies (p : Value → Prop) : Frame → Prop
  | .array items => ∀ item ∈ items, Everywhere p item
  | .object fields _ => FieldsSatisfy p fields

def Mode.Satisfies (p : Value → Prop) : Mode → Prop
  | .nextKey fields | .key fields _ | .colon fields _ => FieldsSatisfy p fields
  | .next container => container.Satisfies p
  | .word _ v => Everywhere p v
  | _ => True

/-- All that the reader holds satisfies `p`. -/
structure Reader.Satisfies (p : Value → Prop) (r : Reader) : Prop where
  values : ∀ value ∈ r.values, Everywhere p value
  stack : ∀ frame ∈ r.stack, frame.Satisfies p
  mode : r.mode.Satisfies p

section

variable {p : Value → Prop}

theorem FieldsSatisfy.empty : FieldsSatisfy p [] := ⟨List.Pairwise.nil, nofun⟩

theorem FieldsSatisfy.insert {fields : Entries Value} (h : FieldsSatisfy p fields) (key : String)
    {value : Value} (hv : Everywhere p value) : FieldsSatisfy p (fields.insert key value) := by
  refine ⟨Entries.ascending_insert h.1, fun field mem => ?_⟩
  rcases Entries.mem_of_mem_insert mem with rfl | mem
  · exact hv
  · exact h.2 field mem

theorem FieldsSatisfy.object (readable : Readable p) {fields : Entries Value}
    (h : FieldsSatisfy p fields) : Everywhere p (.object fields) :=
  everywhere_object.mpr ⟨readable.ascending h.1, h.2⟩

theorem Readable.items (readable : Readable p) {items : List Value}
    (h : ∀ item ∈ items, Everywhere p item) : Everywhere p (.array items) :=
  everywhere_array.mpr ⟨readable.array items, h⟩

theorem Frame.Satisfies.place {frame : Frame} (h : frame.Satisfies p) {value : Value}
    (hv : Everywhere p value) : (frame.place value).Satisfies p := by
  cases frame with
  | array items => exact List.forall_mem_cons.mpr ⟨hv, h⟩
  | object fields key => exact FieldsSatisfy.insert h key hv

end

namespace Reader

variable {p : Value → Prop} {r : Reader}

theorem Satisfies.withMode (h : r.Satisfies p) {mode : Mode} (hm : mode.Satisfies p) :
    Satisfies p { r with mode } := ⟨h.values, h.stack, hm⟩

theorem Satisfies.fail (h : r.Satisfies p) (problem : Problem) : (r.fail problem).Satisfies p :=
  h.withMode trivial

theorem Satisfies.push (h : r.Satisfies p) (frame : Frame) (hf : frame.Satisfies p) {mode : Mode}
    (hm : mode.Satisfies p) : Satisfies p { r with stack := frame :: r.stack, mode } :=
  ⟨h.values, List.forall_mem_cons.mpr ⟨hf, h.stack⟩, hm⟩

theorem Satisfies.settle (h : r.Satisfies p) {value : Value} (hv : Everywhere p value) :
    (r.settle value).Satisfies p := by
  unfold Reader.settle
  split
  · exact ⟨List.forall_mem_cons.mpr ⟨hv, h.values⟩, h.stack, trivial⟩
  case h_2 frame rest same =>
    have ⟨top, below⟩ := List.forall_mem_cons.mp (same ▸ h.stack)
    exact ⟨h.values, below, top.place hv⟩

theorem Satisfies.openContainer (h : r.Satisfies p) {mode : Mode} (hm : mode.Satisfies p) :
    (r.openContainer mode).Satisfies p := by
  unfold Reader.openContainer
  split
  · exact h.withMode hm
  · exact h.fail _

theorem Satisfies.begin (readable : Readable p) (h : r.Satisfies p) (c : Char) :
    (r.begin c).Satisfies p := by
  unfold Reader.begin
  split
  · exact h.openContainer trivial
  · exact h.openContainer trivial
  · exact h.withMode trivial
  · exact h.withMode ((everywhere_leaf rfl).mpr (readable.boolean true))
  · exact h.withMode ((everywhere_leaf rfl).mpr (readable.boolean false))
  · exact h.withMode ((everywhere_leaf rfl).mpr readable.null)
  · split
    · exact h.withMode trivial
    · exact h.fail _

theorem Satisfies.stepNext (readable : Readable p) (h : r.Satisfies p) {container : Container}
    (hc : container.Satisfies p) (c : Char) : (r.stepNext container c).Satisfies p := by
  unfold Reader.stepNext
  split
  · exact h.push (.array _) hc trivial
  · exact h.settle (readable.items fun item mem => hc item (List.mem_reverse.mp mem))
  · exact h.withMode hc
  · exact h.settle (FieldsSatisfy.object readable hc)
  · split
    · exact h
    · exact h.fail _

theorem Satisfies.stepAfter (readable : Readable p) (h : r.Satisfies p) {value : Value}
    (hv : Everywhere p value) (c : Char) : (r.stepAfter value c).Satisfies p := by
  unfold Reader.stepAfter
  split
  · split
    · exact h.settle hv
    split
    · exact Satisfies.begin readable (h.settle hv) c
    · exact h.fail _
  case h_2 frame rest same =>
    have ⟨top, below⟩ := List.forall_mem_cons.mp (same ▸ h.stack)
    have placed := top.place hv
    refine Satisfies.stepNext readable ?_ placed c
    exact ⟨h.values, below, placed⟩

theorem Satisfies.step (readable : Readable p) (h : r.Satisfies p) (byte : UInt8) :
    (r.step byte).Satisfies p := by
  have mode := h.mode
  unfold Reader.step
  dsimp only
  split
  case h_1 | h_2 =>
    split
    · exact h
    · exact Satisfies.begin readable h _
  case h_3 =>
    split
    · exact h
    split
    · exact h.settle (readable.items nofun)
    · exact Satisfies.begin readable (h.push (.array []) nofun mode) _
  case h_4 =>
    split
    · exact h
    split
    · exact h.settle (FieldsSatisfy.object readable .empty)
    split
    · exact h.withMode FieldsSatisfy.empty
    · exact h.fail _
  case h_5 fields same =>
    rw [same] at mode
    split
    · exact h
    split
    · exact h.withMode mode
    · exact h.fail _
  case h_6 fields literal same =>
    rw [same] at mode
    split
    · exact h.withMode mode
    · exact h.withMode mode
    · exact h.fail _
  case h_7 fields key same =>
    rw [same] at mode
    split
    · exact h
    split
    · exact h.push (.object fields key) mode trivial
    · exact h.fail _
  case h_8 container same =>
    rw [same] at mode
    exact Satisfies.stepNext readable h mode _
  case h_9 =>
    split
    · exact h.withMode trivial
    · exact h.settle ((everywhere_leaf rfl).mpr (readable.string _))
    · exact h.fail _
  case h_10 =>
    split
    · split
      · exact h.fail _
      · exact h.withMode trivial
    split
    · exact Satisfies.stepAfter readable h ((everywhere_leaf rfl).mpr (readable.float _)) _
    · exact h.fail _
    · exact h.fail _
  case h_11 value same =>
    rw [same] at mode
    exact Satisfies.stepAfter readable h mode _
  case h_12 expected left value same =>
    rw [same] at mode
    split
    · exact h.withMode mode
    · exact h.fail _
  case h_13 => exact h

theorem Satisfies.foldl (readable : Readable p) (h : r.Satisfies p) (bytes : List UInt8) :
    (bytes.foldl Reader.step r).Satisfies p := by
  induction bytes generalizing r with
  | nil => exact h
  | cons byte rest ih => exact ih (Satisfies.step readable h byte)

theorem everywhere_ending (readable : Readable p) (h : r.Satisfies p) {last : List Value}
    (ends : r.mode.ending r.stack = .ok last) : ∀ value ∈ last, Everywhere p value := by
  have mode := h.mode
  have single {value : Value} (hv : Everywhere p value)
      (ends : lastValue value r.stack = .ok last) : ∀ other ∈ last, Everywhere p other := by
    unfold lastValue at ends
    split at ends
    · cases ends
      exact List.forall_mem_singleton.mpr hv
    · cases ends
  unfold Mode.ending at ends
  split at ends
  case h_1 =>
    cases ends
    exact nofun
  case h_2 value same =>
    rw [same] at mode
    exact single mode ends
  case h_3 =>
    split at ends
    · exact single ((everywhere_leaf rfl).mpr (readable.float _)) ends
    · cases ends
    · cases ends
  all_goals cases ends

theorem Satisfies.finish (readable : Readable p) (h : r.Satisfies p) :
    ∀ value ∈ r.finish.1, Everywhere p value := by
  intro value mem
  unfold Reader.finish at mem
  split at mem
  case h_1 last ends =>
    rcases List.mem_append.mp (List.mem_reverse.mp mem) with mem | mem
    · exact everywhere_ending readable h ends value mem
    · exact h.values value mem
  case h_2 => exact h.values value (List.mem_reverse.mp mem)

end Reader

/-- All that is inside decoded values satisfies what the reader keeps. -/
theorem everywhere_decodeAll {p : Value → Prop} (readable : Readable p) (bytes : List UInt8) :
    ∀ v ∈ (decodeAll bytes).1, Everywhere p v := by
  have start : Reader.start.Satisfies p := ⟨nofun, nofun, trivial⟩
  rw [decodeAll_fst]
  exact Reader.Satisfies.finish readable (Reader.Satisfies.foldl readable start bytes)

theorem everywhere_decode {p : Value → Prop} (readable : Readable p) {bytes : List UInt8}
    {v : Value} (h : decode bytes = .ok v) : Everywhere p v := by
  have all := everywhere_decodeAll readable bytes
  unfold decode at h
  split at h
  · cases h
  · cases h
  case h_3 value same =>
    cases h
    rw [same] at all
    exact all v (List.mem_singleton_self v)
  · cases h

theorem no_integer_of_decode {bytes : List UInt8} {v : Value} (h : decode bytes = .ok v)
    (n : Int64) : ¬Value.Inside (.integer n) v := by
  have readable : Readable fun u => ∀ n, u ≠ .integer n :=
    ⟨nofun, nofun, nofun, nofun, nofun, nofun⟩
  exact fun inside => everywhere_decode readable h _ inside n rfl

theorem readable_tabular : Readable Value.Tabular :=
  ⟨trivial, fun _ => trivial, fun _ => trivial, fun _ => trivial, fun _ => trivial,
    fun ascending => ascending.distinct⟩

theorem distinct_of_decodeAll (bytes : List UInt8) : ∀ v ∈ (decodeAll bytes).1, v.Distinct :=
  fun v mem => Value.distinct_iff.mpr (everywhere_decodeAll readable_tabular bytes v mem)

end JsonQuery.Json
