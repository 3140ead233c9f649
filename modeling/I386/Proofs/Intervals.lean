import Mathlib.Data.List.Basic
import I386.Stream

/-!
Contract: the mapped bytes at the addresses of an interval.

Owns:
- the bytes that are mapped between two addresses, in the order of their addresses;
- slices of a stream that does not reach past the end of the address space, in these terms.

Main statement: a slice is the mapped bytes of its interval, cut at the end of the mapping, unless
the interval begins before the base and reaches behind it. It is empty then, although bytes are
mapped in the interval.

Does not own: streams that wrap past the end of the address space.
-/

namespace I386

/-! ## Windows of a list -/

/-- The elements at consecutive indices, where there are any, are a window of the list. -/
theorem filterMap_range'_getElem? {α : Type} (items : List α) (start count : Nat) :
    (List.range' start count).filterMap (fun index => items[index]?) =
      (items.drop start).take count := by
  induction count generalizing start with
  | zero => simp
  | succ count inductionHypothesis =>
      rw [List.range'_succ, List.filterMap_cons, inductionHypothesis]
      by_cases inside : start < items.length
      · rw [List.getElem?_eq_getElem inside, List.drop_eq_getElem_cons inside,
          List.take_succ_cons]
      · have none : items[start]? = none := List.getElem?_eq_none (Nat.le_of_not_lt inside)
        have here : items.drop start = [] := List.drop_eq_nil_of_le (Nat.le_of_not_lt inside)
        have later : items.drop (start + 1) = [] := List.drop_eq_nil_of_le (by omega)
        rw [none, here, later, List.take_nil, List.take_nil]

namespace Stream

/-! ## Bytes of an interval -/

/-- The bytes mapped at the addresses from `start` up to, but not including, `stop`. -/
def mappedBetween (stream : Stream) (start stop : UInt32) : List UInt8 :=
  (List.range' start.toNat (stop.toNat - start.toNat)).filterMap fun address =>
    stream.byteAt? (UInt32.ofNat address)

section Behind

variable {stream : Stream}

theorem offset_of_le {address : UInt32} (behind : stream.base ≤ address) :
    stream.offset address = address.toNat - stream.base.toNat :=
  UInt32.toNat_sub_of_le _ _ behind

theorem byteAt?_base_add {place : Nat} (inSpace : stream.base.toNat + place < UInt32.size) :
    stream.byteAt? (UInt32.ofNat (stream.base.toNat + place)) = stream.bytes[place]? := by
  have address : (UInt32.ofNat (stream.base.toNat + place)).toNat = stream.base.toNat + place :=
    UInt32.toNat_ofNat_of_lt' inSpace
  have behind : stream.base ≤ UInt32.ofNat (stream.base.toNat + place) := by
    rw [UInt32.le_iff_toNat_le, address]
    exact Nat.le_add_right _ _
  rw [byteAt?, offset_of_le behind, address, Nat.add_sub_cancel_left]

/-- From the base on, the bytes of an interval are a window of the mapping. -/
theorem mappedBetween_of_le {start : UInt32} (behind : stream.base ≤ start) (stop : UInt32) :
    stream.mappedBetween start stop =
      (stream.bytes.toList.drop (stream.offset start)).take (stop.toNat - start.toNat) := by
  have atStart : stream.base.toNat + stream.offset start = start.toNat := by
    rw [offset_of_le behind]
    exact Nat.add_sub_of_le (UInt32.le_iff_toNat_le.mp behind)
  have places : List.range' start.toNat (stop.toNat - start.toNat) =
      (List.range' (stream.offset start) (stop.toNat - start.toNat)).map
        (stream.base.toNat + ·) := by
    rw [List.map_add_range', atStart]
  rw [mappedBetween, places, List.filterMap_map, ← filterMap_range'_getElem?]
  refine List.filterMap_congr fun place isIn => ?_
  have inSpace : stream.base.toNat + place < UInt32.size := by
    have bounds := List.mem_range'_1.mp isIn
    have small : stop.toNat < UInt32.size := stop.toNat_lt
    omega
  rw [Function.comp_apply, byteAt?_base_add inSpace, Array.getElem?_toList]

/-- A slice that begins at the base or behind it is the mapped bytes of its interval. -/
theorem slice_of_le {start stop : UInt32} (behind : stream.base ≤ start) (ordered : start ≤ stop) :
    (stream.slice start stop).toList = stream.mappedBetween start stop := by
  have first := UInt32.le_iff_toNat_le.mp behind
  have last := UInt32.le_iff_toNat_le.mp ordered
  have bytes : stream.bytes.toList.length = stream.bytes.size := Array.length_toList
  rw [mappedBetween_of_le behind, slice, Array.toList_extract, List.extract_eq_take_drop,
    offset_of_le behind, offset_of_le (UInt32.le_trans behind ordered)]
  by_cases inside : start.toNat - stream.base.toNat ≤ stream.bytes.size
  · -- The end of the mapping cuts both sides at the same place.
    rw [Nat.min_eq_left inside, List.take_eq_take_iff, List.length_drop]
    omega
  · rw [List.drop_eq_nil_of_le (by omega), List.drop_eq_nil_of_le (by omega), List.take_nil,
      List.take_nil]

end Behind

section Straight

variable {stream : Stream} (fits : stream.base.toNat + stream.bytes.size ≤ UInt32.size)

include fits

/-- Counted on from the base, an address before it is behind the mapping. -/
theorem size_le_offset {address : UInt32} (before : address < stream.base) :
    stream.bytes.size ≤ stream.offset address := by
  have bound : address.toNat < stream.base.toNat := UInt32.lt_iff_toNat_lt.mp before
  have space : UInt32.size = 2 ^ 32 := rfl
  rw [offset, UInt32.toNat_sub]
  omega

/-- Nothing is mapped before the base. -/
theorem filterMap_before {start : UInt32} {count : Nat}
    (short : start.toNat + count ≤ stream.base.toNat) :
    (List.range' start.toNat count).filterMap
      (fun address => stream.byteAt? (UInt32.ofNat address)) = [] := by
  refine List.filterMap_eq_nil_iff.mpr fun address isIn => ?_
  have inside := List.mem_range'_1.mp isIn
  have small : address < UInt32.size := Nat.lt_trans (by omega) stream.base.toNat_lt
  have before : UInt32.ofNat address < stream.base := by
    rw [UInt32.lt_iff_toNat_lt, UInt32.toNat_ofNat_of_lt' small]
    omega
  exact Array.getElem?_eq_none (size_le_offset fits before)

/-- The part of an interval that lies before the base can be left out. -/
theorem mappedBetween_of_lt {start : UInt32} (before : start < stream.base) (stop : UInt32) :
    stream.mappedBetween start stop = stream.mappedBetween stream.base stop := by
  have bound : start.toNat < stream.base.toNat := UInt32.lt_iff_toNat_lt.mp before
  by_cases reaches : stream.base ≤ stop
  · have last : stream.base.toNat ≤ stop.toNat := UInt32.le_iff_toNat_le.mp reaches
    have split : stop.toNat - start.toNat =
        (stream.base.toNat - start.toNat) + (stop.toNat - stream.base.toNat) := by omega
    have atBase : start.toNat + (stream.base.toNat - start.toNat) = stream.base.toNat := by omega
    rw [mappedBetween, split, ← List.range'_append_1, List.filterMap_append, atBase,
      filterMap_before fits (Nat.le_of_eq atBase), List.nil_append, mappedBetween]
  · have last : stop.toNat < stream.base.toNat :=
      UInt32.lt_iff_toNat_lt.mp (UInt32.not_le.mp reaches)
    rw [mappedBetween, mappedBetween, filterMap_before fits (by omega),
      Nat.sub_eq_zero_of_le (Nat.le_of_lt last), List.range'_zero, List.filterMap_nil]

/-- A slice that begins before the base is empty. -/
theorem slice_of_lt {start : UInt32} (before : start < stream.base) (stop : UInt32) :
    stream.slice start stop = #[] := by
  have first : min (stream.offset start) stream.bytes.size = stream.bytes.size :=
    Nat.min_eq_right (size_le_offset fits before)
  have last : max stream.bytes.size (min (stream.offset stop) stream.bytes.size) =
      stream.bytes.size := Nat.max_eq_left (Nat.min_le_right _ _)
  rw [slice, first, last, Array.extract_eq_empty_of_le (Nat.min_le_left _ _)]

/-- The mapped bytes of an interval that begins before the base are none exactly if it does not
reach behind the base, or nothing is mapped. -/
theorem mappedBetween_eq_nil_iff {start : UInt32} (before : start < stream.base) (stop : UInt32) :
    stream.mappedBetween start stop = [] ↔ ¬(stream.base < stop ∧ 0 < stream.bytes.size) := by
  have atBase : stream.offset stream.base = 0 := by
    rw [offset_of_le (UInt32.le_refl _), Nat.sub_self]
  rw [mappedBetween_of_lt fits before, mappedBetween_of_le (UInt32.le_refl _), atBase,
    List.drop_zero, List.take_eq_nil_iff, ← List.length_eq_zero_iff, Array.length_toList,
    UInt32.lt_iff_toNat_lt]
  omega

/-- In a stream that ends with the address space or before, a slice is the mapped bytes of its
interval, in order and cut at the end of the mapping, unless the interval begins before the base
and reaches behind it, and anything is mapped at all. Every slice that begins before the base is
empty. -/
theorem slice_between {start stop : UInt32} (ordered : start ≤ stop) :
    ((stream.slice start stop).toList = stream.mappedBetween start stop ↔
      ¬(start < stream.base ∧ stream.base < stop ∧ 0 < stream.bytes.size)) ∧
    (start < stream.base → stream.slice start stop = #[]) := by
  refine ⟨?_, fun before => slice_of_lt fits before stop⟩
  by_cases before : start < stream.base
  · rw [slice_of_lt fits before, Array.toList_empty, eq_comm,
      mappedBetween_eq_nil_iff fits before]
    simp only [before, true_and]
  · simp only [slice_of_le (UInt32.not_lt.mp before) ordered, before, false_and,
      not_false_eq_true]

end Straight

/-- Slices of a mapping that ends with the address space: one inside it, and one before it. -/
theorem slice_between_top :
    let stream := mapped #[0x10, 0x20, 0x30] 0xFFFFFFFD
    (stream.base.toNat + stream.bytes.size ≤ UInt32.size ∧
      (0xFFFFFFFE : UInt32) ≤ 0xFFFFFFFF ∧ (0xFFFFFFF0 : UInt32) ≤ 0xFFFFFFF8) ∧
    (stream.slice 0xFFFFFFFE 0xFFFFFFFF).toList =
      stream.mappedBetween 0xFFFFFFFE 0xFFFFFFFF ∧
    stream.mappedBetween 0xFFFFFFFE 0xFFFFFFFF = [0x20] ∧
    stream.slice 0xFFFFFFF0 0xFFFFFFF8 = #[] := by
  intro stream
  have fits : stream.base.toNat + stream.bytes.size ≤ UInt32.size := by decide
  have inside : (0xFFFFFFFE : UInt32) ≤ 0xFFFFFFFF := by decide
  have below : (0xFFFFFFF0 : UInt32) ≤ 0xFFFFFFF8 := by decide
  exact ⟨⟨fits, inside, below⟩, (slice_between fits inside).1.mpr (by decide), by decide,
    (slice_between fits below).2 (by decide)⟩

/-- From the address before the base on, a slice has nothing of the bytes that are mapped at the
base and after it. -/
theorem slice_misses_bytes :
    let stream := mapped #[0x10, 0x20, 0x30] 0x100
    stream.base.toNat + stream.bytes.size ≤ UInt32.size ∧ (0xFF : UInt32) ≤ 0x102 ∧
      stream.slice 0xFF 0x102 = #[] ∧ stream.mappedBetween 0xFF 0x102 = [0x10, 0x20] := by
  decide

end Stream

end I386
