import Hottpd.Lib.Bytes

/-!
# The read buffers

`Connection::ReadData` and `CGIRequest::OnRead` each have a static
`ReadBuffer` of 65535 elements. Both let `read` fill it, put a NUL behind what
came and hand the array on as a C string. Here the elements that are indexed
on the way are kept too. Memory is everything from the first element on, also
what lies behind the array.
-/

namespace Hottpd

open Bytes

abbrev Memory := Nat → UInt8

namespace Memory

/-- `read(fd, ReadBuffer, 65535)`. -/
def fill (data : Bytes) (m : Memory) : Memory := fun i => (data[i]?).getD (m i)

/-- `ReadBuffer[i] = b` -/
def store (i : Nat) (b : UInt8) (m : Memory) : Memory := fun j => if j = i then b else m j

/-- The C string at `i`; one of `n` elements is the NUL. -/
def cString (m : Memory) : Nat → Nat → Bytes
  | 0, _ => []
  | n + 1, i => if m i = 0 then [] else m i :: cString m n (i + 1)

end Memory

/-- The C string that was handed on, and every element indexed for it. -/
structure BufferUse where
  text : Bytes
  indices : List Nat

/-- Fill, terminate and scan. -/
def useBuffer (m : Memory) (data : Bytes) : BufferUse :=
  let text := Memory.cString ((m.fill data).store data.length 0) (data.length + 1) 0
  { text
    indices := List.range data.length ++ [data.length] ++ List.range (text.length + 1) }

/-- In `Connection::ReadData`, where nothing is done with less than one byte. -/
def readDataUse (m : Memory) (data : Bytes) : BufferUse :=
  if 0 < data.length then useBuffer m data else ⟨[], []⟩

/-- In `CGIRequest::OnRead`, also at the end of the output. -/
def onReadUse (m : Memory) (data : Bytes) : BufferUse := useBuffer m data

theorem cString_eq_cstr {m : Memory} : ∀ {data : Bytes} {i : Nat},
    (∀ k, k < data.length → m (i + k) = (data[k]?).getD 0) → m (i + data.length) = 0 →
    m.cString (data.length + 1) i = cstr data := by
  intro data
  induction data with
  | nil =>
      intro i _ hend
      have hi : m i = 0 := hend
      rw [List.length_nil, Memory.cString, if_pos hi]
      rfl
  | cons b data ih =>
      intro i hdata hend
      have hi : m i = b := hdata 0 (Nat.succ_pos _)
      rw [List.length_cons, Memory.cString, hi, cstr, List.takeWhile_cons]
      by_cases hb : b = 0
      · rw [if_pos hb, if_neg (by simp [hb])]
      · rw [if_neg hb, if_pos (by simp [hb])]
        congr 1
        refine ih ?_ ?_
        · intro k hk
          have h := hdata (k + 1) (Nat.succ_lt_succ hk)
          rw [List.getElem?_cons_succ] at h
          rw [← h]
          congr 1
          omega
        · rw [← hend, List.length_cons]
          congr 1
          omega

/-- What is handed on ends at the first NUL, whatever the buffer held before. -/
theorem useBuffer_text (m : Memory) (data : Bytes) : (useBuffer m data).text = cstr data := by
  refine cString_eq_cstr ?_ ?_
  · intro k hk
    have hne : 0 + k ≠ data.length := by omega
    rw [Memory.store, if_neg hne, Memory.fill, Nat.zero_add, List.getElem?_eq_getElem hk]
    rfl
  · rw [Memory.store, Nat.zero_add, if_pos rfl]

/-- The last element indexed is the one behind what was read. -/
theorem useBuffer_indices (m : Memory) (data : Bytes) (n : Nat) :
    (∀ i ∈ (useBuffer m data).indices, i < n) ↔ data.length < n := by
  have htext : (useBuffer m data).text.length ≤ data.length := by
    rw [useBuffer_text]
    exact (List.takeWhile_prefix _).length_le
  constructor
  · intro h
    exact h data.length (List.mem_append_left _ (List.mem_append_right _ List.mem_cons_self))
  · intro h i hi
    rcases List.mem_append.1 hi with hi | hi
    · rcases List.mem_append.1 hi with hi | hi
      · have := List.mem_range.1 hi
        omega
      · have := List.mem_singleton.1 hi
        omega
    · have : i < (useBuffer m data).text.length + 1 := List.mem_range.1 hi
      omega

end Hottpd
