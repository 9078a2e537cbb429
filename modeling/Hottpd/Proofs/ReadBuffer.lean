import Hottpd.Core.ReadBuffer
import Hottpd.Core.World
import Hottpd.Modules.CgiPipe

/-!
# What comes through the read buffers

Both copies of `ReadBuffer` hand on a C string, and both put its NUL at the
element behind the last that was read. So they lose what follows a NUL byte,
and a read that fills the array writes one element too far.
-/

namespace Hottpd

open Bytes

section Handed

variable {σ : Type} (env : Env) (mods : List (Module σ)) (m : Memory) {data : Bytes}

/-- `ReadData`, with the string it gives to `AddBuffer` read off the buffer. -/
theorem readData_use (hne : data ≠ []) (s : St σ) :
    readData env mods (.data data) s =
      (let added := addBuffer env mods (readDataUse m data).text s
      if added.1 then added.2 else delete added.2) := by
  rw [readDataUse, if_pos (List.length_pos_iff.2 hne), useBuffer_text]
  rfl

/-- `OnRead`, with the string it appends read off the buffer. -/
theorem onRead_use (cr : CGIRequest) :
    cr.handleEvent (.read (.data data)) =
      some ({ cr with rbuf := cr.rbuf ++ (onReadUse m data).text }, []) := by
  rw [onReadUse, useBuffer_text]
  rfl

end Handed

/-- Both hand on the bytes that were read, and stay in their arrays. -/
structure HandsOn (m : Memory) (data : Bytes) : Prop where
  readData : (readDataUse m data).text = data
  onRead : (onReadUse m data).text = data
  readDataWithin : ∀ i ∈ (readDataUse m data).indices, i < readBufferSize
  onReadWithin : ∀ i ∈ (onReadUse m data).indices, i < readBufferSize

theorem handsOn_iff {m : Memory} {data : Bytes} (hne : data ≠ []) :
    HandsOn m data ↔ 0 ∉ data ∧ data.length < readBufferSize := by
  have hread : readDataUse m data = useBuffer m data := if_pos (List.length_pos_iff.2 hne)
  have htext : (useBuffer m data).text = data ↔ 0 ∉ data := by
    rw [useBuffer_text, cstr_eq_iff]
  have hwithin := useBuffer_indices m data readBufferSize
  constructor
  · intro h
    exact ⟨htext.1 h.onRead, hwithin.1 h.onReadWithin⟩
  · rintro ⟨hnul, hlen⟩
    refine ⟨?_, htext.2 hnul, ?_, hwithin.2 hlen⟩
    · rw [hread]
      exact htext.2 hnul
    · rw [hread]
      exact hwithin.2 hlen

/-- `ReadData` and `OnRead` hand on what their buffers show; that is what was read, and
within the arrays, just when it has no NUL and does not fill them. -/
theorem readBuffer_exact {σ : Type} (env : Env) (mods : List (Module σ)) (s : St σ)
    (cr : CGIRequest) (m : Memory) (data : Bytes) (hne : data ≠ []) :
    (readData env mods (.data data) s =
      (let added := addBuffer env mods (readDataUse m data).text s
      if added.1 then added.2 else delete added.2)) ∧
    cr.handleEvent (.read (.data data)) =
      some ({ cr with rbuf := cr.rbuf ++ (onReadUse m data).text }, []) ∧
    (HandsOn m data ↔ 0 ∉ data ∧ data.length < readBufferSize) :=
  ⟨readData_use env mods m hne s, onRead_use m cr, handsOn_iff hne⟩

theorem text_handsOn : HandsOn (fun _ => 0) (str "GET") :=
  (readBuffer_exact (smallWorld [] [] eager) [] (St.init ()) ⟨0, [], [], true, false⟩
    (fun _ => 0) (str "GET") (by decide)).2.2.2 ⟨by decide, by decide⟩

/-- An image is cut at its first NUL, and a full buffer has no room for another. -/
theorem image_cut_and_buffer_overrun :
    ¬HandsOn (fun _ => 0) [137, 80, 0, 80] ∧
      ¬HandsOn (fun _ => 0) (List.replicate readBufferSize 97) := by
  constructor
  · intro h
    exact ((handsOn_iff (by decide)).1 h).1 (by decide)
  · intro h
    have hne : List.replicate readBufferSize (97 : UInt8) ≠ [] := by
      rw [ne_eq, List.replicate_eq_nil_iff]
      decide
    have hlen := ((handsOn_iff hne).1 h).2
    rw [List.length_replicate] at hlen
    exact lt_irrefl _ hlen

end Hottpd
