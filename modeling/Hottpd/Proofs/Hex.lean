import Hottpd.Core.Hex
import Hottpd.Proofs.Escapes

/-!
# What `hex` writes, `unhexchar` reads

The characters of `hex` are among those that the table of `unhexchar` has right, so the
pairs give back the bytes. All of them and the NUL must fit in the buffer.
-/

namespace Hottpd

open Bytes

/-- The two characters of each byte. -/
def hexText (raw : Bytes) : Bytes := raw.flatMap fun b => [hexChar (b / 16), hexChar (b % 16)]

theorem hexText_length (raw : Bytes) : (hexText raw).length = 2 * raw.length := by
  induction raw with
  | nil => rfl
  | cons b raw ih =>
      rw [hexText, List.flatMap_cons, List.length_append]
      change 2 + (hexText raw).length = 2 * (raw.length + 1)
      omega

theorem hexDigit_hexChar {n : UInt8} (h : n.toNat < 16) : hexDigit (hexChar n) = some n.toNat := by
  have hall : ∀ i : Fin 16, hexDigit (hexChar (UInt8.ofNat i)) = some (i : Nat) := by decide +kernel
  have hn := hall ⟨n.toNat, h⟩
  rwa [UInt8.ofNat_toNat] at hn

theorem hexChar_ne_zero {n : UInt8} (h : n.toNat < 16) : hexChar n ≠ 0 := by
  intro hzero
  have hdigit := hexDigit_hexChar h
  rw [hzero] at hdigit
  cases hdigit

theorem half_lt (b : UInt8) : (b / 16).toNat < 16 ∧ (b % 16).toNat < 16 := by
  have hlt := b.toNat_lt
  rw [UInt8.toNat_div, UInt8.toNat_mod]
  exact ⟨Nat.div_lt_of_lt_mul hlt, Nat.mod_lt _ (by decide)⟩

theorem unhexchar_hexChar (b : UInt8) :
    unhexchar (hexChar (b / 16)) (hexChar (b % 16)) = some b := by
  refine unhexchar_digits ?_ ?_
  · rw [hexDigit_hexChar (half_lt b).1, UInt8.toNat_div]
    rfl
  · rw [hexDigit_hexChar (half_lt b).2, UInt8.toNat_mod]
    rfl

theorem unhexPairs_hexText (raw : Bytes) : unhexPairs (hexText raw) = some raw := by
  induction raw with
  | nil => rfl
  | cons b raw ih =>
      change (unhexchar (hexChar (b / 16)) (hexChar (b % 16))).bind
        (fun v => (unhexPairs (hexText raw)).map (v :: ·)) = _
      rw [unhexchar_hexChar, Option.bind_some, ih, Option.map_some]

theorem zero_not_mem_hexText (raw : Bytes) : 0 ∉ hexText raw := by
  rw [hexText, List.mem_flatMap]
  rintro ⟨b, -, hb⟩
  rw [List.mem_cons, List.mem_singleton] at hb
  rcases hb with h | h
  · exact hexChar_ne_zero (half_lt b).1 h.symm
  · exact hexChar_ne_zero (half_lt b).2 h.symm

/-! ## The buffer -/

theorem putByte_eq (maxbuf : Nat) (hexbuf : Bytes) (b : UInt8) : putByte maxbuf hexbuf b =
    if hexbuf.length + 2 ≤ maxbuf then
      some (hexbuf ++ [hexChar (b / 16), hexChar (b % 16)])
    else none := by
  rw [putByte, putHex]
  by_cases hone : hexbuf.length < maxbuf
  · rw [if_pos hone, Option.bind_some, putHex, List.length_append, List.length_singleton]
    refine if_congr (by omega) ?_ rfl
    rw [List.append_assoc]
    rfl
  · rw [if_neg hone, Option.bind_none, if_neg (by omega)]

/-- The loop has written two characters for each byte, or has left the buffer. -/
theorem foldlM_putByte (maxbuf : Nat) (raw : Bytes) : ∀ {hexbuf : Bytes}, hexbuf.length ≤ maxbuf →
    raw.foldlM (putByte maxbuf) hexbuf =
      if hexbuf.length + 2 * raw.length ≤ maxbuf then some (hexbuf ++ hexText raw) else none := by
  induction raw with
  | nil =>
      intro hexbuf hle
      rw [List.foldlM_nil, List.length_nil, Nat.mul_zero, Nat.add_zero, if_pos hle, hexText,
        List.flatMap_nil, List.append_nil]
      rfl
  | cons b raw ih =>
      intro hexbuf hle
      rw [List.foldlM_cons, putByte_eq, List.length_cons]
      by_cases htwo : hexbuf.length + 2 ≤ maxbuf
      · have hlength : (hexbuf ++ [hexChar (b / 16), hexChar (b % 16)]).length
            = hexbuf.length + 2 := List.length_append
        rw [if_pos htwo]
        change raw.foldlM (putByte maxbuf) _ = _
        rw [ih (hlength ▸ htwo), hlength]
        refine if_congr (by omega) ?_ rfl
        rw [List.append_assoc]
        rfl
      · rw [if_neg htwo, if_neg (by omega)]
        rfl

theorem hex_eq (maxbuf : Nat) (raw : Bytes) : hex maxbuf raw =
    if raw = [] ∨ 2 * raw.length < maxbuf then some (hexText raw) else none := by
  rw [hex]
  by_cases hnil : raw = []
  · rw [if_pos hnil, if_pos (Or.inl hnil), hnil]
    rfl
  · rw [if_neg hnil, foldlM_putByte maxbuf raw (Nat.zero_le _), List.length_nil, Nat.zero_add,
      List.nil_append]
    by_cases hle : 2 * raw.length ≤ maxbuf
    · rw [if_pos hle, Option.bind_some, putHex, hexText_length]
      by_cases hlt : 2 * raw.length < maxbuf
      · rw [if_pos hlt, if_pos (Or.inr hlt), Option.map_some, cstr, List.takeWhile_append_of_pos]
        · rw [List.takeWhile_cons]
          simp
        · intro c hc
          have hne : c ≠ 0 := fun heq => zero_not_mem_hexText raw (heq ▸ hc)
          exact decide_eq_true hne
      · rw [if_neg hlt, if_neg (not_or.2 ⟨hnil, hlt⟩)]
        rfl
    · rw [if_neg hle, if_neg (not_or.2 ⟨hnil, by omega⟩)]
      rfl

/-- `hex` stays in its buffer, gives two characters for each byte, and these are read back. -/
def HexReadBack (maxbuf : Nat) (raw : Bytes) : Prop :=
  ∃ text, hex maxbuf raw = some text ∧ text.length = 2 * raw.length ∧ unhexPairs text = some raw

theorem hex_readBack (maxbuf : Nat) (raw : Bytes) :
    HexReadBack maxbuf raw ↔ raw = [] ∨ 2 * raw.length < maxbuf := by
  rw [HexReadBack, hex_eq]
  constructor
  · rintro ⟨text, htext, -⟩
    by_contra hnot
    rw [if_neg hnot] at htext
    cases htext
  · intro h
    exact ⟨_, if_pos h, hexText_length raw, unhexPairs_hexText raw⟩

example : hex 514 [0, 255, 74] = some (str "00ff4a") := by decide +kernel

/-- 257 bytes are 514 characters, and there is no room for the NUL. -/
theorem hex_leaves_buffer : ¬HexReadBack 514 (List.replicate 257 0) := by
  rintro ⟨text, htext, -⟩
  rw [hex_eq, if_neg (by rw [List.length_replicate]; decide)] at htext
  cases htext

end Hottpd
