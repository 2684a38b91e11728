import DuvuvurKernel.Lang.Font
import DuvuvurKernel.Terminal.AppInput

/-!
# Encoding characters

`ConvertUTF32toUTF8` of `terminal.cpp` against `ConvertUTF8To32` of `lang/font.cpp`, and
against the loop of `WriteUTF8String`, which decodes a string up to its terminator.

**Result** (`encoded_iff`): the loop goes through the encoding of a string character by
character, and stops at the terminator.
-/

namespace DuvuvurKernel

open Lib.Loops

/-- The encodings of the characters of a string, one after the other. -/
def encode (cs : List UInt32) : List UInt8 := cs.flatMap convertUTF32toUTF8

/-! ### One character -/

/-- The byte with the low bits of `n` after the first byte of a character. -/
theorem tail_bits : ∀ n < 256, (((0x80 : UInt8) ||| (UInt8.ofNat n &&& 0x3F)).toUInt32 &&& 0b00111111).toNat =
    n % 64 := by
  decide +kernel

theorem lead_two : ∀ n < 32, countUTF8Size ((0xC0 : UInt8) ||| UInt8.ofNat n) = 2 ∧
    (((0xC0 : UInt8) ||| UInt8.ofNat n).toUInt32 &&& 0b00011111).toNat = n := by
  decide +kernel

theorem lead_three : ∀ n < 16, countUTF8Size ((0xE0 : UInt8) ||| UInt8.ofNat n) = 3 ∧
    (((0xE0 : UInt8) ||| UInt8.ofNat n).toUInt32 &&& 0b00001111).toNat = n := by
  decide +kernel

theorem lead_four : ∀ n < 8, countUTF8Size ((0xF0 : UInt8) ||| UInt8.ofNat n) = 4 ∧
    (((0xF0 : UInt8) ||| UInt8.ofNat n).toUInt32 &&& 0b00000111).toNat = n := by
  decide +kernel

/-- The low byte of a shifted character. -/
theorem toUInt8_shift (c : UInt32) (k : ℕ) (hk : k < 32) :
    (c >>> UInt32.ofNat k).toUInt8 = UInt8.ofNat (c.toNat / 2 ^ k % 256) := by
  apply UInt8.toNat_inj.mp
  simp [Nat.shiftRight_eq_div_pow, Nat.mod_eq_of_lt hk]

theorem toNat_shift {x : UInt32} {k : ℕ} (hk : k < 32) (hx : x.toNat * 2 ^ k < 2 ^ 32) :
    (x <<< UInt32.ofNat k).toNat = x.toNat * 2 ^ k := by
  have hmod : k % 2 ^ 32 % 32 = k := by omega
  rw [UInt32.toNat_shiftLeft, UInt32.toNat_ofNat', hmod, Nat.shiftLeft_eq, Nat.mod_eq_of_lt hx]

/-- Putting bits below others. -/
theorem toNat_or {x y : UInt32} {k : ℕ} (hx : 2 ^ k ∣ x.toNat) (hy : y.toNat < 2 ^ k) :
    (x ||| y).toNat = x.toNat + y.toNat := by
  obtain ⟨m, hm⟩ := hx
  rw [UInt32.toNat_or, hm, Nat.two_pow_add_eq_or_of_lt hy]

section

variable {c : UInt32} {s : Bytes}

/-- The low bits of a shifted character, as the decoder takes them from a byte after the first. -/
theorem tail_toNat (c : UInt32) {k : ℕ} (hk : k < 32) :
    (((0x80 : UInt8) ||| ((c >>> UInt32.ofNat k).toUInt8 &&& 0x3F)).toUInt32 &&& 0b00111111).toNat =
      c.toNat / 2 ^ k % 64 := by
  rw [toUInt8_shift c k hk, tail_bits _ (Nat.mod_lt _ (by decide))]
  omega

theorem last_toNat (c : UInt32) :
    (((0x80 : UInt8) ||| (c.toUInt8 &&& 0x3F)).toUInt32 &&& 0b00111111).toNat = c.toNat % 64 := by
  have h := tail_toNat c (k := 0) (by decide)
  rwa [show c >>> UInt32.ofNat 0 = c by simp, Nat.pow_zero, Nat.div_one] at h

theorem decode_one (hc : c ≤ 0x7f) (h0 : s 0 = some c.toUInt8) : convertUTF8To32 s = some (c, 1) := by
  have hn : c.toNat ≤ 0x7f := UInt32.le_iff_toNat_le.mp hc
  have hbyte : c.toUInt8.toNat = c.toNat := by
    rw [UInt32.toNat_toUInt8]
    omega
  have hsize : countUTF8Size c.toUInt8 = 1 := by
    unfold countUTF8Size
    rw [if_pos (UInt8.lt_iff_toNat_lt.mpr (by rw [hbyte]; exact Nat.lt_succ_of_le hn))]
  have hback : c.toUInt8.toUInt32 = c := by
    apply UInt32.toNat_inj.mp
    rw [UInt8.toNat_toUInt32, hbyte]
  simp [convertUTF8To32, h0, hsize, hback]

theorem decode_two (hc : c ≤ 0x7ff) (h0 : s 0 = some ((0xC0 : UInt8) ||| (c >>> 6).toUInt8))
    (ht : s 1 = some ((0x80 : UInt8) ||| (c.toUInt8 &&& 0x3F))) : convertUTF8To32 s = some (c, 2) := by
  have hn : c.toNat ≤ 0x7ff := UInt32.le_iff_toNat_le.mp hc
  have hlead := lead_two (c.toNat / 2 ^ 6 % 256) (by omega)
  rw [← toUInt8_shift c 6 (by decide)] at hlead
  have hsize : countUTF8Size ((0xC0 : UInt8) ||| (c >>> 6).toUInt8) = 2 := hlead.1
  have hbits : (((0xC0 : UInt8) ||| (c >>> 6).toUInt8).toUInt32 &&& 0b00011111).toNat = c.toNat / 2 ^ 6 % 256 := hlead.2
  have hlast := last_toNat c
  simp only [convertUTF8To32, h0, ht, Option.bind_eq_bind, Option.bind_some, hsize]
  generalize ((0xC0 : UInt8) ||| (c >>> 6).toUInt8).toUInt32 &&& 0b00011111 = a at hbits
  generalize ((0x80 : UInt8) ||| (c.toUInt8 &&& 0x3F)).toUInt32 &&& 0b00111111 = d at hlast
  have ha : (a <<< 6).toNat = a.toNat * 2 ^ 6 := toNat_shift (k := 6) (by decide) (by omega)
  have hvalue : a <<< 6 ||| d = c := by
    apply UInt32.toNat_inj.mp
    rw [toNat_or (k := 6) (by rw [ha]; exact Nat.dvd_mul_left _ _) (by omega), ha]
    omega
  rw [hvalue]
  rfl

theorem decode_three (hc : c ≤ 0xffff) (h0 : s 0 = some ((0xE0 : UInt8) ||| (c >>> 12).toUInt8))
    (ht : s 1 = some ((0x80 : UInt8) ||| ((c >>> 6).toUInt8 &&& 0x3F)))
    (ht' : s 2 = some ((0x80 : UInt8) ||| (c.toUInt8 &&& 0x3F))) : convertUTF8To32 s = some (c, 3) := by
  have hn : c.toNat ≤ 0xffff := UInt32.le_iff_toNat_le.mp hc
  have hlead := lead_three (c.toNat / 2 ^ 12 % 256) (by omega)
  rw [← toUInt8_shift c 12 (by decide)] at hlead
  have hsize : countUTF8Size ((0xE0 : UInt8) ||| (c >>> 12).toUInt8) = 3 := hlead.1
  have hbits : (((0xE0 : UInt8) ||| (c >>> 12).toUInt8).toUInt32 &&& 0b00001111).toNat = c.toNat / 2 ^ 12 % 256 :=
    hlead.2
  have hmid : (((0x80 : UInt8) ||| ((c >>> 6).toUInt8 &&& 0x3F)).toUInt32 &&& 0b00111111).toNat =
      c.toNat / 2 ^ 6 % 64 :=
    tail_toNat c (by decide)
  have hlast := last_toNat c
  simp only [convertUTF8To32, h0, ht, ht', Option.bind_eq_bind, Option.bind_some, hsize]
  generalize ((0xE0 : UInt8) ||| (c >>> 12).toUInt8).toUInt32 &&& 0b00001111 = a at hbits
  generalize ((0x80 : UInt8) ||| ((c >>> 6).toUInt8 &&& 0x3F)).toUInt32 &&& 0b00111111 = b at hmid
  generalize ((0x80 : UInt8) ||| (c.toUInt8 &&& 0x3F)).toUInt32 &&& 0b00111111 = d at hlast
  have ha : (a <<< 12).toNat = a.toNat * 2 ^ 12 := toNat_shift (k := 12) (by decide) (by omega)
  have hb : (b <<< 6).toNat = b.toNat * 2 ^ 6 := toNat_shift (k := 6) (by decide) (by omega)
  have hab : (a <<< 12 ||| b <<< 6).toNat = a.toNat * 2 ^ 12 + b.toNat * 2 ^ 6 := by
    rw [toNat_or (k := 12) (by rw [ha]; exact Nat.dvd_mul_left _ _) (by omega), ha, hb]
  have hvalue : a <<< 12 ||| b <<< 6 ||| d = c := by
    apply UInt32.toNat_inj.mp
    rw [toNat_or (k := 6) (by rw [hab]; omega) (by omega), hab]
    omega
  rw [hvalue]
  rfl

theorem decode_four (hc : c ≤ 0x10FFFF) (h0 : s 0 = some ((0xF0 : UInt8) ||| (c >>> 18).toUInt8))
    (ht : s 1 = some ((0x80 : UInt8) ||| ((c >>> 12).toUInt8 &&& 0x3F)))
    (ht' : s 2 = some ((0x80 : UInt8) ||| ((c >>> 6).toUInt8 &&& 0x3F)))
    (ht'' : s 3 = some ((0x80 : UInt8) ||| (c.toUInt8 &&& 0x3F))) : convertUTF8To32 s = some (c, 4) := by
  have hn : c.toNat ≤ 0x10FFFF := UInt32.le_iff_toNat_le.mp hc
  have hlead := lead_four (c.toNat / 2 ^ 18 % 256) (by omega)
  rw [← toUInt8_shift c 18 (by decide)] at hlead
  have hsize : countUTF8Size ((0xF0 : UInt8) ||| (c >>> 18).toUInt8) = 4 := hlead.1
  have hbits : (((0xF0 : UInt8) ||| (c >>> 18).toUInt8).toUInt32 &&& 0b00000111).toNat = c.toNat / 2 ^ 18 % 256 :=
    hlead.2
  have hmid : (((0x80 : UInt8) ||| ((c >>> 12).toUInt8 &&& 0x3F)).toUInt32 &&& 0b00111111).toNat =
      c.toNat / 2 ^ 12 % 64 := tail_toNat c (by decide)
  have hmid' : (((0x80 : UInt8) ||| ((c >>> 6).toUInt8 &&& 0x3F)).toUInt32 &&& 0b00111111).toNat =
      c.toNat / 2 ^ 6 % 64 :=
    tail_toNat c (by decide)
  have hlast := last_toNat c
  simp only [convertUTF8To32, h0, ht, ht', ht'', Option.bind_eq_bind, Option.bind_some, hsize]
  generalize ((0xF0 : UInt8) ||| (c >>> 18).toUInt8).toUInt32 &&& 0b00000111 = a at hbits
  generalize ((0x80 : UInt8) ||| ((c >>> 12).toUInt8 &&& 0x3F)).toUInt32 &&& 0b00111111 = b at hmid
  generalize ((0x80 : UInt8) ||| ((c >>> 6).toUInt8 &&& 0x3F)).toUInt32 &&& 0b00111111 = b' at hmid'
  generalize ((0x80 : UInt8) ||| (c.toUInt8 &&& 0x3F)).toUInt32 &&& 0b00111111 = d at hlast
  have ha : (a <<< 18).toNat = a.toNat * 2 ^ 18 := toNat_shift (k := 18) (by decide) (by omega)
  have hb : (b <<< 12).toNat = b.toNat * 2 ^ 12 := toNat_shift (k := 12) (by decide) (by omega)
  have hb' : (b' <<< 6).toNat = b'.toNat * 2 ^ 6 := toNat_shift (k := 6) (by decide) (by omega)
  have hab : (a <<< 18 ||| b <<< 12).toNat = a.toNat * 2 ^ 18 + b.toNat * 2 ^ 12 := by
    rw [toNat_or (k := 18) (by rw [ha]; exact Nat.dvd_mul_left _ _) (by omega), ha, hb]
  have habb : (a <<< 18 ||| b <<< 12 ||| b' <<< 6).toNat = a.toNat * 2 ^ 18 + b.toNat * 2 ^ 12 + b'.toNat * 2 ^ 6 := by
    rw [toNat_or (k := 12) (by rw [hab]; omega) (by omega), hab, hb']
  have hvalue : a <<< 18 ||| b <<< 12 ||| b' <<< 6 ||| d = c := by
    apply UInt32.toNat_inj.mp
    rw [toNat_or (k := 6) (by rw [habb]; omega) (by omega), habb]
    omega
  rw [hvalue]
  rfl

/-- **A character is decoded** from its encoding. -/
theorem convertUTF8To32_encoded (hc : c ≤ 0x10FFFF)
    (hs : ∀ k b, (convertUTF32toUTF8 c)[k]? = some b → s k = some b) :
    convertUTF8To32 s = some (c, (convertUTF32toUTF8 c).length) := by
  unfold convertUTF32toUTF8 at hs ⊢
  by_cases h1 : c ≤ 0x7f
  · rw [if_pos h1] at hs ⊢
    exact decode_one h1 (hs 0 _ rfl)
  rw [if_neg h1] at hs ⊢
  by_cases h2 : c ≤ 0x7ff
  · rw [if_pos h2] at hs ⊢
    exact decode_two h2 (hs 0 _ rfl) (hs 1 _ rfl)
  rw [if_neg h2] at hs ⊢
  by_cases h3 : c ≤ 0xffff
  · rw [if_pos h3] at hs ⊢
    exact decode_three h3 (hs 0 _ rfl) (hs 1 _ rfl) (hs 2 _ rfl)
  · rw [if_neg h3] at hs ⊢
    exact decode_four hc (hs 0 _ rfl) (hs 1 _ rfl) (hs 2 _ rfl) (hs 3 _ rfl)

theorem convertUTF32toUTF8_ne_nil (c : UInt32) : convertUTF32toUTF8 c ≠ [] := by
  unfold convertUTF32toUTF8
  split_ifs <;> exact List.cons_ne_nil _ _

/-- The encoding of a character does not start like a terminator, for that would be decoded as one. -/
theorem convertUTF32toUTF8_head (hne : c ≠ 0) (hc : c ≤ 0x10FFFF) :
    ∃ b bs, convertUTF32toUTF8 c = b :: bs ∧ b ≠ 0 := by
  obtain ⟨b, bs, hb⟩ := List.exists_cons_of_ne_nil (convertUTF32toUTF8_ne_nil c)
  refine ⟨b, bs, hb, ?_⟩
  rintro rfl
  have hdecoded := convertUTF8To32_encoded (s := bytesOf (convertUTF32toUTF8 c)) hc fun _ _ h => h
  have hzero : bytesOf (convertUTF32toUTF8 c) 0 = some 0 := by rw [bytesOf, hb, List.getElem?_cons_zero]
  have hsize : countUTF8Size 0 = 1 := rfl
  simp only [convertUTF8To32, hzero, Option.bind_eq_bind, Option.bind_some, hsize] at hdecoded
  exact hne (Prod.mk.inj (Option.some.inj hdecoded)).1.symm

end

/-! ### Strings -/

variable {τ : Type} {draw : τ → UInt32 → τ} {str : Bytes} {cs : List UInt32}

/-- The loop over an encoded string, from its start or from where it has come to. -/
theorem returns_encoded {i : ℕ} {t : τ} (hcs : ∀ c ∈ cs, c ≠ 0 ∧ c ≤ 0x10FFFF)
    (hstr : ∀ k b, (encode cs ++ [0])[k]? = some b → str (i + k) = some b) :
    Returns (stringLoop (fun _ => true) draw str) (i, t) (i + (encode cs).length, cs.foldl draw t) := by
  induction cs generalizing i t with
  | nil =>
    have hzero : str i = some 0 := hstr 0 0 rfl
    exact .done (by simp [stringLoop, hzero, encode])
  | cons c cs ih =>
    obtain ⟨hne, hc⟩ := hcs c List.mem_cons_self
    obtain ⟨b, bs, hb, hb0⟩ := convertUTF32toUTF8_head hne hc
    have hsplit : encode (c :: cs) ++ [0] = convertUTF32toUTF8 c ++ (encode cs ++ [0]) := by
      simp [encode]
    have hfirst : str i = some b := hstr 0 b (by rw [hsplit, hb]; rfl)
    have hchar : convertUTF8To32 (str.from i) = some (c, (convertUTF32toUTF8 c).length) := by
      refine convertUTF8To32_encoded hc fun k b hk => hstr k b ?_
      rw [hsplit, List.getElem?_append_left (List.getElem?_eq_some_iff.mp hk).1]
      exact hk
    have hround : stringLoop (fun _ => true) draw str (i, t) =
        some (.goOn (i + (convertUTF32toUTF8 c).length, draw t c)) := by
      simp [stringLoop, hfirst, hb0, hchar]
    have hrest := ih (i := i + (convertUTF32toUTF8 c).length) (t := draw t c)
      (fun c hc => hcs c (List.mem_cons_of_mem _ hc)) fun k b hk => by
        rw [Nat.add_assoc]
        refine hstr _ b ?_
        rw [hsplit, List.getElem?_append_right (Nat.le_add_right _ _), Nat.add_sub_cancel_left]
        exact hk
    refine .goOn hround ?_
    have hlength : (encode (c :: cs)).length = (convertUTF32toUTF8 c).length + (encode cs).length := by
      simp [encode]
    rw [hlength, ← Nat.add_assoc]
    exact hrest

theorem returns_encoded_iff {t : τ} {r : ℕ × τ} {rest : List UInt8} (hcs : ∀ c ∈ cs, c ≠ 0 ∧ c ≤ 0x10FFFF) :
    Returns (stringLoop (fun _ => true) draw (bytesOf (encode cs ++ 0 :: rest))) (0, t) r ↔
      r = ((encode cs).length, cs.foldl draw t) := by
  have hreturns : Returns (stringLoop (fun _ => true) draw (bytesOf (encode cs ++ 0 :: rest))) (0, t)
      (0 + (encode cs).length, cs.foldl draw t) :=
    returns_encoded hcs fun k b hk => by
      rw [Nat.zero_add, bytesOf, List.append_cons, List.getElem?_append_left (List.getElem?_eq_some_iff.mp hk).1]
      exact hk
  rw [Nat.zero_add] at hreturns
  constructor
  · intro h
    exact h.unique hreturns
  · rintro rfl
    exact hreturns

/-- **Encoding and decoding agree**: from an encoded string and its terminator, whatever comes after, the
loop over a string takes exactly the characters that were encoded, and stops at the terminator; so
`WriteUTF8String` draws these characters. -/
theorem encoded_iff (cs : List UInt32) (hcs : ∀ c ∈ cs, c ≠ 0 ∧ c ≤ 0x10FFFF) (rest : List UInt8) :
    (∀ r, Returns (stringLoop (fun _ => true) (fun l u32 => l ++ [u32]) (bytesOf (encode cs ++ 0 :: rest))) (0, []) r ↔
      r = ((encode cs).length, cs)) ∧
    ∀ {σ : Type} (w : PixelWriter σ) (f : Font) (s : σ) (pos : Vector2D) (color : PixelColor) (r : ℕ × ℤ × σ),
      f.WriteUTF8String w s pos (bytesOf (encode cs ++ 0 :: rest)) color r ↔
        r = ((encode cs).length, cs.foldl (f.drawUTF8 w pos color) (0, s)) := by
  refine ⟨fun r => ?_, fun w f s pos color r => returns_encoded_iff hcs⟩
  have hcollect : cs.foldl (fun l u32 => l ++ [u32]) [] = cs := by
    rw [List.foldl_append_eq_append, List.nil_append, ← List.flatMap_def, List.flatMap_singleton']
  rw [returns_encoded_iff hcs, hcollect]

/-- A string with a character of each length. -/
theorem encoded_iff_lengths : Returns (stringLoop (fun _ => true) (fun l u32 => l ++ [u32])
    (bytesOf (encode [0x78, 0x3b1, 0x4e00, 0x1f600] ++ 0 :: []))) (0, []) (10, [0x78, 0x3b1, 0x4e00, 0x1f600]) := by
  refine ((encoded_iff [0x78, 0x3b1, 0x4e00, 0x1f600] ?_ []).1 _).mpr rfl
  simp only [List.forall_mem_cons]
  exact ⟨by decide, by decide, by decide, by decide, nofun⟩

end DuvuvurKernel
