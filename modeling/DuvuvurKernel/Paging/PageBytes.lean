import DuvuvurKernel.Lib.Digits
import DuvuvurKernel.Paging.PageFault

/-!
# The bytes of a page

A page consists of words, and an application reads bytes of them. Stored bytes are read back (`pageByte_storeBytes`).
-/

namespace DuvuvurKernel

open Lib.Digits

/-- Byte `j` of a page. -/
def pageByte (words : ℕ → PageMapEntry) (j : ℕ) : UInt8 := (words (j / 8)).byte (j % 8)

/-- The load of a byte from a virtual address. -/
def Machine.loadByte (s : Machine) (addr : ℕ) : Option UInt8 :=
  (s.translate (.ofValue addr)).map fun page => pageByte (s.mem page.frame) (addr % 4096)

namespace PageMapEntry

theorem data_lt (e : PageMapEntry) : e.data < 2 ^ 64 := by
  have h1 := e.present.toNat_le
  have h2 := e.writable.toNat_le
  have h3 := e.user.toNat_le
  have h4 := e.hugePage.toNat_le
  have h5 := e.caching.isLt
  have h6 := e.global.isLt
  have h7 := e.addr.isLt
  have h8 := e.high.isLt
  unfold data
  omega

theorem data_ofData {x : ℕ} (hx : x < 2 ^ 64) : (ofData x).data = x := by
  have hbit : ∀ n, (decide (n % 2 = 1)).toNat = n % 2 := by
    intro n
    rcases Nat.mod_two_eq_zero_or_one n with h | h
    all_goals
      rw [h]
      rfl
  simp only [ofData, data, hbit, Fin.val_ofNat]
  omega

variable {e : PageMapEntry} {j k : ℕ} {b : UInt8}

theorem data_setByte (hk : k < 8) : (e.setByte k b).data = setDigit 256 e.data k b.toNat := by
  refine data_ofData (setDigit_lt (b := 256) (n := 8) ?_ hk b.toNat_lt)
  exact e.data_lt

theorem toNat_byte : (e.byte k).toNat = digit 256 e.data k := UInt8.toNat_ofNat'

theorem byte_setByte (hk : k < 8) : (e.setByte k b).byte j = if j = k then b else e.byte j := by
  apply UInt8.toNat_inj.mp
  rw [toNat_byte, data_setByte hk]
  split
  next hjk =>
    rw [hjk]
    exact digit_setDigit_self b.toNat_lt
  next hjk => rw [toNat_byte, digit_setDigit_of_ne b.toNat_lt hjk]

theorem byte_zero : zero.byte k = 0 := by
  apply UInt8.toNat_inj.mp
  rw [toNat_byte, digit, show zero.data = 0 from rfl, Nat.zero_div]
  rfl

end PageMapEntry

/-- A byte is stored. -/
theorem pageByte_setByte {words : ℕ → PageMapEntry} {i j : ℕ} {b : UInt8} :
    pageByte (Function.update words (i / 8) ((words (i / 8)).setByte (i % 8) b)) j = if j =
        i then b else pageByte words j := by
  by_cases hword : j / 8 = i / 8
  · rw [pageByte, hword, Function.update_self, PageMapEntry.byte_setByte (Nat.mod_lt _ (by decide)), pageByte, hword]
    by_cases hji : j = i
    · rw [if_pos hji, if_pos (by rw [hji])]
    · rw [if_neg hji, if_neg (by omega)]
  · rw [pageByte, Function.update_of_ne hword, if_neg (by rintro rfl; exact hword rfl)]
    rfl

theorem pageByte_zero {j : ℕ} : pageByte (fun _ => .zero) j = 0 := PageMapEntry.byte_zero

/-- **Bytes are stored** from the start of a page on. -/
theorem pageByte_storeBytes {words : ℕ → PageMapEntry} {bytes : List UInt8} {j : ℕ} :
    pageByte (storeBytes words bytes) j = bytes[j]?.getD (pageByte words j) := by
  have hfrom : ∀ n words, pageByte ((bytes.zipIdx n).foldl (fun words b =>
      Function.update words (b.2 / 8) ((words (b.2 / 8)).setByte (b.2 % 8) b.1)) words) j =
      if n ≤ j then bytes[j - n]?.getD (pageByte words j) else pageByte words j := by
    induction bytes with
    | nil =>
      intro n words
      split <;> rfl
    | cons b bytes ih =>
      intro n words
      rw [List.zipIdx_cons, List.foldl_cons, ih, pageByte_setByte]
      rcases Nat.lt_trichotomy n j with hlt | rfl | hgt
      · rw [if_pos (Nat.succ_le_of_lt hlt), if_pos (Nat.le_of_lt hlt), if_neg (Nat.ne_of_gt hlt),
          show j - n = (j - (n + 1)) + 1 by omega, List.getElem?_cons_succ]
      · rw [if_neg (by omega), if_pos rfl, if_pos (Nat.le_refl _), Nat.sub_self]
        rfl
      · rw [if_neg (by omega), if_neg (by omega), if_neg (by omega)]
  have h := hfrom 0 words
  rwa [if_pos (Nat.zero_le j), Nat.sub_zero] at h

end DuvuvurKernel
