import Mathlib.Tactic.Common

/-!
# Little-endian byte memory

A memory is the byte at every offset from some base pointer, with no bound: reading is total, and a
caller that cares which offsets are inside an allocated block says so separately. Words are read
and written little end first, and `swap16` and `swap32` turn a word around.

What a proof needs of this is that a word written is the word read back, and that a write changes
nothing outside its own bytes.
-/

namespace MiniNet.Lib

/-- The byte at every offset from a base pointer. -/
abbrev Mem := Nat → UInt8

def load16 (m : Mem) (a : Nat) : UInt16 :=
  UInt16.ofNat ((m a).toNat + 256 * (m (a + 1)).toNat)

def load32 (m : Mem) (a : Nat) : UInt32 :=
  UInt32.ofNat ((m a).toNat + 256 * (m (a + 1)).toNat + 65536 * (m (a + 2)).toNat
    + 16777216 * (m (a + 3)).toNat)

def store16 (m : Mem) (a : Nat) (v : UInt16) : Mem := fun i =>
  if i = a then UInt8.ofNat v.toNat
  else if i = a + 1 then UInt8.ofNat (v.toNat / 256)
  else m i

def store32 (m : Mem) (a : Nat) (v : UInt32) : Mem := fun i =>
  if i = a then UInt8.ofNat v.toNat
  else if i = a + 1 then UInt8.ofNat (v.toNat / 256)
  else if i = a + 2 then UInt8.ofNat (v.toNat / 65536)
  else if i = a + 3 then UInt8.ofNat (v.toNat / 16777216)
  else m i

def byteSwap (n : Nat) : Nat := n % 256 * 256 + n / 256

def swap16 (v : UInt16) : UInt16 := UInt16.ofNat (byteSwap v.toNat)

def swap32 (v : UInt32) : UInt32 :=
  UInt32.ofNat (byteSwap (v.toNat % 65536) * 65536 + byteSwap (v.toNat / 65536))

def loadBE16 (m : Mem) (a : Nat) : UInt16 :=
  UInt16.ofNat (256 * (m a).toNat + (m (a + 1)).toNat)

/-! ### Reading a word as a number -/

theorem toNat_load16 (m : Mem) (a : Nat) :
    (load16 m a).toNat = (m a).toNat + 256 * (m (a + 1)).toNat := by
  have hlow := (m a).toNat_lt
  have hhigh := (m (a + 1)).toNat_lt
  rw [load16, UInt16.toNat_ofNat', Nat.mod_eq_of_lt (by omega)]

theorem toNat_load32 (m : Mem) (a : Nat) :
    (load32 m a).toNat = (load16 m a).toNat + 65536 * (load16 m (a + 2)).toNat := by
  have h0 := (m a).toNat_lt
  have h1 := (m (a + 1)).toNat_lt
  have h2 := (m (a + 2)).toNat_lt
  have h3 := (m (a + 3)).toNat_lt
  rw [load32, UInt32.toNat_ofNat', Nat.mod_eq_of_lt (by omega), toNat_load16, toNat_load16,
    show a + 2 + 1 = a + 3 from rfl]
  omega

/-! ### Frame -/

theorem store16_apply_of_disjoint (m : Mem) (v : UInt16) {a i : Nat} (h : i < a ∨ a + 2 ≤ i) :
    store16 m a v i = m i := by
  rw [store16, if_neg (by omega), if_neg (by omega)]

theorem store32_apply_of_disjoint (m : Mem) (v : UInt32) {a i : Nat} (h : i < a ∨ a + 4 ≤ i) :
    store32 m a v i = m i := by
  rw [store32, if_neg (by omega), if_neg (by omega), if_neg (by omega), if_neg (by omega)]

/-- What was there before a write makes no difference where it is written. -/
theorem store16_congr {m m' : Mem} {a i : Nat} (h : i < a ∨ a + 2 ≤ i → m i = m' i) (v : UInt16) :
    store16 m a v i = store16 m' a v i := by
  by_cases hi : i < a ∨ a + 2 ≤ i
  · rw [store16_apply_of_disjoint m v hi, store16_apply_of_disjoint m' v hi, h hi]
  · rw [store16, store16]
    split
    · rfl
    · rw [if_pos (by omega), if_pos (by omega)]

theorem store32_congr {m m' : Mem} {a i : Nat} (h : m i = m' i) (v : UInt32) :
    store32 m a v i = store32 m' a v i := by
  rw [store32, store32, h]

theorem load16_congr {m m' : Mem} {a : Nat} (h : ∀ i < 2, m (a + i) = m' (a + i)) :
    load16 m a = load16 m' a := by
  have h₀ := h 0 (by decide)
  rw [load16, load16, h 1 (by decide)]
  rw [Nat.add_zero] at h₀
  rw [h₀]

theorem load32_congr {m m' : Mem} {a : Nat} (h : ∀ i < 4, m (a + i) = m' (a + i)) :
    load32 m a = load32 m' a := by
  have h₀ := h 0 (by decide)
  rw [Nat.add_zero] at h₀
  rw [load32, load32, h₀, h 1 (by decide), h 2 (by decide), h 3 (by decide)]

section Frame

variable (m : Mem) {a b : Nat}

theorem load16_store16_of_disjoint (v : UInt16) (h : a + 2 ≤ b ∨ b + 2 ≤ a) :
    load16 (store16 m b v) a = load16 m a := by
  rw [load16, store16_apply_of_disjoint m v (by omega), store16_apply_of_disjoint m v (by omega),
    load16]

theorem load16_store32_of_disjoint (v : UInt32) (h : a + 2 ≤ b ∨ b + 4 ≤ a) :
    load16 (store32 m b v) a = load16 m a := by
  rw [load16, store32_apply_of_disjoint m v (by omega), store32_apply_of_disjoint m v (by omega),
    load16]

theorem load32_store16_of_disjoint (v : UInt16) (h : a + 4 ≤ b ∨ b + 2 ≤ a) :
    load32 (store16 m b v) a = load32 m a := by
  rw [load32, store16_apply_of_disjoint m v (by omega), store16_apply_of_disjoint m v (by omega),
    store16_apply_of_disjoint m v (by omega), store16_apply_of_disjoint m v (by omega), load32]

theorem load32_store32_of_disjoint (v : UInt32) (h : a + 4 ≤ b ∨ b + 4 ≤ a) :
    load32 (store32 m b v) a = load32 m a := by
  rw [load32, store32_apply_of_disjoint m v (by omega), store32_apply_of_disjoint m v (by omega),
    store32_apply_of_disjoint m v (by omega), store32_apply_of_disjoint m v (by omega), load32]

end Frame

/-! ### A word written is the word read back -/

theorem store16_low (m : Mem) (a : Nat) (v : UInt16) :
    (store16 m a v a).toNat = v.toNat % 256 := by
  rw [store16, if_pos rfl, UInt8.toNat_ofNat']

theorem store16_high (m : Mem) (a : Nat) (v : UInt16) :
    (store16 m a v (a + 1)).toNat = v.toNat / 256 := by
  have hv := v.toNat_lt
  rw [store16, if_neg (by omega), if_pos rfl, UInt8.toNat_ofNat', Nat.mod_eq_of_lt (by omega)]

@[simp] theorem load16_store16 (m : Mem) (a : Nat) (v : UInt16) :
    load16 (store16 m a v) a = v := by
  apply UInt16.toNat_inj.mp
  rw [toNat_load16, store16_low, store16_high]
  omega

@[simp] theorem load32_store32 (m : Mem) (a : Nat) (v : UInt32) :
    load32 (store32 m a v) a = v := by
  have hv := v.toNat_lt
  have h0 : store32 m a v a = UInt8.ofNat v.toNat := if_pos rfl
  have h1 : store32 m a v (a + 1) = UInt8.ofNat (v.toNat / 256) := by
    rw [store32, if_neg (by omega), if_pos rfl]
  have h2 : store32 m a v (a + 2) = UInt8.ofNat (v.toNat / 65536) := by
    rw [store32, if_neg (by omega), if_neg (by omega), if_pos rfl]
  have h3 : store32 m a v (a + 3) = UInt8.ofNat (v.toNat / 16777216) := by
    rw [store32, if_neg (by omega), if_neg (by omega), if_neg (by omega), if_pos rfl]
  apply UInt32.toNat_inj.mp
  rw [load32, h0, h1, h2, h3]
  simp only [UInt8.toNat_ofNat', UInt32.toNat_ofNat']
  omega

/-- The last word written counts. -/
theorem store16_store16 (m : Mem) (a : Nat) (v w : UInt16) :
    store16 (store16 m a v) a w = store16 m a w := by
  funext i
  unfold store16
  split_ifs
  · rfl
  · rfl
  · rfl

/-- What is put back is what was there, whatever stood there in between. -/
theorem store16_load16 (m : Mem) (a : Nat) (v : UInt16) :
    store16 (store16 m a v) a (load16 m a) = m := by
  have hlow := (m a).toNat_lt
  have hhigh := (m (a + 1)).toNat_lt
  funext i
  by_cases hi : i < a ∨ a + 2 ≤ i
  · rw [store16_apply_of_disjoint _ _ hi, store16_apply_of_disjoint _ _ hi]
  · apply UInt8.toNat_inj.mp
    obtain rfl | rfl : i = a ∨ i = a + 1 := by omega
    · rw [store16_low, toNat_load16]
      omega
    · rw [store16_high, toNat_load16]
      omega

/-! ### Byte swapping -/

theorem byteSwap_add {low high : Nat} (hlow : low < 256) :
    byteSwap (low + 256 * high) = low * 256 + high := by
  unfold byteSwap
  omega

theorem byteSwap_lt {n : Nat} (h : n < 65536) : byteSwap n < 65536 := by
  unfold byteSwap
  omega

theorem byteSwap_byteSwap {n : Nat} (h : n < 65536) : byteSwap (byteSwap n) = n := by
  unfold byteSwap
  omega

theorem toNat_swap16 (v : UInt16) : (swap16 v).toNat = byteSwap v.toNat := by
  rw [swap16, UInt16.toNat_ofNat', Nat.mod_eq_of_lt (byteSwap_lt v.toNat_lt)]

@[simp] theorem swap16_swap16 (v : UInt16) : swap16 (swap16 v) = v := by
  apply UInt16.toNat_inj.mp
  rw [toNat_swap16, toNat_swap16, byteSwap_byteSwap v.toNat_lt]

theorem swap16_load16 (m : Mem) (a : Nat) : swap16 (load16 m a) = loadBE16 m a := by
  have hlow := (m a).toNat_lt
  have hhigh := (m (a + 1)).toNat_lt
  apply UInt16.toNat_inj.mp
  rw [toNat_swap16, toNat_load16, byteSwap_add hlow, loadBE16, UInt16.toNat_ofNat',
    Nat.mod_eq_of_lt (by omega)]
  omega

theorem swap16_injective : Function.Injective swap16 :=
  Function.LeftInverse.injective swap16_swap16

theorem toNat_swap32 (v : UInt32) :
    (swap32 v).toNat = byteSwap (v.toNat % 65536) * 65536 + byteSwap (v.toNat / 65536) := by
  have hv := v.toNat_lt
  have hlow := byteSwap_lt (Nat.mod_lt v.toNat (show 0 < 65536 by decide))
  have hhigh := byteSwap_lt (show v.toNat / 65536 < 65536 by omega)
  rw [swap32, UInt32.toNat_ofNat', Nat.mod_eq_of_lt (by omega)]

@[simp] theorem swap32_swap32 (v : UInt32) : swap32 (swap32 v) = v := by
  have hv := v.toNat_lt
  have hlow : v.toNat % 65536 < 65536 := Nat.mod_lt _ (by decide)
  have hhigh : v.toNat / 65536 < 65536 := by omega
  have hmod : (byteSwap (v.toNat % 65536) * 65536 + byteSwap (v.toNat / 65536)) % 65536
      = byteSwap (v.toNat / 65536) := by
    have := byteSwap_lt hhigh
    omega
  have hdiv : (byteSwap (v.toNat % 65536) * 65536 + byteSwap (v.toNat / 65536)) / 65536
      = byteSwap (v.toNat % 65536) := by
    have := byteSwap_lt hhigh
    omega
  apply UInt32.toNat_inj.mp
  rw [toNat_swap32, toNat_swap32, hmod, hdiv, byteSwap_byteSwap hlow, byteSwap_byteSwap hhigh]
  omega

theorem swap32_injective : Function.Injective swap32 :=
  Function.LeftInverse.injective swap32_swap32

theorem toNat_swap32_of_bytes {v : UInt32} {b₀ b₁ b₂ b₃ : Nat}
    (h : v.toNat = b₀ + 256 * b₁ + 65536 * b₂ + 16777216 * b₃) (h₀ : b₀ < 256) (h₁ : b₁ < 256)
    (h₂ : b₂ < 256) : (swap32 v).toNat = 16777216 * b₀ + 65536 * b₁ + 256 * b₂ + b₃ := by
  have hlow : v.toNat % 65536 = b₀ + 256 * b₁ := by omega
  have hhigh : v.toNat / 65536 = b₂ + 256 * b₃ := by omega
  rw [toNat_swap32, hlow, hhigh, byteSwap_add h₀, byteSwap_add h₂]
  omega

/-- Adding one before turning a number around is adding one afterwards only if all its bits are
set. -/
theorem swap32_add_one_iff {v : UInt32} : swap32 (v + 1) = swap32 v + 1 ↔ v = 0xffffffff := by
  constructor
  · intro hswap
    by_contra hne
    have hlt := v.toNat_lt
    have hmax : v.toNat ≠ 4294967295 := fun hmax => hne (UInt32.toNat_inj.mp hmax)
    obtain ⟨b₀, b₁, b₂, b₃, hv, h₀, h₁, h₂⟩ : ∃ b₀ b₁ b₂ b₃,
        v.toNat = b₀ + 256 * b₁ + 65536 * b₂ + 16777216 * b₃ ∧ b₀ < 256 ∧ b₁ < 256 ∧ b₂ < 256 :=
      ⟨v.toNat % 256, v.toNat / 256 % 256, v.toNat / 65536 % 256, v.toNat / 16777216,
        by omega, by omega, by omega, by omega⟩
    have hsucc : (v + 1).toNat = v.toNat + 1 := by
      rw [UInt32.toNat_add, UInt32.toNat_one]
      omega
    have hback := congrArg UInt32.toNat hswap
    rw [UInt32.toNat_add, UInt32.toNat_one, toNat_swap32_of_bytes hv h₀ h₁ h₂] at hback
    -- The one goes into the lowest byte that is not full.
    rcases Nat.lt_or_ge b₀ 255 with hlt₀ | hge₀
    · have hbytes : (v + 1).toNat = (b₀ + 1) + 256 * b₁ + 65536 * b₂ + 16777216 * b₃ := by omega
      rw [toNat_swap32_of_bytes hbytes (by omega) h₁ h₂] at hback
      omega
    rcases Nat.lt_or_ge b₁ 255 with hlt₁ | hge₁
    · have hbytes : (v + 1).toNat = 0 + 256 * (b₁ + 1) + 65536 * b₂ + 16777216 * b₃ := by omega
      rw [toNat_swap32_of_bytes hbytes (by omega) (by omega) h₂] at hback
      omega
    rcases Nat.lt_or_ge b₂ 255 with hlt₂ | hge₂
    · have hbytes : (v + 1).toNat = 0 + 256 * 0 + 65536 * (b₂ + 1) + 16777216 * b₃ := by omega
      rw [toNat_swap32_of_bytes hbytes (by omega) (by omega) (by omega)] at hback
      omega
    · have hbytes : (v + 1).toNat = 0 + 256 * 0 + 65536 * 0 + 16777216 * (b₃ + 1) := by omega
      rw [toNat_swap32_of_bytes hbytes (by omega) (by omega) (by omega)] at hback
      omega
  · intro hv
    subst hv
    decide

end MiniNet.Lib
