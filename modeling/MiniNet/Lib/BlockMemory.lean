import MiniNet.Lib.ByteMemory

/-!
# Access within a block

A block is the first `len` bytes of a memory. A computation on it is stopped by its first access
outside. `Computes` says of one where its accesses end and what it comes to where it is not stopped,
both as functions of the memory it starts from; it holds of a sequence by `Computes.bind`, and a
function is described once by it and then used in others by its description.
-/

namespace MiniNet.Lib

abbrev OnBlock (α : Type) := StateT Mem Option α

namespace OnBlock

section Access

variable (len a : Nat)

def read8 : OnBlock UInt8 := fun m => if a + 1 ≤ len then some (m a, m) else none

def read16 : OnBlock UInt16 := fun m => if a + 2 ≤ len then some (load16 m a, m) else none

def read32 : OnBlock UInt32 := fun m => if a + 4 ≤ len then some (load32 m a, m) else none

def write16 (v : UInt16) : OnBlock Unit := fun m =>
  if a + 2 ≤ len then some ((), store16 m a v) else none

def write32 (v : UInt32) : OnBlock Unit := fun m =>
  if a + 4 ≤ len then some ((), store32 m a v) else none

end Access

variable {α β : Type} {len : Nat} {x : OnBlock α} {y : α → OnBlock β} {extent extent' : Mem → Nat}
  {f f' : Mem → α × Mem}

/-- The accesses of `x` end at `extent`, and if that is inside the block `x` comes to `f`. -/
def Computes (len : Nat) (x : OnBlock α) (extent : Mem → Nat) (f : Mem → α × Mem) : Prop :=
  ∀ m, x m = if extent m ≤ len then some (f m) else none

namespace Computes

theorem isSome_iff (h : Computes len x extent f) (m : Mem) : (x m).isSome ↔ extent m ≤ len := by
  rw [h m]
  split
  · rename_i hle
    exact iff_of_true rfl hle
  · rename_i hgt
    exact iff_of_false Bool.false_ne_true hgt

/-- The description may be put in other words. -/
theorem congr_iff (h : Computes len x extent f) (hextent : ∀ m, extent m ≤ len ↔ extent' m ≤ len)
    (hf : ∀ m, f m = f' m) : Computes len x extent' f' := by
  intro m
  rw [h m, hf]
  exact if_congr (hextent m) rfl rfl

theorem congr (h : Computes len x extent f) (hextent : ∀ m, extent m = extent' m)
    (hf : ∀ m, f m = f' m) : Computes len x extent' f' :=
  h.congr_iff (fun m => by rw [hextent m]) hf

theorem pure (a : α) : Computes len (Pure.pure a) (fun _ => 0) fun m => (a, m) :=
  fun _ => (if_pos (Nat.zero_le len)).symm

theorem bind {g : α → Mem → β × Mem} {extents : α → Mem → Nat} (hx : Computes len x extent f)
    (hy : ∀ a, Computes len (y a) (extents a) (g a)) :
    Computes len (x >>= y) (fun m => max (extent m) (extents (f m).1 (f m).2))
      fun m => g (f m).1 (f m).2 := by
  intro m
  change (x m).bind (fun r => y r.1 r.2) = _
  rw [hx m]
  by_cases hle : extent m ≤ len
  · rw [if_pos hle, Option.bind_some, hy]
    simp only [Nat.max_le, hle, true_and]
  · rw [if_neg hle, Option.bind_none, if_neg fun h => hle (Nat.max_le.mp h).1]

theorem read8 (a : Nat) : Computes len (read8 len a) (fun _ => a + 1) fun m => (m a, m) :=
  fun _ => rfl

theorem read16 (a : Nat) : Computes len (read16 len a) (fun _ => a + 2) fun m => (load16 m a, m) :=
  fun _ => rfl

theorem read32 (a : Nat) : Computes len (read32 len a) (fun _ => a + 4) fun m => (load32 m a, m) :=
  fun _ => rfl

theorem write16 (a : Nat) (v : UInt16) :
    Computes len (write16 len a v) (fun _ => a + 2) fun m => ((), store16 m a v) :=
  fun _ => rfl

theorem write32 (a : Nat) (v : UInt32) :
    Computes len (write32 len a v) (fun _ => a + 4) fun m => ((), store32 m a v) :=
  fun _ => rfl

theorem ite {c : Prop} [Decidable c] {x' : OnBlock α} (hx : c → Computes len x extent f)
    (hx' : ¬ c → Computes len x' extent' f') :
    Computes len (if c then x else x') (fun m => if c then extent m else extent' m)
      fun m => if c then f m else f' m := by
  by_cases hc : c
  · simp only [if_pos hc]
    exact hx hc
  · simp only [if_neg hc]
    exact hx' hc

end Computes

end OnBlock

end MiniNet.Lib
