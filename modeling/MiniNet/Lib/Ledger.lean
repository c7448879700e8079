import Mathlib.Data.List.Basic
import Mathlib.Tactic.Common

/-!
# A ledger of heap blocks

Where it only matters who gives a block back, a heap is a list of accounts, one for each block that
was ever allocated, in the order of allocation; a pointer is a place in the list. An account counts
how often the block has been freed, handed over to someone who frees it, and linked into a structure
that keeps it.

A function that works on blocks allocated since some moment leaves the accounts from before alone.
`Turns` describes it by what it makes of the others; it holds of a sequence by `Turns.bind`.
-/

namespace MiniNet.Lib

structure Account (κ : Type) where
  kind : κ
  frees : Nat
  handOvers : Nat
  links : Nat
  deriving DecidableEq

abbrev Ledger (κ : Type) := List (Account κ)

abbrev OnHeap (κ α : Type) := StateM (Ledger κ) α

variable {κ α β : Type}

namespace Account

def fresh (kind : κ) : Account κ := ⟨kind, 0, 0, 0⟩

def freed (a : Account κ) : Account κ := { a with frees := a.frees + 1 }

def handedOver (a : Account κ) : Account κ := { a with handOvers := a.handOvers + 1 }

def linked (a : Account κ) : Account κ := { a with links := a.links + 1 }

/-- Freed or handed over, once, and not linked. -/
def GivenBack (a : Account κ) : Prop := a.frees + a.handOvers = 1 ∧ a.links = 0

/-- Linked once, and neither freed nor handed over. -/
def Kept (a : Account κ) : Prop := a.frees + a.handOvers = 0 ∧ a.links = 1

instance (a : Account κ) : Decidable a.GivenBack := inferInstanceAs (Decidable (_ ∧ _))

instance (a : Account κ) : Decidable a.Kept := inferInstanceAs (Decidable (_ ∧ _))

end Account

namespace OnHeap

/-- The block that is allocated. -/
def malloc (kind : κ) : OnHeap κ Nat := fun l => (l.length, l ++ [Account.fresh kind])

def free (block : Nat) : OnHeap κ Unit := fun l => ((), l.modify block Account.freed)

def handOver (block : Nat) : OnHeap κ Unit := fun l => ((), l.modify block Account.handedOver)

def link (block : Nat) : OnHeap κ Unit := fun l => ((), l.modify block Account.linked)

/-- Behind the accounts `l`, the computation makes `own'` of the accounts `own`, and comes to `a`. -/
def Turns (l : Ledger κ) (x : OnHeap κ α) (own : Ledger κ) (a : α) (own' : Ledger κ) : Prop :=
  x (l ++ own) = (a, l ++ own')

namespace Turns

variable {l own own' own'' : Ledger κ} {a : α} {b : β}

theorem pure (a : α) : Turns l (Pure.pure a) own a own := rfl

theorem bind {x : OnHeap κ α} {y : α → OnHeap κ β} (hx : Turns l x own a own')
    (hy : Turns l (y a) own' b own'') : Turns l (x >>= y) own b own'' := by
  change y (x (l ++ own)).1 (x (l ++ own)).2 = _
  rw [hx]
  exact hy

theorem malloc (kind : κ) :
    Turns l (malloc kind) own (l.length + own.length) (own ++ [Account.fresh kind]) := by
  rw [Turns, OnHeap.malloc, List.length_append, List.append_assoc]

theorem modify (f : Account κ → Account κ) (i : Nat) :
    (l ++ own).modify (l.length + i) f = l ++ own.modify i f :=
  List.modifyTailIdx_add _ _ _ _

theorem free (i : Nat) :
    Turns l (free (l.length + i)) own () (own.modify i Account.freed) := by
  rw [Turns, OnHeap.free, modify]

theorem handOver (i : Nat) :
    Turns l (handOver (l.length + i)) own () (own.modify i Account.handedOver) := by
  rw [Turns, OnHeap.handOver, modify]

theorem link (i : Nat) :
    Turns l (link (l.length + i)) own () (own.modify i Account.linked) := by
  rw [Turns, OnHeap.link, modify]

/-- A block that is linked as soon as it is there. -/
theorem malloc_link (kind : κ) :
    Turns l (OnHeap.malloc kind >>= OnHeap.link) own () (own ++ [(Account.fresh kind).linked]) := by
  have hlink : Turns l (OnHeap.link (l.length + own.length)) (own ++ [Account.fresh kind]) ()
      ((own ++ [Account.fresh kind]).modify own.length Account.linked) := link own.length
  have hlast : (own ++ [Account.fresh kind]).modify own.length Account.linked
      = own ++ [(Account.fresh kind).linked] := modify Account.linked 0
  rw [hlast] at hlink
  exact (malloc kind).bind hlink

end Turns

end OnHeap

end MiniNet.Lib
