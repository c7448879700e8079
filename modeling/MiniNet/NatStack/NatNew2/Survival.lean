import MiniNet.NatStack.NatNew2.Code

/-!
# What ends `nat_new_2.c`

`do_translation` asks whether there is a mapping before it uses one for an inbound packet, and then
takes every other packet, an inbound one without a mapping included, to be outbound and reads the
port of the mapping it does not have. An outbound packet always has one, made on the spot if need be.
-/

namespace MiniNet.NatStack.NatNew2

open Lib

section Translation

variable (t : NatTable) (iface : IfaceInfo) (p : Packet) (dir : PacketDir) (now later : Nat)

/-- The entry made for a packet is in the table. -/
theorem get?_natInsertMapping (ip : UInt32) (port : UInt16) :
    (Buckets.get? (natInsertMapping t ip port now).2.natMappingList
      (natInsertMapping t ip port now).1).isSome := by
  apply Option.isSome_iff_exists.mpr
  exact ⟨_, Buckets.get?_addTail (Buckets.get?_addTail_self _ _ _)⟩

/-- A mapping that a packet is given is in the table. -/
theorem get?_natGetMappingFromPacket {loc : Location}
    (h : (natGetMappingFromPacket t p dir now).1 = some loc) :
    (Buckets.get? (natGetMappingFromPacket t p dir now).2.natMappingList loc).isSome := by
  unfold natGetMappingFromPacket at h ⊢
  dsimp only at h ⊢
  split at h
  · rename_i hdir
    obtain ⟨entry, -, -, hget⟩ := Buckets.findIn_some h
    rw [if_pos hdir, hget]
    rfl
  · rename_i hdir
    rw [if_neg hdir]
    split at h
    · rename_i loc' hlookup
      cases h
      obtain ⟨entry, -, -, hget⟩ := Buckets.findIn_some hlookup
      simp only [hget, Option.isSome_some]
    · cases h
      exact get?_natInsertMapping t now _ _

/-- The translation reads through a null pointer when the packet has no mapping. -/
theorem isSome_doTranslation :
    (doTranslation t iface p dir now later).isSome ↔
      (natGetMappingFromPacket t p dir now).1 ≠ none := by
  unfold doTranslation
  dsimp only
  cases hloc : (natGetMappingFromPacket t p dir now).1 with
  | none => simp
  | some loc =>
    simp only [Option.bind_some, Option.isSome_map, ne_eq, reduceCtorEq, not_false_eq_true,
      iff_true]
    exact get?_natGetMappingFromPacket t p dir now hloc

/-- A packet has no mapping when it is inbound and the lookup fails. -/
theorem natGetMappingFromPacket_ne_none :
    (natGetMappingFromPacket t p dir now).1 ≠ none ↔
      (dir = .dirIn → natLookupExternal t p.dest.2 ≠ none) := by
  unfold natGetMappingFromPacket
  dsimp only
  split
  · rename_i hdir
    simp only [hdir, forall_const]
    rfl
  · rename_i hdir
    split <;> simp [hdir]

end Translation

/-- The packet, if inbound, is for a port that the external lookup finds. -/
def InboundFound : Option NatTable → Event → Prop
  | some t, .packet _ dir p _ _ => dir = .dirIn → natLookupExternal t p.dest.2 ≠ none
  | _, _ => True

theorem isSome_next (t : NatTable) (e : Event) :
    (next (some t) e).isSome ↔ InboundFound (some t) e := by
  cases e with
  | sweep now => exact iff_of_true rfl trivial
  | packet iface dir p now later =>
    rw [InboundFound, ← natGetMappingFromPacket_ne_none t p dir now,
      ← isSome_doTranslation t iface p dir now later]
    simp only [next, nextOf, step, Option.isSome_map]

/-- **When the program lives**: no step of a run uses a null mapping exactly when every inbound
packet of it is for a port that the lookup finds then. -/
theorem survives_iff (t₀ : NatTable) (es : List Event) :
    (∀ pre post, es = pre ++ post → (run next (some t₀) pre).isSome) ↔
      AtEachStep next InboundFound (some t₀) es := by
  refine invariant_iff_atEachStep next (I := fun s => s.isSome) ?_ rfl es
  intro s e hlive
  obtain ⟨t, rfl⟩ := Option.isSome_iff_exists.mp hlive
  exact isSome_next t e

/-- One segment from outside, to a port without a mapping, ends the program that has just started. -/
theorem stray_segment_ends_program :
    natTableInit [natTopoIfaces.1, natTopoIfaces.2] = some natTopo ∧
    getPacketDirection natTopo (Packet.bare hostH2 (natTopo.natIp, htons 443)) = .dirIn ∧
    doTranslation natTopo natTopoIfaces.2 (Packet.bare hostH2 (natTopo.natIp, htons 443)) .dirIn
      100 100 = none := by
  refine ⟨natTableInit_natTopo, by decide +kernel, ?_⟩
  rfl

/-! ### The machine that ends with the program -/

def advance (t : NatTable) (e : Event) : Option (NatTable × Option Packet) :=
  (step (some t) e).1.map fun t' => (t', (step (some t) e).2)

theorem run_none (es : List Event) : run next none es = none := by
  induction es with
  | nil => rfl
  | cons e es ih => exact ih

theorem attempt_advance (t : NatTable) (es : List Event) :
    attempt advance t es
      = (run next (some t) es).map fun t' => (t', outputs step (some t) es) := by
  induction es generalizing t with
  | nil => rfl
  | cons e es ih =>
    rw [attempt, advance, run_cons, outputs, next, nextOf]
    cases hnext : (step (some t) e).1 with
    | none =>
      rw [← next, run_none]
      rfl
    | some t' =>
      rw [Option.map_some, Option.bind_some, ih, Option.map_map]
      rfl

end MiniNet.NatStack.NatNew2
