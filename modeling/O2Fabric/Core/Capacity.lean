/-
  O2Fabric.Core.Capacity

  A node's own bound on what it runs at once: so many slots, fewer at a duty
  cycle below one, and the set of the keys that hold one.
-/

import O2Fabric.Core.Placement
import Mathlib.Data.Finset.Card

namespace O2Fabric

/-- `dutyCycle` is what a read of it gives now: a constant, or a governor's. -/
structure LocalCapacity where
  nodeId : JsString
  maxConcurrent : Nat
  dutyCycle : ℚ
  inFlight : Finset JsString
  peak : Nat
  maxConcurrent_pos : 0 < maxConcurrent
  dutyCycle_range : 0 < dutyCycle ∧ dutyCycle ≤ 1

namespace LocalCapacity

/-- The duty cycle of a node that is not held back is in range. -/
theorem full_range : (0 : ℚ) < 1 ∧ (1 : ℚ) ≤ 1 := by decide

/-- `none` where the constructor throws. -/
def create (nodeId : JsString) (maxConcurrent : Nat) (dutyCycle : ℚ) : Option LocalCapacity :=
  if h : 0 < maxConcurrent ∧ 0 < dutyCycle ∧ dutyCycle ≤ 1 then
    some ⟨nodeId, maxConcurrent, dutyCycle, ∅, 0, h.1, h.2⟩
  else none

variable (p : Platform) (c : LocalCapacity)

/-- Slots usable at the current duty cycle, never none. -/
def slots : Nat := max 1 ⌊c.maxConcurrent * c.dutyCycle⌋.toNat

def capacity : NodeCapacity := ⟨c.slots, c.inFlight.card⟩

/-- `#decide`: what the node answers to an offer. -/
def decision (offer : Offer) : Admission :=
  if offer.shardId ∈ c.inFlight then
    .refused (offer.shardId ++ js " is already in flight here") (some c.capacity)
      .decliningThisOffer
  else if c.slots ≤ c.inFlight.card then
    .refused
      (js "over-committed: " ++ decimal c.inFlight.card ++ js " of " ++ decimal c.slots
        ++ js " slots in use"
        ++ if c.dutyCycle < 1 then js " at duty cycle " ++ p.numberText (.finite c.dutyCycle)
          else [])
      (some c.capacity) .decliningThisOffer
  else .accepted (some c.capacity)

/-- Decide without reserving anything. -/
def would (offer : Offer) : Admission := c.decision p offer

/-- Decide, and reserve a slot when accepted. -/
def offer (offer : Offer) : Admission × LocalCapacity :=
  match c.decision p offer with
  | .accepted capacity =>
    let inFlight := insert offer.shardId c.inFlight
    (.accepted capacity, { c with inFlight := inFlight, peak := max c.peak inFlight.card })
  | .refused reason capacity standing => (.refused reason capacity standing, c)

/-- Return a slot.  A key that holds none is ignored. -/
def release (key : JsString) : LocalCapacity := { c with inFlight := c.inFlight.erase key }

/-- The governor moves; `none` where it would leave its range. -/
def governed (dutyCycle : ℚ) : Option LocalCapacity :=
  if h : 0 < dutyCycle ∧ dutyCycle ≤ 1 then
    some { c with dutyCycle := dutyCycle, dutyCycle_range := h }
  else none

variable {p c}

/-- Everything an offer can come to. -/
theorem offer_cases (o : Offer) :
    (∃ capacity, c.offer p o = (.accepted capacity, { c with
        inFlight := insert o.shardId c.inFlight
        peak := max c.peak (insert o.shardId c.inFlight).card }) ∧
      o.shardId ∉ c.inFlight ∧ c.inFlight.card < c.slots) ∨
    ∃ reason capacity standing, c.offer p o = (.refused reason capacity standing, c) := by
  unfold offer decision
  split
  · next capacity hdecision =>
    left
    refine ⟨capacity, rfl, ?_⟩
    split at hdecision
    · cases hdecision
    · next hfresh =>
      split at hdecision
      · cases hdecision
      · next hroom => exact ⟨hfresh, Nat.lt_of_not_le hroom⟩
  · exact Or.inr ⟨_, _, _, rfl⟩

end LocalCapacity

end O2Fabric
