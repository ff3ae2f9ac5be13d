/-
  O2Fabric.Lib.Reader

  Readers that take what they read off the front of a list.  A reader is local
  when what comes after does not change what it reads; then its words, the lists
  that it reads to their end, begin no other way: of two lists that start with a
  word, the words are told apart by the lists.  Local readers are closed under
  reading one thing after another.

  The number in bytes of seven bits is such a reader.
-/

import Mathlib.Data.List.Basic

namespace O2Fabric

universe u v w

/-- What is read, and what is left. -/
abbrev Reader (α : Type u) (β : Type v) := List α → Option (β × List α)

namespace Reader

variable {α : Type u} {β : Type v} {γ : Type w}

/-- Nothing is read, and this is given. -/
def give (b : β) : Reader α β := fun l => some (b, l)

def items (n : Nat) : Reader α (List α) := fun l =>
  if n ≤ l.length then some (l.take n, l.drop n) else none

def andThen (read : Reader α β) (next : β → Reader α γ) : Reader α γ := fun l =>
  (read l).bind fun found => next found.1 found.2

/-- What follows has no say in what is read. -/
def Local (read : Reader α β) : Prop :=
  ∀ l b rest, read l = some (b, rest) → ∀ more, read (l ++ more) = some (b, rest ++ more)

def Word (read : Reader α β) (l : List α) : Prop := ∃ b, read l = some (b, [])

variable {read : Reader α β} {next : β → Reader α γ}

theorem local_give (b : β) : Local (give b : Reader α β) := by
  intro l b' rest h more
  cases h
  rfl

theorem local_items (n : Nat) : Local (items n : Reader α (List α)) := by
  intro l b rest h more
  unfold items at h ⊢
  split at h
  · next hlength =>
    cases h
    have hmore : n ≤ (l ++ more).length := by
      rw [List.length_append]
      omega
    rw [if_pos hmore, List.take_append_of_le_length hlength,
      List.drop_append_of_le_length hlength]
  · cases h

theorem Local.andThen (hread : Local read) (hnext : ∀ b, Local (next b)) :
    Local (read.andThen next) := by
  intro l c rest h more
  obtain ⟨⟨b, middle⟩, hfirst, hsecond⟩ := Option.bind_eq_some_iff.mp h
  unfold Reader.andThen
  rw [hread _ _ _ hfirst more]
  exact hnext b _ _ _ hsecond more

/-- Two lists that start with words are not one unless the words are. -/
theorem Local.word_unique (hread : Local read) {a b rest rest' : List α} (ha : Word read a)
    (hb : Word read b) (h : a ++ rest = b ++ rest') : a = b ∧ rest = rest' := by
  obtain ⟨x, hx⟩ := ha
  obtain ⟨y, hy⟩ := hb
  have hx := hread _ _ _ hx rest
  have hy := hread _ _ _ hy rest'
  rw [h, hy] at hx
  have hrest : rest = rest' := (Prod.mk.inj (Option.some.inj hx)).2.symm
  subst hrest
  exact ⟨List.append_cancel_right h, rfl⟩

/-! ## Numbers in bytes of seven bits -/

/-- Seven bits a byte, the low ones first; every byte but the last has its high bit
    set. -/
def varint : Reader (Fin 256) Nat
  | [] => none
  | byte :: rest =>
    if byte.val < 128 then some (byte.val, rest)
    else (varint rest).map fun found => (byte.val - 128 + 128 * found.1, found.2)

theorem mod_lt_byte (n : Nat) : n % 256 < 256 := Nat.mod_lt n (by omega)

/-- The byte that has this value, of a value below 256. -/
def byteOf (n : Nat) : Fin 256 := ⟨n % 256, mod_lt_byte n⟩

theorem val_byteOf {n : Nat} (h : n < 256) : (byteOf n).val = n := Nat.mod_eq_of_lt h

/-- The shortest way to write a number so. -/
def writeVarint (n : Nat) : List (Fin 256) :=
  if n < 128 then [byteOf n] else byteOf (n % 128 + 128) :: writeVarint (n / 128)
termination_by n
decreasing_by omega

theorem local_varint : Local varint := by
  intro l n rest h more
  induction l generalizing n rest with
  | nil => cases h
  | cons byte l ih =>
    rw [List.cons_append, varint]
    rw [varint] at h
    split at h
    · next hlast =>
      cases h
      rw [if_pos hlast]
    · next hgoes =>
      obtain ⟨⟨m, left⟩, hrest, heq⟩ := Option.map_eq_some_iff.mp h
      cases heq
      rw [if_neg hgoes, ih _ _ hrest]
      rfl

theorem varint_writeVarint (n : Nat) (rest : List (Fin 256)) :
    varint (writeVarint n ++ rest) = some (n, rest) := by
  induction n using Nat.strongRecOn with
  | ind n ih =>
    rw [writeVarint]
    split
    · next hsmall =>
      have hval : (byteOf n).val = n := val_byteOf (by omega)
      rw [List.singleton_append, varint, if_pos (by omega), hval]
    · next hlarge =>
      have hval : (byteOf (n % 128 + 128)).val = n % 128 + 128 := val_byteOf (by omega)
      rw [List.cons_append, varint, if_neg (by omega), ih (n / 128) (by omega), hval]
      have hnumber : n % 128 + 128 - 128 + 128 * (n / 128) = n := by omega
      show some (n % 128 + 128 - 128 + 128 * (n / 128), rest) = _
      rw [hnumber]

end Reader

end O2Fabric
