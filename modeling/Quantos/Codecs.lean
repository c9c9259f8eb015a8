import Mathlib.Data.List.Basic

/-!
# Codecs

A codec writes values as bytes and reads them back from the front of an
input, leaving what stands behind them. Its two laws are fields: what was
written is read again, and what was read had been written. `fits` is the set
of the values that survive the way out and back, since a count of a few bytes
does not hold every length.

Codecs are put together from fixed numbers of bytes by pairing, by repetition
after a count, and by changing the type they are codecs of.
-/

namespace Codecs

open List Option

structure Codec (α : Type) where
  fits : α → Prop
  write : α → List UInt8
  read : List UInt8 → Option (α × List UInt8)
  read_write : ∀ a rest, fits a → read (write a ++ rest) = some (a, rest)
  of_read : ∀ bytes a rest, read bytes = some (a, rest) → fits a ∧ bytes = write a ++ rest

namespace Codec

variable {α β : Type} {rest bytes : List UInt8} (c : Codec α) {a : α}

theorem length_write_le (h : c.read bytes = some (a, rest)) :
    (c.write a).length ≤ bytes.length := by
  rw [(c.of_read bytes a rest h).2, length_append]
  exact Nat.le_add_right _ _

/-- What was written in front of two rests is the same if the bytes are. -/
theorem append_inj {b : α} {rest' : List UInt8} (ha : c.fits a) (hb : c.fits b)
    (h : c.write a ++ rest = c.write b ++ rest') : a = b ∧ rest = rest' := by
  have hread := c.read_write a rest ha
  rw [h, c.read_write b rest' hb] at hread
  cases hread
  exact ⟨rfl, rfl⟩

/-- Exactly `n` bytes. -/
def fixed (n : Nat) : Codec (List UInt8) where
  fits bytes := bytes.length = n
  write bytes := bytes
  read bytes := if n ≤ bytes.length then some (bytes.take n, bytes.drop n) else none
  read_write bytes rest h := by
    subst h
    rw [if_pos (by simp), take_left, drop_left]
  of_read bytes a rest h := by
    split at h
    · rename_i hle
      cases h
      exact ⟨length_take_of_le hle, (take_append_drop n bytes).symm⟩
    · cases h

/-- One value behind the other. -/
def pair (d : Codec β) : Codec (α × β) where
  fits p := c.fits p.1 ∧ d.fits p.2
  write p := c.write p.1 ++ d.write p.2
  read bytes :=
    (c.read bytes).bind fun (a, rest) => (d.read rest).map fun (b, rest) => ((a, b), rest)
  read_write p rest h := by
    rw [append_assoc, c.read_write _ _ h.1]
    simp only [bind_some, d.read_write _ _ h.2, map_some]
  of_read bytes p rest h := by
    obtain ⟨⟨a, rest₁⟩, ha, hb⟩ := bind_eq_some_iff.mp h
    obtain ⟨⟨b, rest₂⟩, hb, hp⟩ := map_eq_some_iff.mp hb
    cases hp
    obtain ⟨hfitsA, rfl⟩ := c.of_read bytes a rest₁ ha
    obtain ⟨hfitsB, rfl⟩ := d.of_read rest₁ b rest hb
    exact ⟨⟨hfitsA, hfitsB⟩, (append_assoc ..).symm⟩

/-- The values of another type, encoded as those of the first. -/
def via (encode : β → α) (decode : α → β) (hleft : ∀ b, decode (encode b) = b)
    (hright : ∀ a, c.fits a → encode (decode a) = a) : Codec β where
  fits b := c.fits (encode b)
  write b := c.write (encode b)
  read bytes := (c.read bytes).map fun (a, rest) => (decode a, rest)
  read_write b rest h := by
    rw [c.read_write _ _ h]
    simp only [map_some, hleft]
  of_read bytes b rest h := by
    obtain ⟨⟨a, rest₁⟩, ha, hb⟩ := map_eq_some_iff.mp h
    cases hb
    obtain ⟨hfits, rfl⟩ := c.of_read bytes a rest ha
    rw [hright a hfits]
    exact ⟨hfits, rfl⟩

/-- The values that pass a test; others are not read. -/
def restrict (p : α → Bool) : Codec α where
  fits a := c.fits a ∧ p a = true
  write := c.write
  read bytes := (c.read bytes).filter fun (a, _) => p a
  read_write a rest h := by
    rw [c.read_write a rest h.1]
    exact if_pos h.2
  of_read bytes a rest h := by
    obtain ⟨hread, hp⟩ := filter_eq_some_iff.mp h
    obtain ⟨hfits, hbytes⟩ := c.of_read bytes a rest hread
    exact ⟨⟨hfits, hp⟩, hbytes⟩

/-- A tag that says whether a value follows. -/
def optional (tag : Codec Bool) (c : Codec α) : Codec (Option α) where
  fits
    | none => tag.fits false
    | some a => tag.fits true ∧ c.fits a
  write
    | none => tag.write false
    | some a => tag.write true ++ c.write a
  read bytes :=
    (tag.read bytes).bind fun (present, rest) =>
      if present then (c.read rest).map fun (a, rest) => (some a, rest) else some (none, rest)
  read_write o rest h := by
    cases o with
    | none =>
      rw [tag.read_write _ _ h]
      rfl
    | some =>
      rw [append_assoc, tag.read_write _ _ h.1, bind_some]
      simp only [if_true, c.read_write _ _ h.2, map_some]
  of_read bytes o rest h := by
    obtain ⟨⟨present, rest₁⟩, htag, hvalue⟩ := bind_eq_some_iff.mp h
    obtain ⟨hfits, rfl⟩ := tag.of_read bytes present rest₁ htag
    cases present with
    | false =>
      cases hvalue
      exact ⟨hfits, rfl⟩
    | true =>
      obtain ⟨⟨a, rest₂⟩, ha, heq⟩ := map_eq_some_iff.mp hvalue
      cases heq
      obtain ⟨hfitsA, rfl⟩ := c.of_read rest₁ a rest ha
      exact ⟨⟨hfits, hfitsA⟩, (append_assoc ..).symm⟩

/-! ## Repetition -/

def readTimes (c : Codec α) : Nat → List UInt8 → Option (List α × List UInt8)
  | 0, bytes => some ([], bytes)
  | n + 1, bytes =>
    (c.read bytes).bind fun (a, rest) =>
      (readTimes c n rest).map fun (as, rest) => (a :: as, rest)

theorem readTimes_write (as : List α) (rest : List UInt8) (h : ∀ a ∈ as, c.fits a) :
    c.readTimes as.length ((as.map c.write).flatten ++ rest) = some (as, rest) := by
  induction as with
  | nil => rfl
  | cons a as ih =>
    rw [forall_mem_cons] at h
    rw [map_cons, flatten_cons, append_assoc, length_cons, readTimes,
      c.read_write _ _ h.1, bind_some]
    simp only [ih h.2, map_some]

theorem of_readTimes {n : Nat} {as : List α} (h : c.readTimes n bytes = some (as, rest)) :
    as.length = n ∧ (∀ a ∈ as, c.fits a) ∧ bytes = (as.map c.write).flatten ++ rest := by
  induction n generalizing bytes as with
  | zero =>
    cases h
    exact ⟨rfl, forall_mem_nil _, rfl⟩
  | succ n ih =>
    obtain ⟨⟨a, rest₁⟩, ha, has⟩ := bind_eq_some_iff.mp h
    obtain ⟨⟨_, _⟩, has, heq⟩ := map_eq_some_iff.mp has
    cases heq
    obtain ⟨hfits, rfl⟩ := c.of_read bytes a rest₁ ha
    obtain ⟨hlength, hall, rfl⟩ := ih has
    refine ⟨congrArg (· + 1) hlength, forall_mem_cons.mpr ⟨hfits, hall⟩, ?_⟩
    rw [map_cons, flatten_cons, append_assoc]

/-- A count, then as many values. -/
def counted (count : Codec Nat) (c : Codec α) : Codec (List α) where
  fits as := count.fits as.length ∧ ∀ a ∈ as, c.fits a
  write as := count.write as.length ++ (as.map c.write).flatten
  read bytes := (count.read bytes).bind fun (n, rest) => c.readTimes n rest
  read_write as rest h := by
    rw [append_assoc, count.read_write _ _ h.1]
    exact c.readTimes_write as rest h.2
  of_read bytes as rest h := by
    obtain ⟨⟨n, rest₁⟩, hn, has⟩ := bind_eq_some_iff.mp h
    obtain ⟨hfits, rfl⟩ := count.of_read bytes n rest₁ hn
    obtain ⟨rfl, hall, rfl⟩ := c.of_readTimes has
    exact ⟨⟨hfits, hall⟩, (append_assoc ..).symm⟩

end Codec

/-! ## Values of one width -/

section Width

variable {α : Type} {f : α → List UInt8} {w : Nat}

theorem length_flatMap_of_width (h : ∀ a, (f a).length = w) (as : List α) :
    (as.flatMap f).length = as.length * w := by
  induction as with
  | nil => exact (Nat.zero_mul w).symm
  | cons a as ih =>
    rw [flatMap_cons, length_append, h, ih, length_cons, Nat.succ_mul, Nat.add_comm]

/-- Without separators, values can be told apart by their width. -/
theorem flatMap_injective_of_width (hw : 0 < w) (h : ∀ a, (f a).length = w)
    (hf : Function.Injective f) : Function.Injective fun as : List α => as.flatMap f := by
  intro as
  induction as with
  | nil =>
    intro bs heq
    have hlength := congrArg List.length heq
    simp only [length_flatMap_of_width h, length_nil, Nat.zero_mul] at hlength
    have hzero := (Nat.mul_eq_zero.mp hlength.symm).resolve_right (Nat.ne_of_gt hw)
    exact (eq_nil_of_length_eq_zero hzero).symm
  | cons a as ih =>
    intro bs heq
    cases bs with
    | nil =>
      have hlength := congrArg List.length heq
      simp only [length_flatMap_of_width h, length_cons, length_nil,
        Nat.zero_mul, Nat.succ_mul] at hlength
      omega
    | cons =>
      obtain ⟨hhead, htail⟩ := append_inj heq (by rw [h, h])
      rw [hf hhead, ih htail]

end Width

end Codecs
