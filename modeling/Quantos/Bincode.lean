import Quantos.Codecs
import Quantos.HeaderClients

/-!
# `bincode`

The fixed-width encoding of `bincode` 1.3 for the types that travel in public
inputs: little-endian integers, 32-byte arrays without a length, vectors
behind a `u64` count, the fields of a structure one after the other.
`bincode::deserialize` ignores what is left of its input.
-/

namespace Quantos

open Codecs List

namespace Bincode

/-- An unsigned number of `w` bytes. -/
def unsigned (w : Nat) : Codec Nat where
  fits n := n < 256 ^ w
  write n := leBytes w n
  read bytes := ((Codec.fixed w).read bytes).map fun (word, rest) => (leValue word, rest)
  read_write n rest h := by
    have hread : (Codec.fixed w).read (leBytes w n ++ rest) = some (leBytes w n, rest) :=
      (Codec.fixed w).read_write _ _ (length_leBytes w n)
    rw [hread]
    simp only [Option.map_some, leValue_leBytes, Nat.mod_eq_of_lt h]
  of_read bytes n rest h := by
    obtain ⟨⟨word, rest₁⟩, hword, heq⟩ := Option.map_eq_some_iff.mp h
    cases heq
    obtain ⟨hlength, rfl⟩ := (Codec.fixed w).of_read bytes word rest hword
    have hlength : word.length = w := hlength
    subst hlength
    rw [leBytes_leValue]
    exact ⟨leValue_lt word, rfl⟩

def u8 : Codec UInt8 :=
  (unsigned 1).via UInt8.toNat UInt8.ofNat (fun _ => UInt8.ofNat_toNat)
    fun _ h => UInt8.toNat_ofNat_of_lt' h

def u16 : Codec UInt16 :=
  (unsigned 2).via UInt16.toNat UInt16.ofNat (fun _ => UInt16.ofNat_toNat)
    fun _ h => UInt16.toNat_ofNat_of_lt' h

def u32 : Codec UInt32 :=
  (unsigned 4).via UInt32.toNat UInt32.ofNat (fun _ => UInt32.ofNat_toNat)
    fun _ h => UInt32.toNat_ofNat_of_lt' h

def u64 : Codec UInt64 :=
  (unsigned 8).via UInt64.toNat UInt64.ofNat (fun _ => UInt64.ofNat_toNat)
    fun _ h => UInt64.toNat_ofNat_of_lt' h

/-- A newtype over `u128`. -/
def amount : Codec Amount :=
  (unsigned 16).via Amount.toNat (fun n => ⟨BitVec.ofNat 128 n⟩)
    (fun a => congrArg Amount.mk (BitVec.ofNat_toNat 128 a.val))
    fun n h => (BitVec.toNat_ofNat n 128).trans (Nat.mod_eq_of_lt h)

/-- `[u8; 32]`. -/
def array : Codec Hash :=
  (Codec.fixed 32).via arrayBytes arrayOfBytes arrayOfBytes_arrayBytes
    fun _ h => arrayBytes_arrayOfBytes h

def vec {α : Type} (c : Codec α) : Codec (List α) := .counted (unsigned 8) c

/-- The tag of an `Option`, one byte. -/
def tag : Codec Bool :=
  ((unsigned 1).restrict fun n => n < 2).via Bool.toNat (fun n => n = 1)
    (fun b => by cases b <;> rfl) fun n h => by
      have hlt : n < 2 := of_decide_eq_true h.2
      obtain rfl | rfl : n = 0 ∨ n = 1 := by omega
      · rfl
      · rfl

def option {α : Type} (c : Codec α) : Codec (Option α) := .optional tag c

theorem array_fits (h : Hash) : array.fits h := length_arrayBytes h

variable {α : Type} (c : Codec α)

theorem length_write_vec {w : Nat} (h : ∀ a, (c.write a).length = w) (as : List α) :
    ((vec c).write as).length = 8 + as.length * w := by
  have hwrite : (vec c).write as = leBytes 8 as.length ++ as.flatMap c.write := rfl
  rw [hwrite, length_append, length_leBytes, length_flatMap_of_width h]

/-- `bincode::deserialize`; what is left over is dropped. -/
def deserialize {α : Type} (c : Codec α) (bytes : Bytes) : Option α := (c.read bytes).map Prod.fst

variable {a : α}

theorem deserialize_write (h : c.fits a) : deserialize c (c.write a) = some a := by
  have hread := c.read_write a [] h
  rw [append_nil] at hread
  rw [deserialize, hread]
  rfl

theorem of_deserialize {bytes : Bytes} (h : deserialize c bytes = some a) :
    c.fits a ∧ (c.write a).length ≤ bytes.length := by
  obtain ⟨⟨b, rest⟩, hread, rfl⟩ := Option.map_eq_some_iff.mp h
  exact ⟨(c.of_read bytes b rest hread).1, c.length_write_le hread⟩

end Bincode

end Quantos
