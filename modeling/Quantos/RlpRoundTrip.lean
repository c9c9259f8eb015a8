import Mathlib.Data.Nat.Digits.Lemmas
import Quantos.Rlp

/-!
# RLP, there and back

The canonical encoding of a list of byte strings, and that the decoder of
`Rlp` reads it back. A string is written behind its length, a short length
in the first byte and a longer one in up to eight bytes of its own; a list
is written in the same way behind the length of its body. Lengths of 2^64
and more have no encoding.
-/

namespace Quantos.Rlp

open Panics List Nat UInt8

/-- A number without leading zeros, most significant byte first. -/
def lengthBytes (n : Nat) : Bytes := ((Nat.digits 256 n).map UInt8.ofNat).reverse

/-- The bytes in front of a string or a list of `n` bytes. -/
def header (offset n : Nat) : Bytes :=
  if n ≤ 55 then [UInt8.ofNat (offset + n)]
  else UInt8.ofNat (offset + 55 + (lengthBytes n).length) :: lengthBytes n

/-- A single small byte is its own encoding. -/
def encodeString (s : Bytes) : Bytes :=
  if s.length = 1 ∧ s.all (· < 0x80) then s else header 0x80 s.length ++ s

def encodeItems (items : List Bytes) : Bytes := items.flatMap encodeString

def encodeList (items : List Bytes) : Bytes :=
  header 0xc0 (encodeItems items).length ++ encodeItems items

/-! ## Lengths -/

variable {n : Nat}

theorem length_lengthBytes_le (h : n < UInt64.size) : (lengthBytes n).length ≤ 8 := by
  rw [lengthBytes, length_reverse, length_map, digits_length_le_iff (by decide)]
  exact h

theorem length_lengthBytes_pos (h : n ≠ 0) : 0 < (lengthBytes n).length := by
  rw [lengthBytes, length_reverse, length_map, length_pos_iff]
  exact digits_ne_nil_iff_ne_zero.mpr h

theorem btou_returns {b : Bytes} (h : b.length ≤ 8) :
    Returns (btou b) (b.foldl (fun r x => r * 256 + x.toNat) 0) := by
  have hfold : ∀ (b : Bytes) (r k : Nat), r < 256 ^ k → k + b.length ≤ 8 →
      Returns (b.foldlM (fun r x => foundOr ((fitsUsize (r * 256)).bind fun v =>
        fitsUsize (v + x.toNat)) "length field overflow") r : Call String Nat)
        (b.foldl (fun r x => r * 256 + x.toNat) r) := by
    intro b
    induction b with
    | nil => exact fun r k _ _ => rfl
    | cons x b ih =>
      intro r k hr hk
      rw [length_cons] at hk
      have hx := x.toNat_lt
      have hnext : r * 256 + x.toNat < 256 ^ (k + 1) := by
        rw [pow_succ]
        omega
      have hsize : 256 ^ (k + 1) ≤ 256 ^ 8 := Nat.pow_le_pow_right (by decide) (by omega)
      have hfits : r * 256 + x.toNat < UInt64.size := Nat.lt_of_lt_of_le hnext hsize
      have hstep : ((fitsUsize (r * 256)).bind fun v => fitsUsize (v + x.toNat))
          = some (r * 256 + x.toNat) := by
        rw [fitsUsize_eq (lt_of_le_of_lt (le_add_right _ _) hfits), Option.bind_some,
          fitsUsize_eq hfits]
      rw [foldlM_cons, hstep, foundOr_some_bind]
      exact ih _ (k + 1) hnext (by omega)
  rw [btou, if_neg (by omega)]
  exact hfold b 0 0 (by decide) (by omega)

theorem btou_lengthBytes (h : n < UInt64.size) : Returns (btou (lengthBytes n)) n := by
  have hvalue : ∀ digits : List Nat, (∀ d ∈ digits, d < 256) →
      ((digits.map UInt8.ofNat).reverse.foldl (fun r x => r * 256 + x.toNat) 0)
        = Nat.ofDigits 256 digits := by
    intro digits hdigits
    induction digits with
    | nil => rfl
    | cons d digits ih =>
      rw [forall_mem_cons] at hdigits
      rw [map_cons, reverse_cons, foldl_append, ih hdigits.2, ofDigits_cons]
      simp only [foldl_cons, foldl_nil, toNat_ofNat']
      rw [mod_eq_of_lt hdigits.1]
      omega
  have hreturns := btou_returns (length_lengthBytes_le h)
  rwa [lengthBytes, hvalue _ fun d => digits_lt_base (by decide), ofDigits_digits]
    at hreturns

/-! ## Headers -/

section Headers

variable {f b : UInt8} {body d : Bytes} {α : Type}

theorem exists_sub8 {k : Nat} (h : f.toNat = b.toNat + k) :
    ∃ l, sub8 f b = some l ∧ l.toNat = k := by
  have hle : b ≤ f := UInt8.le_iff_toNat_le.mpr (by omega)
  refine ⟨_, sub8_eq hle, ?_⟩
  rw [UInt8.toNat_sub_of_le _ _ hle]
  omega

theorem short_bind (hf : f.toNat = b.toNat + body.length)
    (hbody : window d 1 body.length = some body) (e : String) (k : Nat → Bytes → Call String α) :
    (do
      let l ← found (sub8 f b)
      let bytes ← foundOr (window d 1 l.toNat) e
      k l.toNat bytes) = k body.length body := by
  obtain ⟨l, hsub, hl⟩ := exists_sub8 hf
  rw [hsub, found_some_bind, hl, hbody]
  rfl

theorem window_long (f : UInt8) (body rest : Bytes) :
    window (f :: (lengthBytes body.length ++ (body ++ rest))) 1 (lengthBytes body.length).length
        = some (lengthBytes body.length) ∧ window (f :: (lengthBytes body.length ++ (body ++ rest)))
          (1 + (lengthBytes body.length).length) body.length = some body := by
  have hbody := window_append (f :: lengthBytes body.length) body rest
  rw [length_cons, add_comm] at hbody
  exact ⟨window_append [f] _ _, hbody⟩

theorem long_bind (hf : f.toNat = b.toNat + (lengthBytes body.length).length)
    (hn : body.length < UInt64.size)
    (hwindows : window d 1 (lengthBytes body.length).length = some (lengthBytes body.length) ∧
      window d (1 + (lengthBytes body.length).length) body.length = some body)
    (e e' e'' : String) (k : Nat → Nat → Bytes → Call String α) :
    (do
      let lb ← found (sub8 f b)
      let lenBytes ← foundOr (window d 1 lb.toNat) e
      let l ← btou lenBytes
      let start ← foundOr (fitsUsize (1 + lb.toNat)) e'
      let bytes ← foundOr (window d start l) e''
      k start l bytes)
      = k (1 + (lengthBytes body.length).length) body.length body := by
  obtain ⟨lb, hsub, hlb⟩ := exists_sub8 hf
  have hle := length_lengthBytes_le hn
  rw [hsub, found_some_bind, hlb, hwindows.1, foundOr_some_bind, bind_of_returns (btou_lengthBytes
    hn), fitsUsize_eq (by rw [UInt64.size]; omega), foundOr_some_bind, hwindows.2]
  rfl

end Headers

/-! ## Strings -/

theorem item_encodeString (s rest : Bytes) (h : (encodeString s).length < UInt64.size) :
    Returns (item (encodeString s ++ rest)) (s, (encodeString s).length) := by
  by_cases hsingle : s.length = 1 ∧ s.all (· < 0x80)
  · obtain ⟨b, rfl⟩ := length_eq_one_iff.mp hsingle.1
    rw [encodeString, if_pos hsingle]
    have hb : b < 0x80 := by simpa using hsingle.2
    simp [item, hb]
    rfl
  rw [encodeString, if_neg hsingle, header] at h ⊢
  by_cases hshort : s.length ≤ 55
  · rw [if_pos hshort] at h ⊢
    have hfirst : (UInt8.ofNat (0x80 + s.length)).toNat = 0x80 + s.length :=
      mod_eq_of_lt (by omega)
    generalize UInt8.ofNat (0x80 + s.length) = f at *
    have hlow : ¬ f < 0x80 := by simp [lt_iff_toNat_lt, hfirst]
    have hhigh : f < 0xb8 := by
      simp [lt_iff_toNat_lt, hfirst]
      omega
    simp only [item, cons_append, nil_append, isEmpty_cons, Bool.false_eq_true,
      if_false, getElem?_cons_zero, found_some_bind, if_neg hlow, if_pos hhigh]
    refine (short_bind (b := 0x80) hfirst (window_append [f] s rest) _ fun l bytes => do
      let total ← found (fitsUsize (1 + l))
      pure (bytes, total)).trans ?_
    rw [fitsUsize_eq (by simpa [add_comm] using h), found_some_bind, length_cons, add_comm]
    rfl
  · rw [if_neg hshort, length_append, length_cons] at h
    rw [if_neg hshort]
    have hn : s.length < UInt64.size := by omega
    have hpos := length_lengthBytes_pos (n := s.length) (by omega)
    have hle := length_lengthBytes_le hn
    have hfirst : (UInt8.ofNat (0x80 + 55 + (lengthBytes s.length).length)).toNat
        = 0xb7 + (lengthBytes s.length).length := mod_eq_of_lt (by omega)
    generalize UInt8.ofNat (0x80 + 55 + (lengthBytes s.length).length) = f at *
    have hlow : ¬ f < 0x80 := by
      simp [lt_iff_toNat_lt, hfirst]
      omega
    have hmid : ¬ f < 0xb8 := by
      simp [lt_iff_toNat_lt, hfirst]
      omega
    have hhigh : f < 0xc0 := by
      simp [lt_iff_toNat_lt, hfirst]
      omega
    simp only [item, cons_append, append_assoc, isEmpty_cons, Bool.false_eq_true,
      if_false, getElem?_cons_zero, found_some_bind, if_neg hlow, if_neg hmid, if_pos hhigh]
    refine (long_bind (b := 0xb7) hfirst hn (window_long f s rest) _ _ _ fun start l bytes => do
      let total ← foundOr (fitsUsize (start + l)) "length overflow"
      pure (bytes, total)).trans ?_
    rw [fitsUsize_eq (by omega), foundOr_some_bind, length_cons, length_append,
      add_assoc, add_comm 1]
    rfl

/-! ## Lists -/

theorem encodeString_ne_nil (s : Bytes) : encodeString s ≠ [] := by
  unfold encodeString header
  split
  · rename_i hsingle
    exact ne_nil_of_length_eq_add_one hsingle.1
  · split <;> simp

theorem parseFrom_encodeItems {c : Bytes} (hc : c.length < UInt64.size) (ss : List Bytes) :
    ∀ (fuel : Nat) (front : Bytes) (items : List Bytes), c = front ++ encodeItems ss →
      ss.length ≤ fuel → Returns (parseFrom c fuel front.length items) (items ++ ss) := by
  induction ss with
  | nil =>
    rintro fuel front items rfl -
    cases fuel <;> simp [parseFrom, encodeItems] <;> rfl
  | cons s ss ih =>
    intro fuel front items hsplit hfuel
    obtain ⟨fuel, rfl⟩ : ∃ k, fuel = k + 1 := ⟨fuel - 1, by simp at hfuel; omega⟩
    rw [encodeItems, flatMap_cons, ← encodeItems] at hsplit
    have hpos := length_pos_of_ne_nil (encodeString_ne_nil s)
    have hlengths : c.length
        = front.length + ((encodeString s).length + (encodeItems ss).length) := by
      rw [hsplit, length_append, length_append]
    have hslice : sliceFrom c front.length = some (encodeString s ++ encodeItems ss) := by
      simp [sliceFrom, hsplit]
    rw [parseFrom, if_pos (by omega), hslice, found_some_bind,
      bind_of_returns (item_encodeString s _ (by omega))]
    simp only
    rw [if_neg (by omega)]
    have hnext := ih fuel (front ++ encodeString s) (items ++ [s]) (by simp [hsplit])
      (by simpa using hfuel)
    simpa using hnext

theorem parse_encodeItems {items : List Bytes} (h : (encodeItems items).length < UInt64.size) :
    Returns (parse (encodeItems items)) items := by
  have hlength : items.length ≤ (encodeItems items).length := by
    induction items with
    | nil => exact zero_le _
    | cons s items ih =>
      have hpos := length_pos_of_ne_nil (encodeString_ne_nil s)
      rw [encodeItems, flatMap_cons, ← encodeItems, length_append] at h ⊢
      have := ih (by omega)
      rw [length_cons]
      omega
  exact parseFrom_encodeItems h items _ [] [] rfl hlength

theorem decodeList_encodeList {items : List Bytes} (h : (encodeItems items).length < UInt64.size) :
    Returns (decodeList (encodeList items)) items := by
  have hparse := parse_encodeItems h
  rw [encodeList]
  generalize encodeItems items = body at *
  rw [header]
  by_cases hshort : body.length ≤ 55
  · rw [if_pos hshort]
    have hfirst : (UInt8.ofNat (0xc0 + body.length)).toNat = 0xc0 + body.length :=
      mod_eq_of_lt (by omega)
    generalize UInt8.ofNat (0xc0 + body.length) = f at *
    have hrange : 0xc0 ≤ f ∧ f ≤ 0xf7 := by
      simp [le_iff_toNat_le, hfirst]
      omega
    simp only [decodeList, cons_append, nil_append, isEmpty_cons,
      Bool.false_eq_true, if_false, getElem?_cons_zero, found_some_bind, if_pos hrange]
    exact (short_bind (b := 0xc0) hfirst (by simpa using window_append [f] body []) _
      fun _ body => parse body).trans hparse
  · rw [if_neg hshort]
    have hpos := length_lengthBytes_pos (n := body.length) (by omega)
    have hle := length_lengthBytes_le h
    have hfirst : (UInt8.ofNat (0xc0 + 55 + (lengthBytes body.length).length)).toNat
        = 0xf7 + (lengthBytes body.length).length := mod_eq_of_lt (by omega)
    generalize UInt8.ofNat (0xc0 + 55 + (lengthBytes body.length).length) = f at *
    have hhigh : f ≥ 0xf8 := by
      simp [le_iff_toNat_le, hfirst]
      omega
    have hlow : ¬ (0xc0 ≤ f ∧ f ≤ 0xf7) := fun h =>
      absurd (UInt8.le_trans hhigh h.2) (by decide)
    simp only [decodeList, cons_append, isEmpty_cons, Bool.false_eq_true, if_false,
      getElem?_cons_zero, found_some_bind, if_neg hlow, if_pos hhigh]
    exact (long_bind (b := 0xf7) hfirst h (by simpa using window_long f body []) _ _ _
      fun _ _ body => parse body).trans hparse

/-- The decoder reads back every list with an encoding, panics on no bytes,
and accounts for the whole body of what it decodes. -/
theorem rlp_decoding :
    (∀ items : List Bytes, (encodeItems items).length < 2 ^ 64 →
        Returns (decodeList (encodeList items)) items) ∧
      ∀ data : Bytes, Answers (decodeList data) (Accounted data) :=
  ⟨fun _ h => decodeList_encodeList h, decodeList_answers⟩

/-- A list with an empty, a short and a long string. -/
theorem rlp_decoding_three :
    Returns (decodeList (encodeList [[], [0x80], List.replicate 300 1]))
      [[], [0x80], List.replicate 300 1] :=
  rlp_decoding.1 _ (by decide +kernel)

end Quantos.Rlp
