import Mathlib.Data.UInt
import Quantos.Panics
import Quantos.Types

/-!
# The RLP list decoder

The module `rlp` of `l0/light_client.rs`. Its input comes with a chain
proof, so any byte string may arrive; lengths are read with checked
arithmetic and ranges with `get`. What is left of indexing, slicing and
unchecked arithmetic can panic in Rust and does so here (`Panics`), and
`decodeList_answers` says that it never happens.

The loop of `parse` runs on fuel, the number of bytes it starts with;
running out of it would count as a panic. Every item takes at least one
byte, so it does not.
-/

namespace Quantos.Rlp

open Panics List

/-- `btou`, with `usize` arithmetic checked at each byte. -/
def btou (b : Bytes) : Call String Nat :=
  if b.length > 8 then throw "length field too wide"
  else b.foldlM (fun r x => foundOr ((fitsUsize (r * 256)).bind fun v => fitsUsize (v + x.toNat))
    "length field overflow") 0

/-- One item and the number of bytes it takes. A list comes back with its
own header, a string without. -/
def item (d : Bytes) : Call String (Bytes × Nat) :=
  if d.isEmpty then throw "empty item"
  else do
    let f ← found d[0]?
    if f < 0x80 then pure ([f], 1)
    else if f < 0xb8 then do
      let l ← found (sub8 f 0x80)
      let bytes ← foundOr (window d 1 l.toNat) "truncated short string"
      let total ← found (fitsUsize (1 + l.toNat))
      pure (bytes, total)
    else if f < 0xc0 then do
      let lb ← found (sub8 f 0xb7)
      let lenBytes ← foundOr (window d 1 lb.toNat) "truncated long-string length field"
      let l ← btou lenBytes
      let start ← foundOr (fitsUsize (1 + lb.toNat)) "length overflow"
      let bytes ← foundOr (window d start l) "truncated long string"
      let total ← foundOr (fitsUsize (start + l)) "length overflow"
      pure (bytes, total)
    else if f < 0xf8 then do
      let l ← found (sub8 f 0xc0)
      let total ← foundOr (fitsUsize (1 + l.toNat)) "length overflow"
      let bytes ← foundOr (window d 0 total) "truncated short list item"
      pure (bytes, total)
    else do
      let lb ← found (sub8 f 0xf7)
      let lenBytes ← foundOr (window d 1 lb.toNat) "truncated long-list-item length field"
      let l ← btou lenBytes
      let start ← foundOr (fitsUsize (1 + lb.toNat)) "length overflow"
      let total ← foundOr (fitsUsize (start + l)) "length overflow"
      let bytes ← foundOr (window d 0 total) "truncated long list item"
      pure (bytes, total)

/-- The loop of `parse` from position `i` on. The position stays within the
list (`item_answers`), so its increment cannot overflow. -/
def parseFrom (c : Bytes) : (fuel i : Nat) → List Bytes → Call String (List Bytes)
  | 0, i, items => if i < c.length then found none else pure items
  | fuel + 1, i, items =>
    if i < c.length then do
      let rest ← found (sliceFrom c i)
      let (bytes, n) ← item rest
      if n = 0 then throw "zero-length item advance"
      else parseFrom c fuel (i + n) (items ++ [bytes])
    else pure items

def parse (c : Bytes) : Call String (List Bytes) := parseFrom c c.length 0 []

def decodeList (data : Bytes) : Call String (List Bytes) :=
  if data.isEmpty then throw "empty"
  else do
    let first ← found data[0]?
    if 0xc0 ≤ first ∧ first ≤ 0xf7 then do
      let len ← found (sub8 first 0xc0)
      let body ← foundOr (window data 1 len.toNat) "truncated short list"
      parse body
    else if first ≥ 0xf8 then do
      let lb ← found (sub8 first 0xf7)
      let lenBytes ← foundOr (window data 1 lb.toNat) "truncated long-list length field"
      let len ← btou lenBytes
      let start ← foundOr (fitsUsize (1 + lb.toNat)) "length overflow"
      let body ← foundOr (window data start len) "truncated long list body"
      parse body
    else throw "not a list"

/-! ## No panic -/

theorem btou_answers {b : Bytes} : Answers (btou b) fun _ => True := by
  refine answers_ite (fun _ => answers_throw) fun _ => ?_
  exact answers_foldlM (fun _ _ => answers_foundOr fun _ _ => trivial) b 0

variable {α : Type} {k : UInt8 → Call String α} {Q : α → Prop}

theorem answers_head {d : Bytes} (h : ¬ d.isEmpty = true) (hk : ∀ f, Answers (k f) Q) :
    Answers (found d[0]? >>= k) Q := by
  cases d with
  | nil => exact absurd rfl h
  | cons f => exact hk f

theorem answers_sub8 {a b : UInt8} (h : b ≤ a) (hk : Answers (k (a - b)) Q) :
    Answers (found (sub8 a b) >>= k) Q := by
  rw [sub8_eq h]
  exact hk

theorem item_answers {d : Bytes} : Answers (item d) fun (_, n) => n ≤ d.length := by
  refine answers_ite (fun _ => answers_throw) fun hd => answers_head hd fun f => ?_
  refine answers_ite (fun _ => ?single) fun h1 => answers_ite (fun _ => ?shortString) fun h2 =>
    answers_ite (fun _ => ?longString) fun h3 => answers_ite (fun _ => ?shortList) fun h4 =>
      ?longList
  case single =>
    refine answers_pure ?_
    cases d with
    | nil => exact absurd rfl hd
    | cons => exact Nat.succ_le_succ (Nat.zero_le _)
  case shortString =>
    refine answers_sub8 (UInt8.not_lt.mp h1) ?_
    refine answers_bind (answers_foundOr fun _ h => add_le_of_window h) fun bytes hle => ?_
    have hfits : 1 + (f - 0x80).toNat < UInt64.size := by
      have := (f - 0x80).toNat_lt
      rw [UInt64.size]
      omega
    rw [fitsUsize_eq hfits]
    exact answers_pure hle
  case longString =>
    refine answers_sub8 (UInt8.le_trans (by decide) (UInt8.not_lt.mp h2)) ?_
    refine answers_bind (answers_foundOr fun _ _ => trivial) fun lenBytes _ => ?_
    refine answers_bind btou_answers fun l _ => ?_
    refine answers_bind (answers_foundOr fun _ h => h) fun start _ => ?_
    refine answers_bind (answers_foundOr fun _ h => add_le_of_window h) fun bytes hle => ?_
    refine answers_bind (answers_foundOr fun _ h => eq_of_fitsUsize h) fun total htotal => ?_
    exact answers_pure (htotal ▸ hle)
  case shortList =>
    refine answers_sub8 (UInt8.not_lt.mp h3) ?_
    refine answers_bind (answers_foundOr fun _ _ => trivial) fun total _ => ?_
    refine answers_bind (answers_foundOr fun _ h => add_le_of_window h) fun bytes hle => ?_
    exact answers_pure (by omega)
  case longList =>
    refine answers_sub8 (UInt8.le_trans (by decide) (UInt8.not_lt.mp h4)) ?_
    refine answers_bind (answers_foundOr fun _ _ => trivial) fun lenBytes _ => ?_
    refine answers_bind btou_answers fun l _ => ?_
    refine answers_bind (answers_foundOr fun _ _ => trivial) fun start _ => ?_
    refine answers_bind (answers_foundOr fun _ _ => trivial) fun total _ => ?_
    refine answers_bind (answers_foundOr fun _ h => add_le_of_window h) fun bytes hle => ?_
    exact answers_pure (by omega)

/-- The bytes are items, one behind the other. -/
inductive Covers : Bytes → List Bytes → Prop
  | nil : Covers [] []
  | cons {segment rest bytes : Bytes} {items : List Bytes} :
      Returns (item (segment ++ rest)) (bytes, segment.length) → segment ≠ [] →
      Covers rest items → Covers (segment ++ rest) (bytes :: items)

/-- The bytes left are enough fuel: an item takes at least one of them. What
is added to the items covers these bytes. -/
theorem parseFrom_answers (c : Bytes) :
    ∀ (fuel i : Nat) (items : List Bytes), c.length - i ≤ fuel → i ≤ c.length →
      Answers (parseFrom c fuel i items) fun result =>
        ∃ added, result = items ++ added ∧ Covers (c.drop i) added := by
  have hend : ∀ i items, i ≤ c.length → ¬ i < c.length →
      Answers (pure items : Call String (List Bytes)) fun result =>
        ∃ added, result = items ++ added ∧ Covers (c.drop i) added := by
    intro i items hle hi
    refine answers_pure ⟨[], (append_nil _).symm, ?_⟩
    rw [drop_of_length_le (Nat.not_lt.mp hi)]
    exact .nil
  intro fuel
  induction fuel with
  | zero =>
    intro i items hfuel hle
    exact answers_ite (fun hi => by omega) (hend i items hle)
  | succ fuel ih =>
    intro i items hfuel hle
    refine answers_ite (fun hi => ?_) (hend i items hle)
    have hslice : Answers (found (sliceFrom c i) : Call String Bytes) (· = c.drop i) :=
      answers_found ⟨c.drop i, if_pos hle, rfl⟩
    refine answers_bind hslice fun rest hrest => ?_
    subst hrest
    refine answers_bind item_answers.and_returns fun (bytes, n) ⟨hn, hitem⟩ => ?_
    refine answers_ite (fun _ => answers_throw) fun hzero => ?_
    have hlength := length_drop (i := i) (l := c)
    refine (ih (i + n) _ (by omega) (by omega)).mono ?_
    rintro result ⟨added, rfl, hcovers⟩
    refine ⟨bytes :: added, by simp, ?_⟩
    have htake : ((c.drop i).take n).length = n := by
      rw [length_take]
      exact Nat.min_eq_left hn
    rw [← take_append_drop n (c.drop i), drop_drop]
    refine .cons ?_ (ne_nil_of_length_pos (by omega)) hcovers
    rw [← drop_drop, take_append_drop, htake]
    exact hitem

theorem parse_answers {c : Bytes} : Answers (parse c) (Covers c) := by
  refine (parseFrom_answers c c.length 0 [] (Nat.sub_le _ _) (Nat.zero_le _)).mono ?_
  rintro result ⟨_, rfl, hcovers⟩
  exact hcovers

/-- The header of a list whose body has this length. -/
def Announces (header : Bytes) (length : Nat) : Prop :=
  (∃ first, header = [first] ∧ first ≤ 0xf7 ∧ first.toNat = 0xc0 + length) ∨
    ∃ first lenBytes, header = first :: lenBytes ∧ first.toNat = 0xf7 + lenBytes.length ∧
      Returns (btou lenBytes) length

/-- The items cover the body that is announced. -/
def Accounted (data : Bytes) (items : List Bytes) : Prop :=
  ∃ header body rest, data = header ++ body ++ rest ∧ Announces header body.length ∧
    Covers body items

/-- No byte string makes the decoder panic, and of no list it leaves out a
part. -/
theorem decodeList_answers (data : Bytes) : Answers (decodeList data) (Accounted data) := by
  refine answers_ite (fun _ => answers_throw) fun hdata => ?_
  obtain ⟨first, data, rfl⟩ := exists_cons_of_ne_nil (by simpa using hdata)
  refine answers_ite (fun hshort => ?_) fun _ =>
    answers_ite (fun hlong => ?_) fun _ => answers_throw
  · refine answers_sub8 hshort.1 ?_
    refine answers_bind (answers_foundOr fun _ h => append_of_window h) fun body hbody => ?_
    refine parse_answers.mono fun items hcovers => ?_
    refine ⟨[first], body, _, hbody.1, .inl ⟨first, rfl, hshort.2, ?_⟩, hcovers⟩
    rw [hbody.2.2, UInt8.toNat_sub_of_le _ _ hshort.1]
    have := UInt8.le_iff_toNat_le.mp hshort.1
    exact (Nat.add_sub_cancel' this).symm
  · have hle : 0xf7 ≤ first := UInt8.le_trans (by decide) hlong
    refine answers_sub8 hle ?_
    refine answers_bind (answers_foundOr fun _ h => append_of_window h) fun lenBytes hlen => ?_
    refine answers_bind btou_answers.and_returns fun len hbtou => ?_
    refine answers_bind (answers_foundOr fun _ h => eq_of_fitsUsize h) fun start hstart => ?_
    subst hstart
    refine answers_bind (answers_foundOr fun _ h => append_of_window h) fun body hbody => ?_
    refine parse_answers.mono fun items hcovers => ?_
    have hheader := congrArg (List.take (1 + (first - 0xf7).toNat)) hlen.1
    rw [take_left' (by rw [length_append, hlen.2.1, hlen.2.2])] at hheader
    refine ⟨first :: lenBytes, body, _, hheader ▸ hbody.1, .inr ⟨first, lenBytes, rfl, ?_, ?_⟩,
      hcovers⟩
    · rw [hlen.2.2, UInt8.toNat_sub_of_le _ _ hle]
      exact (Nat.add_sub_cancel' (UInt8.le_iff_toNat_le.mp hle)).symm
    · rw [hbody.2.2]
      exact hbtou.2

/-- The two vectors of the source's own tests. -/
example : Returns (decodeList [0xc5, 0x80, 0x01, 0x82, 0x02, 0x03]) [[], [1], [2, 3]] := rfl

example : decodeList [0xc3, 0xc0, 0x01, 0xc1, 0x02, 0x03]
    = throw "truncated short list item" := rfl

end Quantos.Rlp
