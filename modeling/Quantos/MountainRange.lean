import Mathlib.Data.Nat.BitIndices
import Quantos.MerkleProofs
import Quantos.Runs

/-!
# The mountain range

`append` and `get_root` of `QuantumMMR` (`state/compression.rs`). A new
element is merged with the last peak as long as the two have one height, as
a carry in binary: the heights are the bits of the number of elements, each
peak is the root over its block of them (`peaks_binary`), and the root says
what the elements are (`range_root_binds`). A root is cached until the next
element. Size, positions and the store of inner nodes serve the inclusion
proofs, which are left out.
-/

namespace Quantos

open HashTrees List Runs

structure MMRNode where
  hash : Hash
  height : Nat

structure QuantumMMR where
  /-- The last peak first. -/
  peaks : List MMRNode
  cachedRoot : Option Hash

inductive MmrCall where
  | append (element : Hash)
  | getRoot

namespace QuantumMMR

def new : QuantumMMR := ⟨[], none⟩

variable (hashData : Bytes → Hash)

/-- The loop of `append`. -/
def merge (node : MMRNode) : List MMRNode → List MMRNode
  | [] => [node]
  | peak :: peaks =>
    if peak.height = node.height then
      merge ⟨joinHash hashData peak.hash node.hash, node.height + 1⟩ peaks
    else node :: peak :: peaks

def append (mmr : QuantumMMR) (element : Hash) : QuantumMMR :=
  ⟨merge hashData ⟨element, 0⟩ mmr.peaks, none⟩

def peakHashes (mmr : QuantumMMR) : List Hash := (mmr.peaks.map MMRNode.hash).reverse

def getRoot (mmr : QuantumMMR) : Hash × QuantumMMR :=
  match mmr.cachedRoot with
  | some root => (root, mmr)
  | none =>
    if mmr.peaks.isEmpty then (0, mmr)
    else
      let root := merkleRoot hashData mmr.peakHashes
      (root, { mmr with cachedRoot := some root })

def step (mmr : QuantumMMR) : MmrCall → QuantumMMR
  | .append element => mmr.append hashData element
  | .getRoot => (mmr.getRoot hashData).2

def appended : List MmrCall → List Hash
  | [] => []
  | .append element :: calls => element :: appended calls
  | .getRoot :: calls => appended calls

/-! ## Blocks and peaks -/

/-- The root of the perfect tree of a height over a block, and the pairs
joined on the way to it. -/
inductive Root : List Hash → Nat → Hash → List (Hash × Hash) → Prop
  | leaf (element : Hash) : Root [element] 0 element []
  | node {left right : List Hash} {height : Nat} {l r : Hash} {ps qs : List (Hash × Hash)}
    (hl : Root left height l ps) (hr : Root right height r qs) :
    Root (left ++ right) (height + 1) (joinHash hashData l r) ((l, r) :: (ps ++ qs))

/-- Each peak is the root over its block, and lower than those before it. -/
inductive Covers : List MMRNode → List Hash → List (Hash × Hash) → Prop
  | nil : Covers [] [] []
  | cons {peaks : List MMRNode} {before block : List Hash} {peak : MMRNode}
    {ps qs : List (Hash × Hash)} (hbefore : Covers peaks before ps)
    (hroot : Root hashData block peak.height peak.hash qs)
    (hlower : ∀ p ∈ peaks, peak.height < p.height) :
    Covers (peak :: peaks) (before ++ block) (ps ++ qs)

variable {hashData} {block block' before before' : List Hash} {height : Nat} {x x' : Hash}
  {ps qs : List (Hash × Hash)} {peaks peaks' : List MMRNode}

theorem Root.length (h : Root hashData block height x ps) : block.length = 2 ^ height := by
  induction h with
  | leaf => rfl
  | node _ _ ihl ihr => rw [length_append, ihl, ihr, Nat.pow_succ, Nat.mul_two]

/-- Blocks of one height with one root are equal, or two pairs collide. -/
theorem Root.eq_or_collide (h : Root hashData block height x ps)
    (h' : Root hashData block' height x' qs) (hx : x = x') :
    block = block' ∨ Collide (joinHash hashData) ps qs := by
  induction h generalizing block' x' qs with
  | leaf =>
    cases h'
    exact .inl (by rw [hx])
  | node hl hr ihl ihr =>
    rename_i l r _ _
    obtain _ | ⟨hl', hr'⟩ := h'
    rename_i l' r' _ _
    by_cases hpair : (l, r) = (l', r')
    · obtain ⟨hleft, hright⟩ := Prod.mk.inj hpair
      rcases ihl hl' hleft with rfl | hcollide
      · rcases ihr hr' hright with rfl | hcollide
        · exact .inl rfl
        · exact .inr (hcollide.mono (by simp) (by simp))
      · exact .inr (hcollide.mono (by simp) (by simp))
    · exact .inr ⟨_, mem_cons_self, _, mem_cons_self, hpair, hx⟩

theorem Covers.merge (h : Covers hashData peaks before ps) :
    ∀ (node : MMRNode) {block : List Hash} {qs : List (Hash × Hash)},
      Root hashData block node.height node.hash qs → (∀ p ∈ peaks, node.height ≤ p.height) →
        ∃ rs, Covers hashData (merge hashData node peaks) (before ++ block) rs := by
  induction h with
  | nil => exact fun _ _ _ hroot _ => ⟨_, .cons .nil hroot fun _ h => nomatch h⟩
  | cons hbefore hpeak hlower ih =>
    intro node block qs hroot hle
    unfold QuantumMMR.merge
    split
    · rename_i heq
      rw [append_assoc]
      rw [heq] at hpeak
      exact ih _ (.node hpeak hroot) fun p hp => heq ▸ hlower p hp
    · rename_i hne
      have hlt := Nat.lt_of_le_of_ne (hle _ mem_cons_self) (Ne.symm hne)
      refine ⟨_, .cons (.cons hbefore hpeak hlower) hroot ?_⟩
      exact forall_mem_cons.mpr ⟨hlt, fun p hp => Nat.lt_trans hlt (hlower p hp)⟩

/-- The heights are the bits of the number of elements. -/
theorem Covers.heights (h : Covers hashData peaks before ps) :
    peaks.map MMRNode.height = before.length.bitIndices := by
  have hsum : ((peaks.map MMRNode.height).map (2 ^ ·)).sum = before.length ∧
      (peaks.map MMRNode.height).Pairwise (· < ·) := by
    induction h with
    | nil => simp
    | cons _ hroot hlower ih =>
      simp only [map_cons, sum_cons, pairwise_cons, forall_mem_map, length_append, hroot.length]
      exact ⟨by rw [ih.1, Nat.add_comm], hlower, ih.2⟩
  rw [← hsum.1, Nat.bitIndices_sum_map_two_pow hsum.2.sortedLT]

theorem Covers.eq_or_collide (h : Covers hashData peaks before ps)
    (h' : Covers hashData peaks' before' qs)
    (hheights : peaks.map MMRNode.height = peaks'.map MMRNode.height)
    (hhashes : peaks.map MMRNode.hash = peaks'.map MMRNode.hash) :
    before = before' ∨ Collide (joinHash hashData) ps qs := by
  induction h generalizing peaks' before' qs with
  | nil =>
    cases h' with
    | nil => exact .inl rfl
    | cons => cases hhashes
  | cons hbefore hroot _ ih =>
    cases h' with
    | nil => cases hhashes
    | cons hbefore' hroot' _ =>
      simp only [map_cons, List.cons.injEq] at hhashes hheights
      rw [← hheights.1] at hroot'
      rcases ih hbefore' hheights.2 hhashes.2 with rfl | hcollide
      · rcases hroot.eq_or_collide hroot' hhashes.1 with rfl | hcollide
        · exact .inl rfl
        · exact .inr (hcollide.mono (by simp) (by simp))
      · exact .inr (hcollide.mono (by simp) (by simp))

/-- The pairs joined for the peaks and for the root over them. -/
def Joins (hashData : Bytes → Hash) (mmr : QuantumMMR) (elements : List Hash)
    (pairs : List (Hash × Hash)) : Prop :=
  ∃ ps, Covers hashData mmr.peaks elements ps ∧
    pairs = ps ++ joined (joinHash hashData) mmr.peakHashes.length mmr.peakHashes

variable {mmr mmr' : QuantumMMR} {elements elements' : List Hash}

theorem Joins.eq_or_collide (h : Joins hashData mmr elements ps)
    (h' : Joins hashData mmr' elements' qs) (hlength : elements.length = elements'.length)
    (hroot : merkleRoot hashData mmr.peakHashes = merkleRoot hashData mmr'.peakHashes) :
    elements = elements' ∨ Collide (joinHash hashData) ps qs := by
  obtain ⟨ps, hcovers, rfl⟩ := h
  obtain ⟨qs, hcovers', rfl⟩ := h'
  have hheights := hcovers.heights.trans ((congrArg _ hlength).trans hcovers'.heights.symm)
  have hcount : mmr.peakHashes.length = mmr'.peakHashes.length := by
    simpa [peakHashes] using congrArg List.length hheights
  have hroots : root (joinHash hashData) mmr.peakHashes.length mmr.peakHashes
      = root (joinHash hashData) mmr.peakHashes.length mmr'.peakHashes := by
    by_cases hempty : mmr.peakHashes = []
    · rw [hempty] at hcount ⊢
      rw [length_eq_zero_iff.mp hcount.symm]
    · have hempty' : mmr'.peakHashes ≠ [] := by
        rwa [← length_pos_iff, ← hcount, length_pos_iff]
      rw [root_eq_some hashData hempty, hroot, ← root_eq_some hashData hempty', hcount]
  rcases eq_of_root_eq _ (Nat.le_succ _) hcount hroots with hhashes | hcollide
  · refine (hcovers.eq_or_collide hcovers' hheights (reverse_injective hhashes)).imp_right ?_
    exact fun hcollide => hcollide.mono (by simp) (by simp)
  · rw [← hcount]
    exact .inr (hcollide.mono (by simp) (by simp))

/-! ## Runs -/

/-- What a range holds, and that a cached root is the one of its peaks. -/
structure Holds (hashData : Bytes → Hash) (mmr : QuantumMMR) (elements : List Hash) : Prop where
  covers : ∃ ps, Covers hashData mmr.peaks elements ps
  cached : ∀ root ∈ mmr.cachedRoot, root = merkleRoot hashData mmr.peakHashes

theorem Holds.append (h : Holds hashData mmr elements) (element : Hash) :
    Holds hashData (mmr.append hashData element) (elements ++ [element]) := by
  obtain ⟨ps, hcovers⟩ := h.covers
  exact ⟨hcovers.merge ⟨element, 0⟩ (.leaf element) fun _ _ => Nat.zero_le _,
    fun _ h => nomatch h⟩

theorem Holds.getRoot (h : Holds hashData mmr elements) :
    (mmr.getRoot hashData).1 = merkleRoot hashData mmr.peakHashes ∧
      Holds hashData (mmr.getRoot hashData).2 elements := by
  unfold QuantumMMR.getRoot
  split
  · rename_i root hcached
    exact ⟨h.cached root hcached, h⟩
  · split
    · rename_i hempty
      exact ⟨by simp [peakHashes, isEmpty_iff.mp hempty, merkleRoot, merkleRounds], h⟩
    · exact ⟨rfl, h.covers, fun _ hroot => (Option.some.inj hroot).symm⟩

theorem Holds.run (calls : List MmrCall) : ∀ {mmr elements}, Holds hashData mmr elements →
    Holds hashData (run (step hashData) mmr calls) (elements ++ appended calls) := by
  induction calls with
  | nil => simp [appended]
  | cons call calls ih =>
    intro mmr elements h
    cases call with
    | append element =>
      have hrun := ih (h.append element)
      rwa [append_assoc] at hrun
    | getRoot => exact ih h.getRoot.2

theorem holds_new (hashData : Bytes → Hash) (calls : List MmrCall) :
    Holds hashData (run (step hashData) new calls) (appended calls) :=
  have hnew : Holds hashData new [] := ⟨⟨_, .nil⟩, fun _ h => nomatch h⟩
  hnew.run calls

/-- After any calls the heights are the bits of the number of elements, each
peak is the root over its block, and the root returned is that of the peaks. -/
theorem peaks_binary (calls : List MmrCall) :
    let mmr := run (step hashData) new calls
    mmr.peaks.map MMRNode.height = (appended calls).length.bitIndices ∧
      (∃ ps, Covers hashData mmr.peaks (appended calls) ps) ∧
      (mmr.getRoot hashData).1 = merkleRoot hashData mmr.peakHashes := by
  have h := holds_new hashData calls
  exact ⟨h.covers.choose_spec.heights, h.covers, h.getRoot.1⟩

/-- Ranges of as many elements with one root hold the same elements, or two
of the pairs that were joined collide. -/
theorem range_root_binds (calls calls' : List MmrCall)
    (hlength : (appended calls).length = (appended calls').length)
    (hroot : ((run (step hashData) new calls).getRoot hashData).1
      = ((run (step hashData) new calls').getRoot hashData).1) :
    ∃ ps qs, Joins hashData (run (step hashData) new calls) (appended calls) ps ∧
      Joins hashData (run (step hashData) new calls') (appended calls') qs ∧
      (appended calls = appended calls' ∨ Collide (joinHash hashData) ps qs) := by
  have h := holds_new hashData calls
  have h' := holds_new hashData calls'
  rw [h.getRoot.1, h'.getRoot.1] at hroot
  obtain ⟨ps, hcovers⟩ := h.covers
  obtain ⟨qs, hcovers'⟩ := h'.covers
  have hjoins : Joins hashData _ _ _ := ⟨ps, hcovers, rfl⟩
  have hjoins' : Joins hashData _ _ _ := ⟨qs, hcovers', rfl⟩
  exact ⟨_, _, hjoins, hjoins', hjoins.eq_or_collide hjoins' hlength hroot⟩

/-- A root that is asked for in between changes nothing. -/
theorem range_root_binds_three : ∃ ps qs,
    let calls : List MmrCall := [.append 1, .append 2, .getRoot, .append 3]
    let calls' : List MmrCall := [.append 1, .append 2, .append 3]
    Joins digitHash (run (step digitHash) new calls) [1, 2, 3] ps ∧
      Joins digitHash (run (step digitHash) new calls') [1, 2, 3] qs ∧
      (appended calls = appended calls' ∨ Collide (joinHash digitHash) ps qs) :=
  range_root_binds _ _ rfl (by decide +kernel)

end QuantumMMR

end Quantos
