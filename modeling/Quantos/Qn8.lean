import Quantos.Qn4
import Mathlib.Data.UInt

/-!
# The QN8 non-fungible token

`standards/qn8.rs`. Ownership is kept three times: `owners` maps a token to
its owner, `owner_tokens` an owner to the set of its tokens, `balances` an
owner to their number. The calls update the three one after another, and a
check in between can end a call with some of them written.

Three steps leave them apart. A transfer to oneself reads both balances
before it writes either, as in QN4. A transfer and a mint look at the limit
of tokens per owner after `owners` has been changed, the transfer also after
the token has left the set of its old owner. `Keeps` asks of a call that it
does none of these; the rest of the file shows that the three then agree in
every state a run of calls can reach.
-/

namespace Quantos

open Fallible Table Finset

structure QN8Token where
  name : String
  symbol : String
  owner : Address
  pendingOwner : Option Address
  owners : Table (Prod.fst : UInt64 × Address → UInt64)
  ownerTokens : Table (Prod.fst : Address × Finset UInt64 → Address)
  balances : Table (Prod.fst : Address × UInt64 → Address)
  tokenApprovals : Table (Prod.fst : UInt64 × Address → UInt64)
  operatorApprovals : Table (Prod.fst : (Address × Address) × Bool → Address × Address)
  tokenUris : Table (Prod.fst : UInt64 × String → UInt64)
  nextTokenId : UInt64
  baseUri : String
  contractAddresses : Finset Address
  nftReceivers : Finset Address
  reentrancyGuard : Bool

namespace QN8Token

def MAX_BATCH_SIZE : UInt64 := 1000

def MAX_TOKENS_PER_OWNER : Nat := 100000

def new (name symbol : String) (owner : Address) (baseUri : String) : QN8Token where
  name := name
  symbol := symbol
  owner := owner
  pendingOwner := none
  owners := Table.empty
  ownerTokens := Table.empty
  balances := Table.empty
  tokenApprovals := Table.empty
  operatorApprovals := Table.empty
  tokenUris := Table.empty
  nextTokenId := 1
  baseUri := baseUri
  contractAddresses := ∅
  nftReceivers := ∅
  reentrancyGuard := false

/-- A call's answer and the collection it leaves. -/
abbrev Call (α : Type) := Outcome TokenError QN8Token α

/-! ### Reading -/

variable (t : QN8Token) (caller owner address src dst : Address) (tokenId : UInt64)

def isContract : Bool := decide (address ∈ t.contractAddresses)

def supportsNftReceive : Bool :=
  decide (address ∈ t.nftReceivers)

def checkOwner : Except TokenError Unit := checkCaller t.owner caller

def checkNotZeroAddress : Except TokenError Unit := checkNotZero address

def balanceOf : UInt64 :=
  ((t.balances.get owner).map Prod.snd).getD 0

def ownerOf : Except TokenError Address :=
  okOr ((t.owners.get tokenId).map Prod.snd) .tokenNotFound

def getApproved : Option Address :=
  (t.tokenApprovals.get tokenId).map Prod.snd

def isApprovedForAll (operator : Address) : Bool :=
  ((t.operatorApprovals.get (owner, operator)).map Prod.snd).getD false

def isApprovedOrOwner (spender : Address) (tokenId : UInt64) : Except TokenError Bool :=
  match t.ownerOf tokenId with
  | .error e => .error e
  | .ok owner =>
    .ok (spender == owner || ((t.getApproved tokenId).map (· == spender)).getD false
      || t.isApprovedForAll owner spender)

/-- The set `owner_tokens` has for an address; an address without one owns nothing. -/
def tokensOfOwner : Finset UInt64 :=
  ((t.ownerTokens.get owner).map Prod.snd).getD ∅

/-! ### Writing -/

def setOwner (owner : Address) : QN8Token :=
  { t with owners := t.owners.put (tokenId, owner) }

def setBalance (value : UInt64) : QN8Token :=
  { t with balances := t.balances.put (owner, value) }

/-- `owner_tokens.entry(owner).or_insert_with(HashSet::new).insert(token_id)`. -/
def addOwnerToken : QN8Token :=
  { t with ownerTokens := t.ownerTokens.put (owner, insert tokenId (t.tokensOfOwner owner)) }

def registerContract : QN8Token :=
  { t with contractAddresses := insert address t.contractAddresses }

def registerNftReceiver : QN8Token :=
  { t with nftReceivers := insert address t.nftReceivers }

def transferOwnership (newOwner : Address) : Call Unit :=
  attempt t (t.checkOwner caller) fun _ =>
  attempt t (checkNotZeroAddress newOwner) fun _ =>
  (.ok (), { t with pendingOwner := some newOwner })

def acceptOwnership : Call Unit :=
  if t.pendingOwner ≠ some caller then (.error .unauthorized, t)
  else (.ok (), { t with owner := caller, pendingOwner := none })

def approve : Call TokenEvent :=
  attempt t (t.ownerOf tokenId) fun owner =>
  if caller ≠ owner ∧ t.isApprovedForAll owner caller = false then (.error .unauthorized, t)
  else
    (.ok (.approvalNFT owner dst tokenId),
      { t with tokenApprovals := t.tokenApprovals.put (tokenId, dst) })

def setApprovalForAll (operator : Address) (approved : Bool) : Call TokenEvent :=
  if caller = operator then (.error .invalidAddress, t)
  else
    (.ok (.approvalForAll caller operator approved),
      { t with operatorApprovals := t.operatorApprovals.put ((caller, operator), approved) })

/-- The token leaves the set of its old owner; an empty set is dropped. -/
def dropOwnerToken : QN8Token :=
  match t.ownerTokens.get owner with
  | none => t
  | some row =>
    if row.2.erase tokenId = ∅ then { t with ownerTokens := t.ownerTokens.erase owner }
    else { t with ownerTokens := t.ownerTokens.put (owner, row.2.erase tokenId) }

/-- The writes of `transfer_from` before it looks at the limit. -/
def rehome : QN8Token :=
  let t := { t with tokenApprovals := t.tokenApprovals.erase tokenId }
  (t.setOwner tokenId dst).dropOwnerToken src tokenId

/-- The rest of `transfer_from`, behind its checks. -/
def moveToken : Call TokenEvent :=
  let t := t.rehome src dst tokenId
  if MAX_TOKENS_PER_OWNER ≤ (t.tokensOfOwner dst).card then (.error .maxTokensPerOwnerReached, t)
  else
    let t := t.addOwnerToken dst tokenId
    let fromBalance := t.balanceOf src
    let toBalance := t.balanceOf dst
    attempt t (okOr (checkedSub64 fromBalance 1) .underflow) fun newFrom =>
    attempt t (okOr (checkedAdd64 toBalance 1) .overflow) fun newTo =>
    (.ok (.transferNFT src dst tokenId), (t.setBalance src newFrom).setBalance dst newTo)

def transferFrom : Call TokenEvent :=
  attempt t (checkNotZeroAddress dst) fun _ =>
  attempt t (t.isApprovedOrOwner caller tokenId) fun approved =>
  if !approved then (.error .notApproved, t)
  else
    attempt t (t.ownerOf tokenId) fun owner =>
    if owner ≠ src then (.error .notOwner, t) else t.moveToken src dst tokenId

/-- A transfer to the zero address is refused with the guard still up. -/
def safeTransferFrom : Call TokenEvent :=
  if t.reentrancyGuard then (.error .reentrancyDetected, t)
  else
    let guarded := { t with reentrancyGuard := true }
    attempt guarded (checkNotZeroAddress dst) fun _ =>
    if guarded.isContract dst && !guarded.supportsNftReceive dst then
      (.error .unauthorized, { guarded with reentrancyGuard := false })
    else
      let result := guarded.transferFrom caller src dst tokenId
      (result.1, { result.2 with reentrancyGuard := false })

/-- `owners` and the next id are written before the limit is looked at. -/
def mint (uri : Option String) : Call (UInt64 × TokenEvent) :=
  attempt t (t.checkOwner caller) fun _ =>
  attempt t (checkNotZeroAddress dst) fun _ =>
  let tokenId := t.nextTokenId
  attempt t (okOr (checkedAdd64 t.nextTokenId 1) .overflow) fun nextTokenId =>
  let t := { t with nextTokenId }.setOwner tokenId dst
  if MAX_TOKENS_PER_OWNER ≤ (t.tokensOfOwner dst).card then (.error .maxTokensPerOwnerReached, t)
  else
    let t := t.addOwnerToken dst tokenId
    attempt t (okOr (checkedAdd64 (t.balanceOf dst) 1) .overflow) fun newBalance =>
    let t := t.setBalance dst newBalance
    let t := match uri with
      | some uri => { t with tokenUris := t.tokenUris.put (tokenId, uri) }
      | none => t
    (.ok (tokenId, .transferNFT ZERO_ADDRESS dst tokenId), t)

def mintBatch (count : UInt64) (uris : List String) : Call (List UInt64) :=
  attempt t (t.checkOwner caller) fun _ =>
  if count > MAX_BATCH_SIZE then (.error .batchSizeTooLarge, t)
  else
    andThen (mapEach (fun t i => t.mint caller dst uris[i]?) t (List.range count.toNat))
      fun minted t => (.ok (minted.map Prod.fst), t)

/-- The token leaves the set of its owner. Unlike in a transfer, a set that
has become empty is kept. -/
def removeOwnerToken : QN8Token :=
  match t.ownerTokens.get owner with
  | none => t
  | some row => { t with ownerTokens := t.ownerTokens.put (owner, row.2.erase tokenId) }

/-- The writes of `burn` before it looks at the balance. -/
def forget : QN8Token :=
  let t := { t with
    tokenApprovals := t.tokenApprovals.erase tokenId
    owners := t.owners.erase tokenId
    tokenUris := t.tokenUris.erase tokenId }
  t.removeOwnerToken owner tokenId

def burn : Call TokenEvent :=
  attempt t (t.ownerOf tokenId) fun owner =>
  attempt t (t.isApprovedOrOwner caller tokenId) fun approved =>
  if !approved then (.error .notApproved, t)
  else
    let t := t.forget owner tokenId
    attempt t (okOr (checkedSub64 (t.balanceOf owner) 1) .underflow) fun newBalance =>
    (.ok (.transferNFT owner ZERO_ADDRESS tokenId), t.setBalance owner newBalance)

/-! ## Counting up and down -/

theorem checkedAdd64_one (n : UInt64) : (n = U64_MAX ∧ checkedAdd64 n 1 = none) ∨
    (n ≠ U64_MAX ∧ ∃ m, checkedAdd64 n 1 = some m ∧ m.toNat = n.toNat + 1) := by
  by_cases hmax : n = U64_MAX
  · rw [hmax]
    exact .inl ⟨rfl, rfl⟩
  · exact .inr ⟨hmax, checkedAdd64_of_lt (toNat_succ_lt hmax)⟩

theorem checkedSub64_one (n : UInt64) : (n = 0 ∧ checkedSub64 n 1 = none) ∨
    (n ≠ 0 ∧ ∃ m, checkedSub64 n 1 = some m ∧ m.toNat + 1 = n.toNat) := by
  by_cases hzero : n = 0
  · rw [hzero]
    exact .inl ⟨rfl, rfl⟩
  · have hpos : 1 ≤ n.toNat := Nat.pos_of_ne_zero fun h => hzero (UInt64.toNat_inj.mp h)
    exact .inr ⟨hzero, checkedSub64_of_le hpos⟩

/-! ## The three records of ownership -/

/-- The tokens `owners` gives to an address. -/
def ownedBy (a : Address) : Finset UInt64 :=
  ((t.owners.rows.filter fun row => row.2 = a).map Prod.fst).toFinset

/-- For every address `owner_tokens` lists the tokens it owns and `balances`
has their number. -/
structure Consistent (t : QN8Token) : Prop where
  tokens : ∀ a, t.tokensOfOwner a = t.ownedBy a
  balance : ∀ a, (t.balanceOf a).toNat = (t.ownedBy a).card

/-- The invariant: besides, the ids still to be given out are unused. -/
structure Sound (t : QN8Token) : Prop extends Consistent t where
  fresh : ∀ a, ∀ id ∈ t.ownedBy a, id < t.nextTokenId

variable {t} {id : UInt64} {a : Address}

theorem mem_ownedBy : id ∈ t.ownedBy a ↔ t.owners.get id = some (id, a) := by
  simp only [ownedBy, List.mem_toFinset, List.mem_map, List.mem_filter, decide_eq_true_eq]
  constructor
  · rintro ⟨⟨_, b⟩, ⟨hmem, rfl⟩, rfl⟩
    exact get_of_mem hmem
  · intro h
    exact ⟨(id, a), ⟨mem_rows_of_get h, rfl⟩, rfl⟩

theorem ownerOf_ok : t.ownerOf id = .ok a ↔ id ∈ t.ownedBy a := by
  rw [mem_ownedBy]
  unfold ownerOf
  cases hget : t.owners.get id with
  | none => simp [okOr]
  | some row =>
    obtain ⟨id', b⟩ := row
    obtain rfl : id' = id := key_of_get hget
    simp [okOr]

variable {b : Address}

theorem eq_of_mem_ownedBy (ha : id ∈ t.ownedBy a) (hb : id ∈ t.ownedBy b) : a = b := by
  rw [mem_ownedBy] at ha hb
  rw [ha] at hb
  cases hb
  rfl

/-! ### What the writes do to them -/

theorem ownedBy_setOwner (t : QN8Token) (id : UInt64) (b a : Address) : (t.setOwner id b).ownedBy a
      = if a = b then insert id (t.ownedBy a) else (t.ownedBy a).erase id := by
  ext id'
  rw [mem_ownedBy]
  simp only [setOwner, get_put]
  by_cases hid : id = id'
  · subst hid
    by_cases hab : a = b
    · simp [hab]
    · simp [hab, Ne.symm hab]
  · rw [if_neg hid, ← mem_ownedBy]
    split <;> simp [Ne.symm hid]

theorem tokensOfOwner_addOwnerToken (t : QN8Token) (b : Address) (id : UInt64) (a : Address) :
    (t.addOwnerToken b id).tokensOfOwner a
      = if a = b then insert id (t.tokensOfOwner a) else t.tokensOfOwner a := by
  refine (getD_put ..).trans ?_
  split
  · rename_i hab
    rw [hab]
  · rfl

theorem tokensOfOwner_of_none (hget : t.ownerTokens.get b = none) {id : UInt64} {a : Address} :
    t.tokensOfOwner a = if a = b then (t.tokensOfOwner a).erase id else t.tokensOfOwner a := by
  split
  · rename_i hab
    rw [hab, tokensOfOwner, hget]
    rfl
  · rfl

theorem tokensOfOwner_of_get {row : Address × Finset UInt64}
    (hget : t.ownerTokens.get b = some row) : t.tokensOfOwner b = row.2 := by
  rw [tokensOfOwner, hget]
  rfl

section

variable (t : QN8Token) (b : Address) (id : UInt64) (a : Address)

theorem tokensOfOwner_removeOwnerToken : (t.removeOwnerToken b id).tokensOfOwner a
      = if a = b then (t.tokensOfOwner a).erase id else t.tokensOfOwner a := by
  unfold removeOwnerToken
  cases hget : t.ownerTokens.get b with
  | none => exact tokensOfOwner_of_none hget
  | some =>
    refine (getD_put ..).trans ?_
    split
    · rename_i hab
      rw [hab, tokensOfOwner_of_get hget]
    · rfl

/-- Whether a set that has become empty is kept or dropped makes no
difference to what is read. -/
theorem tokensOfOwner_dropOwnerToken : (t.dropOwnerToken b id).tokensOfOwner a
      = if a = b then (t.tokensOfOwner a).erase id else t.tokensOfOwner a := by
  rw [← tokensOfOwner_removeOwnerToken]
  unfold dropOwnerToken removeOwnerToken
  cases hget : t.ownerTokens.get b with
  | none => rfl
  | some =>
    dsimp only
    split
    · rename_i hempty
      rw [hempty]
      exact (t.ownerTokens.getD_erase b ∅ a).trans (t.ownerTokens.getD_put b ∅ ∅ a).symm
    · rfl

theorem removeOwnerToken_frame :
    (t.removeOwnerToken b id).owners = t.owners ∧ (t.removeOwnerToken b id).balances = t.balances
      ∧ (t.removeOwnerToken b id).nextTokenId = t.nextTokenId := by
  unfold removeOwnerToken
  split <;> exact ⟨rfl, rfl, rfl⟩

theorem tokensOfOwner_setBalance (value : UInt64) (a : Address) :
    (t.setBalance b value).tokensOfOwner a = t.tokensOfOwner a := rfl

theorem balanceOf_setBalance (value : UInt64) (a : Address) :
    (t.setBalance b value).balanceOf a = if a = b then value else t.balanceOf a :=
  getD_put ..

theorem dropOwnerToken_eq : t.dropOwnerToken b id
    = { t with ownerTokens := (t.dropOwnerToken b id).ownerTokens } := by
  unfold dropOwnerToken
  cases t.ownerTokens.get b with
  | none => rfl
  | some row =>
    dsimp only
    split <;> rfl

end

/-! ### Transfers -/

section

variable (t : QN8Token) (src dst : Address) (id : UInt64)

/-- The writes of a transfer to the approvals and the owners. -/
def rewritten : QN8Token := setOwner { t with tokenApprovals := t.tokenApprovals.erase id } id dst

theorem rehome_eq : t.rehome src dst id
    = { t.rewritten dst id with ownerTokens := (t.rehome src dst id).ownerTokens } :=
  dropOwnerToken_eq ..

theorem ownedBy_rehome (a : Address) : (t.rehome src dst id).ownedBy a
      = if a = dst then insert id (t.ownedBy a) else (t.ownedBy a).erase id := by
  rw [← ownedBy_setOwner, rehome_eq]
  rfl

theorem tokensOfOwner_rehome (a : Address) : (t.rehome src dst id).tokensOfOwner a
      = if a = src then (t.tokensOfOwner a).erase id else t.tokensOfOwner a := by
  unfold rehome
  rw [tokensOfOwner_dropOwnerToken]
  rfl

theorem rehome_frame : (t.rehome src dst id).balances = t.balances
      ∧ (t.rehome src dst id).nextTokenId = t.nextTokenId := by
  rw [rehome_eq]
  exact ⟨rfl, rfl⟩

/-- What the recipient holds while the token is on its way. -/
def others : Finset UInt64 :=
  if dst = src then (t.tokensOfOwner dst).erase id else t.tokensOfOwner dst

/-- A transfer behind its checks is refused: the recipient is at the limit,
or one of the two balances cannot be changed. -/
def Stalls : Prop :=
  MAX_TOKENS_PER_OWNER ≤ (t.others src dst id).card ∨ t.balanceOf src = 0
    ∨ t.balanceOf dst = U64_MAX

/-- What such a transfer leaves. At the limit the token is taken out of a set
and put into none. -/
def stalled : QN8Token :=
  if MAX_TOKENS_PER_OWNER ≤ (t.others src dst id).card then t.rehome src dst id
  else (t.rehome src dst id).addOwnerToken dst id

/-- A transfer behind its checks is refused late, or moves the token in all
three records. -/
theorem moveToken_cases : (t.Stalls src dst id ∧
        ∃ e, t.moveToken src dst id = (.error e, t.stalled src dst id)) ∨
      (¬ t.Stalls src dst id ∧ ∃ newFrom newTo,
        t.moveToken src dst id = (.ok (.transferNFT src dst id),
          (((t.rehome src dst id).addOwnerToken dst id).setBalance src newFrom).setBalance
            dst newTo) ∧ newFrom.toNat + 1 = (t.balanceOf src).toNat
        ∧ newTo.toNat = (t.balanceOf dst).toNat + 1) := by
  have hothers : (t.rehome src dst id).tokensOfOwner dst = t.others src dst id :=
    t.tokensOfOwner_rehome src dst id dst
  have hbal : ∀ a, ((t.rehome src dst id).addOwnerToken dst id).balanceOf a
      = t.balanceOf a := by
    intro a
    simp only [balanceOf, addOwnerToken, rehome_frame]
  unfold moveToken stalled Stalls
  dsimp only
  rw [hothers, hbal, hbal]
  by_cases hfull : MAX_TOKENS_PER_OWNER ≤ (t.others src dst id).card
  · rw [if_pos hfull, if_pos hfull]
    exact .inl ⟨.inl hfull, _, rfl⟩
  rw [if_neg hfull, if_neg hfull]
  rcases checkedSub64_one (t.balanceOf src) with ⟨hzero, hnone⟩ | ⟨hpos, newFrom, hsub, hfrom⟩
  · rw [hnone]
    exact .inl ⟨.inr (.inl hzero), _, rfl⟩
  rcases checkedAdd64_one (t.balanceOf dst) with ⟨hmax, hnone⟩ | ⟨hmax, newTo, hadd, hto⟩
  · rw [hsub, hnone]
    exact .inl ⟨.inr (.inr hmax), _, rfl⟩
  · rw [hsub, hadd]
    refine .inr ⟨?_, newFrom, newTo, rfl, hfrom, hto⟩
    rintro (h | h | h)
    · exact hfull h
    · exact hpos h
    · exact hmax h

end

theorem erase_ownedBy_of_ne (h : id ∈ t.ownedBy b) (hne : a ≠ b) :
    (t.ownedBy a).erase id = t.ownedBy a :=
  erase_eq_of_notMem fun hmem => hne (eq_of_mem_ownedBy hmem h)

theorem Sound.balance_ne_zero (h : t.Sound) (howned : id ∈ t.ownedBy a) : t.balanceOf a ≠ 0 := by
  intro hzero
  have hcard := h.balance a
  rw [hzero] at hcard
  exact (card_pos.mpr ⟨id, howned⟩).ne hcard

/-- One more token stays within the limit of tokens per owner and within
what a balance can count. -/
def Fits (t : QN8Token) (dst : Address) : Prop :=
  (t.tokensOfOwner dst).card < MAX_TOKENS_PER_OWNER ∧ t.balanceOf dst ≠ U64_MAX

theorem Sound.fits (h : t.Sound) (hroom : (t.tokensOfOwner a).card < MAX_TOKENS_PER_OWNER) :
    t.Fits a := by
  refine ⟨hroom, fun hmax => ?_⟩
  rw [h.tokens, ← h.balance, hmax] at hroom
  exact absurd hroom (by decide)

variable {dst src}

section

variable (h : t.Sound) (howned : id ∈ t.ownedBy src) (hne : src ≠ dst)
  (hroom : (t.tokensOfOwner dst).card < MAX_TOKENS_PER_OWNER)

include h howned hne hroom

theorem Sound.not_stalls : ¬ t.Stalls src dst id := by
  unfold Stalls others
  rw [if_neg (Ne.symm hne)]
  rintro (hfull | hzero | hmax)
  · exact Nat.not_le.mpr hroom hfull
  · exact h.balance_ne_zero howned hzero
  · exact (h.fits hroom).2 hmax

/-- Between two addresses, the recipient below the limit, a transfer moves
the token in all three records. -/
theorem Sound.moveToken : Settles Sound t (t.moveToken src dst id) := by
  rcases t.moveToken_cases src dst id with ⟨hstalls, -⟩ | ⟨-, newFrom, newTo, heq, hnewFrom, hnewTo⟩
  · exact absurd hstalls (h.not_stalls howned hne hroom)
  rw [h.balance] at hnewFrom hnewTo
  have hown : ∀ a, ((((t.rehome src dst id).addOwnerToken dst id).setBalance src
        newFrom).setBalance dst newTo).ownedBy a
      = if a = dst then insert id (t.ownedBy a) else (t.ownedBy a).erase id :=
    ownedBy_rehome t src dst id
  refine .inr ⟨_, _, heq, ⟨?_, ?_⟩, ?_⟩
  · intro a
    rw [hown, tokensOfOwner_setBalance, tokensOfOwner_setBalance, tokensOfOwner_addOwnerToken,
      tokensOfOwner_rehome, h.tokens]
    by_cases hto : a = dst
    · simp [hto, Ne.symm hne]
    by_cases hfrom : a = src
    · simp [hfrom, hne]
    · simp [hto, hfrom, erase_ownedBy_of_ne howned hfrom]
  · intro a
    rw [hown, balanceOf_setBalance, balanceOf_setBalance]
    by_cases hto : a = dst
    · subst hto
      have hnot : id ∉ t.ownedBy a := fun hmem => hne (eq_of_mem_ownedBy howned hmem)
      rw [if_pos rfl, if_pos rfl, card_insert_of_notMem hnot, hnewTo]
    rw [if_neg hto, if_neg hto]
    by_cases hfrom : a = src
    · subst hfrom
      rw [if_pos rfl, card_erase_of_mem howned]
      omega
    · rw [if_neg hfrom, erase_ownedBy_of_ne howned hfrom, ← h.balance a]
      simp only [balanceOf, addOwnerToken, rehome_frame]
  · intro a id' hid'
    show id' < (t.rehome src dst id).nextTokenId
    rw [(t.rehome_frame ..).2]
    rw [hown] at hid'
    split at hid'
    · rcases mem_insert.mp hid' with rfl | hid'
      · exact h.fresh src id' howned
      · exact h.fresh a id' hid'
    · exact h.fresh a id' (mem_of_mem_erase hid')

end

/-- The checks of `transfer_from` let the call through. -/
def Transfers (t : QN8Token) (caller src dst : Address) (tokenId : UInt64) : Prop :=
  dst ≠ ZERO_ADDRESS ∧ t.isApprovedOrOwner caller tokenId = .ok true
    ∧ t.ownerOf tokenId = .ok src

/-- An address other than the sender, with room for one more token. -/
def CanReceive (t : QN8Token) (src dst : Address) : Prop :=
  src ≠ dst ∧ (t.tokensOfOwner dst).card < MAX_TOKENS_PER_OWNER

variable {caller}

theorem Sound.transferFrom (h : t.Sound)
    (hkeeps : t.Transfers caller src dst id → t.CanReceive src dst) :
    Settles Sound t (t.transferFrom caller src dst id) := by
  refine attempt_settles fun _ hzero => attempt_settles fun approved happroved => ?_
  cases approved with
  | false => exact .inl ⟨_, rfl⟩
  | true =>
    refine attempt_settles fun owner howner => guard_settles fun hfrom => ?_
    obtain rfl := not_not.mp hfrom
    obtain ⟨hne, hroom⟩ := hkeeps ⟨ne_zero_of_checkNotZero hzero, happroved, howner⟩
    exact h.moveToken (ownerOf_ok.mp howner) hne hroom

/-- `safe_transfer_from` lets the call through to `transfer_from`. -/
def Guarded (t : QN8Token) (dst : Address) : Prop :=
  t.reentrancyGuard = false ∧ (t.isContract dst = true → t.supportsNftReceive dst = true)

/-! ### Safe transfers -/

/-- The outcome of a call with the guard put to `up`. -/
def withGuard {α : Type} (up : Bool) (c : Call α) : Call α :=
  (c.1, { c.2 with reentrancyGuard := up })

section

variable {α β : Type} {up : Bool}

theorem attempt_withGuard {r : Except TokenError α} {k k' : α → Call β}
    (hk : ∀ a, k' a = withGuard up (k a)) :
    attempt { t with reentrancyGuard := up } r k' = withGuard up (attempt t r k) := by
  cases r with
  | error => rfl
  | ok a => exact hk a

theorem guard_withGuard {p : Prop} [Decidable p] {e : TokenError} {c c' : Call α}
    (hc : c' = withGuard up c) :
    (if p then (.error e, { t with reentrancyGuard := up }) else c')
      = withGuard up (if p then (.error e, t) else c) := by
  split
  · rfl
  · exact hc

end

theorem rehome_guard (up : Bool) : rehome { t with reentrancyGuard := up } src dst id
    = { t.rehome src dst id with reentrancyGuard := up } := by
  unfold rehome dropOwnerToken
  dsimp only [setOwner]
  cases t.ownerTokens.get src with
  | none => rfl
  | some row =>
    dsimp only
    split <;> rfl

theorem moveToken_guard (up : Bool) : moveToken { t with reentrancyGuard := up } src dst id
    = withGuard up (t.moveToken src dst id) := by
  unfold moveToken
  rw [rehome_guard]
  exact guard_withGuard (attempt_withGuard (t := (t.rehome src dst id).addOwnerToken dst id)
    fun _ => attempt_withGuard (t := (t.rehome src dst id).addOwnerToken dst id) fun _ => rfl)

/-- A transfer neither looks at the guard nor touches it. -/
theorem transferFrom_guard (up : Bool) :
    transferFrom { t with reentrancyGuard := up } caller src dst id
      = withGuard up (t.transferFrom caller src dst id) :=
  attempt_withGuard fun _ => attempt_withGuard fun _ =>
    guard_withGuard (attempt_withGuard fun _ => guard_withGuard (moveToken_guard up))

/-- A safe transfer is refused as it is made, or leaves the guard up behind a
transfer to the zero address, or is a transfer. -/
theorem safeTransferFrom_cases (t : QN8Token) (caller src dst : Address) (id : UInt64) :
    (¬ t.Guarded dst ∧ (t.reentrancyGuard = false → dst ≠ ZERO_ADDRESS) ∧
        ∃ e, t.safeTransferFrom caller src dst id = (.error e, t)) ∨
      (t.reentrancyGuard = false ∧ dst = ZERO_ADDRESS ∧ ∃ e,
        t.safeTransferFrom caller src dst id = (.error e, { t with reentrancyGuard := true })) ∨
      (t.Guarded dst ∧ dst ≠ ZERO_ADDRESS ∧
        t.safeTransferFrom caller src dst id = t.transferFrom caller src dst id) := by
  unfold QN8Token.safeTransferFrom Guarded
  by_cases hup : t.reentrancyGuard = true
  · rw [if_pos hup, hup]
    exact .inl ⟨fun h => (by cases h.1), fun h => (by cases h), _, rfl⟩
  have hdown : t.reentrancyGuard = false := by simpa using hup
  rw [if_neg hup]
  by_cases hzero : dst = ZERO_ADDRESS
  · have hcheck : checkNotZeroAddress dst = .error .invalidAddress := if_pos hzero
    rw [hcheck]
    exact .inr (.inl ⟨hdown, hzero, _, rfl⟩)
  have hcheck : checkNotZeroAddress dst = .ok () := if_neg hzero
  have hback : { t with reentrancyGuard := false } = t := by rw [← hdown]
  have hsafe : (t.isContract dst && !t.supportsNftReceive dst) = true ↔
      ¬ (t.isContract dst = true → t.supportsNftReceive dst = true) := by simp
  rw [hcheck]
  dsimp only [attempt]
  split
  · rename_i hrefused
    rw [hback]
    exact .inl ⟨fun h => hsafe.mp hrefused h.2, fun _ => hzero, _, rfl⟩
  · rename_i hreceives
    refine .inr (.inr ⟨⟨hdown, not_not.mp fun h => hreceives (hsafe.mpr h)⟩, hzero, ?_⟩)
    -- with the guard put back the outcome is that of the plain transfer
    have hplain : transferFrom { t with reentrancyGuard := false } caller src dst id = _ :=
      transferFrom_guard false
    rw [hback] at hplain
    rw [transferFrom_guard]
    exact hplain.symm

/-! ### Minting and burning -/

theorem ownedBy_of_fresh (h : t.Sound) {a : Address} : t.nextTokenId ∉ t.ownedBy a := by
  intro hmem
  exact UInt64.lt_irrefl _ (h.fresh a _ hmem)

/-- The collection with one more token for `to`. -/
def withToken (t : QN8Token) (dst : Address) (next newBalance : UInt64) : QN8Token :=
  (({ t with nextTokenId := next }.setOwner t.nextTokenId dst).addOwnerToken dst
    t.nextTokenId).setBalance dst newBalance

variable {uri : Option String}

theorem ownedBy_withToken (h : t.Sound) (dst : Address) (next newBalance : UInt64) (a : Address) :
    (t.withToken dst next newBalance).ownedBy a
      = if a = dst then insert t.nextTokenId (t.ownedBy a) else t.ownedBy a := by
  have hset := ownedBy_setOwner { t with nextTokenId := next } t.nextTokenId dst a
  refine hset.trans ?_
  split
  · rfl
  · exact erase_eq_of_notMem (ownedBy_of_fresh h)

theorem tokensOfOwner_withToken (t : QN8Token) (dst : Address) (next newBalance : UInt64)
    (a : Address) : (t.withToken dst next newBalance).tokensOfOwner a
      = if a = dst then insert t.nextTokenId (t.tokensOfOwner a) else t.tokensOfOwner a := by
  unfold withToken
  rw [tokensOfOwner_setBalance, tokensOfOwner_addOwnerToken]
  rfl

variable {newBalance : UInt64}

theorem Sound.withToken (h : t.Sound) {next : UInt64} (hnext : next.toNat = t.nextTokenId.toNat + 1)
    (hnew : newBalance.toNat = (t.ownedBy dst).card + 1) :
    (t.withToken dst next newBalance).Sound := by
  refine ⟨⟨?_, ?_⟩, ?_⟩
  · intro a
    rw [tokensOfOwner_withToken, ownedBy_withToken h, h.tokens]
  · intro a
    rw [ownedBy_withToken h, QN8Token.withToken, balanceOf_setBalance]
    by_cases hto : a = dst
    · subst hto
      rw [if_pos rfl, if_pos rfl, card_insert_of_notMem (ownedBy_of_fresh h), hnew]
    · rw [if_neg hto, if_neg hto]
      exact h.balance a
  · intro a id hid
    show id < next
    rw [UInt64.lt_iff_toNat_lt, hnext]
    have hold : id ∈ t.ownedBy a → id.toNat < t.nextTokenId.toNat + 1 := by
      intro hmem
      have := UInt64.lt_iff_toNat_lt.mp (h.fresh a id hmem)
      omega
    rw [ownedBy_withToken h] at hid
    split at hid
    · rcases mem_insert.mp hid with rfl | hid
      · omega
      · exact hold hid
    · exact hold hid

/-- The checks of `mint` before its first write let the call through. -/
def Mints (t : QN8Token) (caller dst : Address) : Prop :=
  caller = t.owner ∧ dst ≠ ZERO_ADDRESS ∧ t.nextTokenId ≠ U64_MAX

/-- A mint is refused before it writes anything, or refused with a token id
used up, or it goes through. -/
theorem mint_cases (t : QN8Token) (caller dst : Address) (uri : Option String) :
    (¬ t.Mints caller dst ∧ ∃ e, t.mint caller dst uri = (.error e, t)) ∨
      (t.Mints caller dst ∧ ¬ t.Fits dst ∧ ∃ e u, t.mint caller dst uri = (.error e, u)
        ∧ u.nextTokenId.toNat = t.nextTokenId.toNat + 1) ∨
      (t.Mints caller dst ∧ t.Fits dst ∧ ∃ minted next newBalance uris,
        t.mint caller dst uri
            = (.ok minted, { t.withToken dst next newBalance with tokenUris := uris })
          ∧ next.toNat = t.nextTokenId.toNat + 1
          ∧ newBalance.toNat = (t.balanceOf dst).toNat + 1) := by
  unfold mint
  cases howner : t.checkOwner caller with
  | error e =>
    refine .inl ⟨fun h => ?_, e, rfl⟩
    cases (if_neg (not_not.mpr h.1)).symm.trans howner
  | ok =>
  cases hzero : checkNotZeroAddress dst with
  | error e =>
    refine .inl ⟨fun h => ?_, e, rfl⟩
    cases (if_neg h.2.1).symm.trans hzero
  | ok =>
  rcases checkedAdd64_one t.nextTokenId with ⟨hmax, hnone⟩ | ⟨hmax, next, hadd, hnext⟩
  · rw [hnone]
    exact .inl ⟨fun h => h.2.2 hmax, _, rfl⟩
  have hmints : t.Mints caller dst :=
    ⟨eq_of_checkCaller howner, ne_zero_of_checkNotZero hzero, hmax⟩
  rw [hadd]
  simp only [okOr, attempt]
  refine .inr ?_
  by_cases hlimit : MAX_TOKENS_PER_OWNER ≤ (t.tokensOfOwner dst).card
  · exact .inl ⟨hmints, fun hfits => Nat.not_lt.mpr hlimit hfits.1, _, _, if_pos hlimit, hnext⟩
  have hbelow : ¬ MAX_TOKENS_PER_OWNER ≤ (tokensOfOwner
      ({ t with nextTokenId := next }.setOwner t.nextTokenId dst) dst).card := hlimit
  have hsame : (({ t with nextTokenId := next }.setOwner t.nextTokenId dst).addOwnerToken dst
      t.nextTokenId).balanceOf dst = t.balanceOf dst := rfl
  rw [if_neg hbelow, hsame]
  rcases checkedAdd64_one (t.balanceOf dst) with ⟨hfull, hnone⟩ | ⟨hfull, newBalance, hadd, hnew⟩
  · rw [hnone]
    exact .inl ⟨hmints, fun hfits => hfits.2 hfull, _, _, rfl, hnext⟩
  · rw [hadd]
    refine .inr ⟨hmints, ⟨Nat.not_le.mp hlimit, hfull⟩,
      (t.nextTokenId, .transferNFT ZERO_ADDRESS dst t.nextTokenId), next, newBalance,
      uri.elim t.tokenUris fun uri => t.tokenUris.put (t.nextTokenId, uri), ?_, hnext, hnew⟩
    cases uri <;> rfl

section

variable (h : t.Sound)
  (hkeeps : caller = t.owner → dst ≠ ZERO_ADDRESS → t.nextTokenId ≠ U64_MAX →
    (t.tokensOfOwner dst).card < MAX_TOKENS_PER_OWNER)

include h hkeeps

/-- With room for the token a mint that is refused has written nothing. -/
theorem Sound.mint_cases : (∃ e, t.mint caller dst uri = (.error e, t)) ∨
      ∃ minted next newBalance uris,
        t.mint caller dst uri
            = (.ok minted, { t.withToken dst next newBalance with tokenUris := uris })
          ∧ next.toNat = t.nextTokenId.toNat + 1
          ∧ newBalance.toNat = (t.ownedBy dst).card + 1 := by
  rcases t.mint_cases caller dst uri with ⟨-, hrefused⟩ | ⟨hmints, hfits, -⟩ |
    ⟨-, -, minted, next, newBalance, uris, heq, hnext, hnew⟩
  · exact .inl hrefused
  · exact absurd (h.fits (hkeeps hmints.1 hmints.2.1 hmints.2.2)) hfits
  · exact .inr ⟨minted, next, newBalance, uris, heq, hnext, by rw [hnew, h.balance]⟩

theorem Sound.mint : Settles Sound t (t.mint caller dst uri) := by
  rcases h.mint_cases hkeeps with ⟨e, heq⟩ | ⟨_, _, _, _, heq, hnext, hnew⟩
  · exact .inl ⟨e, heq⟩
  · have hminted := h.withToken hnext hnew
    exact .inr ⟨_, _, heq, ⟨hminted.tokens, hminted.balance⟩, hminted.fresh⟩

end

/-- There is room at `to` for as many more tokens as a batch can still mint. -/
def HasRoom (t : QN8Token) (dst : Address) (count : Nat) : Prop :=
  dst ≠ ZERO_ADDRESS →
    (t.tokensOfOwner dst).card + min count (U64_MAX.toNat - t.nextTokenId.toNat)
      ≤ MAX_TOKENS_PER_OWNER

theorem HasRoom.one {left : Nat} (h : t.HasRoom dst (left + 1)) : caller = t.owner →
    dst ≠ ZERO_ADDRESS → t.nextTokenId ≠ U64_MAX →
      (t.tokensOfOwner dst).card < MAX_TOKENS_PER_OWNER := by
  intro _ hzero hmax
  have hnext := toNat_succ_lt hmax
  have hval : U64_MAX.toNat = 2 ^ 64 - 1 := rfl
  have hroom := h hzero
  omega

theorem HasRoom.next {t : QN8Token} (ht : t.Sound) {dst : Address} {left : Nat}
    (h : t.HasRoom dst (left + 1)) {next : UInt64}
    (hnext : next.toNat = t.nextTokenId.toNat + 1) (newBalance : UInt64) :
    (t.withToken dst next newBalance).HasRoom dst left := by
  intro hzero
  have hroom := h hzero
  have hlt := next.toNat_lt
  have hval : U64_MAX.toNat = 2 ^ 64 - 1 := rfl
  have hnot : t.nextTokenId ∉ t.tokensOfOwner dst := by
    rw [ht.tokens]
    exact ownedBy_of_fresh ht
  rw [tokensOfOwner_withToken, if_pos rfl, card_insert_of_notMem hnot]
  show _ + min left (U64_MAX.toNat - next.toNat) ≤ _
  omega

section Batch

variable {count : UInt64} {uris : List String} (h : t.Sound)
  (hkeeps : caller = t.owner → count ≤ MAX_BATCH_SIZE → t.HasRoom dst count.toNat)

include h hkeeps

theorem Sound.mintBatch : (t.mintBatch caller dst count uris).2.Sound := by
  refine attempt_keeps h fun _ howner => guard_keeps h fun hcount => ?_
  have hroom := hkeeps (eq_of_checkCaller howner) (UInt64.not_lt.mp hcount)
  refine andThen_keeps ?_ fun _ _ hu => hu
  -- the loop keeps room for what it has still to mint
  refine mapEach_keeps (J := fun left u => u.HasRoom dst left.length) ?_ ?_ h
    (by rwa [List.length_range])
  · intro u i left hu hleft
    exact (hu.mint hleft.one).keeps hu
  · intro u i left minted u' hu hleft hmint
    rcases hu.mint_cases hleft.one with ⟨e, heq⟩ | ⟨_, _, newBalance, _, heq, hnext, -⟩
    · rw [heq] at hmint
      cases hmint
    rw [heq] at hmint
    cases hmint
    exact hleft.next hu hnext newBalance

end Batch

section

variable (t : QN8Token) (owner : Address) (id : UInt64)

theorem ownedBy_forget (a : Address) : (t.forget owner id).ownedBy a = (t.ownedBy a).erase id := by
  have hframe : (t.forget owner id).owners = t.owners.erase id := (removeOwnerToken_frame ..).1
  ext id'
  rw [mem_ownedBy, mem_erase, mem_ownedBy, hframe, get_erase]
  by_cases hid : id = id'
  · simp [hid]
  · simp [hid, Ne.symm hid]

theorem tokensOfOwner_forget (a : Address) : (t.forget owner id).tokensOfOwner a
      = if a = owner then (t.tokensOfOwner a).erase id else t.tokensOfOwner a := by
  unfold forget
  rw [tokensOfOwner_removeOwnerToken]
  rfl

theorem forget_frame : (t.forget owner id).balances = t.balances
      ∧ (t.forget owner id).nextTokenId = t.nextTokenId :=
  (removeOwnerToken_frame ..).2

end

theorem Sound.forget (h : t.Sound) {owner : Address} (howned : id ∈ t.ownedBy owner)
    (hnew : newBalance.toNat + 1 = (t.ownedBy owner).card) :
    ((t.forget owner id).setBalance owner newBalance).Sound := by
  have hown : ∀ a, ((t.forget owner id).setBalance owner newBalance).ownedBy a
      = (t.ownedBy a).erase id := ownedBy_forget t owner id
  refine ⟨⟨?_, ?_⟩, ?_⟩
  · intro a
    rw [hown, tokensOfOwner_setBalance, tokensOfOwner_forget, h.tokens]
    split
    · rfl
    · rename_i hne
      rw [erase_ownedBy_of_ne howned hne]
  · intro a
    rw [hown, balanceOf_setBalance]
    split
    · rename_i heq
      rw [heq, card_erase_of_mem howned]
      omega
    rename_i hne
    rw [erase_ownedBy_of_ne howned hne, ← h.balance a]
    simp only [balanceOf, forget_frame]
  · intro a id' hid'
    show id' < (t.forget owner id).nextTokenId
    rw [(t.forget_frame ..).2]
    rw [hown] at hid'
    exact h.fresh a id' (mem_of_mem_erase hid')

theorem Sound.burn (h : t.Sound) (caller : Address) (id : UInt64) :
    Settles Sound t (t.burn caller id) := by
  refine attempt_settles fun owner howner => attempt_settles fun approved _ => ?_
  cases approved with
  | false => exact .inl ⟨_, rfl⟩
  | true =>
    have howned := ownerOf_ok.mp howner
    have hsame : (t.forget owner id).balanceOf owner = t.balanceOf owner := by
      simp only [balanceOf, forget_frame]
    rcases checkedSub64_one (t.balanceOf owner) with ⟨hzero, -⟩ | ⟨-, new, hsub, hnew⟩
    · exact absurd hzero (h.balance_ne_zero howned)
    rw [h.balance] at hnew
    simp only [Bool.not_true, Bool.false_eq_true, if_false, hsame, hsub]
    exact .inr ⟨_, _, rfl, h.forget howned hnew⟩

/-! ## Runs of calls -/

theorem sound_new (name symbol : String) (owner : Address) (baseUri : String) :
    (new name symbol owner baseUri).Sound where
  tokens := fun _ => rfl
  balance := fun _ => rfl
  fresh := fun _ _ h => absurd h (notMem_empty _)

end QN8Token

/-- The calls a collection takes. -/
inductive NftCall where
  | mint (caller dst : Address) (uri : Option String)
  | mintBatch (caller dst : Address) (count : UInt64) (uris : List String)
  | transferFrom (caller src dst : Address) (tokenId : UInt64)
  | safeTransferFrom (caller src dst : Address) (tokenId : UInt64)
  | burn (caller : Address) (tokenId : UInt64)
  | approve (caller dst : Address) (tokenId : UInt64)
  | setApprovalForAll (caller operator : Address) (approved : Bool)
  | registerContract (address : Address)
  | registerNftReceiver (address : Address)
  | transferOwnership (caller newOwner : Address)
  | acceptOwnership (caller : Address)

namespace NftCall

open QN8Token

variable (t : QN8Token)

/-- The collection a call leaves, whatever it answers. -/
def step : NftCall → QN8Token
  | mint caller dst uri => (t.mint caller dst uri).2
  | mintBatch caller dst count uris => (t.mintBatch caller dst count uris).2
  | transferFrom caller src dst tokenId => (t.transferFrom caller src dst tokenId).2
  | safeTransferFrom caller src dst tokenId =>
    (t.safeTransferFrom caller src dst tokenId).2
  | burn caller tokenId => (t.burn caller tokenId).2
  | approve caller dst tokenId => (t.approve caller dst tokenId).2
  | setApprovalForAll caller operator approved => (t.setApprovalForAll caller operator approved).2
  | registerContract address => t.registerContract address
  | registerNftReceiver address => t.registerNftReceiver address
  | transferOwnership caller newOwner => (t.transferOwnership caller newOwner).2
  | acceptOwnership caller => (t.acceptOwnership caller).2

/-- A transfer that is let through goes to another address, and whoever is
to receive tokens has room for them. -/
def Keeps : NftCall → Prop
  | mint caller dst _ => caller = t.owner → dst ≠ ZERO_ADDRESS → t.nextTokenId ≠ U64_MAX →
      (t.tokensOfOwner dst).card < MAX_TOKENS_PER_OWNER
  | mintBatch caller dst count _ =>
    caller = t.owner → count ≤ MAX_BATCH_SIZE → t.HasRoom dst count.toNat
  | transferFrom caller src dst tokenId =>
    t.Transfers caller src dst tokenId → t.CanReceive src dst
  | safeTransferFrom caller src dst tokenId =>
    t.Guarded dst → t.Transfers caller src dst tokenId → t.CanReceive src dst
  | _ => True

instance (caller src dst : Address) (tokenId : UInt64) :
    Decidable (t.Transfers caller src dst tokenId) :=
  inferInstanceAs (Decidable (_ ∧ _))

instance (src dst : Address) : Decidable (t.CanReceive src dst) :=
  inferInstanceAs (Decidable (_ ∧ _))

instance decidableKeeps : ∀ c : NftCall, Decidable (c.Keeps t)
  | mint .. => inferInstanceAs (Decidable (_ → _ → _ → _))
  | mintBatch .. => inferInstanceAs (Decidable (_ → _ → (_ ≠ _ → _ ≤ _)))
  | transferFrom .. => inferInstanceAs (Decidable (_ → _))
  | safeTransferFrom .. => inferInstanceAs (Decidable (_ ∧ _ → _ → _))
  | burn .. | approve .. | setApprovalForAll .. | registerContract .. | registerNftReceiver ..
  | transferOwnership .. | acceptOwnership .. => isTrue trivial

theorem step_sound {t : QN8Token} (h : t.Sound) {c : NftCall} (hc : c.Keeps t) :
    (step t c).Sound := by
  cases c with
  | mint => exact (h.mint hc).keeps h
  | mintBatch => exact h.mintBatch hc
  | transferFrom => exact (h.transferFrom hc).keeps h
  | safeTransferFrom caller src dst id =>
    rcases t.safeTransferFrom_cases caller src dst id with ⟨-, -, _, heq⟩ | ⟨-, -, _, heq⟩ |
      ⟨hguarded, -, heq⟩ <;> rw [step, heq]
    · exact h
    · exact ⟨⟨h.tokens, h.balance⟩, h.fresh⟩
    · exact (h.transferFrom (hc hguarded)).keeps h
  | burn caller tokenId => exact (h.burn caller tokenId).keeps h
  | approve =>
    exact attempt_keeps h fun _ _ => guard_keeps h fun _ => ⟨⟨h.tokens, h.balance⟩, h.fresh⟩
  | setApprovalForAll | acceptOwnership =>
    exact guard_keeps h fun _ => ⟨⟨h.tokens, h.balance⟩, h.fresh⟩
  | registerContract | registerNftReceiver => exact ⟨⟨h.tokens, h.balance⟩, h.fresh⟩
  | transferOwnership =>
    exact attempt_keeps h fun _ _ => attempt_keeps h fun _ _ =>
      ⟨⟨h.tokens, h.balance⟩, h.fresh⟩

end NftCall

/-- From a new collection, calls by any callers with any arguments keep the
three records of ownership together, failing calls included, as long as
every call of the run meets `Keeps` where it is made. -/
theorem nft_ownership_consistent (name symbol : String) (owner : Address) (baseUri : String)
    {calls : List NftCall}
    (hcalls : Runs.StepsMeet NftCall.step (fun t c => c.Keeps t)
      (.new name symbol owner baseUri) calls) :
    (Runs.run NftCall.step (.new name symbol owner baseUri) calls).Consistent := by
  have hstep : ∀ (t : QN8Token) (c : NftCall), t.Sound → c.Keeps t → (NftCall.step t c).Sound :=
    fun _ _ h hc => NftCall.step_sound h hc
  have hsound := Runs.invariant_of_stepsMeet hstep
    (QN8Token.sound_new ..) hcalls
  exact hsound.toConsistent

def sampleCollection : QN8Token := .new "Sample" "SMP" 1 "ipfs://"

/-- Mints, a batch, transfers by an owner and by an operator, a burn and
three refused calls. -/
theorem nft_ownership_traded : (Runs.run NftCall.step sampleCollection
      [.mint 1 2 none, .mintBatch 1 3 2 ["a"], .mint 2 2 none, .setApprovalForAll 3 4 true,
        .transferFrom 4 3 2 2, .transferFrom 3 2 3 1, .approve 2 5 1, .safeTransferFrom 5 2 3 1,
        .safeTransferFrom 3 3 0 1, .burn 2 2]).Consistent :=
  nft_ownership_consistent "Sample" "SMP" 1 "ipfs://" (by decide)

/-- Sent to its own owner, the one token counts twice. -/
theorem nft_self_transfer_counts_twice : (Runs.run NftCall.step sampleCollection
        [.mint 1 2 none, .transferFrom 2 2 2 1]).balanceOf 2 = 2
      ∧ (Runs.run NftCall.step sampleCollection
          [.mint 1 2 none, .transferFrom 2 2 2 1]).ownedBy 2 = {1} := by
  decide

end Quantos
