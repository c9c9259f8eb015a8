import Quantos.Qn8

/-!
# Failed calls of the QN8 collection

A call that answers an error should leave the collection as it found it.
`standards/qn8.rs` mixes checks and writes, so for each call there are two
kinds of error exit: those before the first write, which leave nothing
behind, and those after it. This file says for every collection, consistent
or not, and for every call exactly when the second kind is not taken or has
nothing to show for it.

* `mint` is refused late when the recipient is at the limit or its balance
  at `u64::MAX`; an id is used up by then.
* `mint_batch` keeps what it has minted before the token that fails.
* `transfer_from` is refused late at the limit or at a balance that cannot
  be lowered or raised. Only a transfer of an unapproved token to its own
  owner can then have written what was there before (`Idle`).
* `safe_transfer_from` forgets its guard when the recipient is zero.
* `burn` is refused late when the owner of the token has balance zero.

A map is compared by what it answers (`Same`), not by the order of its
entries.
-/

namespace Quantos

open Fallible Table Finset

namespace QN8Token

/-- No reader can tell `u` from `t`: the plain fields are equal and every
map has the same entries. -/
structure Same (t u : QN8Token) : Prop where
  plain : { u with
    owners := t.owners
    ownerTokens := t.ownerTokens
    balances := t.balances
    tokenApprovals := t.tokenApprovals
    operatorApprovals := t.operatorApprovals
    tokenUris := t.tokenUris } = t
  owners : ∀ id, u.owners.get id = t.owners.get id
  ownerTokens : ∀ a, u.ownerTokens.get a = t.ownerTokens.get a
  balances : ∀ a, u.balances.get a = t.balances.get a
  tokenApprovals : ∀ id, u.tokenApprovals.get id = t.tokenApprovals.get id
  operatorApprovals : ∀ p, u.operatorApprovals.get p = t.operatorApprovals.get p
  tokenUris : ∀ id, u.tokenUris.get id = t.tokenUris.get id

/-- A call made on `t` that answers an error leaves `t`. -/
def Restores {α : Type} (t : QN8Token) (c : Call α) : Prop :=
  c.1.isOk = false → t.Same c.2

variable {t u : QN8Token}

theorem Same.refl (t : QN8Token) : t.Same t :=
  ⟨rfl, fun _ => rfl, fun _ => rfl, fun _ => rfl, fun _ => rfl, fun _ => rfl, fun _ => rfl⟩

theorem Same.nextTokenId (h : t.Same u) : u.nextTokenId = t.nextTokenId := by
  rw [← h.plain]

theorem Same.reentrancyGuard (h : t.Same u) : u.reentrancyGuard = t.reentrancyGuard := by
  rw [← h.plain]

/-! ### Rules for the error exits -/

section

variable {α β : Type} {e : TokenError} {a : α}

theorem restores_ok : t.Restores (.ok a, u) := fun h => nomatch h

theorem restores_error : t.Restores ((.error e, t) : Call α) := fun _ => Same.refl t

theorem restores_error_iff : t.Restores ((.error e, u) : Call α) ↔ t.Same u :=
  ⟨fun h => h rfl, fun h _ => h⟩

theorem restores_attempt_iff {r : Except TokenError α} {k : α → Call β} :
    t.Restores (attempt t r k) ↔ ∀ a, r = .ok a → t.Restores (k a) := by
  cases r with
  | error e =>
    refine ⟨fun _ _ h => ?_, fun _ => restores_error⟩
    cases h
  | ok a =>
    constructor
    · intro h b hb
      cases hb
      exact h
    · intro h
      exact h a rfl

theorem restores_guard_iff {p : Prop} [Decidable p] {c : Call α} :
    t.Restores (if p then (.error e, t) else c) ↔ (¬ p → t.Restores c) := by
  by_cases hp : p
  · rw [if_pos hp]
    exact ⟨fun _ hn => absurd hp hn, fun _ => restores_error⟩
  · rw [if_neg hp]
    exact ⟨fun h _ => h, fun h => h hp⟩

theorem restores_map_iff {c : Call α} {g : α → β} :
    t.Restores (andThen c fun a s => (.ok (g a), s)) ↔ t.Restores c := by
  obtain ⟨e | a, s⟩ := c
  · exact Iff.rfl
  · exact ⟨fun _ => restores_ok, fun _ => restores_ok⟩

end

variable {caller src dst : Address} {id : UInt64}

theorem checkOwner_ok {x : Unit} : t.checkOwner caller = .ok x ↔ caller = t.owner :=
  ⟨eq_of_checkCaller, fun h => if_neg (not_not.mpr h)⟩

theorem checkNotZeroAddress_ok {x : Unit} :
    checkNotZeroAddress dst = .ok x ↔ dst ≠ ZERO_ADDRESS :=
  ⟨ne_zero_of_checkNotZero, fun h => if_neg h⟩

/-! ### Minting -/

theorem not_same_of_next_lt (h : t.nextTokenId.toNat < u.nextTokenId.toNat) : ¬ t.Same u := by
  intro hsame
  rw [hsame.nextTokenId] at h
  exact Nat.lt_irrefl _ h

theorem mint_restores_iff {uri : Option String} :
    t.Restores (t.mint caller dst uri) ↔ (t.Mints caller dst → t.Fits dst) := by
  rcases t.mint_cases caller dst uri with ⟨hmints, e, heq⟩ | ⟨hmints, hfits, e, u, heq, hnext⟩ |
    ⟨-, hfits, _, _, _, _, heq, -⟩ <;> rw [heq]
  · exact ⟨fun _ h => absurd h hmints, fun _ => restores_error⟩
  · rw [restores_error_iff]
    have hlt : t.nextTokenId.toNat < u.nextTokenId.toNat := by omega
    exact ⟨fun hsame => absurd hsame (not_same_of_next_lt hlt), fun h => absurd (h hmints) hfits⟩
  · exact ⟨fun _ _ => hfits, fun _ => restores_ok⟩

/-- The tokens of `to` once the next `minted` ids are among them. -/
def tokensWith (t : QN8Token) (dst : Address) (minted : Nat) : Finset UInt64 :=
  t.tokensOfOwner dst ∪ (range minted).image fun i => UInt64.ofNat (t.nextTokenId.toNat + i)

/-- After `minted` mints to the same address there is an id, and room in the
set and in the balance, for one more. -/
def RoomAfter (t : QN8Token) (dst : Address) (minted : Nat) : Prop :=
  t.nextTokenId.toNat + minted < U64_MAX.toNat ∧
    (t.tokensWith dst minted).card < MAX_TOKENS_PER_OWNER ∧
    (t.balanceOf dst).toNat + minted < U64_MAX.toNat

theorem lt_max_iff {n : UInt64} : n.toNat < U64_MAX.toNat ↔ n ≠ U64_MAX := by
  have hval : U64_MAX.toNat = 2 ^ 64 - 1 := rfl
  constructor
  · rintro h rfl
    exact Nat.lt_irrefl _ h
  · intro h
    have := toNat_succ_lt h
    omega

theorem roomAfter_zero : t.RoomAfter dst 0 ↔ t.nextTokenId ≠ U64_MAX ∧ t.Fits dst := by
  unfold RoomAfter tokensWith Fits
  rw [Nat.add_zero, Nat.add_zero, lt_max_iff, lt_max_iff, range_zero, image_empty, union_empty]

section

variable {next newBalance : UInt64} (hnext : next.toNat = t.nextTokenId.toNat + 1)
  (uris : Table (Prod.fst : UInt64 × String → UInt64)) (minted : Nat)

include hnext

theorem tokensWith_withToken :
    tokensWith { t.withToken dst next newBalance with tokenUris := uris } dst minted
      = t.tokensWith dst (minted + 1) := by
  have htokens : tokensOfOwner { t.withToken dst next newBalance with tokenUris := uris } dst
      = insert t.nextTokenId (t.tokensOfOwner dst) :=
    (tokensOfOwner_withToken t dst next newBalance dst).trans (if_pos rfl)
  have hid : ∀ i, UInt64.ofNat (next.toNat + i)
      = UInt64.ofNat (t.nextTokenId.toNat + (i + 1)) := by
    intro i
    rw [hnext, Nat.add_assoc, Nat.add_comm 1 i]
  unfold tokensWith
  rw [htokens]
  ext id
  simp only [mem_union, mem_insert, mem_image, mem_range]
  constructor
  · rintro ((rfl | hid') | ⟨i, hi, rfl⟩)
    · exact .inr ⟨0, Nat.succ_pos _, by rw [Nat.add_zero, UInt64.ofNat_toNat]⟩
    · exact .inl hid'
    · exact .inr ⟨i + 1, Nat.succ_lt_succ hi, (hid i).symm⟩
  · rintro (hid' | ⟨i, hi, rfl⟩)
    · exact .inl (.inr hid')
    · cases i with
      | zero => exact .inl (.inl (by rw [Nat.add_zero, UInt64.ofNat_toNat]))
      | succ i => exact .inr ⟨i, Nat.lt_of_succ_lt_succ hi, hid i⟩

theorem roomAfter_withToken (hnew : newBalance.toNat = (t.balanceOf dst).toNat + 1) :
    RoomAfter { t.withToken dst next newBalance with tokenUris := uris } dst minted
      ↔ t.RoomAfter dst (minted + 1) := by
  have hbalance : balanceOf { t.withToken dst next newBalance with tokenUris := uris } dst
      = newBalance :=
    (balanceOf_setBalance _ dst newBalance dst).trans (if_pos rfl)
  unfold RoomAfter
  rw [tokensWith_withToken hnext, hbalance, hnew]
  show next.toNat + minted < _ ∧ _ ↔ _
  rw [hnext, Nat.add_assoc, Nat.add_assoc, Nat.add_comm 1 minted]

end

section Loop

variable {uris : List String}

/-- The loop of `mint_batch`. -/
def mintEach (t : QN8Token) (caller dst : Address) (uris : List String) (is : List Nat) :
    Call (List (UInt64 × TokenEvent)) :=
  mapEach (fun t i => t.mint caller dst uris[i]?) t is

theorem mintEach_cons (i : Nat) (is : List Nat) : t.mintEach caller dst uris (i :: is)
    = andThen (t.mint caller dst uris[i]?) fun b s =>
        andThen (s.mintEach caller dst uris is) fun bs s => (.ok (b :: bs), s) := rfl

theorem next_le_mint (uri : Option String) :
    t.nextTokenId.toNat ≤ (t.mint caller dst uri).2.nextTokenId.toNat := by
  rcases t.mint_cases caller dst uri with ⟨-, _, heq⟩ | ⟨-, -, _, _, heq, hnext⟩ |
    ⟨-, -, _, next, _, _, heq, hnext, -⟩ <;> rw [heq]
  · rw [hnext]
    exact Nat.le_succ _
  · show _ ≤ next.toNat
    rw [hnext]
    exact Nat.le_succ _

theorem next_le_mintEach (is : List Nat) :
    t.nextTokenId.toNat ≤ (t.mintEach caller dst uris is).2.nextTokenId.toNat :=
  mapEach_keeps (I := fun u : QN8Token => t.nextTokenId.toNat ≤ u.nextTokenId.toNat)
    (J := fun _ _ => True)
    (fun _ i _ hu _ => hu.trans (next_le_mint uris[i]?)) (fun _ _ _ _ _ _ _ _ => trivial)
    (Nat.le_refl _) trivial

/-- Once the first mint of a loop has used up an id, no later step gives it
back. -/
theorem next_lt_mintEach (uris : List String) (hmints : t.Mints caller dst) (i : Nat)
    (is : List Nat) :
    t.nextTokenId.toNat < (t.mintEach caller dst uris (i :: is)).2.nextTokenId.toNat := by
  rw [mintEach_cons]
  rcases t.mint_cases caller dst uris[i]? with ⟨hnot, -⟩ | ⟨-, -, e, u, heq, hnext⟩ |
    ⟨-, -, b, next, newBalance, uris', heq, hnext, -⟩
  · exact absurd hmints hnot
  · rw [heq]
    show _ < u.nextTokenId.toNat
    omega
  · rw [heq]
    have hfirst : t.nextTokenId.toNat < next.toNat := by omega
    show t.nextTokenId.toNat < (andThen (mintEach _ caller dst uris is) _).2.nextTokenId.toNat
    refine andThen_keeps (I := fun u : QN8Token => t.nextTokenId.toNat < u.nextTokenId.toNat) ?_
      fun _ _ h => h
    exact Nat.lt_of_lt_of_le hfirst
      (next_le_mintEach (t := { t.withToken dst next newBalance with tokenUris := uris' }) is)

/-- A loop of the owner goes through when every step finds room. -/
theorem mintEach_isOk_iff (uris : List String) (hzero : dst ≠ ZERO_ADDRESS) (is : List Nat) :
    ∀ {t : QN8Token}, caller = t.owner →
      ((t.mintEach caller dst uris is).1.isOk = true ↔ ∀ j < is.length, t.RoomAfter dst j) := by
  induction is with
  | nil => exact fun _ => ⟨fun _ j hj => absurd hj (Nat.not_lt_zero j), fun _ => rfl⟩
  | cons i is ih =>
    intro t howner
    rw [mintEach_cons]
    rcases t.mint_cases caller dst uris[i]? with ⟨hnot, e, heq⟩ | ⟨-, hnot, e, u, heq, -⟩ |
      ⟨hmints, hfits, b, next, newBalance, uris', heq, hnext, hnew⟩ <;> rw [heq]
    · refine ⟨fun h => (by cases h), fun h => ?_⟩
      have hroom := roomAfter_zero.mp (h 0 (Nat.succ_pos _))
      exact absurd ⟨howner, hzero, hroom.1⟩ hnot
    · refine ⟨fun h => (by cases h), fun h => ?_⟩
      exact absurd (roomAfter_zero.mp (h 0 (Nat.succ_pos _))).2 hnot
    · have hrest := ih (t := { t.withToken dst next newBalance with tokenUris := uris' }) howner
      have hfirst : t.RoomAfter dst 0 := roomAfter_zero.mpr ⟨hmints.2.2, hfits⟩
      have hmap : (andThen ((QN8Token.mintEach
            { t.withToken dst next newBalance with tokenUris := uris' } caller dst uris is))
          fun bs s => (Except.ok (b :: bs), s)).1.isOk
          = (QN8Token.mintEach { t.withToken dst next newBalance with tokenUris := uris' }
            caller dst uris is).1.isOk := by
        rcases QN8Token.mintEach { t.withToken dst next newBalance with tokenUris := uris' }
          caller dst uris is with ⟨_ | _, _⟩ <;> rfl
      refine Iff.trans (Iff.trans (by rw [← hmap]; rfl) hrest) ?_
      constructor
      · intro h j hj
        cases j with
        | zero => exact hfirst
        | succ j =>
          exact (roomAfter_withToken hnext uris' j hnew).mp (h j (Nat.lt_of_succ_lt_succ hj))
      · intro h j hj
        exact (roomAfter_withToken hnext uris' j hnew).mpr (h (j + 1) (Nat.succ_lt_succ hj))

theorem mintEach_restores_iff (hmints : t.Mints caller dst) (is : List Nat) :
    t.Restores (t.mintEach caller dst uris is) ↔ ∀ j < is.length, t.RoomAfter dst j := by
  rw [← mintEach_isOk_iff uris hmints.2.1 is hmints.1]
  cases is with
  | nil => exact ⟨fun _ => rfl, fun _ => restores_ok⟩
  | cons i is =>
    have hlt := next_lt_mintEach uris hmints i is
    constructor
    · intro h
      by_contra hfail
      exact not_same_of_next_lt hlt (h (by simpa using hfail))
    · intro hok hfail
      rw [hok] at hfail
      cases hfail

end Loop

/-- A batch of nothing answers `Ok`, and a batch that may not mint its first
token leaves nothing behind. -/
theorem mintBatch_restores_iff {count : UInt64} {uris : List String} :
    t.Restores (t.mintBatch caller dst count uris) ↔ (t.Mints caller dst → count ≤ MAX_BATCH_SIZE →
          ∀ j < count.toNat, t.RoomAfter dst j) := by
  unfold mintBatch
  rw [restores_attempt_iff]
  simp only [checkOwner_ok, restores_guard_iff, gt_iff_lt, UInt64.not_lt, restores_map_iff]
  have hloop : ∀ hmints : t.Mints caller dst,
      t.Restores (t.mintEach caller dst uris (List.range count.toNat))
        ↔ ∀ j < count.toNat, t.RoomAfter dst j := by
    intro hmints
    rw [mintEach_restores_iff hmints, List.length_range]
  constructor
  · intro h hmints hcount
    exact (hloop hmints).mp (h () hmints.1 hcount)
  · intro h _ howner hcount
    by_cases hmints : t.Mints caller dst
    · exact (hloop hmints).mpr (h hmints hcount)
    show t.Restores (t.mintEach caller dst uris (List.range count.toNat))
    cases List.range count.toNat with
    | nil => exact restores_ok
    | cons i is =>
      rw [mintEach_cons]
      rcases t.mint_cases caller dst uris[i]? with ⟨-, e, heq⟩ | ⟨hm, -⟩ | ⟨hm, -⟩
      · rw [heq]
        exact restores_error
      · exact absurd hm hmints
      · exact absurd hm hmints

/-! ### Burning -/

/-- The checks of `burn` let the call through. -/
def Burns (t : QN8Token) (caller : Address) (tokenId : UInt64) (owner : Address) : Prop :=
  t.ownerOf tokenId = .ok owner ∧ t.isApprovedOrOwner caller tokenId = .ok true

theorem not_same_forget {owner : Address} (howned : id ∈ t.ownedBy owner) :
    ¬ t.Same (t.forget owner id) := by
  intro hsame
  have hframe : (t.forget owner id).owners = t.owners.erase id := (removeOwnerToken_frame ..).1
  have hget := hsame.owners id
  rw [hframe, get_erase, if_pos rfl, mem_ownedBy.mp howned] at hget
  cases hget

theorem burn_restores_iff : t.Restores (t.burn caller id)
    ↔ ∀ owner, t.Burns caller id owner → t.balanceOf owner ≠ 0 := by
  unfold burn
  simp only [restores_attempt_iff, restores_guard_iff, Bool.not_eq_true', Bool.not_eq_false]
  refine ⟨fun h owner hburns hzero => ?_, fun h owner howner approved happroved htrue => ?_⟩
  all_goals
    have hsame : ∀ owner, (t.forget owner id).balanceOf owner = t.balanceOf owner := by
      intro owner
      simp only [balanceOf, forget_frame]
  · have hlate := h owner hburns.1 true hburns.2 rfl
    rw [hsame, hzero] at hlate
    exact not_same_forget (ownerOf_ok.mp hburns.1) (restores_error_iff.mp hlate)
  · subst htrue
    rcases checkedSub64_one (t.balanceOf owner) with ⟨hzero, -⟩ | ⟨-, new, hsub, -⟩
    · exact absurd hzero (h owner ⟨howner, happroved⟩)
    · rw [hsame, hsub]
      exact restores_ok

/-! ### Transfers -/

/-- What a refused transfer has written was there before: an unapproved
token goes to its own owner, and the set of the owner ends as it was. At the
limit the token is taken out and not put back, below it is put back. -/
def Idle (t : QN8Token) (src dst : Address) (id : UInt64) : Prop :=
  dst = src ∧ t.getApproved id = none
    ∧ (id ∈ t.tokensOfOwner src ↔ (t.others src dst id).card < MAX_TOKENS_PER_OWNER)

theorem stalled_eq : t.stalled src dst id
    = { t.rewritten dst id with ownerTokens := (t.stalled src dst id).ownerTokens } := by
  unfold stalled
  split
  · exact rehome_eq ..
  · rw [addOwnerToken, rehome_eq]

theorem get_dropOwnerToken_of_ne {owner a : Address} (h : owner ≠ a) :
    (t.dropOwnerToken owner id).ownerTokens.get a = t.ownerTokens.get a := by
  unfold dropOwnerToken
  cases t.ownerTokens.get owner with
  | none => rfl
  | some row =>
    dsimp only
    split
    · exact (get_erase ..).trans (if_neg h)
    · exact get_put_of_ne _ h

/-- Taking a token out of a set of others that does not have it changes
nothing. -/
theorem get_dropOwnerToken_of_notMem {owner : Address} (hmem : id ∉ t.tokensOfOwner owner)
    (hne : t.tokensOfOwner owner ≠ ∅) (a : Address) :
    (t.dropOwnerToken owner id).ownerTokens.get a = t.ownerTokens.get a := by
  by_cases ha : owner = a
  · subst ha
    unfold dropOwnerToken
    cases hget : t.ownerTokens.get owner with
    | none => exact hget
    | some row =>
      rw [tokensOfOwner_of_get hget] at hmem hne
      dsimp only
      rw [erase_eq_of_notMem hmem, if_neg hne]
      refine (get_put ..).trans ((if_pos rfl).trans ?_)
      rw [← key_of_get hget]
  · exact get_dropOwnerToken_of_ne ha

section

variable (howned : id ∈ t.ownedBy src)

include howned

theorem get_put_owner (k : UInt64) : (t.owners.put (id, src)).get k = t.owners.get k := by
  rw [get_put]
  split
  · rename_i hk
    rw [← hk, mem_ownedBy.mp howned]
  · rfl

/-- A refused transfer has changed nothing but the sets when the token goes
to its own owner and no approval is dropped, and only then. -/
theorem same_stalled_sets_iff : t.Same (t.stalled src dst id) ↔
    dst = src ∧ t.getApproved id = none ∧
      ∀ a, (t.stalled src dst id).ownerTokens.get a = t.ownerTokens.get a := by
  have hunapproved : t.getApproved id = none ↔ t.tokenApprovals.get id = none :=
    Option.map_eq_none_iff
  rw [hunapproved]
  constructor
  · intro hsame
    have howner := hsame.owners id
    have happroved := hsame.tokenApprovals id
    rw [stalled_eq] at howner happroved
    have hput : (t.owners.put (id, dst)).get id = some (id, dst) := get_put_self ..
    have hgone : (t.tokenApprovals.erase id).get id = none := by rw [get_erase, if_pos rfl]
    have heq := (hput.symm.trans howner).trans (mem_ownedBy.mp howned)
    exact ⟨(Prod.mk.inj (Option.some.inj heq)).2, happroved.symm.trans hgone, hsame.ownerTokens⟩
  · rintro ⟨rfl, hnone, htokens⟩
    have hkept : ∀ k, (t.tokenApprovals.erase id).get k = t.tokenApprovals.get k := by
      intro k
      rw [get_erase]
      split
      · rename_i hk
        rw [← hk, hnone]
      · rfl
    refine ⟨by rw [stalled_eq]; rfl, ?_, htokens, ?_, ?_, ?_, ?_⟩ <;> rw [stalled_eq]
    · exact get_put_owner howned
    · exact fun _ => rfl
    · exact hkept
    · exact fun _ => rfl
    · exact fun _ => rfl

theorem same_stalled_iff : t.Same (t.stalled src dst id) ↔ t.Idle src dst id := by
  rw [same_stalled_sets_iff howned, Idle]
  refine and_congr_right fun hto => and_congr_right fun _ => ?_
  subst hto
  have hothers : t.others dst dst id = (t.tokensOfOwner dst).erase id := if_pos rfl
  have hset : (t.rehome dst dst id).tokensOfOwner dst = (t.tokensOfOwner dst).erase id :=
    (t.tokensOfOwner_rehome dst dst id dst).trans (if_pos rfl)
  unfold stalled
  rw [hothers]
  split
  · -- at the limit the token is taken out: it must not have been in the set
    rename_i hfull
    constructor
    · intro htokens
      have hsame : (t.rehome dst dst id).tokensOfOwner dst = t.tokensOfOwner dst := by
        rw [QN8Token.tokensOfOwner, htokens]
        rfl
      rw [hset] at hsame
      exact iff_of_false (fun hmem => notMem_erase id _ (hsame ▸ hmem)) (Nat.not_lt.mpr hfull)
    · intro hiff
      have hmem : id ∉ t.tokensOfOwner dst := fun hmem => Nat.not_lt.mpr hfull (hiff.mp hmem)
      have hne : t.tokensOfOwner dst ≠ ∅ := by
        intro hempty
        rw [hempty, erase_empty, card_empty] at hfull
        exact absurd hfull (by decide)
      exact get_dropOwnerToken_of_notMem (t := t.rewritten dst id) hmem hne
  · -- below it the token is put back: it must have been there
    rename_i hlimit
    constructor
    · intro htokens
      have hsame : ((t.rehome dst dst id).addOwnerToken dst id).tokensOfOwner dst
          = t.tokensOfOwner dst := by
        rw [QN8Token.tokensOfOwner, htokens]
        rfl
      rw [tokensOfOwner_addOwnerToken, if_pos rfl] at hsame
      exact iff_of_true (hsame ▸ mem_insert_self _ _) (Nat.not_le.mp hlimit)
    · intro hiff a
      have hmem : id ∈ t.tokensOfOwner dst := hiff.mpr (Nat.not_le.mp hlimit)
      show ((t.rehome dst dst id).ownerTokens.put _).get a = _
      rw [get_put]
      split
      · rename_i ha
        dsimp only at ha
        rw [hset, insert_erase hmem, ← ha]
        cases hget : t.ownerTokens.get dst with
        | none => simp [QN8Token.tokensOfOwner, hget] at hmem
        | some row => rw [tokensOfOwner_of_get hget, ← key_of_get hget]
      · rename_i ha
        exact get_dropOwnerToken_of_ne (t := t.rewritten dst id) ha

theorem moveToken_restores_iff : t.Restores (t.moveToken src dst id)
    ↔ (t.Stalls src dst id → t.Idle src dst id) := by
  rcases t.moveToken_cases src dst id with ⟨hstalls, e, heq⟩ | ⟨hgoes, _, _, heq, -⟩ <;>
    rw [heq]
  · rw [restores_error_iff, same_stalled_iff howned]
    exact ⟨fun h _ => h, fun h => h hstalls⟩
  · exact ⟨fun _ h => absurd h hgoes, fun _ => restores_ok⟩

end

theorem transferFrom_restores_iff : t.Restores (t.transferFrom caller src dst id)
    ↔ (t.Transfers caller src dst id → t.Stalls src dst id → t.Idle src dst id) := by
  unfold transferFrom
  simp only [restores_attempt_iff, restores_guard_iff, checkNotZeroAddress_ok,
    Bool.not_eq_true', Bool.not_eq_false, ne_eq, not_not]
  constructor
  · rintro h ⟨hzero, happroved, howner⟩
    have hmove := h () hzero true happroved rfl src howner rfl
    exact (moveToken_restores_iff (ownerOf_ok.mp howner)).mp hmove
  · rintro h _ hzero approved happroved rfl owner howner rfl
    exact (moveToken_restores_iff (ownerOf_ok.mp howner)).mpr (h ⟨hzero, happroved, howner⟩)

theorem safeTransferFrom_restores_iff : t.Restores (t.safeTransferFrom caller src dst id)
    ↔ (t.reentrancyGuard = false → dst ≠ ZERO_ADDRESS) ∧
      (t.Guarded dst → t.Transfers caller src dst id → t.Stalls src dst id →
        t.Idle src dst id) := by
  rcases t.safeTransferFrom_cases caller src dst id with ⟨hrefused, hzero, _, heq⟩ |
    ⟨hdown, hzero, _, heq⟩ | ⟨hguarded, hzero, heq⟩ <;> rw [heq]
  · exact iff_of_true restores_error ⟨hzero, fun h => absurd h hrefused⟩
  · refine iff_of_false (fun h => ?_) fun h => h.1 hdown hzero
    have hguard := (h rfl).reentrancyGuard
    rw [hdown] at hguard
    cases hguard
  · rw [transferFrom_restores_iff]
    exact ⟨fun h => ⟨fun _ => hzero, fun _ => h⟩, fun h => h.2 hguarded⟩

end QN8Token

/-! ## Every call -/

namespace NftCall

open QN8Token

/-- The call, if it answers an error, leaves the collection it was made on.
The calls that answer no error are not asked. -/
def Restores (t : QN8Token) : NftCall → Prop
  | mint caller dst uri => t.Restores (t.mint caller dst uri)
  | mintBatch caller dst count uris => t.Restores (t.mintBatch caller dst count uris)
  | transferFrom caller src dst id => t.Restores (t.transferFrom caller src dst id)
  | safeTransferFrom caller src dst id =>
    t.Restores (t.safeTransferFrom caller src dst id)
  | burn caller id => t.Restores (t.burn caller id)
  | approve caller dst id => t.Restores (t.approve caller dst id)
  | setApprovalForAll caller operator approved =>
    t.Restores (t.setApprovalForAll caller operator approved)
  | transferOwnership caller newOwner => t.Restores (t.transferOwnership caller newOwner)
  | acceptOwnership caller => t.Restores (t.acceptOwnership caller)
  | registerContract _ | registerNftReceiver _ => True

/-- No error exit behind a write is taken, or nothing was really written. -/
def Harmless (t : QN8Token) : NftCall → Prop
  | mint caller dst _ => t.Mints caller dst → t.Fits dst
  | mintBatch caller dst count _ => t.Mints caller dst → count ≤ MAX_BATCH_SIZE →
      ∀ j < count.toNat, t.RoomAfter dst j
  | transferFrom caller src dst id =>
    t.Transfers caller src dst id → t.Stalls src dst id → t.Idle src dst id
  | safeTransferFrom caller src dst id =>
    (t.reentrancyGuard = false → dst ≠ ZERO_ADDRESS) ∧
      (t.Guarded dst → t.Transfers caller src dst id → t.Stalls src dst id →
        t.Idle src dst id)
  | burn caller id => ∀ owner, t.Burns caller id owner → t.balanceOf owner ≠ 0
  | _ => True

end NftCall

/-- For every collection and every call on it: the call leaves the collection
as it was whenever it fails, exactly when `Harmless` holds of the call. -/
theorem failed_calls_change_nothing_iff (t : QN8Token) (c : NftCall) :
    c.Restores t ↔ c.Harmless t := by
  cases c with
  | mint => exact QN8Token.mint_restores_iff
  | mintBatch => exact QN8Token.mintBatch_restores_iff
  | transferFrom => exact QN8Token.transferFrom_restores_iff
  | safeTransferFrom => exact QN8Token.safeTransferFrom_restores_iff
  | burn => exact QN8Token.burn_restores_iff
  | approve =>
    refine iff_of_true ?_ trivial
    exact QN8Token.restores_attempt_iff.mpr fun _ _ =>
      QN8Token.restores_guard_iff.mpr fun _ => QN8Token.restores_ok
  | setApprovalForAll =>
    exact iff_of_true (QN8Token.restores_guard_iff.mpr fun _ => QN8Token.restores_ok) trivial
  | transferOwnership =>
    refine iff_of_true ?_ trivial
    exact QN8Token.restores_attempt_iff.mpr fun _ _ =>
      QN8Token.restores_attempt_iff.mpr fun _ _ => QN8Token.restores_ok
  | acceptOwnership =>
    exact iff_of_true (QN8Token.restores_guard_iff.mpr fun _ => QN8Token.restores_ok) trivial
  | registerContract => exact Iff.rfl
  | registerNftReceiver => exact Iff.rfl

/-- The transfer is refused, and so is every later safe transfer. -/
theorem refused_transfer_keeps_guard :
    (sampleCollection.safeTransferFrom 1 1 0 1).1.isOk = false ∧
      (sampleCollection.safeTransferFrom 1 1 0 1).2.reentrancyGuard
        ≠ sampleCollection.reentrancyGuard := by
  decide

end Quantos
