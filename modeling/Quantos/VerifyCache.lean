import Quantos.Memo
import Quantos.Platform

/-!
# The signature verification cache

`verify_ml_dsa_65` of `crypto/ml_dsa.rs` behind the global `VerifyCache` of
`crypto/precomputed.rs`. The cache key is the SHA3-256 digest of public
key, message and signature written one after another, with nothing to mark
where one ends and the next begins. A byte string can be cut into such a
triple in many ways, and all of them share one cache entry.

SHA3-256 and the ML-DSA-65 primitive are third-party code; they are the
parameters `sha3` and `verifyDetached`.
-/

namespace Quantos

open List

def MLDSA65_PUBLIC_KEY_SIZE : Nat := 1952

def MLDSA65_SIGNATURE_SIZE : Nat := 3309

/-- The arguments of one `verify_ml_dsa_65` call. -/
structure VerifyCall where
  publicKey : Bytes
  message : Bytes
  signature : Bytes

/-- What the hasher is fed. -/
def VerifyCall.hashed (c : VerifyCall) : Bytes := c.publicKey ++ c.message ++ c.signature

abbrev VerifyCache := Memo.Cache Hash Bool

section

variable (sha3 : Bytes → Hash) (verifyDetached : VerifyCall → Bool)
  (cache : VerifyCache) (c : VerifyCall) (history : List (VerifyCall × (Hash → Bool)))

/-- The closure passed to the cache: `from_bytes` fails on a wrong length. -/
def verifyUncached : Bool :=
  if c.publicKey.length ≠ MLDSA65_PUBLIC_KEY_SIZE then false
  else if c.signature.length ≠ MLDSA65_SIGNATURE_SIZE then false
  else verifyDetached c

def verifyMlDsa65 : Bool × VerifyCache :=
  Memo.getOrCompute cache (sha3 c.hashed) (verifyUncached verifyDetached c)

/-- The cache after earlier calls, each followed by an eviction of the
entries whose key fails a test. -/
def cacheAfter : VerifyCache :=
  history.foldl (fun cache q =>
    Memo.evict q.2 (verifyMlDsa65 sha3 verifyDetached cache q.1).2) Table.empty

theorem verifyMlDsa65_eq_query : verifyMlDsa65 sha3 verifyDetached cache c
      = Memo.query (fun c => sha3 c.hashed) (verifyUncached verifyDetached) cache c :=
  rfl

theorem cacheAfter_eq_after : cacheAfter sha3 verifyDetached history
      = Memo.after (fun c => sha3 c.hashed) (verifyUncached verifyDetached) Table.empty history :=
  rfl

/-- Verification is independent of the calls before it, under every
eviction behaviour, if and only if no earlier call fed the same bytes to
the hasher with another verdict. -/
theorem verifyMlDsa65_independent_iff (calls : List VerifyCall) (c : VerifyCall)
    (hsha3 : Set.InjOn sha3 { bytes | ∃ d ∈ c :: calls, bytes = d.hashed }) :
    (∀ history : List (VerifyCall × (Hash → Bool)), history.map Prod.fst = calls →
      (verifyMlDsa65 sha3 verifyDetached (cacheAfter sha3 verifyDetached history) c).1
        = verifyUncached verifyDetached c) ↔ ∀ d ∈ calls, d.hashed = c.hashed →
          verifyUncached verifyDetached d = verifyUncached verifyDetached c := by
  simp only [cacheAfter_eq_after, verifyMlDsa65_eq_query]
  rw [Memo.answer_iff]
  refine forall₂_congr fun d hd => imp_congr ?_ Iff.rfl
  exact ⟨fun h => hsha3 ⟨d, mem_cons_of_mem _ hd, rfl⟩ ⟨c, mem_cons_self, rfl⟩ h,
    fun h => congrArg sha3 h⟩

end

/-- A well-formed call, and the same bytes with the first byte of the
signature counted to the message. -/
def wholeCall : VerifyCall := ⟨List.replicate 1952 0, [], List.replicate 3309 0⟩

@[inherit_doc wholeCall]
def shiftedCall : VerifyCall := ⟨List.replicate 1952 0, [0], List.replicate 3308 0⟩

theorem shiftedCall_hashed : shiftedCall.hashed = wholeCall.hashed := by
  unfold VerifyCall.hashed shiftedCall wholeCall
  rw [append_nil, append_assoc, singleton_append, ← replicate_succ]

/-- Once the whole call has been verified, the shifted one is accepted
although its signature has the wrong length. -/
theorem shifted_call_accepted :
    Set.InjOn digitHash { bytes | ∃ d ∈ [shiftedCall, wholeCall], bytes = d.hashed } ∧
    (verifyMlDsa65 digitHash (fun _ => true)
        (cacheAfter digitHash (fun _ => true) [(wholeCall, fun _ => true)]) shiftedCall).1 = true ∧
    verifyUncached (fun _ => true) shiftedCall = false := by
  refine ⟨?_, ?_, ?_⟩
  · rintro _ ⟨d, hd, rfl⟩ _ ⟨_, hd', rfl⟩ -
    simp only [mem_cons, not_mem_nil, or_false] at hd hd'
    rcases hd with rfl | rfl <;> rcases hd' with rfl | rfl <;> simp [shiftedCall_hashed]
  · have hwhole : verifyUncached (fun _ => true) wholeCall = true := by
      simp only [verifyUncached, wholeCall, length_replicate, MLDSA65_PUBLIC_KEY_SIZE,
        MLDSA65_SIGNATURE_SIZE, ne_eq, not_true, if_false]
    have hget := Table.get_put_self (Table.empty : VerifyCache)
      (digitHash wholeCall.hashed, true)
    simp only [cacheAfter, verifyMlDsa65, Memo.getOrCompute, foldl_cons, foldl_nil,
      Table.get_empty, hwhole, Memo.evict_keep_all, shiftedCall_hashed, hget]
  · simp only [verifyUncached, shiftedCall, length_replicate, MLDSA65_PUBLIC_KEY_SIZE,
      MLDSA65_SIGNATURE_SIZE, ne_eq, not_true, if_false]
    rfl

/-- Repeating a call is harmless. -/
theorem repeated_call_independent :
    Set.InjOn digitHash { bytes | ∃ d ∈ [wholeCall, wholeCall], bytes = d.hashed } ∧
    ∀ history : List (VerifyCall × (Hash → Bool)), history.map Prod.fst = [wholeCall] →
      (verifyMlDsa65 digitHash (fun _ => true)
          (cacheAfter digitHash (fun _ => true) history) wholeCall).1
        = verifyUncached (fun _ => true) wholeCall := by
  have hinj : Set.InjOn digitHash { bytes | ∃ d ∈ [wholeCall, wholeCall], bytes = d.hashed } := by
    rintro _ ⟨d, hd, rfl⟩ _ ⟨_, hd', rfl⟩ -
    simp only [mem_cons, not_mem_nil, or_false, or_self] at hd hd'
    rw [hd, hd']
  refine ⟨hinj, (verifyMlDsa65_independent_iff digitHash (fun _ => true) [wholeCall] wholeCall
    hinj).mpr fun d hd _ => ?_⟩
  rw [mem_singleton.mp hd]

end Quantos
