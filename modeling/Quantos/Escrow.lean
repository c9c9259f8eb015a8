import Quantos.Runs
import Mathlib.Data.List.Nodup

/-!
# Escrowed transfers

A transfer is opened, may be credited to its receiver, and is closed: it
either goes through or is refunded to its sender. The book knows which
transfers are open and whether they were credited, and keeps the events.

What is wanted of every run (`Safe`): no transfer is both credited and
refunded, and none is closed twice. Two rules are enough (`Proper`): a
transfer is opened under a key that was never used, and none is refunded
after it was credited.
-/

namespace Escrow

open Function List

inductive Event (κ : Type) where
  | credited (k : κ)
  | closed (k : κ) (refunded : Bool)

inductive Op (κ : Type) where
  | open (k : κ)
  | credit (k : κ)
  | close (k : κ) (refund : Bool)

/-- An open transfer is `some c` with `c` telling whether it was credited. -/
structure Book (κ : Type) where
  state : κ → Option Bool
  events : List (Event κ)

variable {κ : Type} [DecidableEq κ]

def empty : Book κ := ⟨fun _ => none, []⟩

/-- Only an open transfer is credited or closed. -/
def step (b : Book κ) : Op κ → Book κ
  | .open k => { b with state := Function.update b.state k (some false) }
  | .credit k =>
    if b.state k = none then b
    else ⟨Function.update b.state k (some true), b.events ++ [.credited k]⟩
  | .close k refund =>
    if b.state k = none then b
    else ⟨Function.update b.state k none, b.events ++ [.closed k refund]⟩

def closedKeys (events : List (Event κ)) : List κ :=
  events.filterMap fun
    | .closed k _ => some k
    | .credited _ => none

variable {events : List (Event κ)} {k : κ}

omit [DecidableEq κ] in
theorem mem_closedKeys : k ∈ closedKeys events ↔ ∃ refunded, .closed k refunded ∈ events := by
  simp only [closedKeys, mem_filterMap]
  constructor
  · rintro ⟨e, he, hk⟩
    cases e with
    | credited => cases hk
    | closed k' refunded =>
      obtain rfl := Option.some.inj hk
      exact ⟨refunded, he⟩
  · rintro ⟨refunded, he⟩
    exact ⟨_, he, rfl⟩

structure Safe (b : Book κ) : Prop where
  creditedOrRefunded : ∀ k, .credited k ∈ b.events → .closed k true ∉ b.events
  closedOnce : (closedKeys b.events).Nodup

def Proper (b : Book κ) : Op κ → Prop
  | .open k => b.state k = none ∧ k ∉ closedKeys b.events
  | .credit _ => True
  | .close k refund => refund = true → b.state k ≠ some true

/-- What the two rules maintain: what is open was not closed, and what was
credited is open as such or has gone through. -/
structure Kept (b : Book κ) : Prop where
  closedOnce : (closedKeys b.events).Nodup
  openNotClosed : ∀ k, b.state k ≠ none → k ∉ closedKeys b.events
  credited : ∀ k, .credited k ∈ b.events → b.state k = some true ∨ .closed k false ∈ b.events

omit [DecidableEq κ] in
/-- One closing per key: it cannot have gone through and been refunded. -/
theorem not_refunded_of_nodup (h : (closedKeys events).Nodup) (hdone : .closed k false ∈ events) :
    .closed k true ∉ events := by
  induction events with
  | nil => exact absurd hdone not_mem_nil
  | cons e events ih =>
    intro hrefund
    cases e with
    | credited =>
      refine ih h ?_ ?_
      · exact (mem_cons.mp hdone).resolve_left (fun h => nomatch h)
      · exact (mem_cons.mp hrefund).resolve_left (fun h => nomatch h)
    | closed k' =>
      have hnodup : k' ∉ closedKeys events ∧ (closedKeys events).Nodup := nodup_cons.mp h
      rcases mem_cons.mp hdone with hhead | hdone'
      · rcases mem_cons.mp hrefund with hhead' | hrefund'
        · cases hhead.trans hhead'.symm
        · cases hhead
          exact hnodup.1 (mem_closedKeys.mpr ⟨true, hrefund'⟩)
      · rcases mem_cons.mp hrefund with hhead' | hrefund'
        · cases hhead'
          exact hnodup.1 (mem_closedKeys.mpr ⟨false, hdone'⟩)
        · exact ih hnodup.2 hdone' hrefund'

variable {b : Book κ}

omit [DecidableEq κ] in
theorem Kept.safe (h : Kept b) : Safe b where
  creditedOrRefunded := fun k hk hrefund => by
    rcases h.credited k hk with hopen | hdone
    · exact h.openNotClosed k (hopen ▸ Option.some_ne_none _) (mem_closedKeys.mpr ⟨true, hrefund⟩)
    · exact not_refunded_of_nodup h.closedOnce hdone hrefund
  closedOnce := h.closedOnce

omit [DecidableEq κ] in
theorem kept_empty : Kept (empty : Book κ) :=
  ⟨nodup_nil, fun _ h => absurd rfl h, fun _ h => absurd h not_mem_nil⟩

theorem closedKeys_credit (b : Book κ) (k : κ) :
    closedKeys (step b (.credit k)).events = closedKeys b.events := by
  show closedKeys (if b.state k = none then b else _).events = _
  split
  · rfl
  unfold closedKeys
  rw [filterMap_append]
  exact append_nil _

theorem closedKeys_close (hopen : b.state k ≠ none) (refund : Bool) :
    closedKeys (step b (.close k refund)).events = closedKeys b.events ++ [k] := by
  show closedKeys (if b.state k = none then b else _).events = _
  rw [if_neg hopen]
  unfold closedKeys
  rw [filterMap_append]
  rfl

variable {refund : Bool}

theorem mem_closedKeys_close {k' : κ} (hne : k' ≠ k)
    (h : k' ∈ closedKeys (step b (.close k refund)).events) : k' ∈ closedKeys b.events := by
  by_cases hopen : b.state k = none
  · rwa [show step b (.close k refund) = b from if_pos hopen] at h
  · rw [closedKeys_close hopen] at h
    exact (mem_append.mp h).resolve_right fun h => hne (mem_singleton.mp h)

theorem kept_open (h : Kept b) (hk : Proper b (.open k)) :
    Kept (step b (.open k)) where
  closedOnce := h.closedOnce
  openNotClosed := fun k' hk' => by
    by_cases heq : k' = k
    · exact heq ▸ hk.2
    refine h.openNotClosed k' ?_
    rwa [show (step b (.open k)).state k' = b.state k' from update_of_ne heq _ _] at hk'
  credited := fun k' hk' => by
    rcases h.credited k' hk' with hopen | hdone
    · refine .inl ((update_of_ne ?_ _ _).trans hopen)
      rintro rfl
      rw [hk.1] at hopen
      cases hopen
    · exact .inr hdone

theorem kept_credit (h : Kept b) (k : κ) : Kept (step b (.credit k)) := by
  show Kept (if b.state k = none then b else _)
  split
  · exact h
  rename_i hopen
  have hkeys := closedKeys_credit b k
  rw [show step b (.credit k) = _ from if_neg hopen] at hkeys
  refine ⟨hkeys ▸ h.closedOnce, fun k' hk' => ?_, fun k' hk' => ?_⟩
  · rw [hkeys]
    by_cases heq : k' = k
    · exact heq ▸ h.openNotClosed k hopen
    · exact h.openNotClosed k' fun hnone => hk' ((update_of_ne heq _ _).trans hnone)
  · by_cases heq : k' = k
    · subst heq
      exact .inl (update_self _ _ _)
    · rcases mem_append.mp hk' with hk' | hk'
      · exact (h.credited k' hk').imp (fun hopen => (update_of_ne heq _ _).trans hopen)
          (fun hdone => mem_append_left _ hdone)
      · cases mem_singleton.mp hk'
        exact absurd rfl heq

theorem kept_close (h : Kept b) (hk : Proper b (.close k refund)) :
    Kept (step b (.close k refund)) := by
  show Kept (if b.state k = none then b else _)
  split
  · exact h
  rename_i hopen
  have hkeys := closedKeys_close hopen refund
  rw [show step b (.close k refund) = _ from if_neg hopen] at hkeys
  refine ⟨?_, fun k' hk' => ?_, fun k' hk' => ?_⟩
  · rw [hkeys, ← concat_eq_append, nodup_concat]
    exact ⟨h.openNotClosed k hopen, h.closedOnce⟩
  · have hne : k' ≠ k := by
      rintro rfl
      exact hk' (update_self _ _ _)
    have hopen' : b.state k' ≠ none := fun hnone =>
      hk' ((update_of_ne hne _ _).trans hnone)
    rw [hkeys, mem_append, mem_singleton]
    exact not_or.mpr ⟨h.openNotClosed k' hopen', hne⟩
  · have hk'' : .credited k' ∈ b.events := by
      rcases mem_append.mp hk' with hk' | hk'
      · exact hk'
      · cases mem_singleton.mp hk'
    rcases h.credited k' hk'' with hcredited | hdone
    · by_cases heq : k' = k
      · -- the transfer being closed was credited, so it is not refunded
        subst heq
        cases refund with
        | true => exact absurd hcredited (hk rfl)
        | false => exact .inr (mem_append_right _ mem_cons_self)
      · exact .inl ((update_of_ne heq _ _).trans hcredited)
    · exact .inr (mem_append_left _ hdone)

end Escrow
