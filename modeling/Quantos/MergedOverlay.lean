import Quantos.Groups

/-!
# Reading a merged overlay

The merge loop combines the versions of an account that the groups left
behind. Read through `look`, the merged overlay has a closed form in which
the groups that did not touch an account drop out by themselves: a field
that is merged by differences is the base plus the sum of the differences
over all groups (`look_merged_field`), and a validator flag is set if a
version sets it. The differences are taken in `u128`; `toNat_diffs` is the
way back to the integers.
-/

namespace Quantos

open StateManager List Table

/-- The overlay the merge loop builds over a view. -/
def merged {txs : List SignedTransaction} (v : Address → Account) (schedule : Schedule txs)
    (overlays : Address → AccountTable) : AccountTable :=
  empty.mergeAll (mergeOver v) (contributions schedule overlays)

/-- The versions of one account, group by group. -/
def versions {txs : List SignedTransaction} (schedule : Schedule txs)
    (overlays : Address → AccountTable) (a : Address) : List Account :=
  schedule.groups.filterMap fun g => (overlays g).get a

section

variable {txs : List SignedTransaction} {v : Address → Account} {schedule : Schedule txs}
  {overlays : Address → AccountTable} {a : Address}

theorem contributions_filter :
    ((contributions schedule overlays).filter fun acc => acc.address = a)
      = versions schedule overlays a := by
  unfold contributions versions
  rw [filter_flatMap, filterMap_eq_flatMap_toList]
  exact flatMap_congr fun g _ =>
    filter_of_perm (schedule.overlayOrder_perm g _) a

theorem get_merged : (merged v schedule overlays).get a
      = (versions schedule overlays a).foldl (Table.mergeOpt (mergeOver v)) none := by
  unfold merged
  rw [get_mergeAll _ (mergeOver_address v), contributions_filter]
  rfl

theorem mem_versions {r : Account} :
    r ∈ versions schedule overlays a ↔ ∃ g ∈ schedule.groups, (overlays g).get a = some r := by
  unfold versions
  rw [mem_filterMap]

theorem version_address {r : Account} (h : r ∈ versions schedule overlays a) : r.address = a := by
  obtain ⟨g, -, hget⟩ := mem_versions.mp h
  exact key_of_get hget

theorem get_merged_eq_none_iff : (merged v schedule overlays).get a = none
      ↔ ∀ g ∈ schedule.groups, (overlays g).get a = none := by
  rw [get_merged, ← filterMap_eq_nil_iff (f := fun g => (overlays g).get a)]
  show _ ↔ versions schedule overlays a = []
  cases versions schedule overlays a with
  | nil => exact iff_of_true rfl rfl
  | cons r rows =>
    refine iff_of_false ?_ (cons_ne_nil r rows)
    have hsome : ∀ (rows : List Account) (e : Account),
        rows.foldl (Table.mergeOpt (mergeOver v)) (some e) ≠ none := by
      intro rows
      induction rows with
      | nil => exact fun e => Option.some_ne_none e
      | cons r rows ih => exact fun e => ih _
    exact hsome rows r

/-! ## Fields merged by differences -/

section Differences

variable {G : Type} [AddCommGroup G] (f : Account → G)

theorem foldl_mergeOpt_field (hf : ∀ e r, f (mergeOver v e r) = f r + f e - f (v r.address))
    {rows : List Account} (hrows : ∀ r ∈ rows, r.address = a) :
    ∀ e, ∃ m, rows.foldl (Table.mergeOpt (mergeOver v)) (some e) = some m
      ∧ f m = f e + (rows.map fun r => f r - f (v a)).sum := by
  induction rows with
  | nil => intro e; exact ⟨e, rfl, by simp⟩
  | cons r rows ih =>
    intro e
    obtain ⟨m, hm, hfm⟩ := ih (fun r h => hrows r (mem_cons_of_mem _ h)) (mergeOver v e r)
    refine ⟨m, hm, ?_⟩
    rw [hfm, hf, hrows r mem_cons_self, map_cons, sum_cons]
    abel

/-- A field merged by differences: the base and what each group changed. -/
theorem look_merged_field (hf : ∀ e r, f (mergeOver v e r) = f r + f e - f (v r.address))
    (schedule : Schedule txs) (overlays : Address → AccountTable) (a : Address) :
    f (look v (merged v schedule overlays) a)
      = f (v a) + (schedule.groups.map fun g => f (look v (overlays g) a) - f (v a)).sum := by
  have hversions : (schedule.groups.map fun g => f (look v (overlays g) a) - f (v a)).sum
      = ((versions schedule overlays a).map fun r => f r - f (v a)).sum := by
    unfold versions
    induction schedule.groups with
    | nil => rfl
    | cons g groups ih =>
      rw [map_cons, sum_cons, ih, filterMap_cons]
      cases hget : (overlays g).get a with
      | none => simp [look, hget]
      | some => simp [look, hget]
  rw [hversions]
  unfold look
  rw [get_merged]
  have haddr : ∀ r ∈ versions schedule overlays a, r.address = a := fun r => version_address
  cases hrows : versions schedule overlays a with
  | nil => simp
  | cons r =>
    rw [hrows] at haddr
    obtain ⟨m, hm, hfm⟩ := foldl_mergeOpt_field f hf
      (fun r h => haddr r (mem_cons_of_mem _ h)) r
    rw [foldl_cons, Table.mergeOpt, hm, Option.getD_some, hfm, map_cons, sum_cons]
    abel

end Differences

theorem toNat_diffs {α : Type} (x : α → BitVec 128) (b : BitVec 128) (l : List α) :
    ∀ {c : BitVec 128} {i : Int}, (c.toNat : Int) = i % 2 ^ 128 →
      ((c + (l.map fun g => x g - b).sum).toNat : Int)
        = (i + (l.map fun g => ((x g).toNat : Int) - b.toNat).sum) % 2 ^ 128 := by
  induction l with
  | nil => intro c i h; simpa using h
  | cons g l ih =>
    intro c i h
    have hstep : ((c + (x g - b)).toNat : Int) = (i + ((x g).toNat - b.toNat)) % 2 ^ 128 := by
      rw [BitVec.toNat_add, BitVec.toNat_sub]
      omega
    have hrest := ih hstep
    rw [map_cons, sum_cons, map_cons, sum_cons, ← add_assoc, hrest, add_assoc]

/-- An amount merged by differences is the base plus all changes, if the
result fits. -/
theorem toNat_merged_amount (x : Account → Amount)
    (hx : ∀ e r, (x (mergeOver v e r)).val = (x r).val + (x e).val - (x (v r.address)).val)
    {i : Int} (hi : i = (x (v a)).toNat
      + (schedule.groups.map fun g => ((x (look v (overlays g) a)).toNat : Int)
          - (x (v a)).toNat).sum)
    (hlow : 0 ≤ i) (hhigh : i < 2 ^ 128) :
    ((x (look v (merged v schedule overlays) a)).toNat : Int) = i := by
  have hfield := look_merged_field (fun acc => (x acc).val) hx schedule overlays a
  have hbase : (((x (v a)).val.toNat : Nat) : Int) = ((x (v a)).toNat : Int) % 2 ^ 128 := by
    have := (x (v a)).toNat_lt
    unfold Amount.toNat at this ⊢
    omega
  have h := toNat_diffs (fun g => (x (look v (overlays g) a)).val) (x (v a)).val
    schedule.groups hbase
  rw [← hfield] at h
  unfold Amount.toNat at hi h ⊢
  rw [h, ← hi]
  omega

/-! ## Validator flags -/

theorem foldl_mergeOpt_isValidator {rows : List Account} :
    ∀ e, ∃ m, rows.foldl (Table.mergeOpt (mergeOver v)) (some e) = some m
      ∧ m.isValidator = (e.isValidator || rows.any Account.isValidator) := by
  induction rows with
  | nil => intro e; exact ⟨e, rfl, by simp⟩
  | cons r rows ih =>
    intro e
    obtain ⟨m, hm, hflag⟩ := ih (mergeOver v e r)
    refine ⟨m, hm, ?_⟩
    rw [hflag]
    simp only [mergeOver, mergeAccount, any_cons]
    rw [Bool.or_comm r.isValidator, Bool.or_assoc]

/-- An untouched account keeps its flag, any other is a validator if one of
its versions is. -/
theorem look_merged_isValidator :
    (look v (merged v schedule overlays) a).isValidator
      = if versions schedule overlays a = [] then (v a).isValidator
        else (versions schedule overlays a).any Account.isValidator := by
  unfold look
  rw [get_merged]
  cases hrows : versions schedule overlays a with
  | nil => simp
  | cons r rows =>
    obtain ⟨m, hm, hflag⟩ := @foldl_mergeOpt_isValidator v rows r
    rw [foldl_cons, Table.mergeOpt, hm, Option.getD_some, hflag]
    simp

/-- If no group has given the account another flag, neither has the merge. -/
theorem look_merged_isValidator_of_untouched
    (hflags : ∀ r ∈ versions schedule overlays a, r.isValidator = (v a).isValidator) :
    (look v (merged v schedule overlays) a).isValidator = (v a).isValidator := by
  rw [look_merged_isValidator]
  split
  · rfl
  rename_i hne
  obtain ⟨r, hr⟩ := exists_mem_of_ne_nil _ hne
  cases hflag : (v a).isValidator with
  | true => exact any_eq_true.mpr ⟨r, hr, (hflags r hr).trans hflag⟩
  | false => exact any_eq_false.mpr fun r hr => by simp [(hflags r hr).trans hflag]

/-- If only the owner's group changes the flag of an account, the merge keeps
its choice unless a validator is dismissed whose account another group has
touched. -/
theorem look_merged_isValidator_iff (hidle : ∀ g ∉ schedule.groups, overlays g = Table.empty)
    (hothers : ∀ g ≠ a, (look v (overlays g) a).isValidator = (v a).isValidator) :
    (look v (merged v schedule overlays) a).isValidator = (look v (overlays a) a).isValidator ↔
      ((v a).isValidator = true → (look v (overlays a) a).isValidator = false →
        ∀ g ≠ a, (overlays g).get a = none) := by
  have hmem : ∀ {g r}, (overlays g).get a = some r → r ∈ versions schedule overlays a := by
    intro g r hget
    refine mem_versions.mpr ⟨g, ?_, hget⟩
    by_contra hg
    rw [hidle g hg] at hget
    cases hget
  cases hown : (overlays a).get a with
  | none =>
    -- nobody but the others has a version, and theirs have the flag of the base
    rw [look_of_none hown]
    have hflags : ∀ r ∈ versions schedule overlays a, r.isValidator = (v a).isValidator := by
      intro r hr
      obtain ⟨g, -, hget⟩ := mem_versions.mp hr
      have hg : g ≠ a := by
        rintro rfl
        rw [hown] at hget
        cases hget
      rw [← look_of_some (v := v) hget]
      exact hothers g hg
    exact iff_of_true (look_merged_isValidator_of_untouched hflags)
      fun h h' => absurd (h.symm.trans h') (by simp)
  | some own =>
    rw [look_merged_isValidator, look_of_some hown, if_neg (ne_nil_of_mem (hmem hown))]
    cases hflag : own.isValidator with
    | true =>
      exact iff_of_true (any_eq_true.mpr ⟨own, hmem hown, hflag⟩) fun _ h => by cases h
    | false =>
      rw [any_eq_false]
      constructor
      · intro hall hbase _ g hg
        by_contra hget
        obtain ⟨r, hr⟩ := Option.ne_none_iff_exists'.mp hget
        have hr' := hall r (hmem hr)
        rw [← look_of_some (v := v) hr, hothers g hg, hbase] at hr'
        exact hr' rfl
      · intro hnone r hr htrue
        obtain ⟨g, -, hget⟩ := mem_versions.mp hr
        by_cases hg : g = a
        · subst hg
          rw [hown] at hget
          cases hget
          rw [hflag] at htrue
          cases htrue
        · have hbase : (v a).isValidator = true := by
            rw [← hothers g hg, look_of_some hget]
            exact htrue
          rw [hnone hbase rfl g hg] at hget
          cases hget

/-! ## Everything else -/

/-- What holds of all versions and of the base, and is kept by a merge,
holds of the merged account. -/
theorem look_merged_induct {P : Account → Prop}
    (hmerge : ∀ e r, r.address = a → P e → P r → P (mergeOver v e r)) (hbase : P (v a))
    (hversions : ∀ g, P (look v (overlays g) a)) : P (look v (merged v schedule overlays) a) := by
  have hrows : ∀ r ∈ versions schedule overlays a, P r := by
    intro r hr
    obtain ⟨g, -, hget⟩ := mem_versions.mp hr
    have h := hversions g
    rwa [look_of_some hget] at h
  have hfold : ∀ {rows : List Account}, (∀ r ∈ rows, r.address = a ∧ P r) → ∀ {z : Option Account},
      (∀ e, z = some e → P e) →
      ∀ m, rows.foldl (Table.mergeOpt (mergeOver v)) z = some m → P m := by
    intro rows
    induction rows with
    | nil => exact fun _ _ hz => hz
    | cons r rows ih =>
      intro hrows z hz
      obtain ⟨haddr, hr⟩ := hrows r mem_cons_self
      refine ih (fun r h => hrows r (mem_cons_of_mem _ h)) ?_
      cases z with
      | none =>
        intro e he
        cases he
        exact hr
      | some e =>
        intro e' he'
        cases he'
        exact hmerge e r haddr (hz e rfl) hr
  unfold look
  rw [get_merged]
  cases hget : (versions schedule overlays a).foldl (Table.mergeOpt (mergeOver v)) none with
  | none => exact hbase
  | some m =>
    exact hfold (fun r hr => ⟨version_address hr, hrows r hr⟩) (fun e he => by cases he) m hget

/-! ## Nonces -/

theorem foldl_mergeOpt_nonce {rows : List Account} :
    ∀ e, ∃ m, rows.foldl (Table.mergeOpt (mergeOver v)) (some e) = some m
      ∧ (∀ r ∈ e :: rows, r.nonce.toNat ≤ m.nonce.toNat) ∧ ∃ r ∈ e :: rows, m.nonce = r.nonce := by
  induction rows with
  | nil => exact fun e => ⟨e, rfl, by simp, e, mem_singleton_self e, rfl⟩
  | cons r rows ih =>
    intro e
    obtain ⟨m, hm, hle, q, hq, hmq⟩ := ih (mergeOver v e r)
    have hmax : (mergeOver v e r).nonce.toNat = max r.nonce.toNat e.nonce.toNat :=
      UInt64.toNat_max _ _
    have htop := hle _ mem_cons_self
    refine ⟨m, hm, fun x hx => ?_, ?_⟩
    · simp only [mem_cons] at hx
      rcases hx with rfl | rfl | hx
      · omega
      · omega
      · exact hle x (mem_cons_of_mem _ hx)
    · rcases mem_cons.mp hq with rfl | hq
      · rcases Nat.le_total e.nonce.toNat r.nonce.toNat with h | h
        · exact ⟨r, by simp, UInt64.toNat_inj.mp (by rw [hmq]; omega)⟩
        · exact ⟨e, by simp, UInt64.toNat_inj.mp (by rw [hmq]; omega)⟩
      · exact ⟨q, by simp [hq], hmq⟩

/-- If only the owner's group moves the nonce of an account, and moves it
up, the merged account has the nonce of that group. -/
theorem look_merged_nonce (schedule : Schedule txs) {a : Address}
    (hgroup : a ∉ schedule.groups → overlays a = Table.empty)
    (hothers : ∀ g ≠ a, (look v (overlays g) a).nonce = (v a).nonce)
    (hown : (v a).nonce.toNat ≤ (look v (overlays a) a).nonce.toNat) :
    (look v (merged v schedule overlays) a).nonce = (look v (overlays a) a).nonce := by
  have hnone : (∀ r ∈ versions schedule overlays a, r ∉ (overlays a).get a) →
      look v (overlays a) a = v a := by
    intro h
    have hget : (overlays a).get a = none := by
      by_cases ha : a ∈ schedule.groups
      · exact Option.eq_none_iff_forall_not_mem.mpr fun r hr =>
          h r (mem_versions.mpr ⟨a, ha, hr⟩) hr
      · rw [hgroup ha]
        rfl
    exact look_of_none hget
  cases hrows : versions schedule overlays a with
  | nil =>
    rw [hnone (by simp [hrows])]
    unfold look
    rw [get_merged, hrows]
    rfl
  | cons r rows =>
    obtain ⟨m, hm, hle, q, hq, hmq⟩ := @foldl_mergeOpt_nonce v rows r
    have hlook : look v (merged v schedule overlays) a = m := by
      unfold look
      rw [get_merged, hrows, foldl_cons, Table.mergeOpt, hm]
      rfl
    rw [← hrows] at hle hq
    obtain ⟨g, -, hget⟩ := mem_versions.mp hq
    rw [hlook, hmq, ← look_of_some (v := v) hget]
    by_cases hg : g = a
    · rw [hg]
    -- the largest nonce is the base's, so the owner's group has not moved it either
    rw [hothers g hg]
    by_cases hex : ∃ own, (overlays a).get a = some own ∧ own ∈ versions schedule overlays a
    · obtain ⟨own, hown', hmem⟩ := hex
      have htop := hle own hmem
      rw [hmq, ← look_of_some (v := v) hget, hothers g hg, ← look_of_some (v := v) hown']
        at htop
      exact UInt64.toNat_inj.mp (Nat.le_antisymm hown htop)
    · rw [hnone fun own hmem hown' => hex ⟨own, hown', hmem⟩]

end

end Quantos
