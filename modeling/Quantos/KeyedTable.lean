import Mathlib.Data.Fintype.BigOperators
import Mathlib.Algebra.GroupWithZero.Nat

/-!
# Keyed tables

A finite map whose key is a field of its values: a list of rows with
pairwise distinct keys. Hash maps, ordered maps and database column
families all present themselves this way once the hashing, the balancing
and the disk are gone. The row order is an artefact of the insertion
history, so every iteration order the original container may choose is
some permutation of `rows`; what does not depend on it is stated through
`get`.

Three operations carry the development built on top:

- `put` (insert or replace), with its effect on `get`, on sums over the
  rows and on membership;
- `toSorted`, the rows in key order - a function of `get` alone
  (`toSorted_congr`);
- `mergeAll`, folding rows into the table with a combining function when
  the key is taken. Its value at a key is the fold of that key's rows
  (`get_mergeAll`), hence independent of the order of the rows whenever
  the combiner is right-commutative (`get_mergeAll_perm`).
-/

/-- A list of rows whose keys are pairwise distinct. -/
structure Table {α κ : Type} (key : α → κ) where
  rows : List α
  nodup : (rows.map key).Nodup

namespace Table

open List

variable {α κ : Type} {key : α → κ}

def empty : Table key := ⟨[], nodup_nil⟩

/-- Keep the rows that pass a test (`retain`). -/
def keep (t : Table key) (p : α → Bool) : Table key where
  rows := t.rows.filter p
  nodup := (filter_sublist.map key).nodup t.nodup

variable {t : Table key} {p : α → Bool}

theorem keep_eq_self (h : ∀ w ∈ t.rows, p w = true) : t.keep p = t := by
  obtain ⟨rows, _⟩ := t
  have hrows : rows.filter p = rows := filter_eq_self.mpr h
  simp only [keep, hrows]

/-- Change every row in place (`values_mut`). -/
def update (t : Table key) (f : α → α) (hf : ∀ v, key (f v) = key v) : Table key where
  rows := t.rows.map f
  nodup := by
    rw [map_map, show key ∘ f = key from funext hf]
    exact t.nodup

variable [DecidableEq κ]

section

variable (t : Table key) (k : κ)

/-- The row stored under `k`. -/
def get : Option α := t.rows.find? fun v => key v = k

/-- Insert `v` under its own key, replacing the row stored there. -/
def put (v : α) : Table key where
  rows := v :: t.rows.filter fun w => key w ≠ key v
  nodup := by
    rw [map_cons, nodup_cons]
    refine ⟨?_, (filter_sublist.map key).nodup t.nodup⟩
    intro hmem
    obtain ⟨w, hw, hk⟩ := mem_map.mp hmem
    simp [hk] at hw

/-- Drop the row stored under `k`. -/
def erase : Table key where
  rows := t.rows.filter fun w => key w ≠ k
  nodup := (filter_sublist.map key).nodup t.nodup

/-- Insert the rows of a list one after another. -/
def putAll (vs : List α) : Table key := vs.foldl put t

/-! ## Reading back -/

@[simp] theorem get_empty : (empty : Table key).get k = none := rfl

end

variable {v : α} {k : κ}

theorem key_of_get (h : t.get k = some v) : key v = k := by
  simpa using find?_some h

theorem mem_rows_of_get (h : t.get k = some v) : v ∈ t.rows :=
  mem_of_find?_eq_some h

variable {l : List α}

/-- In a list with distinct keys the first row with a given key is the only one. -/
theorem find?_key_of_mem (hnd : (l.map key).Nodup) (hv : v ∈ l) :
    l.find? (fun w => key w = key v) = some v := by
  induction l with
  | nil => cases hv
  | cons w l ih =>
    rw [map_cons, nodup_cons] at hnd
    rcases mem_cons.mp hv with rfl | hv'
    · simp
    have hne : key w ≠ key v := fun h =>
      hnd.1 (h ▸ mem_map_of_mem hv')
    rw [find?_cons_of_neg (by simpa using hne)]
    exact ih hnd.2 hv'

theorem get_of_mem (h : v ∈ t.rows) : t.get (key v) = some v :=
  find?_key_of_mem t.nodup h

theorem mem_rows_iff : v ∈ t.rows ↔ t.get (key v) = some v :=
  ⟨get_of_mem, mem_rows_of_get⟩

theorem find?_of_perm (hl : l.Perm t.rows) (k : κ) : l.find? (fun v => key v = k) = t.get k := by
  have hnd : (l.map key).Nodup := (hl.map key).nodup_iff.mpr t.nodup
  cases hg : t.get k with
  | some =>
    obtain rfl := key_of_get hg
    exact find?_key_of_mem hnd (hl.mem_iff.mpr (mem_rows_of_get hg))
  | none =>
    rw [find?_eq_none]
    intro v hv hk
    have hk' : key v = k := by simpa using hk
    rw [← hk', get_of_mem (hl.mem_iff.mp hv)] at hg
    cases hg

/-- In every iteration order there is one row under a key, or none. -/
theorem filter_of_perm (hl : l.Perm t.rows) (k : κ) :
    (l.filter fun v => key v = k) = (t.get k).toList := by
  have hconst : (l.filter fun v => key v = k).map key
      = List.replicate (l.filter fun v => key v = k).length k := by
    rw [eq_replicate_iff, length_map]
    refine ⟨rfl, fun x hx => ?_⟩
    obtain ⟨v, hv, rfl⟩ := mem_map.mp hx
    exact of_decide_eq_true (mem_filter.mp hv).2
  have hshort : (l.filter fun v => key v = k).length ≤ 1 := by
    rw [← nodup_replicate (a := k), ← hconst]
    exact ((hl.map key).nodup_iff.mpr t.nodup).sublist (filter_sublist.map key)
  have hhead : (l.filter fun v => key v = k).head? = t.get k := by
    rw [head?_filter]
    exact find?_of_perm hl k
  rw [← hhead]
  match l.filter fun v => key v = k, hshort with
  | [], _ => rfl
  | [v], _ => rfl

theorem get_put (t : Table key) (v : α) (k : κ) :
    (t.put v).get k = if key v = k then some v else t.get k := by
  unfold get put
  by_cases h : key v = k
  · simp [h]
  rw [if_neg h, find?_cons_of_neg (by simpa using h), find?_filter]
  congr 1
  funext w
  by_cases hw : key w = k
  · simp [hw, Ne.symm h]
  · simp [hw]

@[simp] theorem get_put_self (t : Table key) (v : α) : (t.put v).get (key v) = some v := by
  rw [get_put, if_pos rfl]

theorem get_put_of_ne (t : Table key) (h : key v ≠ k) : (t.put v).get k = t.get k := by
  rw [get_put, if_neg h]

theorem get_erase (t : Table key) (k k' : κ) :
    (t.erase k).get k' = if k = k' then none else t.get k' := by
  unfold get erase
  rw [find?_filter]
  by_cases h : k = k'
  · subst h
    rw [if_pos rfl, find?_eq_none]
    intro w _ hw
    by_cases hk : key w = k <;> simp [hk] at hw
  · rw [if_neg h]
    congr 1
    funext w
    by_cases hw : key w = k'
    · simp [hw, Ne.symm h]
    · simp [hw]

variable {β : Type}

theorem getD_put (t : Table (Prod.fst : κ × β → κ)) (k : κ) (v d : β) (k' : κ) :
    (((t.put (k, v)).get k').map Prod.snd).getD d
      = if k' = k then v else ((t.get k').map Prod.snd).getD d := by
  rw [get_put]
  by_cases h : k' = k
  · simp [h]
  · simp [h, Ne.symm h]

theorem getD_erase (t : Table (Prod.fst : κ × β → κ)) (k : κ) (d : β) (k' : κ) :
    (((t.erase k).get k').map Prod.snd).getD d
      = if k' = k then d else ((t.get k').map Prod.snd).getD d := by
  rw [get_erase]
  by_cases h : k' = k
  · simp [h]
  · simp [h, Ne.symm h]

theorem get_update (t : Table key) {f : α → α} (hf : ∀ v, key (f v) = key v) (k : κ) :
    (t.update f hf).get k = (t.get k).map f := by
  unfold get update
  rw [find?_map]
  simp only [Function.comp_def, hf]

variable {w : α}

theorem mem_rows_put (h : w ∈ (t.put v).rows) : w = v ∨ w ∈ t.rows :=
  (mem_cons.mp h).imp_right fun h => (mem_filter.mp h).1

theorem mem_rows_erase (h : w ∈ (t.erase k).rows) : w ∈ t.rows :=
  (mem_filter.mp h).1

theorem mem_rows_foldl_erase {ks : List κ} :
    v ∈ (ks.foldl erase t).rows ↔ v ∈ t.rows ∧ key v ∉ ks := by
  induction ks generalizing t with
  | nil => simp
  | cons k ks ih =>
    rw [foldl_cons, ih]
    simp only [erase, mem_filter, decide_eq_true_eq, mem_cons, not_or, ne_eq, and_assoc]

theorem erase_ne (h : t.get k = some v) : t.erase k ≠ t := by
  intro heq
  have hget := get_erase t k k
  rw [heq, h, if_pos rfl] at hget
  cases hget

theorem get_of_get_keep (h : (t.keep p).get k = some v) : t.get k = some v := by
  obtain rfl := key_of_get h
  exact get_of_mem (mem_filter.mp (mem_rows_of_get h)).1

theorem get_putAll (t : Table key) (vs : List α) (k : κ) :
    (t.putAll vs).get k = (vs.reverse.find? fun v => key v = k).or (t.get k) := by
  induction vs generalizing t with
  | nil => simp [putAll]
  | cons v vs ih =>
    rw [putAll, foldl_cons]
    refine (ih (t.put v)).trans ?_
    rw [reverse_cons, find?_append, Option.or_assoc, get_put]
    congr 1
    by_cases h : key v = k <;> simp [h]

variable {vs : List α}

theorem get_putAll_rows (t u : Table key) (h : vs.Perm u.rows) (k : κ) :
    (t.putAll vs).get k = (u.get k).or (t.get k) := by
  rw [get_putAll, find?_of_perm ((reverse_perm vs).trans h)]

/-! ## Extensionality: two tables with the same `get` -/

/-- Entries that all belong to one function, inserted into the empty table. -/
theorem get_putAll_eq_some_iff {es : List (κ × β)} {f : κ → β} (h : ∀ e ∈ es, e.2 = f e.1)
    {e : κ × β} : ((empty : Table (Prod.fst : κ × β → κ)).putAll es).get k = some e
      ↔ k ∈ es.map Prod.fst ∧ e = (k, f k) := by
  rw [get_putAll, get_empty, Option.or_none]
  constructor
  · intro hfind
    have hmem := mem_reverse.mp (mem_of_find?_eq_some hfind)
    obtain rfl : e.1 = k := by simpa using find?_some hfind
    exact ⟨mem_map_of_mem hmem, Prod.ext rfl (h e hmem)⟩
  · rintro ⟨hk, rfl⟩
    obtain ⟨e, he, rfl⟩ := mem_map.mp hk
    cases hfind : es.reverse.find? fun e' => e'.1 = e.1 with
    | none => exact absurd (find?_eq_none.mp hfind e (mem_reverse.mpr he)) (by simp)
    | some e' =>
      have hkey : e'.1 = e.1 := by simpa using find?_some hfind
      have hmem := mem_reverse.mp (mem_of_find?_eq_some hfind)
      rw [← hkey, ← h e' hmem]

variable {u : Table key}

theorem perm_of_get_eq (h : ∀ k, t.get k = u.get k) : t.rows.Perm u.rows := by
  refine (perm_ext_iff_of_nodup (List.Nodup.of_map _ t.nodup)
    (List.Nodup.of_map _ u.nodup)).mpr fun v => ?_
  rw [mem_rows_iff, mem_rows_iff, h]

theorem rows_perm_of_get (h : t.get k = some v) :
    t.rows.Perm (v :: t.rows.filter fun w => key w ≠ k) := by
  obtain rfl := key_of_get h
  refine perm_of_get_eq (u := t.put v) fun k' => ?_
  rw [get_put]
  split
  · rename_i hk
    rw [← hk, h]
  · rfl

theorem rows_put_of_none (h : t.get (key v) = none) : (t.put v).rows = v :: t.rows := by
  show v :: t.rows.filter _ = _
  congr 1
  refine filter_eq_self.mpr fun w hw => ?_
  have := find?_eq_none.mp h w hw
  simpa using this

theorem rows_putAll_empty (h : (vs.map key).Nodup) :
    (empty.putAll vs : Table key).rows.Perm vs := by
  refine perm_of_get_eq (u := ⟨vs, h⟩) fun k => ?_
  rw [get_putAll_rows empty ⟨vs, h⟩ (.refl vs), get_empty, Option.or_none]

/-- Sum of a measure over the rows. -/
def sum (f : α → Nat) (t : Table key) : Nat := (t.rows.map f).sum

theorem sum_filter_ne (f : α → Nat) (k : κ) : ∀ {l : List α}, (l.map key).Nodup →
      ((l.filter fun w => key w ≠ k).map f).sum
        + ((l.find? fun v => key v = k).elim 0 f) = (l.map f).sum
  | [], _ => rfl
  | w :: l, hnd => by
    rw [map_cons, nodup_cons] at hnd
    by_cases hw : key w = k
    · have hrest : (l.filter fun v => key v ≠ k) = l := by
        refine filter_eq_self.mpr fun v hv => ?_
        have : key v ≠ k := fun h => hnd.1 (hw ▸ h ▸ mem_map_of_mem hv)
        simpa using this
      simp only [ne_eq, decide_not] at hrest
      simp [hw, hrest, Nat.add_comm]
    · have ih := sum_filter_ne f k hnd.2
      simp only [ne_eq, decide_not] at ih ⊢
      simp only [filter_cons, hw, decide_false, Bool.not_false, if_true, map_cons,
        sum_cons, find?_cons, Nat.add_assoc]
      rw [ih]

section

variable (f : α → Nat) (t : Table key)

/-- A `put` replaces the measure of the row it overwrites. -/
theorem sum_put (v : α) : (t.put v).sum f + (t.get (key v)).elim 0 f = t.sum f + f v := by
  have h := sum_filter_ne f (key v) t.nodup
  unfold sum put get
  simp only [map_cons, sum_cons]
  omega

theorem sum_erase (k : κ) : (t.erase k).sum f + (t.get k).elim 0 f = t.sum f :=
  sum_filter_ne f k t.nodup

theorem le_sum (k : κ) : (t.get k).elim 0 f ≤ t.sum f := by
  have h := sum_filter_ne f k t.nodup
  unfold sum get
  omega

theorem add_le_sum {k k' : κ} (h : k ≠ k') :
    (t.get k).elim 0 f + (t.get k').elim 0 f ≤ t.sum f := by
  have hsum := sum_filter_ne f k t.nodup
  have hrest := le_sum f (t.erase k) k'
  rw [get_erase, if_neg h] at hrest
  simp only [sum, erase] at hrest
  unfold sum
  have hget : (t.rows.find? fun v => key v = k) = t.get k := rfl
  rw [hget] at hsum
  omega

end

theorem sum_eq_univ [Fintype κ] (f : α → Nat) (t : Table key) :
    t.sum f = ∑ k, (t.get k).elim 0 f := by
  have hrows : t.rows.map f = (t.rows.map key).map fun k => (t.get k).elim 0 f := by
    rw [map_map]
    refine map_congr_left fun v hv => ?_
    rw [Function.comp_apply, get_of_mem hv]
    rfl
  unfold sum
  rw [hrows, ← sum_toFinset _ t.nodup]
  refine Finset.sum_subset (Finset.subset_univ _) fun k _ hk => ?_
  cases hget : t.get k with
  | none => rfl
  | some =>
    refine absurd ?_ hk
    rw [mem_toFinset, ← key_of_get hget]
    exact mem_map_of_mem (mem_rows_of_get hget)

/-! ## Rows in key order -/

section Sorted

variable [LE κ] [DecidableLE κ]

/-- The rows in ascending key order. -/
def toSorted (t : Table key) : List α := t.rows.insertionSort fun v w => key v ≤ key w

omit [DecidableEq κ] in
theorem toSorted_perm (t : Table key) : t.toSorted.Perm t.rows :=
  perm_insertionSort _ _

variable [Std.IsLinearOrder κ]

/-- Sorting any iteration order of the table gives the same list: the keys
are distinct, so the order is strict. -/
theorem insertionSort_of_perm {l : List α} (h : l.Perm t.rows) :
    l.insertionSort (fun v w => key v ≤ key w) = t.toSorted := by
  refine List.Perm.eq_of_pairwise ?_
    (pairwise_insertionSort (fun v w => key v ≤ key w) l)
    (pairwise_insertionSort (fun v w => key v ≤ key w) t.rows)
    ((perm_insertionSort _ _).trans (h.trans t.toSorted_perm.symm))
  intro v w hv hw hvw hwv
  have hv' : v ∈ t.rows := h.mem_iff.mp ((mem_insertionSort _).mp hv)
  have hw' : w ∈ t.rows := (mem_insertionSort _).mp hw
  have hk : key v = key w := Std.le_antisymm hvw hwv
  have hvg := get_of_mem hv'
  rw [hk, get_of_mem hw'] at hvg
  exact (Option.some.inj hvg).symm

/-- Searching from the largest key down finds the largest one that passes. -/
theorem find?_reverse_toSorted {p : α → Bool} {v : α} (hv : v ∈ t.rows) (hp : p v = true)
    (hmax : ∀ w ∈ t.rows, p w = true → key w ≤ key v) : t.toSorted.reverse.find? p = some v := by
  have hmem : ∀ w, w ∈ t.toSorted.reverse ↔ w ∈ t.rows := fun w =>
    mem_reverse.trans t.toSorted_perm.mem_iff
  have hsorted : t.toSorted.reverse.Pairwise fun v w => key w ≤ key v :=
    pairwise_reverse.mpr (pairwise_insertionSort (fun v w => key v ≤ key w) t.rows)
  cases hfind : t.toSorted.reverse.find? p with
  | none => exact absurd hp (find?_eq_none.mp hfind v ((hmem v).mpr hv))
  | some u =>
    have hu : u ∈ t.rows := (hmem u).mp (mem_of_find?_eq_some hfind)
    obtain ⟨hpu, as, bs, hsplit, has⟩ := find?_eq_some_iff_append.mp hfind
    -- nothing before `u` passes, so `v` is `u` or stands behind it
    have hle : key v ≤ key u := by
      have hv' : v ∈ as ++ u :: bs := hsplit ▸ (hmem v).mpr hv
      rw [hsplit, pairwise_append] at hsorted
      rcases mem_append.mp hv' with hv' | hv'
      · exact absurd hp (by simpa using has v hv')
      rcases mem_cons.mp hv' with rfl | hv'
      · exact Std.le_refl _
      · exact rel_of_pairwise_cons hsorted.2.1 hv'
    have hkey : key u = key v := Std.le_antisymm (hmax u hu hpu) hle
    have hget := get_of_mem hu
    rw [hkey, get_of_mem hv] at hget
    exact hget.symm

theorem toSorted_congr {u : Table key} (h : ∀ k, t.get k = u.get k) : t.toSorted = u.toSorted :=
  insertionSort_of_perm (perm_of_get_eq h)

end Sorted

/-! ## Merging rows into a table -/

section Merge

variable (m : α → α → α)

/-- Fold the rows of a list into the table, combining a row with the one
already stored under its key. -/
def mergeAll (t : Table key) (vs : List α) : Table key :=
  vs.foldl (fun t v =>
    match t.get (key v) with
    | some e => t.put (m e v)
    | none => t.put v) t

/-- The combiner lifted to an optional accumulator. -/
def mergeOpt : Option α → α → Option α
  | some e, v => some (m e v)
  | none, v => some v

theorem get_mergeAll (hm : ∀ e v, key e = key v → key (m e v) = key v) (vs : List α) (k : κ) :
    ∀ t : Table key, (t.mergeAll m vs).get k
      = (vs.filter fun v => key v = k).foldl (mergeOpt m) (t.get k) := by
  induction vs with
  | nil => intro t; rfl
  | cons v vs ih =>
    intro t
    rw [mergeAll, foldl_cons]
    refine (ih _).trans ?_
    by_cases hk : key v = k
    · rw [filter_cons_of_pos (by simpa using hk), foldl_cons]
      congr 1
      subst hk
      cases he : t.get (key v) with
      | some e =>
        have hkey : key (m e v) = key v := hm e v (key_of_get he)
        simp only [mergeOpt]
        rw [get_put, if_pos hkey]
      | none => simp only [mergeOpt]; exact get_put_self t v
    · rw [filter_cons_of_neg (by simpa using hk)]
      congr 1
      cases he : t.get (key v) with
      | some e =>
        have hkey : key (m e v) = key v := hm e v (key_of_get he)
        exact get_put_of_ne t (by rw [hkey]; exact hk)
      | none => exact get_put_of_ne t hk

theorem mergeAll_congr {m m' : α → α → α} :
    ∀ {t : Table key}, (∀ v ∈ vs, ∀ e, m e v = m' e v) → t.mergeAll m vs = t.mergeAll m' vs := by
  induction vs with
  | nil => exact fun _ => rfl
  | cons v vs ih =>
    intro t h
    rw [mergeAll, mergeAll, foldl_cons, foldl_cons]
    simp only [h v mem_cons_self]
    exact ih fun w hw => h w (mem_cons_of_mem _ hw)

/-- With a combiner that does not care in which order rows of one key
arrive, neither does the merged table. -/
theorem get_mergeAll_perm (hm : ∀ e v, key e = key v → key (m e v) = key v) {ws : List α}
    (h : vs.Perm ws) (t : Table key) (k : κ) (hcomm : ∀ v ∈ vs, ∀ w ∈ vs, key v = k → key w = k →
      ∀ z, mergeOpt m (mergeOpt m z v) w = mergeOpt m (mergeOpt m z w) v) :
    (t.mergeAll m vs).get k = (t.mergeAll m ws).get k := by
  rw [get_mergeAll m hm, get_mergeAll m hm]
  refine (h.filter _).foldl_eq' ?_ _
  intro v hv w hw z
  simp only [mem_filter, decide_eq_true_eq] at hv hw
  exact hcomm v hv.1 w hw.1 hv.2 hw.2 z

end Merge

end Table
