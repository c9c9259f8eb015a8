import Quantos.KeyedTable

/-!
# Memoization under a fingerprint

A function `f` is memoized in a bounded cache: a query is looked up under
`key i`, and on a miss `f i` is computed and stored. Between queries the
cache may lose any of its entries, which covers every replacement policy.

The cache is transparent exactly when the fingerprint does not confuse
queries with different answers. `answer_iff` says this for one query after
a given history: the answer is `f i` under every eviction behaviour if and
only if every earlier query with the same key had the same answer.
-/

namespace Memo

open List

variable {ι κ β : Type} [DecidableEq κ]

abbrev Cache (κ β : Type) := Table (Prod.fst : κ × β → κ)

/-- The cached value, or `value` stored and returned. -/
def getOrCompute (c : Cache κ β) (k : κ) (value : β) : β × Cache κ β :=
  match c.get k with
  | some (_, b) => (b, c)
  | none => (value, c.put (k, value))

/-- Keep the entries whose key passes the test. -/
def evict (keep : κ → Bool) (c : Cache κ β) : Cache κ β where
  rows := c.rows.filter fun e => keep e.1
  nodup := (filter_sublist.map _).nodup c.nodup

omit [DecidableEq κ] in
theorem evict_keep_all (c : Cache κ β) : evict (fun _ => true) c = c := by
  cases c
  simp [evict]

theorem get_evict (keep : κ → Bool) (c : Cache κ β) (k : κ) :
    (evict keep c).get k = if keep k then c.get k else none := by
  unfold evict Table.get
  rw [find?_filter]
  by_cases hk : keep k = true
  · rw [if_pos hk]
    congr 1
    funext e
    by_cases he : e.1 = k
    · simp [he, hk]
    · simp [he]
  · rw [if_neg hk, find?_eq_none]
    rintro e - he
    by_cases hek : e.1 = k <;> simp_all

variable (key : ι → κ) (f : ι → β)

/-- One memoized query. -/
def query (c : Cache κ β) (i : ι) : β × Cache κ β := getOrCompute c (key i) (f i)

/-- The cache after a history of queries, each followed by an eviction. -/
def after (c : Cache κ β) (history : List (ι × (κ → Bool))) : Cache κ β :=
  history.foldl (fun c q => evict q.2 (query key f c q.1).2) c

variable {key f} {c : Cache κ β} {e : κ × β} {k : κ}

theorem exists_of_get_after {history : List (ι × (κ → Bool))}
    (h : (after key f c history).get k = some e) :
    c.get k = some e ∨ ∃ q ∈ history, key q.1 = k ∧ f q.1 = e.2 := by
  induction history generalizing c with
  | nil => exact .inl h
  | cons q history ih =>
    rcases ih h with h' | ⟨q', hq', hk⟩
    · rw [get_evict] at h'
      split at h'
      · unfold query getOrCompute at h'
        split at h'
        · exact .inl h'
        rw [Table.get_put] at h'
        split at h'
        · rename_i hk
          obtain rfl := Option.some.inj h'
          exact .inr ⟨q, mem_cons_self, hk, rfl⟩
        · exact .inl h'
      · cases h'
    · exact .inr ⟨q', mem_cons_of_mem _ hq', hk⟩

/-- An entry survives any queries as long as nothing is evicted. -/
theorem get_after_keeping {calls : List ι} (h : c.get k = some e) :
    (after key f c (calls.map fun j => (j, fun _ => true))).get k = some e := by
  induction calls generalizing c with
  | nil => exact h
  | cons i calls ih =>
    refine ih ?_
    dsimp only
    rw [evict_keep_all]
    unfold query getOrCompute
    split
    · exact h
    rename_i hmiss
    rw [Table.get_put, if_neg, h]
    rintro rfl
    rw [h] at hmiss
    cases hmiss

theorem get_after_forgetting (calls : List ι) (k : κ) :
    (after key f Table.empty (calls.map fun j => (j, fun _ => false))).get k = none := by
  cases hget : (after key f Table.empty (calls.map fun j => (j, fun _ => false))).get k with
  | none => rfl
  | some =>
    -- the last eviction has dropped whatever was there
    rcases eq_nil_or_concat calls with rfl | ⟨_, i, rfl⟩
    · cases hget
    rw [concat_eq_append, map_append, after, foldl_append] at hget
    simp only [map_cons, map_nil, foldl_cons, foldl_nil, get_evict,
      Bool.false_eq_true, if_false] at hget
    cases hget

/-- After the queries `calls`, with any evictions in between, a query
answers `f i` if and only if no earlier query under the same key had
another answer. -/
theorem answer_iff (calls : List ι) (i : ι) :
    (∀ history : List (ι × (κ → Bool)), history.map Prod.fst = calls →
      (query key f (after key f Table.empty history) i).1 = f i)
      ↔ ∀ j ∈ calls, key j = key i → f j = f i := by
  constructor
  · intro h j hj hkey
    -- forget everything up to `j`, then keep everything
    obtain ⟨pre, post, rfl⟩ := append_of_mem hj
    have hans := h ((pre.map fun j => (j, fun _ => false)) ++ (j, fun _ => true)
      :: post.map fun j => (j, fun _ => true)) (by simp [Function.comp_def])
    have hstored : (evict (fun _ => true)
        (query key f (after key f Table.empty (pre.map fun j => (j, fun _ => false))) j).2).get
          (key i) = some (key j, f j) := by
      rw [evict_keep_all, ← hkey]
      unfold query getOrCompute
      rw [get_after_forgetting]
      exact Table.get_put_self ..
    have hget : (after key f Table.empty ((pre.map fun j => (j, fun _ => false))
        ++ (j, fun _ => true) :: post.map fun j => (j, fun _ => true))).get (key i)
          = some (key j, f j) := by
      rw [after, foldl_append, foldl_cons]
      exact get_after_keeping hstored
    rw [query, getOrCompute, hget] at hans
    exact hans
  · rintro h history rfl
    unfold query getOrCompute
    split
    · rename_i k b hget
      rcases exists_of_get_after hget with hempty | ⟨q, hq, hkey, hf⟩
      · cases hempty
      · rw [← h q.1 (mem_map_of_mem hq) hkey]
        exact hf.symm
    · rfl

end Memo
