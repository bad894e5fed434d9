/-
Ordered maps, the way `alloc::collections::BTreeMap` behaves: a finite map read as the list
of its entries in strictly increasing key order, that order kept as a field so that no map
with a repeated or misplaced key can be built.

`insert` puts an entry in its place, replacing the entry of an equal key. The lemmas are what
the timer queue's proofs use: which entries `insert` leaves, that an entry of a new key only
adds itself (`insert_perm`), and that taking entries from the least key on while their keys are
at most a bound takes exactly the keys up to that bound (`takeWhile_le_eq_filter`).

Nothing here names the kernel.
-/
import Mathlib

set_option autoImplicit false

namespace Queen

/-- A map from `K` to `V` kept as its entries in strictly increasing key order. -/
structure SortedMap (K V : Type) [LinearOrder K] where
  entries : List (K × V)
  sorted : entries.Pairwise fun a b => a.1 < b.1

namespace SortedMap

variable {K V : Type} [LinearOrder K]

/-- `BTreeMap::new()`. -/
def empty : SortedMap K V := ⟨[], List.Pairwise.nil⟩

/-- The keys, in increasing order. -/
def keys (m : SortedMap K V) : List K := m.entries.map Prod.fst

/-- `contains_key(k)`. -/
def contains_key (m : SortedMap K V) (k : K) : Bool := m.entries.any fun e => e.1 = k

/-- Put `(k, v)` in its place in a list increasing in key, replacing the entry of key `k`. -/
def insertEntry (k : K) (v : V) : List (K × V) → List (K × V)
  | [] => [(k, v)]
  | e :: es =>
    if k < e.1 then (k, v) :: e :: es
    else if k = e.1 then (k, v) :: es
    else e :: insertEntry k v es

theorem mem_insertEntry_of_mem {k : K} {v : V} :
    ∀ {es : List (K × V)} {x : K × V}, x ∈ insertEntry k v es → x = (k, v) ∨ x ∈ es
  | [], x, hx => by
    simp only [insertEntry, List.mem_singleton] at hx
    exact .inl hx
  | e :: es, x, hx => by
    unfold insertEntry at hx
    split_ifs at hx with hlt heq
    · simpa using hx
    · simp only [List.mem_cons] at hx
      rcases hx with hx | hx
      · exact .inl hx
      · exact .inr (List.mem_cons_of_mem _ hx)
    · simp only [List.mem_cons] at hx
      rcases hx with hx | hx
      · exact .inr (hx ▸ List.mem_cons_self ..)
      · rcases mem_insertEntry_of_mem hx with h | h
        · exact .inl h
        · exact .inr (List.mem_cons_of_mem _ h)

theorem sorted_insertEntry (k : K) (v : V) :
    ∀ {es : List (K × V)}, es.Pairwise (fun a b => a.1 < b.1) →
      (insertEntry k v es).Pairwise fun a b => a.1 < b.1
  | [], _ => List.pairwise_singleton _ _
  | e :: es, h => by
    rw [List.pairwise_cons] at h
    unfold insertEntry
    split_ifs with hlt heq
    · -- before `e`: every key of the list is above `k`
      refine List.Pairwise.cons (fun x hx => ?_) (List.Pairwise.cons h.1 h.2)
      rcases List.mem_cons.mp hx with rfl | hx
      · exact hlt
      · exact lt_trans hlt (h.1 x hx)
    · -- replaces `e`
      refine List.Pairwise.cons (fun x hx => ?_) h.2
      rw [heq]
      exact h.1 x hx
    · -- after `e`
      refine List.Pairwise.cons (fun x hx => ?_) (sorted_insertEntry k v h.2)
      rcases mem_insertEntry_of_mem hx with rfl | hx
      · exact lt_of_le_of_ne (not_lt.mp hlt) (Ne.symm heq)
      · exact h.1 x hx

/-- An entry of a key the list does not hold only adds itself. -/
theorem insertEntry_perm {k : K} {v : V} :
    ∀ {es : List (K × V)}, k ∉ es.map Prod.fst → List.Perm (insertEntry k v es) ((k, v) :: es)
  | [], _ => List.Perm.refl _
  | e :: es, hk => by
    simp only [List.map_cons, List.mem_cons, not_or] at hk
    unfold insertEntry
    rw [if_neg hk.1]
    split_ifs with hlt
    · exact List.Perm.refl _
    · exact ((insertEntry_perm hk.2).cons e).trans (List.Perm.swap _ _ _)

/-- `insert(k, v)`. -/
def insert (m : SortedMap K V) (k : K) (v : V) : SortedMap K V :=
  ⟨insertEntry k v m.entries, sorted_insertEntry k v m.sorted⟩

theorem contains_key_iff (m : SortedMap K V) (k : K) : m.contains_key k = true ↔ k ∈ m.keys := by
  simp [contains_key, keys]

theorem insert_perm {m : SortedMap K V} {k : K} (v : V) (hk : k ∉ m.keys) :
    List.Perm (m.insert k v).entries ((k, v) :: m.entries) :=
  insertEntry_perm hk

/-! ## Prefixes up to a key -/

/-- On entries increasing in key, those up to a bound come first: `takeWhile` is `filter`. -/
theorem takeWhile_le_eq_filter (b : K) :
    ∀ {es : List (K × V)}, es.Pairwise (fun x y => x.1 < y.1) →
      es.takeWhile (fun e => e.1 ≤ b) = es.filter (fun e => e.1 ≤ b)
  | [], _ => rfl
  | e :: es, h => by
    rw [List.pairwise_cons] at h
    by_cases he : e.1 ≤ b
    · simp only [List.takeWhile_cons, List.filter_cons, he, decide_true, if_true,
        takeWhile_le_eq_filter b h.2]
    · -- every later key is above `e`'s, so above the bound
      have hrest : es.filter (fun e => e.1 ≤ b) = [] := by
        rw [List.filter_eq_nil_iff]
        intro x hx hxb
        exact he (le_trans (le_of_lt (h.1 x hx)) (of_decide_eq_true hxb))
      simp only [List.takeWhile_cons, List.filter_cons, he, decide_false, Bool.false_eq_true,
        if_false, hrest]

/-- On entries increasing in key, what `dropWhile` leaves past a bound is every entry past it. -/
theorem dropWhile_le_eq_filter (b : K) :
    ∀ {es : List (K × V)}, es.Pairwise (fun x y => x.1 < y.1) →
      es.dropWhile (fun e => e.1 ≤ b) = es.filter (fun e => b < e.1)
  | [], _ => rfl
  | e :: es, h => by
    rw [List.pairwise_cons] at h
    by_cases he : e.1 ≤ b
    · simp only [List.dropWhile_cons, List.filter_cons, he, decide_true, if_true,
        dropWhile_le_eq_filter b h.2, not_lt.mpr he, decide_false, Bool.false_eq_true, if_false]
    · -- every later key is above `e`'s, so past the bound
      have hrest : es.filter (fun e => b < e.1) = es := by
        rw [List.filter_eq_self]
        intro x hx
        exact decide_eq_true (lt_trans (not_le.mp he) (h.1 x hx))
      simp only [List.dropWhile_cons, List.filter_cons, he, decide_false, Bool.false_eq_true,
        if_false, not_le.mp he, decide_true, if_true, hrest]

end SortedMap

end Queen
