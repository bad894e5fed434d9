/-
A priority queue keyed by items, as the `priority-queue` crate documents its
`PriorityQueue<I, P>`: a map from items to priorities. `push` inserts an item or, when the
item is already there, replaces its priority; `peek` and `pop` give an item of greatest
priority; `remove` takes out a given item; `change_priority_by` rewrites one item's
priority in place.

The map is Mathlib's `AList`, whose keys are distinct by construction: an item is in the
queue at most once, which is the crate's hash-map half. Among items of equal priority the
crate promises none in particular; `peek` here keeps the first one it meets in the list.
-/
import Mathlib

set_option autoImplicit false

namespace Queen

/-- `PriorityQueue<I, P>`: each item of type `I` at most once, with a priority of type `P`. -/
abbrev PriorityQueue (I P : Type) := AList (fun _ : I => P)

namespace PriorityQueue

variable {I P : Type}

/-- The item-priority pairs, in the list's order. -/
def pairs (q : PriorityQueue I P) : List (I × P) := q.entries.map (fun e => (e.1, e.2))

/-- Keep the first of `best` and `e` unless `e` is strictly greater. -/
def better [Ord P] (best : Option (I × P)) (e : I × P) : Option (I × P) :=
  match best with
  | none => some e
  | some b => if compare b.2 e.2 = .lt then some e else some b

/-- `peek`: an item of greatest priority, `None` on an empty queue. -/
def peek [Ord P] (q : PriorityQueue I P) : Option (I × P) := (pairs q).foldl better none

section Map

variable [DecidableEq I]

/-- `get(&item)`: the item's priority, if it is there. -/
def get (q : PriorityQueue I P) (i : I) : Option P := q.lookup i

/-- `push(item, priority)`: insert the item, or replace the priority it had. -/
def push (q : PriorityQueue I P) (i : I) (p : P) : PriorityQueue I P := q.insert i p

/-- `remove(&item)`: take the item out, with the priority it had. -/
def remove (q : PriorityQueue I P) (i : I) : Option P × PriorityQueue I P :=
  (get q i, q.erase i)

/-- `pop`: take out an item of greatest priority. -/
def pop [Ord P] (q : PriorityQueue I P) : Option (I × P) × PriorityQueue I P :=
  match peek q with
  | none => (none, q)
  | some e => (some e, q.erase e.1)

/-- `change_priority_by(&item, f)`: rewrite the item's priority in place, if it is there. -/
def change_priority_by (q : PriorityQueue I P) (i : I) (f : P → P) : PriorityQueue I P :=
  match get q i with
  | none => q
  | some p => q.replace i (f p)

/-- After `push`, the item is there with its new priority. -/
@[simp] theorem get_push_self (q : PriorityQueue I P) (i : I) (p : P) :
    get (push q i p) i = some p :=
  AList.lookup_insert q

/-- `change_priority_by` keeps the set of items. -/
@[simp] theorem mem_change_priority_by (q : PriorityQueue I P) (i j : I) (f : P → P) :
    j ∈ change_priority_by q i f ↔ j ∈ q := by
  unfold change_priority_by
  split
  · rfl
  · exact AList.mem_replace

end Map

/-- `len`. -/
def len (q : PriorityQueue I P) : Nat := q.entries.length

/-! ## What `peek` finds -/

theorem foldl_better_isSome [Ord P] :
    ∀ (l : List (I × P)) (b : Option (I × P)), (l.foldl better b).isSome ↔ b.isSome ∨ l ≠ []
  | [], b => by simp
  | e :: l, b => by
    rw [List.foldl_cons, foldl_better_isSome l]
    cases b with
    | none => simp [better]
    | some b =>
      simp only [better]
      split <;> simp

theorem foldl_better_mem [Ord P] :
    ∀ (l : List (I × P)) (b : Option (I × P)) (e : I × P),
      l.foldl better b = some e → b = some e ∨ e ∈ l
  | [], b, e, h => by simpa using h
  | x :: l, b, e, h => by
    rw [List.foldl_cons] at h
    rcases foldl_better_mem l _ e h with h' | h'
    · -- the running best after `x` is either `x` or the old best
      cases b with
      | none =>
        simp only [better, Option.some.injEq] at h'
        exact Or.inr (h' ▸ List.mem_cons_self ..)
      | some b =>
        simp only [better] at h'
        split at h'
        · exact Or.inr ((Option.some.inj h') ▸ List.mem_cons_self ..)
        · exact Or.inl h'
    · exact Or.inr (List.mem_cons_of_mem _ h')

/-- `peek` finds something exactly when the queue is not empty. -/
theorem peek_isSome [Ord P] (q : PriorityQueue I P) : (peek q).isSome ↔ q.entries ≠ [] := by
  simp [peek, foldl_better_isSome, pairs]

/-! ## Priorities ordered by a key

The crate keeps its heap in the order `Ord` gives, and that is a heap order only where `Ord`
is a total order, as Rust's `Ord` asks: a comparison reverses when its arguments swap, and
`≤` is transitive. `TotalCmpOn s cmp` asks it of the priorities `s` picks out. It holds when
`cmp` compares by a key into a linear order, and `peek` then finds an item of greatest key. -/

section Key

variable {α β : Type} [LinearOrder β]

/-- `cmp` is a total order on the elements `s` picks out. -/
structure TotalCmpOn (s : α → Prop) (cmp : α → α → Ordering) : Prop where
  swap : ∀ {x y}, s x → s y → cmp y x = (cmp x y).swap
  le_trans : ∀ {x y z}, s x → s y → s z → cmp x y ≠ .gt → cmp y z ≠ .gt → cmp x z ≠ .gt

/-- On the elements `s` picks out, `cmp` compares by `key`. -/
def ComparesBy (s : α → Prop) (cmp : α → α → Ordering) (key : α → β) : Prop :=
  ∀ {x y}, s x → s y → cmp x y = compare (key x) (key y)

theorem ComparesBy.totalCmpOn {s : α → Prop} {cmp : α → α → Ordering} {key : α → β}
    (h : ComparesBy s cmp key) : TotalCmpOn s cmp where
  swap hx hy := by rw [h hy hx, h hx hy, Std.OrientedOrd.eq_swap]
  le_trans hx hy hz hxy hyz := by
    rw [h hx hy, compare_le_iff_le] at hxy
    rw [h hy hz, compare_le_iff_le] at hyz
    rw [h hx hz, compare_le_iff_le]
    exact le_trans hxy hyz

variable [Ord P] {s : P → Prop} {key : P → β}

/-- One step of `peek`'s fold keeps an item whose key beats neither the new item's nor the
old best's. -/
theorem better_greatest (h : ComparesBy s compare key) {b : Option (I × P)} {y : I × P}
    (hb : ∀ x ∈ b, s x.2) (hy : s y.2) :
    ∃ m, better b y = some m ∧ s m.2 ∧ key y.2 ≤ key m.2 ∧ ∀ x ∈ b, key x.2 ≤ key m.2 := by
  cases b with
  | none => exact ⟨y, rfl, hy, le_rfl, by simp⟩
  | some x =>
    have hx : s x.2 := hb x rfl
    simp only [better, Option.mem_def, Option.some.injEq, forall_eq']
    split
    · -- `y` is strictly greater and replaces the best
      rename_i hlt
      rw [h hx hy, compare_lt_iff_lt] at hlt
      exact ⟨y, rfl, hy, le_rfl, le_of_lt hlt⟩
    · rename_i hlt
      rw [h hx hy, compare_lt_iff_lt] at hlt
      exact ⟨x, rfl, hx, not_lt.mp hlt, le_rfl⟩

/-- `peek`'s fold ends on an item whose key is at least every folded item's and the initial
best's. The induction is on the list, with the running best generalised. -/
theorem foldl_better_greatest (h : ComparesBy s compare key) :
    ∀ (l : List (I × P)) (b : Option (I × P)) (e : I × P),
      (∀ x ∈ l, s x.2) → (∀ x ∈ b, s x.2) → l.foldl better b = some e →
      (∀ x ∈ l, key x.2 ≤ key e.2) ∧ ∀ x ∈ b, key x.2 ≤ key e.2
  | [], b, e, _, _, he => by
    simp only [List.foldl_nil] at he
    subst he
    simp
  | y :: l, b, e, hl, hb, he => by
    obtain ⟨m, hm, hsm, hym, hbm⟩ := better_greatest h hb (hl y List.mem_cons_self)
    rw [List.foldl_cons, hm] at he
    have hl' : ∀ x ∈ l, s x.2 := fun x hx => hl x (List.mem_cons_of_mem _ hx)
    obtain ⟨hle, hme⟩ := foldl_better_greatest h l (some m) e hl' (by simpa using hsm) he
    have hme : key m.2 ≤ key e.2 := hme m rfl
    refine ⟨?_, fun x hx => le_trans (hbm x hx) hme⟩
    intro x hx
    rcases List.mem_cons.mp hx with rfl | hx
    · exact le_trans hym hme
    · exact hle x hx

/-- **What `peek` finds, for priorities ordered by a key**: an item whose key is at least
every queued item's. -/
theorem peek_greatest [DecidableEq I] (h : ComparesBy s compare key) {q : PriorityQueue I P}
    (hq : ∀ i p, get q i = some p → s p) {e : I × P} (he : peek q = some e) :
    ∀ i p, get q i = some p → key p ≤ key e.2 := by
  have hpairs : ∀ {i p}, (i, p) ∈ pairs q ↔ get q i = some p := by
    intro i p
    simpa [pairs, get] using AList.mem_lookup_iff.symm
  have hs : ∀ x ∈ pairs q, s x.2 := fun x hx => hq x.1 x.2 (hpairs.mp hx)
  intro i p hp
  exact (foldl_better_greatest h _ none e hs (by simp) he).1 (i, p) (hpairs.mpr hp)

end Key

end PriorityQueue

end Queen
