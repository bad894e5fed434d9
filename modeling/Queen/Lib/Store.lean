/-
Stores addressed by position: a `List` read with `getD` (a default past the end) and
written with `set`, `modify` (no effect past the end) and `++ [a]` (a new last cell). The
executor keeps its run queues and its task heap this way, the process model its heaps of
threads and processes, and every frame lemma about them is one of the rules below at a
particular type. A memory set keeps its areas in a list it cuts at a position and splices
pieces into, so the rules for that come next. Last, the one fact about finite maps that is not in `AList`'s API: what
erasing a list of keys leaves; and what a loop of writes into a table indexed by a key of
each item leaves, when no two items share a key.
-/
import Mathlib

set_option autoImplicit false

namespace Queen.Store

variable {α : Type}

/-- Reading back a `set`: the new value at a position in range, the old value elsewhere. -/
theorem getD_set (l : List α) (i j : Nat) (a d : α) :
    (l.set i a).getD j d = if j = i ∧ i < l.length then a else l.getD j d := by
  simp only [List.getD_eq_getElem?_getD, List.getElem?_set]
  by_cases hj : i = j
  · subst hj
    by_cases hi : i < l.length <;> simp [hi]
  · simp [hj, Ne.symm hj]

/-- Reading back a `modify`: `f` applied at a position in range, the old value elsewhere. -/
theorem getD_modify (l : List α) (i j : Nat) (f : α → α) (d : α) :
    (l.modify i f).getD j d = if j = i ∧ i < l.length then f (l.getD j d) else l.getD j d := by
  simp only [List.getD_eq_getElem?_getD, List.getElem?_modify]
  by_cases hj : i = j
  · subst hj
    by_cases hi : i < l.length <;> simp [hi]
  · simp [hj, Ne.symm hj]

/-- Reading a list grown by one cell at its end. -/
theorem getD_concat (l : List α) (a d : α) (j : Nat) :
    (l ++ [a]).getD j d = if j = l.length then a else l.getD j d := by
  rcases Nat.lt_trichotomy j l.length with h | rfl | h
  · rw [List.getD_append _ _ _ _ h, if_neg (Nat.ne_of_lt h)]
  · simp
  · have hl : (l ++ [a]).length ≤ j := by simp only [List.length_append, List.length_singleton]; omega
    rw [if_neg (Nat.ne_of_gt h), List.getD_eq_default _ _ hl, List.getD_eq_default _ _ (Nat.le_of_lt h)]

/-- Inserting at a position in range splits the list there. -/
theorem insertIdx_eq_take_drop (x : α) : ∀ (l : List α) (i : Nat), i ≤ l.length →
    l.insertIdx i x = l.take i ++ x :: l.drop i
  | [], 0, _ => rfl
  | _ :: _, 0, _ => rfl
  | y :: l, i + 1, h => by
    rw [List.insertIdx_succ_cons, insertIdx_eq_take_drop x l i (by simpa using h)]
    rfl

/-- A cell of a list cuts it into what stands before it and what stands after. -/
theorem exists_eq_append_cons_of_getElem? {l : List α} {i : Nat} {a : α} (h : l[i]? = some a) :
    ∃ pre post, l = pre ++ a :: post ∧ pre.length = i := by
  obtain ⟨hi, rfl⟩ := List.getElem?_eq_some_iff.mp h
  refine ⟨l.take i, l.drop (i + 1), ?_, by simp [Nat.le_of_lt hi]⟩
  rw [← List.drop_eq_getElem_cons hi, List.take_append_drop]

theorem eraseIdx_middle (pre post : List α) (a : α) :
    (pre ++ a :: post).eraseIdx pre.length = pre ++ post := by
  rw [List.eraseIdx_append_of_length_le (Nat.le_refl _), Nat.sub_self, List.eraseIdx_cons_zero]

theorem set_middle (pre post : List α) (a b : α) :
    (pre ++ a :: post).set pre.length b = pre ++ b :: post := by
  simp

theorem insertIdx_middle (pre post : List α) (b c : α) :
    (pre ++ b :: post).insertIdx (pre.length + 1) c = pre ++ b :: c :: post := by
  rw [insertIdx_eq_take_drop c _ _ (by simp), List.take_append,
    List.take_of_length_le (by omega)]
  simp

/-- Two members of a list that is pairwise related are equal or related one way. -/
theorem pairwise_eq_or_rel {R : α → α → Prop} {l : List α} (h : l.Pairwise R) {a b : α}
    (ha : a ∈ l) (hb : b ∈ l) : a = b ∨ R a b ∨ R b a := by
  obtain ⟨s, t, rfl⟩ := List.append_of_mem ha
  rw [List.pairwise_append, List.pairwise_cons] at h
  rcases List.mem_append.mp hb with hb | hb
  · exact .inr (.inr (h.2.2 b hb a List.mem_cons_self))
  · rcases List.mem_cons.mp hb with rfl | hb
    · exact .inl rfl
    · exact .inr (.inl (h.2.1.1 b hb))

/-- Erasing the keys of a list, one after the other, from a finite map. -/
theorem lookup_foldl_erase {κ β : Type} [DecidableEq κ] (m : AList (fun _ : κ => β))
    (ks : List κ) (x : κ) :
    (ks.foldl (fun m k => m.erase k) m).lookup x = if x ∈ ks then none else m.lookup x := by
  induction ks generalizing m with
  | nil => simp
  | cons k ks ih =>
    rw [List.foldl_cons, ih]
    by_cases hx : x = k
    · subst hx
      simp [AList.lookup_erase]
    · simp [hx, AList.lookup_erase_ne hx]

section Writes

variable {ι κ β : Type} [DecidableEq κ] (key : ι → κ) (val : ι → β)

/-- A loop writing `val a` at `key a` for each item `a` leaves a cell no item's key names. -/
theorem foldl_update_of_forall_ne :
    ∀ (l : List ι) (t : κ → β) (k : κ), (∀ a ∈ l, key a ≠ k) →
      l.foldl (fun t a => Function.update t (key a) (val a)) t k = t k
  | [], _, _, _ => rfl
  | a :: l, t, k, h => by
    rw [List.foldl_cons, foldl_update_of_forall_ne l _ k fun b hb => h b (List.mem_cons_of_mem _ hb),
      Function.update_of_ne (h a List.mem_cons_self).symm]

/-- The cell of an item that no other item of the loop shares a key with holds its value:
after the item is written, later writes to its cell are of the item itself. -/
theorem foldl_update_of_mem {a : ι} :
    ∀ (l : List ι) (t : κ → β), (a ∈ l ∨ t (key a) = val a) → (∀ b ∈ l, key b = key a → b = a) →
      l.foldl (fun t a => Function.update t (key a) (val a)) t (key a) = val a
  | [], _, h, _ => by
    rcases h with ha | ht
    · cases ha
    · exact ht
  | b :: l, t, h, huniq => by
    rw [List.foldl_cons]
    refine foldl_update_of_mem l _ ?_ fun c hc => huniq c (List.mem_cons_of_mem _ hc)
    by_cases hba : b = a
    · subst hba
      exact .inr (Function.update_self ..)
    · rcases h with ha | ht
      · exact .inl ((List.mem_cons.mp ha).resolve_left (Ne.symm hba))
      · -- `b` writes another cell
        have hkey : key a ≠ key b := fun hk => hba (huniq b List.mem_cons_self hk.symm)
        exact .inr (by rw [Function.update_of_ne hkey]; exact ht)

end Writes

end Queen.Store
