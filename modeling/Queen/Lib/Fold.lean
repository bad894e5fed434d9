/-
Fallible left folds: `List.foldlM` in `Option`, a loop over a list that stops at the first
step that panics.

The invariant rule comes first, for an invariant that may name the elements already done, and
its converse, the rule that a fold whose every step can be taken succeeds, and the same for
a fallible map.
Then what a fold leaves in a finite map when each of its steps inserts one key that was
absent, or erases one key that was present: the page-table loops of a memory manager are of
these two kinds. A step that finds its key in the wrong state fails, so a fold that succeeds
met every key in the state it needed. Last, what a fold puts together in an output from the
values at its keys, when no two steps share a key (`foldlM_collect`).

Nothing here names the kernel.
-/
import Mathlib

set_option autoImplicit false

namespace Queen.Fold

variable {α σ : Type*}

/-- One step of a fallible fold, taken apart. -/
theorem foldlM_cons_eq_some {f : σ → α → Option σ} {x : α} {l : List α} {s s' : σ} :
    (x :: l).foldlM f s = some s' ↔ ∃ s₁, f s x = some s₁ ∧ l.foldlM f s₁ = some s' := by
  simp only [List.foldlM_cons]
  exact Option.bind_eq_some_iff

/-- **The invariant rule of a fallible fold.** An invariant of the elements done and the
state, kept by every step that succeeds, holds of the result. A step may use where its
element stands in the list. -/
theorem foldlM_inv (f : σ → α → Option σ) (P : List α → σ → Prop) {l : List α}
    (hstep : ∀ done x rest s s', done ++ x :: rest = l → P done s → f s x = some s' →
      P (done ++ [x]) s')
    {s s' : σ} (h0 : P [] s) (h : l.foldlM f s = some s') : P l s' := by
  -- the fold of a suffix, from the state the prefix before it left
  suffices H : ∀ (r done : List α) (t : σ), done ++ r = l → P done t →
      r.foldlM f t = some s' → P l s' from H l [] s rfl h0 h
  intro r
  induction r with
  | nil =>
    intro done t hl ht hr
    simp only [List.foldlM_nil, Option.pure_def, Option.some.injEq] at hr
    subst hr
    simpa [← hl] using ht
  | cons x r ih =>
    intro done t hl ht hr
    obtain ⟨t₁, h₁, h₂⟩ := foldlM_cons_eq_some.mp hr
    exact ih (done ++ [x]) t₁ (by simpa using hl) (hstep done x r t t₁ hl ht h₁) h₂

/-- **The progress rule of a fallible fold.** When every step taken from a state meeting the
invariant succeeds, into a state meeting it, the fold succeeds. -/
theorem foldlM_exists (f : σ → α → Option σ) (P : List α → σ → Prop) {l : List α}
    (hstep : ∀ done x rest s, done ++ x :: rest = l → P done s →
      ∃ s', f s x = some s' ∧ P (done ++ [x]) s')
    {s : σ} (h0 : P [] s) : ∃ s', l.foldlM f s = some s' ∧ P l s' := by
  suffices H : ∀ (r done : List α) (t : σ), done ++ r = l → P done t →
      ∃ s', r.foldlM f t = some s' ∧ P l s' from H l [] s rfl h0
  intro r
  induction r with
  | nil =>
    intro done t hl ht
    exact ⟨t, rfl, by simpa [← hl] using ht⟩
  | cons x r ih =>
    intro done t hl ht
    obtain ⟨t₁, h₁, ht₁⟩ := hstep done x r t hl ht
    obtain ⟨s', hs', hP⟩ := ih (done ++ [x]) t₁ (by simpa using hl) ht₁
    exact ⟨s', foldlM_cons_eq_some.mpr ⟨t₁, h₁, hs'⟩, hP⟩

/-- **A fallible map** succeeds, with the images it is related to element by element. -/
theorem mapM_eq_some_of_forall₂ {β : Type*} {f : α → Option β} : ∀ {l : List α} {l' : List β},
    List.Forall₂ (fun a b => f a = some b) l l' → l.mapM f = some l'
  | [], [], .nil => rfl
  | _ :: _, _ :: _, .cons h hrest => by
    simp [List.mapM_cons, h, mapM_eq_some_of_forall₂ hrest]

/-! ## Folds that write a finite map

A step is described by what its map returns at every key, not by the map itself: an `AList`
records the order of its entries, which the kernel never looks at. -/

section Map

variable {κ β : Type*} [DecidableEq κ] (tab : σ → AList (fun _ : κ => β)) (key : α → κ)

/-- A fold each of whose steps sets a key that was absent, to a value `P` allows for it:
every key of the list was absent at the start and holds such a value at the end, and every
other key is as before. -/
theorem foldlM_insert (P : κ → β → Prop) {f : σ → α → Option σ}
    {l : List α} (hf : ∀ s x s', x ∈ l → f s x = some s' → (tab s).lookup (key x) = none ∧
      ∃ v, P (key x) v ∧ ∀ k, (tab s').lookup k = if k = key x then some v else (tab s).lookup k)
    {s s' : σ} (h : l.foldlM f s = some s') :
    (∀ x ∈ l, (tab s).lookup (key x) = none) ∧
      (∀ x ∈ l, ∃ v, (tab s').lookup (key x) = some v ∧ P (key x) v) ∧
      ∀ k, k ∉ l.map key → (tab s').lookup k = (tab s).lookup k := by
  -- the invariant: the keys done are set, the others are as at the start
  refine foldlM_inv f (fun done t =>
    (∀ x ∈ done, (tab s).lookup (key x) = none) ∧
      (∀ x ∈ done, ∃ v, (tab t).lookup (key x) = some v ∧ P (key x) v) ∧
      ∀ k, k ∉ done.map key → (tab t).lookup k = (tab s).lookup k) ?_ ?_ h
  · intro done x rest t t' hl ⟨hfresh, hset, hrest⟩ hx
    obtain ⟨hnone, v, hv, ht'⟩ := hf t x t' (by simp [← hl]) hx
    -- the key was absent before this step, so it was not done and is as at the start
    have hnew : key x ∉ done.map key := by
      intro hmem
      obtain ⟨y, hy, hyx⟩ := List.mem_map.mp hmem
      obtain ⟨w, hw, -⟩ := hset y hy
      rw [hyx, hnone] at hw
      cases hw
    refine ⟨?_, ?_, ?_⟩
    · intro y hy
      rcases List.mem_append.mp hy with hy | hy
      · exact hfresh y hy
      · rw [List.mem_singleton.mp hy, ← hrest _ hnew]
        exact hnone
    · intro y hy
      rw [ht']
      by_cases hyx : key y = key x
      · exact ⟨v, by rw [if_pos hyx], hyx ▸ hv⟩
      · rcases List.mem_append.mp hy with hy | hy
        · rw [if_neg hyx]
          exact hset y hy
        · exact absurd (congrArg key (List.mem_singleton.mp hy)) hyx
    · intro k hk
      simp only [List.map_append, List.map_cons, List.map_nil, List.mem_append,
        List.mem_singleton, not_or] at hk
      rw [ht', if_neg hk.2]
      exact hrest k hk.1
  · exact ⟨by simp, by simp, fun _ _ => rfl⟩

/-- A fold each of whose steps erases a key that was present: every key of the list was
present at the start and is absent at the end, and every other key is as before. -/
theorem foldlM_erase {f : σ → α → Option σ}
    {l : List α} (hf : ∀ s x s', x ∈ l → f s x = some s' → ((tab s).lookup (key x)).isSome ∧
      ∀ k, (tab s').lookup k = if k = key x then none else (tab s).lookup k)
    {s s' : σ} (h : l.foldlM f s = some s') :
    (∀ x ∈ l, ((tab s).lookup (key x)).isSome) ∧
      ∀ k, (tab s').lookup k = if k ∈ l.map key then none else (tab s).lookup k := by
  refine foldlM_inv f (fun done t => (∀ x ∈ done, ((tab s).lookup (key x)).isSome) ∧
      ∀ k, (tab t).lookup k = if k ∈ done.map key then none else (tab s).lookup k) ?_ ?_ h
  · intro done x rest t t' hl ⟨hpresent, hlook⟩ hx
    obtain ⟨hin, ht'⟩ := hf t x t' (by simp [← hl]) hx
    -- the key is still present, so it was not done and is as at the start
    have hstart := hlook (key x)
    have hnew : key x ∉ done.map key := by
      intro hmem
      rw [if_pos hmem] at hstart
      rw [hstart] at hin
      cases hin
    rw [if_neg hnew] at hstart
    refine ⟨?_, ?_⟩
    · intro y hy
      rcases List.mem_append.mp hy with hy | hy
      · exact hpresent y hy
      · rw [List.mem_singleton.mp hy, ← hstart]
        exact hin
    · intro k
      rw [ht']
      by_cases hk : k = key x
      · simp [hk]
      · rw [if_neg hk, hlook]
        simp [hk]
  · exact ⟨by simp, fun k => by simp⟩

/-- A fold each of whose steps puts in front of an output what `g` makes of the value at its
own key, and leaves every other key as it was: with the keys distinct, each step finds its key
as it was at the start, so the output gains, last step first, what `g` makes of the values at
the start. -/
theorem foldlM_collect {γ : Type*} (out : σ → List γ) (g : β → List γ) {f : σ → α → Option σ}
    {l : List α} (hkeys : (l.map key).Nodup)
    (hf : ∀ s x s', x ∈ l → f s x = some s' →
      out s' = ((tab s).lookup (key x)).elim [] g ++ out s ∧
        ∀ k, k ≠ key x → (tab s').lookup k = (tab s).lookup k)
    {s s' : σ} (h : l.foldlM f s = some s') :
    out s' = (l.reverse.flatMap fun x => ((tab s).lookup (key x)).elim [] g) ++ out s := by
  refine (foldlM_inv f (fun done t =>
      out t = (done.reverse.flatMap fun x => ((tab s).lookup (key x)).elim [] g) ++ out s ∧
        ∀ k, k ∉ done.map key → (tab t).lookup k = (tab s).lookup k) ?_ ⟨by simp, fun _ _ => rfl⟩
      h).1
  intro done x rest t t' hl ⟨hout, hlook⟩ hx
  obtain ⟨hout', hkept⟩ := hf t x t' (by simp [← hl]) hx
  -- the key of this step is not among those done, as the keys are distinct
  have hnew : key x ∉ done.map key := by
    rw [← hl, List.map_append, List.map_cons] at hkeys
    exact fun hmem => List.disjoint_of_nodup_append hkeys hmem List.mem_cons_self
  refine ⟨?_, fun k hk => ?_⟩
  · rw [hout', hlook (key x) hnew, hout]
    simp
  · have hk' : k ∉ done.map key ∧ k ≠ key x := by simpa [not_or] using hk
    rw [hkept k hk'.2, hlook k hk'.1]

end Map

end Queen.Fold
