/-
Lexical path normalisation, over any alphabet with a separator.

A path is split at the separator into its segments, the empty ones (from a leading,
trailing or doubled separator) dropped. Walking the segments from the root, `..` leaves the
last directory kept so far, and stays at the root when there is none; `.` stays where it
is; any other name goes down into it. Joining puts the separator in front of each segment.

Two facts carry the uses of this file: the segments of `a ++ sep :: b` are those of `a`
followed by those of `b` (`segments_append_sep`), so a walk over a joined path is a walk
over the first part continued over the second; and joining plain segments and splitting
again gives them back (`segments_join`), so a path kept in normal form can be read back.
-/
import Mathlib

set_option autoImplicit false

namespace Queen.Path

variable {α : Type} [DecidableEq α] (sep : α)

/-- The non-empty segments of `p` between separators. -/
def segments (p : List α) : List (List α) := (p.splitOn sep).filter (· ≠ [])

/-- The segments joined, the separator in front of each. -/
def join (segs : List (List α)) : List α := segs.foldl (fun s seg => s ++ sep :: seg) []

/-- One step of the walk: `..` goes up, but not above the root; `.` stays; a name goes down. -/
def resolve (dot dotdot : List α) (dir : List (List α)) (seg : List α) : List (List α) :=
  if seg = dotdot then dir.dropLast else if seg = dot then dir else dir ++ [seg]

/-- A segment a normal path may hold. -/
structure Plain (dot dotdot seg : List α) : Prop where
  ne_nil : seg ≠ []
  sep_not_mem : sep ∉ seg
  ne_dot : seg ≠ dot
  ne_dotdot : seg ≠ dotdot

/-- The lexical normal form of `p`: its segments walked from the root. -/
def normalize (dot dotdot p : List α) : List (List α) :=
  (segments sep p).foldl (resolve dot dotdot) []

/-! ## Splitting and joining -/

theorem segments_append_sep (a b : List α) :
    segments sep (a ++ sep :: b) = segments sep a ++ segments sep b := by
  rw [segments, List.splitOn_append_cons_self, List.filter_append]
  rfl

/-- No piece of `splitOn` holds the separator. -/
theorem not_mem_of_mem_splitOn : ∀ {p s : List α}, s ∈ p.splitOn sep → sep ∉ s
  | [], s, h => by
    rw [List.splitOn_nil, List.mem_singleton] at h
    subst h
    exact List.not_mem_nil
  | x :: p, s, h => by
    rw [List.splitOn_cons_eq_if_modifyHead] at h
    split_ifs at h with hx
    · -- the separator starts a new piece
      rcases List.mem_cons.mp h with rfl | h
      · exact List.not_mem_nil
      · exact not_mem_of_mem_splitOn h
    · -- `x` joins the first piece of the rest
      obtain ⟨first, rest, hsplit⟩ := List.exists_cons_of_ne_nil (List.splitOn_ne_nil sep p)
      rw [hsplit, List.modifyHead_cons] at h
      rcases List.mem_cons.mp h with rfl | h
      · rw [List.mem_cons, not_or]
        exact ⟨fun h => hx (by simp [h]), not_mem_of_mem_splitOn (hsplit ▸ List.mem_cons_self)⟩
      · exact not_mem_of_mem_splitOn (hsplit ▸ List.mem_cons_of_mem _ h)

/-- Every segment is non-empty and free of the separator. -/
theorem mem_segments {p s : List α} (h : s ∈ segments sep p) : s ≠ [] ∧ sep ∉ s := by
  rw [segments, List.mem_filter] at h
  exact ⟨of_decide_eq_true h.2, not_mem_of_mem_splitOn sep h.1⟩

omit [DecidableEq α] in
theorem foldl_join (segs : List (List α)) (acc : List α) :
    segs.foldl (fun s seg => s ++ sep :: seg) acc = acc ++ segs.flatMap (sep :: ·) := by
  induction segs generalizing acc with
  | nil => simp
  | cons seg segs ih => rw [List.foldl_cons, ih, List.flatMap_cons, List.append_assoc]

omit [DecidableEq α] in
/-- `sep s₁ sep s₂ …` is a separator in front of the segments intercalated. -/
theorem flatMap_sep_cons (first : List α) (rest : List (List α)) :
    (first :: rest).flatMap (sep :: ·) = sep :: [sep].intercalate (first :: rest) := by
  induction rest generalizing first with
  | nil => simp
  | cons second rest ih => rw [List.flatMap_cons, ih, List.intercalate_cons_cons]; simp

/-- Joining segments free of the separator and splitting again gives them back. -/
theorem segments_join {segs : List (List α)} (h : ∀ s ∈ segs, s ≠ [] ∧ sep ∉ s) :
    segments sep (join sep segs) = segs := by
  rcases segs with _ | ⟨first, rest⟩
  · rfl
  rw [segments, join, foldl_join, flatMap_sep_cons, List.splitOn_append_cons_self, List.splitOn_nil,
    List.splitOn_intercalate _ (fun l hl => (h l hl).2) (List.cons_ne_nil _ _),
    List.singleton_append, List.filter_cons_of_neg (by simp), List.filter_eq_self]
  intro s hs
  simpa using (h s hs).1

/-! ## The last segment -/

/-- `s.trim_end_matches(sep)`: `s` without the separators it ends with. -/
def trim_end_matches (p : List α) : List α := p.rdropWhile (· == sep)

/-- The two items of `s.rsplitn(2, sep)`: the part after the last separator (all of `s` when it
has none), and the part before it, when there is one. -/
def rsplitn_two (p : List α) : List α × Option (List α) :=
  let upto := p.rdropWhile (· != sep)
  (p.rtakeWhile (· != sep), if upto = [] then none else some upto.dropLast)

/-- `trim_end_matches` is empty exactly on a path of separators only. -/
theorem trim_end_matches_eq_nil_iff (p : List α) : trim_end_matches sep p = [] ↔ ∀ c ∈ p, c = sep := by
  simp [trim_end_matches]

/-- A path with something but separators in it is trimmed to a path that ends in something
else. -/
theorem trim_end_matches_ends {p : List α} (h : ∃ c ∈ p, c ≠ sep) :
    ∃ q c, trim_end_matches sep p = q ++ [c] ∧ c ≠ sep := by
  have hne : trim_end_matches sep p ≠ [] := by
    rw [Ne, trim_end_matches_eq_nil_iff]
    obtain ⟨c, hc, hne⟩ := h
    exact fun hall => hne (hall c hc)
  -- the last element the trim keeps is not a separator
  have hlast := List.rdropWhile_last_not (p := (· == sep)) p hne
  refine ⟨(trim_end_matches sep p).dropLast, _, (List.dropLast_append_getLast hne).symm, ?_⟩
  simpa [trim_end_matches] using hlast

/-- Without a second item, the first is the whole path, which holds no separator. -/
theorem rsplitn_two_none {p after : List α} (h : rsplitn_two sep p = (after, none)) :
    after = p ∧ sep ∉ p := by
  simp only [rsplitn_two, Prod.mk.injEq, ite_eq_left_iff, reduceCtorEq, imp_false, not_not] at h
  obtain ⟨rfl, hupto⟩ := h
  -- no element is left before the last non-separator run: the path has no separator
  have hall : ∀ x ∈ p, (x != sep) = true := List.rdropWhile_eq_nil_iff.mp hupto
  refine ⟨List.rtakeWhile_eq_self_iff.mpr hall, fun hsep => ?_⟩
  simpa using hall sep hsep

/-- With a second item, the path is that item, the last separator, and the first item, which
holds no separator. -/
theorem rsplitn_two_some {p after before : List α} (h : rsplitn_two sep p = (after, some before)) :
    p = before ++ sep :: after ∧ sep ∉ after := by
  simp only [rsplitn_two, Prod.mk.injEq] at h
  obtain ⟨rfl, h⟩ := h
  split at h
  · cases h
  · next hupto =>
    cases h
    -- the part up to the last separator ends in it
    have hlast : (p.rdropWhile (· != sep)).getLast hupto = sep := by
      simpa using List.rdropWhile_last_not (p := (· != sep)) p hupto
    refine ⟨?_, fun hsep => ?_⟩
    · conv_lhs => rw [← List.rdropWhile_append_rtakeWhile (p := (· != sep)) (l := p)]
      conv_lhs => rw [← List.dropLast_append_getLast hupto, hlast]
      simp
    · simpa using List.mem_rtakeWhile_imp hsep

/-- A path that ends in something but a separator has a non-empty last segment. -/
theorem rsplitn_two_fst_ne_nil {p q : List α} {c : α} (hp : p = q ++ [c]) (hc : c ≠ sep) :
    (rsplitn_two sep p).1 ≠ [] := by
  show p.rtakeWhile (· != sep) ≠ []
  rw [hp, List.rtakeWhile_concat_pos (p := (· != sep)) (l := q) c (by simpa using hc)]
  exact List.append_ne_nil_of_right_ne_nil _ (List.cons_ne_nil _ _)

/-! ## The walk -/

variable {sep} {dot dotdot : List α}

/-- Plain segments are walked down into one after another. -/
theorem foldl_resolve_of_plain {segs : List (List α)} (h : ∀ s ∈ segs, Plain sep dot dotdot s)
    (dir : List (List α)) : segs.foldl (resolve dot dotdot) dir = dir ++ segs := by
  induction segs generalizing dir with
  | nil => simp
  | cons seg segs ih =>
    have hseg := h seg List.mem_cons_self
    rw [List.foldl_cons, resolve, if_neg hseg.ne_dotdot, if_neg hseg.ne_dot,
      ih (fun s hs => h s (List.mem_cons_of_mem _ hs))]
    simp

/-- A walk from plain directories over segments free of the separator stays plain. -/
theorem plain_foldl_resolve {segs dir : List (List α)} (hdir : ∀ s ∈ dir, Plain sep dot dotdot s)
    (hsegs : ∀ s ∈ segs, s ≠ [] ∧ sep ∉ s) :
    ∀ s ∈ segs.foldl (resolve dot dotdot) dir, Plain sep dot dotdot s := by
  induction segs generalizing dir with
  | nil => exact hdir
  | cons seg segs ih =>
    refine ih (fun s hs => ?_) (fun s hs => hsegs s (List.mem_cons_of_mem _ hs))
    unfold resolve at hs
    split_ifs at hs with hdd hd
    · exact hdir s (List.dropLast_subset _ hs)
    · exact hdir s hs
    · rcases List.mem_append.mp hs with hs | hs
      · exact hdir s hs
      · rw [List.mem_singleton] at hs
        subst hs
        exact ⟨(hsegs s List.mem_cons_self).1, (hsegs s List.mem_cons_self).2, hd, hdd⟩

/-- The normal form of a joined path is the walk over the first part, continued. -/
theorem normalize_append_sep (a b : List α) :
    normalize sep dot dotdot (a ++ sep :: b) =
      (segments sep b).foldl (resolve dot dotdot) (normalize sep dot dotdot a) := by
  rw [normalize, segments_append_sep, List.foldl_append, normalize]

end Queen.Path
