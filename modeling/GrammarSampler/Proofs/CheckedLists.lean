import Mathlib.Data.List.Basic

/-!
# Passes over lists in which nothing fails

A pass over a list fails where one of its steps does.  If no step fails, the pass comes to what the
same pass without failures comes to.
-/

namespace GrammarSampler

variable {α β : Type}

theorem mapM_eq_some {f : α → Option β} {f' : α → β} {xs : List α}
    (h : ∀ x ∈ xs, f x = some (f' x)) : xs.mapM f = some (xs.map f') := by
  induction xs with
  | nil => rfl
  | cons x xs ih =>
    obtain ⟨hx, hxs⟩ := List.forall_mem_cons.1 h
    simp [List.mapM_cons, hx, ih hxs]

theorem allM_eq_some {f : α → Option Bool} {f' : α → Bool} {xs : List α}
    (h : ∀ x ∈ xs, f x = some (f' x)) : xs.allM f = some (xs.all f') := by
  induction xs with
  | nil => rfl
  | cons x xs ih =>
    obtain ⟨hx, hxs⟩ := List.forall_mem_cons.1 h
    cases hfx : f' x <;> simp [List.allM, hx, hfx, ih hxs]

theorem filterAuxM_eq_some {f : α → Option Bool} {f' : α → Bool} {xs done : List α}
    (h : ∀ x ∈ xs, f x = some (f' x)) :
    xs.filterAuxM f done = some ((xs.filter f').reverse ++ done) := by
  induction xs generalizing done with
  | nil => rfl
  | cons x xs ih =>
    obtain ⟨hx, hxs⟩ := List.forall_mem_cons.1 h
    cases hfx : f' x <;> simp [List.filterAuxM, hx, hfx, ih hxs]

theorem filterM_eq_some {f : α → Option Bool} {f' : α → Bool} {xs : List α}
    (h : ∀ x ∈ xs, f x = some (f' x)) : xs.filterM f = some (xs.filter f') := by
  simp [List.filterM, filterAuxM_eq_some h]

/-- The steps must not fail as long as `I` holds, and must keep it. -/
theorem foldlM_eq_some {f : β → α → Option β} {f' : β → α → β} {I : β → Prop} {xs : List α} {b : β}
    (hb : I b) (h : ∀ c, I c → ∀ x ∈ xs, f c x = some (f' c x) ∧ I (f' c x)) :
    xs.foldlM f b = some (xs.foldl f' b) ∧ I (xs.foldl f' b) := by
  induction xs generalizing b with
  | nil => exact ⟨rfl, hb⟩
  | cons x xs ih =>
    obtain ⟨hx, hI⟩ := h b hb x List.mem_cons_self
    rw [List.foldlM_cons, hx]
    exact ih hI fun c hc y hy => h c hc y (List.mem_cons_of_mem x hy)

end GrammarSampler
