import GrammarSampler.Grammar.Derivation

/-!
# Derivations, read at a nonterminal

A derivation of a list of symbols splits into one derivation for each symbol, and a derivation from
a nonterminal begins with one of its productions (`derives_single_iff`).  Two lists of productions
are compared by `Derives.simulate`: it is enough to derive, from each left-hand side of the one,
what its right-hand side derives by the other.

`nonempty ps` leaves the empty productions out.  What it derives from a symbol is never empty.
-/

namespace GrammarSampler

variable {ps qs : List Production}

/-! ### One symbol at a time -/

theorem derives_nil_iff {w : List Terminal} : Derives ps [] w ↔ w = [] := by
  constructor
  · intro h
    cases h
    rfl
  · rintro rfl
    exact .nil

theorem derives_terminal_cons_iff {t : Terminal} {r : List Symbol} {w : List Terminal} :
    Derives ps (.terminal t :: r) w ↔ ∃ v, w = t :: v ∧ Derives ps r v := by
  constructor
  · intro h
    cases h with
    | terminal h => exact ⟨_, rfl, h⟩
  · rintro ⟨v, rfl, h⟩
    exact .terminal h

/-- A derivation from a nonterminal begins with one of its productions. -/
theorem derives_single_iff {a : Nonterminal} {w : List Terminal} :
    Derives ps [.nonterminal a] w ↔ ∃ p ∈ ps, p.lhs = a ∧ Derives ps p.rhs w := by
  constructor
  · intro h
    cases h with
    | @rule p _ u v hp hu hv =>
      rw [derives_nil_iff.1 hv, List.append_nil]
      exact ⟨p, hp, rfl, hu⟩
  · rintro ⟨p, hp, rfl, hu⟩
    simpa using Derives.rule hp hu .nil

theorem derives_nonterminal_cons_iff {a : Nonterminal} {r : List Symbol} {w : List Terminal} :
    Derives ps (.nonterminal a :: r) w ↔
      ∃ u v, w = u ++ v ∧ Derives ps [.nonterminal a] u ∧ Derives ps r v := by
  constructor
  · intro h
    cases h with
    | rule hp hu hv => exact ⟨_, _, rfl, derives_single_iff.2 ⟨_, hp, rfl, hu⟩, hv⟩
  · rintro ⟨u, v, rfl, hu, hv⟩
    exact hu.append hv

/-- If what the right-hand sides of `ps` derive by `qs` derives by `qs` from their left-hand sides
too, then `qs` derives all that `ps` derives. -/
theorem Derives.simulate
    (h : ∀ p ∈ ps, ∀ w, Derives qs p.rhs w → Derives qs [.nonterminal p.lhs] w)
    {r : List Symbol} {w : List Terminal} (hr : Derives ps r w) : Derives qs r w := by
  induction hr with
  | nil => exact .nil
  | terminal _ ih => exact .terminal ih
  | rule hp _ _ ihu ihv => exact (h _ hp _ ihu).append ihv

/-! ### Without empty productions -/

/-- The productions whose right-hand sides have a symbol. -/
def nonempty (ps : List Production) : List Production := ps.filter fun p => !p.isEmpty

theorem mem_nonempty {p : Production} : p ∈ nonempty ps ↔ p ∈ ps ∧ p.rhs ≠ [] := by
  simp [nonempty, Production.isEmpty]

theorem Derives.of_nonempty {r : List Symbol} {w : List Terminal} (h : Derives (nonempty ps) r w) :
    Derives ps r w :=
  h.mono fun _ hp => (mem_nonempty.1 hp).1

/-- Without empty productions, only nothing derives nothing. -/
theorem eq_nil_of_derives_nonempty {r : List Symbol} {w : List Terminal}
    (h : Derives (nonempty ps) r w) (hw : w = []) : r = [] := by
  induction h with
  | nil => rfl
  | terminal _ _ => exact absurd hw (List.cons_ne_nil _ _)
  | rule hp _ _ ihu _ => exact absurd (ihu (List.append_eq_nil_iff.1 hw).1) (mem_nonempty.1 hp).2

end GrammarSampler
