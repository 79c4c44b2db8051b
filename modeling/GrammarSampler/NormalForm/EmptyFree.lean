import GrammarSampler.Analysis.Closure

/-!
# Elimination of empty productions

Each production gives way to its variants, in which nullable nonterminals are left out at some of
their occurrences.  An empty variant is kept for the start symbol only.
-/

namespace GrammarSampler

/-- Reads the symbol `x` after each of the right-hand sides that are there.  If it is `optional`,
each of them forks in two: one that keeps `x`, and one that leaves it out. -/
def forkAt (optional : Symbol → Bool) (partials : List (List Symbol)) (x : Symbol) :
    List (List Symbol) :=
  if optional x then partials.flatMap fun rhs => [rhs ++ [x], rhs]
  else partials.map fun rhs => rhs ++ [x]

/-- The right-hand sides that arise when some occurrences of `optional` symbols are left out; those
that keep the first such occurrence come first. -/
def variants (optional : Symbol → Bool) (rhs : List Symbol) : List (List Symbol) :=
  rhs.foldl (forkAt optional) [[]]

section variants

variable {optional : Symbol → Bool}

theorem variants_concat (rhs : List Symbol) (x : Symbol) :
    variants optional (rhs ++ [x]) = forkAt optional (variants optional rhs) x := by
  simp [variants]

/-- What is there before goes before every variant of the rest. -/
theorem foldl_forkAt (rhs : List Symbol) (partials : List (List Symbol)) :
    rhs.foldl (forkAt optional) partials =
      partials.flatMap fun done => (variants optional rhs).map (done ++ ·) := by
  induction rhs generalizing partials with
  | nil => simp [variants]
  | cons x rhs ih =>
    have hstep : variants optional (x :: rhs) =
        (forkAt optional [[]] x).flatMap fun done => (variants optional rhs).map (done ++ ·) :=
      ih _
    rw [List.foldl_cons, ih, hstep, forkAt, forkAt]
    by_cases hx : optional x
    · simp [hx, List.flatMap_assoc, Function.comp_def]
    · simp [hx, List.flatMap_map, Function.comp_def]

/-- The first symbol is kept, or left out where it is optional. -/
theorem variants_cons (x : Symbol) (rhs : List Symbol) : variants optional (x :: rhs) =
    if optional x then (variants optional rhs).map (x :: ·) ++ variants optional rhs
    else (variants optional rhs).map (x :: ·) := by
  show rhs.foldl (forkAt optional) (forkAt optional [[]] x) = _
  rw [foldl_forkAt, forkAt]
  by_cases hx : optional x
  · simp [hx]
  · simp [hx]

end variants

/-- The symbol is a nonterminal whose id is in `s`. -/
def Numbering.isMember (x : Numbering) (s : IdSet) : Symbol → Bool
  | .terminal _ => false
  | .nonterminal a => (x.id? a).any s.has

/-- The variants of a production, without an empty one for other symbols than the start symbol. -/
def Production.variants (optional : Symbol → Bool) (start : Nonterminal) (p : Production) :
    List Production :=
  ((GrammarSampler.variants optional p.rhs).filter fun rhs => !rhs.isEmpty || p.lhs = start).map
    fun rhs => ⟨p.lhs, rhs⟩

/-- Eliminates empty productions. -/
def eliminateEmpty (ps : List Production) (start : Nonterminal) : List Production :=
  let x := Numbering.ofProductions start ps
  let nullable := nullableSet x ps
  (ps.flatMap (Production.variants (x.isMember nullable) start)).eraseDups

end GrammarSampler
