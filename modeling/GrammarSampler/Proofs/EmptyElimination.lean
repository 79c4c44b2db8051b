import GrammarSampler.NormalForm.EmptyFree
import GrammarSampler.Proofs.Closures

/-!
# Elimination of empty productions keeps the language

`eliminateEmpty ps start` derives nothing new (`derives_of_derives_eliminateEmpty`), and every word
but the empty one it derives without an empty production (`derives_nonempty_eliminateEmpty`).  Its
only empty production is that of the start symbol, which is there when the start symbol derives the
empty word (`empty_mem_eliminateEmpty_iff`).

A derivation is rebuilt symbol by symbol: a nonterminal whose part of the word is empty is nullable
and left out, which picks one of the variants of each right-hand side (`exists_variant_derives`).
Put together this is `eliminateEmpty_language`.
-/

namespace GrammarSampler

/-! ### Variants of a right-hand side -/

theorem mem_variants_cons {optional : Symbol → Bool} {y : Symbol} {r r' : List Symbol} :
    r' ∈ variants optional (y :: r) ↔
      (∃ s ∈ variants optional r, r' = y :: s) ∨ optional y = true ∧ r' ∈ variants optional r := by
  rw [variants_cons]
  split
  · next h => simp [h, eq_comm]
  · next h => simp [h, eq_comm]

/-- What a variant derives, its origin derives too, as what is left out can derive nothing. -/
theorem derives_of_mem_variants {ps : List Production} {optional : Symbol → Bool}
    (hopt : ∀ y, optional y = true → Derives ps [y] []) {r r' : List Symbol} {w : List Terminal}
    (hr' : r' ∈ variants optional r) (h : Derives ps r' w) : Derives ps r w := by
  induction r generalizing r' w with
  | nil => rwa [List.mem_singleton.1 hr'] at h
  | cons y r ih =>
    rcases mem_variants_cons.1 hr' with ⟨s, hs, rfl⟩ | ⟨hy, hr'⟩
    · cases y with
      | terminal t =>
        obtain ⟨v, rfl, hv⟩ := derives_terminal_cons_iff.1 h
        exact .terminal (ih hs hv)
      | nonterminal a =>
        obtain ⟨u, v, rfl, hu, hv⟩ := derives_nonterminal_cons_iff.1 h
        exact hu.append (ih hs hv)
    · exact (hopt y hy).append (ih hr' h)

/-! ### The productions after elimination -/

variable {ps : List Production} {start : Nonterminal}

/-- The symbols that may be left out: the nullable nonterminals. -/
def isOptional (ps : List Production) (start : Nonterminal) : Symbol → Bool :=
  let x := Numbering.ofProductions start ps
  x.isMember (nullableSet x ps)

theorem isOptional_nonterminal_iff {a : Nonterminal} :
    isOptional ps start (.nonterminal a) = true ↔ Derives ps [.nonterminal a] [] := by
  have hx := knows_ofProductions start ps
  show ((Numbering.ofProductions start ps).id? a).any _ = true ↔ _
  cases hi : (Numbering.ofProductions start ps).id? a with
  | none =>
    refine iff_of_false (by simp) fun h => ?_
    obtain ⟨p, hp, rfl, -⟩ := derives_single_iff.1 h
    exact Numbering.id?_eq_none_iff.1 hi (hx p hp).1
  | some i => exact has_nullableSet_iff hx hi

theorem derives_nil_of_isOptional {y : Symbol} (h : isOptional ps start y = true) :
    Derives ps [y] [] := by
  cases y with
  | terminal t => cases h
  | nonterminal a => exact isOptional_nonterminal_iff.1 h

theorem mem_eliminateEmpty {q : Production} : q ∈ eliminateEmpty ps start ↔
    (∃ p ∈ ps, p.lhs = q.lhs ∧ q.rhs ∈ variants (isOptional ps start) p.rhs) ∧
      (q.rhs ≠ [] ∨ q.lhs = start) := by
  obtain ⟨a, r⟩ := q
  show _ ∈ List.eraseDups (ps.flatMap (Production.variants (isOptional ps start) start)) ↔ _
  simp only [List.mem_eraseDups, List.mem_flatMap, Production.variants, List.mem_map,
    List.mem_filter, Production.mk.injEq, Bool.or_eq_true, Bool.not_eq_true',
    List.isEmpty_eq_false_iff, decide_eq_true_eq]
  constructor
  · rintro ⟨p, hp, s, ⟨hs, hkeep⟩, rfl, rfl⟩
    exact ⟨⟨p, hp, rfl, hs⟩, hkeep⟩
  · rintro ⟨⟨p, hp, rfl, hs⟩, hkeep⟩
    exact ⟨p, hp, r, ⟨hs, hkeep⟩, rfl, rfl⟩

/-! ### The language -/

/-- Elimination derives nothing new. -/
theorem derives_of_derives_eliminateEmpty {r : List Symbol} {w : List Terminal}
    (h : Derives (eliminateEmpty ps start) r w) : Derives ps r w := by
  refine h.simulate fun q hq w hw => ?_
  obtain ⟨⟨p, hp, hlhs, hvar⟩, -⟩ := mem_eliminateEmpty.1 hq
  exact derives_single_iff.2
    ⟨p, hp, hlhs, derives_of_mem_variants (fun _ => derives_nil_of_isOptional) hvar hw⟩

variable (start) in
/-- Every derivation is one of a variant, without empty productions. -/
theorem exists_variant_derives {r : List Symbol} {w : List Terminal} (h : Derives ps r w) :
    ∃ r' ∈ variants (isOptional ps start) r,
      Derives (nonempty (eliminateEmpty ps start)) r' w := by
  induction h with
  | nil => exact ⟨[], List.mem_singleton.2 rfl, .nil⟩
  | terminal _ ih =>
    obtain ⟨s, hs, hw⟩ := ih
    exact ⟨_, mem_variants_cons.2 (.inl ⟨s, hs, rfl⟩), .terminal hw⟩
  | @rule p r u v hp hu _ ihu ihv =>
    obtain ⟨s, hs, hv⟩ := ihv
    obtain ⟨c, hc, hcu⟩ := ihu
    by_cases hc0 : c = []
    · -- nothing is left of the right-hand side, so that `p.lhs` is nullable and goes
      obtain rfl := derives_nil_iff.1 (hc0 ▸ hcu)
      have hopt : isOptional ps start (.nonterminal p.lhs) = true :=
        isOptional_nonterminal_iff.2 (derives_single_iff.2 ⟨p, hp, rfl, hu⟩)
      exact ⟨s, mem_variants_cons.2 (.inr ⟨hopt, hs⟩), hv⟩
    · have hq : ⟨p.lhs, c⟩ ∈ nonempty (eliminateEmpty ps start) :=
        mem_nonempty.2 ⟨mem_eliminateEmpty.2 ⟨⟨p, hp, rfl, hc⟩, .inl hc0⟩, hc0⟩
      have hlhs := derives_single_iff.2 ⟨_, hq, rfl, hcu⟩
      exact ⟨_, mem_variants_cons.2 (.inl ⟨s, hs, rfl⟩), hlhs.append hv⟩

variable (start) in
/-- Elimination keeps every word that is not empty, and derives it without empty productions. -/
theorem derives_nonempty_eliminateEmpty {a : Nonterminal} {w : List Terminal}
    (h : Derives ps [.nonterminal a] w) (hw : w ≠ []) :
    Derives (nonempty (eliminateEmpty ps start)) [.nonterminal a] w := by
  obtain ⟨r', hr', hd⟩ := exists_variant_derives start h
  rcases mem_variants_cons.1 hr' with ⟨s, hs, rfl⟩ | ⟨-, hr'⟩
  · rwa [List.mem_singleton.1 hs] at hd
  · rw [List.mem_singleton.1 hr'] at hd
    exact absurd (derives_nil_iff.1 hd) hw

/-- The start symbol keeps the empty production when it derives the empty word. -/
theorem empty_mem_eliminateEmpty_iff :
    ⟨start, []⟩ ∈ eliminateEmpty ps start ↔ Derives ps [.nonterminal start] [] := by
  constructor
  · intro h
    exact derives_of_derives_eliminateEmpty (derives_single_iff.2 ⟨_, h, rfl, .nil⟩)
  · intro h
    obtain ⟨p, hp, hlhs, hd⟩ := derives_single_iff.1 h
    obtain ⟨r', hr', hd'⟩ := exists_variant_derives start hd
    rw [eq_nil_of_derives_nonempty hd' rfl] at hr'
    exact mem_eliminateEmpty.2 ⟨⟨p, hp, hlhs, hr'⟩, .inr rfl⟩

/-- No other production is empty. -/
theorem eq_of_mem_eliminateEmpty {q : Production} (hq : q ∈ eliminateEmpty ps start)
    (hempty : q.rhs = []) : q = ⟨start, []⟩ := by
  obtain ⟨-, hne | hlhs⟩ := mem_eliminateEmpty.1 hq
  · exact absurd hempty hne
  · cases q
    cases hlhs
    cases hempty
    rfl

/-- **What elimination of empty productions means.**  Every word but the empty one derives from the
same nonterminals as before, and without empty productions; nothing else derives, even where the
empty production of the start symbol is applied.  That one is there exactly when the start symbol
derives the empty word, no other production is empty, and none is repeated. -/
theorem eliminateEmpty_language (ps : List Production) (start : Nonterminal) :
    (∀ a w, w ≠ [] → Derives ps [.nonterminal a] w →
      Derives (nonempty (eliminateEmpty ps start)) [.nonterminal a] w) ∧
    (∀ a w, Derives (eliminateEmpty ps start) [.nonterminal a] w →
      Derives ps [.nonterminal a] w) ∧
    (⟨start, []⟩ ∈ eliminateEmpty ps start ↔ Derives ps [.nonterminal start] []) ∧
    (∀ q ∈ eliminateEmpty ps start, q.rhs = [] → q = ⟨start, []⟩) ∧
    (eliminateEmpty ps start).Nodup := by
  refine ⟨?_, ?_, empty_mem_eliminateEmpty_iff, ?_, nodup_eraseDups _⟩
  · intro a w hw h
    exact derives_nonempty_eliminateEmpty start h hw
  · intro a w h
    exact derives_of_derives_eliminateEmpty h
  · intro q hq hempty
    exact eq_of_mem_eliminateEmpty hq hempty

/-- Bracketed words in a row: the start symbol is nullable only by way of another nonterminal, and
stands on right-hand sides itself. -/
def nestings : List Production :=
  [⟨⟨"S"⟩, [.nonterminal ⟨"P"⟩, .nonterminal ⟨"P"⟩]⟩,
    ⟨⟨"P"⟩, [.terminal ⟨"("⟩, .nonterminal ⟨"S"⟩, .terminal ⟨")"⟩]⟩, ⟨⟨"P"⟩, []⟩]

/-- A pair of brackets takes three empty productions before elimination, and none after; with the
empty production of the start symbol between the brackets nothing new derives. -/
theorem eliminateEmpty_language_nestings :
    eliminateEmpty nestings ⟨"S"⟩ =
        [⟨⟨"S"⟩, [.nonterminal ⟨"P"⟩, .nonterminal ⟨"P"⟩]⟩, ⟨⟨"S"⟩, [.nonterminal ⟨"P"⟩]⟩,
          ⟨⟨"S"⟩, []⟩, ⟨⟨"P"⟩, [.terminal ⟨"("⟩, .nonterminal ⟨"S"⟩, .terminal ⟨")"⟩]⟩,
          ⟨⟨"P"⟩, [.terminal ⟨"("⟩, .terminal ⟨")"⟩]⟩] ∧
      Derives nestings [.nonterminal ⟨"S"⟩] [⟨"("⟩, ⟨")"⟩] ∧
      Derives (nonempty (eliminateEmpty nestings ⟨"S"⟩)) [.nonterminal ⟨"S"⟩] [⟨"("⟩, ⟨")"⟩] ∧
      Derives (eliminateEmpty nestings ⟨"S"⟩) [.nonterminal ⟨"P"⟩] [⟨"("⟩, ⟨")"⟩] ∧
      Derives nestings [.nonterminal ⟨"P"⟩] [⟨"("⟩, ⟨")"⟩] ∧
      ⟨⟨"S"⟩, []⟩ ∈ eliminateEmpty nestings ⟨"S"⟩ ∧
      ⟨⟨"P"⟩, []⟩ ∉ eliminateEmpty nestings ⟨"S"⟩ := by
  have hleft : eliminateEmpty nestings ⟨"S"⟩ =
      [⟨⟨"S"⟩, [.nonterminal ⟨"P"⟩, .nonterminal ⟨"P"⟩]⟩, ⟨⟨"S"⟩, [.nonterminal ⟨"P"⟩]⟩,
        ⟨⟨"S"⟩, []⟩, ⟨⟨"P"⟩, [.terminal ⟨"("⟩, .nonterminal ⟨"S"⟩, .terminal ⟨")"⟩]⟩,
        ⟨⟨"P"⟩, [.terminal ⟨"("⟩, .terminal ⟨")"⟩]⟩] := by decide +kernel
  obtain ⟨hkeeps, hsound, hstart, hempty, -⟩ := eliminateEmpty_language nestings ⟨"S"⟩
  have hP : Derives nestings [.nonterminal ⟨"P"⟩] [] :=
    derives_single_iff.2 ⟨⟨⟨"P"⟩, []⟩, by decide, rfl, .nil⟩
  have hS : Derives nestings [.nonterminal ⟨"S"⟩] [] :=
    derives_single_iff.2 ⟨⟨⟨"S"⟩, _⟩, List.mem_cons_self, rfl, hP.append hP⟩
  have hpair : Derives nestings [.nonterminal ⟨"P"⟩] [⟨"("⟩, ⟨")"⟩] :=
    derives_single_iff.2 ⟨⟨⟨"P"⟩, [.terminal ⟨"("⟩, .nonterminal ⟨"S"⟩, .terminal ⟨")"⟩]⟩,
      by decide, rfl, .terminal (hS.append (.terminal .nil))⟩
  have hword : Derives nestings [.nonterminal ⟨"S"⟩] [⟨"("⟩, ⟨")"⟩] :=
    derives_single_iff.2 ⟨⟨⟨"S"⟩, _⟩, List.mem_cons_self, rfl, hpair.append hP⟩
  have hmem := hstart.2 hS
  have hbrackets : ⟨⟨"P"⟩, [.terminal ⟨"("⟩, .nonterminal ⟨"S"⟩, .terminal ⟨")"⟩]⟩ ∈
      eliminateEmpty nestings ⟨"S"⟩ := by
    rw [hleft]
    decide
  have hinside : Derives (eliminateEmpty nestings ⟨"S"⟩) [.nonterminal ⟨"P"⟩] [⟨"("⟩, ⟨")"⟩] := by
    have hlhs := derives_single_iff.2 ⟨_, hmem, rfl, .nil⟩
    exact derives_single_iff.2 ⟨_, hbrackets, rfl, .terminal (hlhs.append (.terminal .nil))⟩
  refine ⟨hleft, hword, hkeeps _ _ (List.cons_ne_nil _ _) hword, hinside, hsound _ _ hinside,
    hmem, ?_⟩
  intro hother
  exact absurd (hempty _ hother rfl) (by decide)

end GrammarSampler
