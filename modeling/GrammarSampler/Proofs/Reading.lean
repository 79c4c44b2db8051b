import GrammarSampler.Grammar.Reader
import GrammarSampler.Proofs.Lexing

/-!
# Productions from tokens

`Reads` says which productions a sequence of tokens lists, wherever the tokens stand in a text.  The
tokens of a line give the productions of the line (`Reads.line`), before those of the lines after
it.  Whatever tokens are read, the names of the productions are identifiers among them.
-/

namespace GrammarSampler

/-! ### Lines of tokens -/

/-- From what is expected next, the tokens give the productions, in any places. -/
def Reads (e : Expectation) (tokens : List Token) (ps : List Production) : Prop :=
  ∀ placed : List PlacedToken, placed.map PlacedToken.token = tokens → readRules e placed = .ok ps

section reads

variable {a : Nonterminal} {rhs : List Symbol} {tokens : List Token} {ps : List Production}

theorem reads_nil : Reads .rule [] [] := by
  intro placed h
  rw [List.map_eq_nil_iff.1 h]
  rfl

theorem reads_cons {e : Expectation} {token : Token}
    (h : ∀ here placed, placed.map PlacedToken.token = tokens →
      readRules e (⟨token, here⟩ :: placed) = .ok ps) : Reads e (token :: tokens) ps := by
  intro placed hplaced
  obtain ⟨⟨_, here⟩, rest, rfl, rfl, hrest⟩ := List.map_eq_cons_iff.1 hplaced
  exact h here rest hrest

theorem Reads.lhs (h : Reads (.symbol a []) tokens ps) :
    Reads .rule (.identifier a.name :: .arrow :: tokens) ps :=
  reads_cons fun _ => reads_cons fun _ => h

theorem Reads.symbol {s : Symbol} (h : Reads (.symbol a (rhs ++ [s])) tokens ps) :
    Reads (.symbol a rhs) (s.token :: tokens) ps := by
  cases s with
  | terminal t => exact reads_cons fun _ => h
  | nonterminal b => exact reads_cons fun _ => h

theorem Reads.bar (h : Reads (.symbol a []) tokens ps) :
    Reads (.symbol a rhs) (.bar :: tokens) (⟨a, rhs⟩ :: ps) := by
  refine reads_cons fun here placed hplaced => ?_
  simp only [readRules, h placed hplaced]
  rfl

theorem Reads.lineEnd (h : Reads .rule tokens ps) :
    Reads (.symbol a rhs) (.lineEnd :: tokens) (⟨a, rhs⟩ :: ps) := by
  refine reads_cons fun here placed hplaced => ?_
  simp only [readRules, h placed hplaced]
  rfl

theorem readProductions_eq {cs : List Char} (hlexes : Lexes cs tokens)
    (hreads : Reads .rule tokens ps) : readProductions cs = .ok ps := by
  obtain ⟨placed, hplaced, htokens⟩ := hlexes
  simp only [readProductions, hplaced]
  exact hreads placed htokens

/-- The symbols of an alternative are gathered. -/
theorem Reads.symbols (alternative : List Symbol)
    (h : Reads (.symbol a (rhs ++ alternative)) tokens ps) :
    Reads (.symbol a rhs) (alternative.map Symbol.token ++ tokens) ps := by
  induction alternative generalizing rhs with
  | nil => simpa using h
  | cons s alternative ih =>
    refine Reads.symbol (ih ?_)
    rwa [List.append_assoc, List.singleton_append]

/-- The tokens of alternatives with a bar between two. -/
def alternativeTokens (alternatives : List (List Symbol)) : List Token :=
  [Token.bar].intercalate (alternatives.map (List.map Symbol.token))

theorem alternativeTokens_cons {alternatives : List (List Symbol)} (hne : alternatives ≠ [])
    (alternative : List Symbol) : alternativeTokens (alternative :: alternatives) =
      alternative.map Symbol.token ++ .bar :: alternativeTokens alternatives := by
  rw [alternativeTokens, List.map_cons, List.intercalate_cons_of_ne_nil (by simpa using hne),
    List.append_assoc, List.singleton_append, alternativeTokens]

/-- The tokens of a line with all alternatives of `a`. -/
def lineTokens (a : Nonterminal) (alternatives : List (List Symbol)) : List Token :=
  .identifier a.name :: .arrow :: (alternativeTokens alternatives ++ [.lineEnd])

theorem lineTokens_append (a : Nonterminal) (alternatives : List (List Symbol))
    (tokens : List Token) : lineTokens a alternatives ++ tokens =
      .identifier a.name :: .arrow :: (alternativeTokens alternatives ++ .lineEnd :: tokens) := by
  simp [lineTokens]

theorem Reads.alternatives {alternatives : List (List Symbol)} (hne : alternatives ≠ [])
    (h : Reads .rule tokens ps) : Reads (.symbol a [])
      (alternativeTokens alternatives ++ .lineEnd :: tokens) (alternatives.map (⟨a, ·⟩) ++ ps) := by
  induction alternatives with
  | nil => exact absurd rfl hne
  | cons alternative alternatives ih =>
    by_cases hlast : alternatives = []
    · subst hlast
      rw [alternativeTokens, List.map_singleton, List.intercalate_singleton]
      exact Reads.symbols alternative h.lineEnd
    · rw [alternativeTokens_cons hlast, List.append_assoc, List.cons_append]
      exact Reads.symbols alternative (Reads.bar (ih hlast))

/-- **A line** lists its left-hand side with each alternative. -/
theorem Reads.line {alternatives : List (List Symbol)} (hne : alternatives ≠ [])
    (h : Reads .rule tokens ps) :
    Reads .rule (lineTokens a alternatives ++ tokens) (alternatives.map (⟨a, ·⟩) ++ ps) := by
  rw [lineTokens_append]
  exact Reads.lhs (Reads.alternatives hne h)

end reads

/-! ### Names -/

/-- The names that a reader of tokens has seen are identifiers. -/
def Expectation.Legible : Expectation → Prop
  | rule => True
  | arrow lhs => IsIdentifier lhs.name
  | symbol lhs rhs => IsIdentifier lhs.name ∧ ∀ s ∈ rhs, s.Legible

/-- The names of the production are identifiers. -/
def Production.Legible (p : Production) : Prop :=
  IsIdentifier p.lhs.name ∧ ∀ s ∈ p.rhs, s.Legible

/-- Productions that are read have names that are read. -/
theorem legible_of_readRules {e : Expectation} {placed : List PlacedToken} {ps : List Production}
    (h : readRules e placed = .ok ps) (he : e.Legible) (hplaced : ∀ t ∈ placed, t.token.Legible) :
    ∀ p ∈ ps, p.Legible := by
  fun_induction readRules e placed generalizing ps with
  | case1 => cases h; simp
  | case2 t placed _ ih => exact ih h trivial (List.forall_mem_cons.1 hplaced).2
  | case3 t placed name ht ih =>
    have hname := hplaced t List.mem_cons_self
    rw [ht] at hname
    exact ih h hname (List.forall_mem_cons.1 hplaced).2
  | case4 => cases h
  | case5 => cases h
  | case6 lhs t placed _ ih =>
    exact ih h ⟨he, by simp⟩ (List.forall_mem_cons.1 hplaced).2
  | case7 => cases h
  | case8 lhs rhs =>
    cases h
    exact List.forall_mem_singleton.2 he
  | case9 lhs rhs t placed _ ih =>
    obtain ⟨ps', hps', rfl⟩ := exists_of_map_eq_ok h
    have hrest := ih hps' trivial (List.forall_mem_cons.1 hplaced).2
    exact List.forall_mem_cons.2 ⟨he, hrest⟩
  | case10 lhs rhs t placed _ ih =>
    obtain ⟨ps', hps', rfl⟩ := exists_of_map_eq_ok h
    have hrest := ih hps' ⟨he.1, by simp⟩ (List.forall_mem_cons.1 hplaced).2
    exact List.forall_mem_cons.2 ⟨he, hrest⟩
  | case11 lhs rhs t placed name ht ih =>
    have hname := hplaced t List.mem_cons_self
    rw [ht] at hname
    have hsymbols : ∀ s ∈ rhs ++ [.nonterminal ⟨name⟩], s.Legible :=
      List.forall_mem_append.2 ⟨he.2, List.forall_mem_singleton.2 hname⟩
    exact ih h ⟨he.1, hsymbols⟩ (List.forall_mem_cons.1 hplaced).2
  | case12 lhs rhs t placed text _ ih =>
    have hsymbols : ∀ s ∈ rhs ++ [.terminal ⟨text⟩], s.Legible :=
      List.forall_mem_append.2 ⟨he.2, List.forall_mem_singleton.2 trivial⟩
    exact ih h ⟨he.1, hsymbols⟩ (List.forall_mem_cons.1 hplaced).2
  | case13 => cases h

theorem legible_of_readProductions {cs : List Char} {ps : List Production}
    (h : readProductions cs = .ok ps) : ∀ p ∈ ps, p.Legible := by
  unfold readProductions at h
  split at h
  · cases h
  · next placed hplaced => exact legible_of_readRules h trivial (legible_of_tokenize hplaced)

end GrammarSampler
