import GrammarSampler.Proofs.Generation
import GrammarSampler.Sampling.Ambiguity

/-!
# Sessions of a generator

A session is a list of calls on one generator, each of which may extend its table and take words
from its source.  Every generator of a session is `Over` its grammar: the table holds the counts of
the grammar, in rows that have their places (`Over.runCalls`).

So in every session a string is generated exactly where the count is positive
(`generateFrom_iff_count`).  Weights always add up to counts, and where nothing is generated nothing
is drawn (`Over.source_of_error`).  The string is that of a recursion on the length, which makes the
same draws as the loop over the pending parts (`generateFrom_eq_recursiveString`).
-/

namespace GrammarSampler

/-! ### One call -/

/-- A call on a generator. -/
inductive GeneratorCall where
  | preprocess (n : Nat)
  | count (a : Nonterminal) (n : Nat)
  | countProduction (p : Production) (n : Nat)
  | generate (n : Nat)
  | generateText (n : Nat) (separator : String)
  | generateFrom (a : Nonterminal) (n : Nat)
  | sample (n samples : Nat)
  | estimate (o : AmbiguityOptions)
  /-- Whatever is drawn from the source, or put in its place. -/
  | useSource (s : Source)
  /-- The session goes on with a copy of the generator. -/
  | copy

namespace Generator

/-- The generator after a call.  A call that is refused leaves it as it is. -/
def run (gen : Generator) : GeneratorCall → Generator
  | .preprocess n => (gen.preprocess n).toOption.getD gen
  | .count a n => ((gen.count? a n).map Prod.snd).getD gen
  | .countProduction p n => ((gen.countProduction? p n).map Prod.snd).getD gen
  | .generate n => (gen.generate n).2
  | .generateText n separator => (gen.generateText n separator).2
  | .generateFrom a n => (gen.generateFrom a n).2
  | .sample n samples => (gen.sample n samples).2
  | .estimate o => (gen.estimateAmbiguity o).2
  | .useSource s => { gen with source := s }
  | .copy => { gen with table := gen.table.copy }

/-- The generator after all calls of a session. -/
def runCalls (gen : Generator) (calls : List GeneratorCall) : Generator := calls.foldl run gen

/-- **A generator over the grammar `g`**: its table holds the counts of `g`. -/
structure Over (g : Grammar) (gen : Generator) : Prop where
  grammar : gen.grammar = g
  counts : gen.table.Counts g
  rows : gen.table.Allocated

variable {g : Grammar} {gen : Generator} {a : Nonterminal} {n : Nat}

theorem over_new {s : Source} (h : Generator.new g s = .ok gen) :
    g.isChomsky = true ∧ Over g gen := by
  unfold Generator.new at h
  split at h
  · cases h
  · next t ht =>
    obtain ⟨hg, rfl⟩ := DerivationTable.ofGrammar?_eq_some_iff.1 ht
    cases h
    exact ⟨hg, rfl, DerivationTable.counts_ofGrammar g, DerivationTable.allocated_ofGrammar g⟩

theorem table_new {s : Source} (h : Generator.new g s = .ok gen) : gen.table = .ofGrammar g := by
  unfold Generator.new at h
  split at h
  · cases h
  · next t ht =>
    obtain ⟨-, rfl⟩ := DerivationTable.ofGrammar?_eq_some_iff.1 ht
    cases h
    rfl

theorem Over.counts_self (h : Over g gen) : gen.table.Counts gen.grammar := by
  rw [h.grammar]
  exact h.counts

/-- The table may be replaced by what a call on it leaves. -/
theorem Over.withTable (h : Over g gen) {call : TableCall} {u : DerivationTable}
    (hu : call.run gen.table = some u) (s : Source) : Over g ⟨gen.grammar, u, s⟩ :=
  ⟨h.grammar, h.counts.run hu, h.rows.run hu⟩

theorem Over.preprocess (h : Over g gen) {gen' : Generator} (hgen : gen.preprocess n = .ok gen') :
    Over g gen' := by
  unfold Generator.preprocess at hgen
  split at hgen
  · cases hgen
  · split at hgen
    · cases hgen
    · next u hu =>
      cases hgen
      have hrun : (TableCall.extend n).run gen.table = some u := hu
      exact h.withTable hrun _

theorem Over.count? (h : Over g gen) {k : Nat} {gen' : Generator}
    (hgen : gen.count? a n = some (k, gen')) : Over g gen' := by
  obtain ⟨⟨k', u⟩, hu, heq⟩ := Option.map_eq_some_iff.1 hgen
  cases heq
  have hrun : (TableCall.count a n).run gen.table = some u := by
    simp [TableCall.run, hu]
  exact h.withTable hrun _

theorem Over.countProduction? (h : Over g gen) {p : Production} {k : Nat} {gen' : Generator}
    (hgen : gen.countProduction? p n = some (k, gen')) : Over g gen' := by
  obtain ⟨⟨k', u⟩, hu, heq⟩ := Option.map_eq_some_iff.1 hgen
  cases heq
  have hrun : (TableCall.countProduction p n).run gen.table = some u := by
    simp [TableCall.run, hu]
  exact h.withTable hrun _

/-- Generation leaves the table as it is or extends it. -/
theorem table_generateFrom_cases (gen : Generator) (a : Nonterminal) (n : Nat) :
    (gen.generateFrom a n).2.table = gen.table ∨
      gen.table.extend? n = some (gen.generateFrom a n).2.table := by
  unfold Generator.generateFrom
  split
  · exact .inl rfl
  · split
    · exact .inl rfl
    · split
      · exact .inl rfl
      · next hu =>
        split
        · exact .inr hu
        · exact .inr hu

theorem grammar_generateFrom (gen : Generator) (a : Nonterminal) (n : Nat) :
    (gen.generateFrom a n).2.grammar = gen.grammar := by
  unfold Generator.generateFrom
  repeat' split
  all_goals rfl

theorem Over.generateFrom (h : Over g gen) (a : Nonterminal) (n : Nat) :
    Over g (gen.generateFrom a n).2 := by
  have hgrammar := (grammar_generateFrom gen a n).trans h.grammar
  rcases table_generateFrom_cases gen a n with htable | hu
  · exact ⟨hgrammar, htable ▸ h.counts, htable ▸ h.rows⟩
  · exact ⟨hgrammar, (h.counts.extend? hu).1, h.rows.extend? hu⟩

theorem Over.sampleInto (h : Over g gen) (n samples : Nat) (f : Frequencies) :
    Over g (sampleInto n samples f gen).2 := by
  induction samples generalizing gen f with
  | zero => exact h
  | succ samples ih =>
    have hnext := h.generateFrom gen.grammar.start n
    unfold Generator.sampleInto Generator.generate
    split
    · next heq =>
      rw [heq] at hnext
      exact hnext
    · next heq =>
      rw [heq] at hnext
      exact ih hnext _

theorem Over.drawInRange (h : Over g gen) (lo hi : Nat) : Over g (gen.drawInRange lo hi).2 :=
  ⟨h.grammar, h.counts, h.rows⟩

/-- An estimate draws lengths, counts and then generates. -/
theorem Over.estimateWith (h : Over g gen) (o : AmbiguityOptions) (attempts last : Nat) :
    Over g (estimateWith o attempts last gen).2 := by
  induction attempts generalizing gen last with
  | zero => exact h
  | succ attempts ih =>
    have hdrawn := h.drawInRange o.shortest o.longest
    unfold Generator.estimateWith
    split
    · exact h
    · simp only
      split
      · exact hdrawn
      · next heq => exact ih (hdrawn.count? heq) _
      · next heq => exact (hdrawn.count? heq).sampleInto _ _ _

/-- **One call** keeps the table one of the grammar. -/
theorem Over.run (h : Over g gen) (call : GeneratorCall) : Over g (gen.run call) := by
  cases call with
  | preprocess n =>
    rw [Generator.run]
    cases hgen : gen.preprocess n with
    | error e => exact h
    | ok gen' => exact h.preprocess hgen
  | count a n =>
    rw [Generator.run]
    cases hgen : gen.count? a n with
    | none => exact h
    | some r => exact h.count? hgen
  | countProduction p n =>
    rw [Generator.run]
    cases hgen : gen.countProduction? p n with
    | none => exact h
    | some r => exact h.countProduction? hgen
  | generate n => exact h.generateFrom _ n
  | generateText n separator => exact h.generateFrom _ n
  | generateFrom a n => exact h.generateFrom a n
  | sample n samples => exact h.sampleInto n samples _
  | estimate o => exact h.estimateWith o _ _
  | useSource s => exact ⟨h.grammar, h.counts, h.rows⟩
  | copy => exact ⟨h.grammar, h.counts.copy, h.rows.copy⟩

/-- **A whole session** keeps the table one of the grammar. -/
theorem Over.runCalls (h : Over g gen) (calls : List GeneratorCall) :
    Over g (gen.runCalls calls) := by
  induction calls generalizing gen with
  | nil => exact h
  | cons call calls ih => exact ih (h.run call)

/-! ### Counts and generation -/

theorem Over.encard_of_count? (h : Over g gen) {a : Nonterminal} {k : Nat} {gen' : Generator}
    (hk : gen.count? a n = some (k, gen')) : (g.trees a n).encard = k := by
  obtain ⟨⟨k', u⟩, hu, heq⟩ := Option.map_eq_some_iff.1 hk
  cases heq
  exact h.counts.encard_of_count? hu

/-- A count is the number of trees, and there is one unless there is no room for it. -/
theorem Over.count?_cases (h : Over g gen) (a : Nonterminal) (n : Nat) :
    (a ∈ g.nonterminals ∧ ¬gen.table.Fits n ∧ gen.count? a n = none) ∨
      (a ∈ g.nonterminals → gen.table.Fits n) ∧
        ∃ k gen', gen.count? a n = some (k, gen') ∧ (g.trees a n).encard = k := by
  cases hu : gen.table.count? a n with
  | none =>
    obtain ⟨ha, hn⟩ := (h.counts.count?_eq_none_iff h.rows).1 hu
    refine .inl ⟨ha, hn, ?_⟩
    simp [Generator.count?, hu]
  | some r =>
    obtain ⟨k, u⟩ := r
    refine .inr ⟨fun ha => ?_, k, { gen with table := u }, ?_, h.counts.encard_of_count? hu⟩
    · by_contra hn
      have hnone := (h.counts.count?_eq_none_iff h.rows).2 ⟨ha, hn⟩
      rw [hu] at hnone
      cases hnone
    · simp [Generator.count?, hu]

/-- Where nothing is generated, nothing is drawn. -/
theorem Over.source_of_error (h : Over g gen) {e : GenerateError}
    (he : (gen.generateFrom a n).1 = .error e) :
    (gen.generateFrom a n).2.source = gen.source := by
  unfold Generator.generateFrom at he ⊢
  split
  · rfl
  · next i hi =>
    split
    · rfl
    · next hn =>
      split
      · rfl
      · next u hu =>
        split
        · rfl
        · next hpos =>
          -- a string is derived, so that there is no error
          obtain ⟨hcounts, hsize⟩ := h.counts.extend? hu
          obtain ⟨hderive, -⟩ := hcounts.deriveString_eq (Nat.pos_of_ne_zero hn) hsize
            (Nat.pos_of_ne_zero hpos) gen.source
          simp only [hi, if_neg hn, hu, if_neg hpos, hderive] at he
          cases he

/-- Only the start symbol has a tree without leaves. -/
theorem start_of_mem_trees_zero (hg : g.isChomsky = true) {τ : ChomskyTree}
    (hτ : τ ∈ g.trees a 0) : a = g.start ∧ ⟨g.start, []⟩ ∈ g.productions := by
  obtain ⟨hfollows, rfl, hsize⟩ := hτ
  cases τ with
  | empty b =>
    have hp : ⟨b, []⟩ ∈ g.productions := hfollows
    rcases Grammar.rhs_cases hg hp with ⟨-, hb⟩ | ⟨t, hr⟩ | ⟨c, d, hr⟩
    · have hb : b = g.start := hb
      exact ⟨hb, hb ▸ hp⟩
    · cases hr
    · cases hr
  | leaf b t => cases hsize
  | node b left right =>
    obtain ⟨-, ⟨-, hleft⟩, -⟩ := hfollows
    have hsum : left.size + right.size = 0 := hsize
    omega

/-- The three results of a generation are the three results of a count. -/
theorem Over.generateFrom_cases (h : Over g gen) (a : Nonterminal) (n : Nat) :
    (gen.count? a n = none ∧ (a ∈ g.nonterminals ∧ ¬gen.table.Fits n) ∧
        (gen.generateFrom a n).1 = .error .tooLong) ∨
      ∃ k gen', gen.count? a n = some (k, gen') ∧ ¬(a ∈ g.nonterminals ∧ ¬gen.table.Fits n) ∧
        (0 < k ∧ (∃ τ ∈ g.trees a n, (gen.generateFrom a n).1 = .ok τ.yield) ∨
          k = 0 ∧ (gen.generateFrom a n).1 = .error (.noString n)) := by
  have hcases := GrammarSampler.generateFrom_cases gen h.counts_self h.rows a n
  rw [h.grammar] at hcases
  rcases h.count?_cases a n with ⟨ha, hn, hnone⟩ | ⟨hroom, k, gen', hcount, hcard⟩
  · rcases hcases with ⟨-, -, hresult⟩ | ⟨hfits, -⟩
    · exact .inl ⟨hnone, ⟨ha, hn⟩, hresult⟩
    · exact absurd (hfits ha) hn
  · have hshort : ¬(a ∈ g.nonterminals ∧ ¬gen.table.Fits n) := fun hlong =>
      hlong.2 (hroom hlong.1)
    refine .inr ⟨k, gen', hcount, hshort, ?_⟩
    rcases hcases with ⟨ha, hn, -⟩ | ⟨-, htree | ⟨hempty, hresult⟩⟩
    · exact absurd ⟨ha, hn⟩ hshort
    · refine .inl ⟨Nat.pos_of_ne_zero fun hk => ?_, htree⟩
      obtain ⟨τ, hτ, -⟩ := htree
      rw [hk, Nat.cast_zero, Set.encard_eq_zero] at hcard
      exact absurd (hcard ▸ hτ) (Set.notMem_empty τ)
    · rw [hempty, Set.encard_empty] at hcard
      exact .inr ⟨by exact_mod_cast hcard.symm, hresult⟩

end Generator

/-- **Generation succeeds exactly where the count is positive**, in every session and from every
source.  What is generated has the length asked for and is the yield of a tree without empty
productions, or the empty word of the start symbol.  Where the count is zero nothing is drawn.
Where the rows would have to grow beyond the limit, a known nonterminal gets neither a count nor a
string; lengths up to half the limit always have room. -/
theorem generateFrom_iff_count {g : Grammar} {s : Source} {gen₀ gen : Generator}
    {calls : List GeneratorCall} (h : Generator.new g s = .ok gen₀)
    (hgen : gen₀.runCalls calls = gen) (a : Nonterminal) (n : Nat) :
    (gen.count? a n = none ↔ a ∈ g.nonterminals ∧ ¬gen.table.Fits n) ∧
      (2 * n ≤ sequenceLimit → gen.table.Fits n) ∧
      (gen.count? a n = none → (gen.generateFrom a n).1 = .error .tooLong) ∧
      (∀ k gen', gen.count? a n = some (k, gen') →
        (0 < k → ∃ w, (gen.generateFrom a n).1 = .ok w ∧ w.length = n ∧
          (n = 0 ∧ a = g.start ∧ ⟨g.start, []⟩ ∈ g.productions ∨
            ∃ τ ∈ g.trees a n, τ.Follows (nonempty g.productions) ∧ τ.yield = w)) ∧
        (k = 0 → (gen.generateFrom a n).1 = .error (.noString n) ∧
          (gen.generateFrom a n).2.source = gen.source)) ∧
      (gen.generateFrom a n).1 ≠ .error .weightMismatch := by
  obtain ⟨hg, hover₀⟩ := Generator.over_new h
  have hover : gen.Over g := hgen ▸ hover₀.runCalls calls
  have hhalf : 2 * n ≤ sequenceLimit → gen.table.Fits n :=
    DerivationTable.fits_of_two_mul_le hover.rows.capacity_le
  rcases hover.generateFrom_cases a n with ⟨hnone, hlong, hresult⟩ |
    ⟨k, gen', hcount, hshort, ⟨hpos, τ, hτ, hresult⟩ | ⟨hzero, hresult⟩⟩
  · rw [hnone, hresult]
    refine ⟨iff_of_true rfl hlong, hhalf, fun _ => rfl, ?_, by simp⟩
    intro k gen' hcount
    cases hcount
  · have hlength : τ.yield.length = n := τ.length_yield.trans hτ.2.2
    rw [hcount, hresult]
    refine ⟨iff_of_false (by simp) hshort, hhalf, by simp, ?_, by simp⟩
    intro k' gen'' heq
    cases heq
    refine ⟨fun _ => ⟨τ.yield, rfl, hlength, ?_⟩, by omega⟩
    by_cases hn : n = 0
    · subst hn
      exact .inl ⟨rfl, Generator.start_of_mem_trees_zero hg hτ⟩
    · have hsize : 0 < τ.size := by
        rw [hτ.2.2]
        omega
      exact .inr ⟨τ, hτ, hτ.1.nonempty hsize, rfl⟩
  · have hsource := hover.source_of_error hresult
    rw [hcount, hresult]
    refine ⟨iff_of_false (by simp) hshort, hhalf, by simp, ?_, by simp⟩
    intro k' gen'' heq
    cases heq
    exact ⟨by omega, fun _ => ⟨rfl, hsource⟩⟩

/-- Four letters are generated after other calls, but no empty string. -/
theorem generateFrom_iff_count_bracketings : ∃ gen₀ gen,
    Generator.new Grammar.bracketings (.script [7]) = .ok gen₀ ∧
      gen₀.runCalls [.preprocess 3, .generate 2, .count ⟨"S"⟩ 5] = gen ∧
      (∃ w, (gen.generateFrom ⟨"S"⟩ 4).1 = .ok w ∧ w.length = 4) ∧
      (gen.generateFrom ⟨"S"⟩ 0).1 = .error (.noString 0) := by
  refine ⟨_, _, rfl, rfl, ?_, ?_⟩
  · have hcount : ((Generator.runCalls ⟨Grammar.bracketings, .ofGrammar Grammar.bracketings,
        .script [7]⟩ [.preprocess 3, .generate 2, .count ⟨"S"⟩ 5]).count? ⟨"S"⟩ 4).map Prod.fst =
          some 5 := by decide +kernel
    obtain ⟨⟨k, gen'⟩, hk, rfl⟩ := Option.map_eq_some_iff.1 hcount
    obtain ⟨-, -, -, hresult, -⟩ := generateFrom_iff_count
      (show Generator.new Grammar.bracketings (.script [7]) = .ok _ from rfl) rfl ⟨"S"⟩ 4
    obtain ⟨w, hw, hlength, -⟩ := (hresult _ _ hk).1 (by decide)
    exact ⟨w, hw, hlength⟩
  · have hcount : ((Generator.runCalls ⟨Grammar.bracketings, .ofGrammar Grammar.bracketings,
        .script [7]⟩ [.preprocess 3, .generate 2, .count ⟨"S"⟩ 5]).count? ⟨"S"⟩ 0).map Prod.fst =
          some 0 := by decide +kernel
    obtain ⟨⟨k, gen'⟩, hk, rfl⟩ := Option.map_eq_some_iff.1 hcount
    obtain ⟨-, -, -, hresult, -⟩ := generateFrom_iff_count
      (show Generator.new Grammar.bracketings (.script [7]) = .ok _ from rfl) rfl ⟨"S"⟩ 0
    exact ((hresult _ _ hk).2 rfl).1

/-- A length that is a machine word, but that there is no room for: there is no tree of it, but that
is not what is reported. -/
theorem generateFrom_letter_tooLong : 2 ^ 60 < 2 ^ 64 - 1 ∧ ∃ gen,
    Generator.new Grammar.letter (.script []) = .ok gen ∧
      Grammar.letter.trees ⟨"S"⟩ (2 ^ 60) = ∅ ∧
      (gen.generateFrom ⟨"S"⟩ (2 ^ 60)).1 = .error .tooLong := by
  refine ⟨by decide, _, rfl, Set.eq_empty_of_forall_notMem fun τ hτ => ?_, by decide +kernel⟩
  obtain ⟨hfollows, -, hsize⟩ := hτ
  cases τ with
  | empty a => cases hsize
  | leaf a t => cases hsize
  | node a left right =>
    have hp : ⟨a, [.nonterminal left.root, .nonterminal right.root]⟩ ∈
        Grammar.letter.productions := hfollows.1
    simp [Grammar.letter] at hp

/-! ### Generation as a recursion -/

section recursion

open DerivationTable

/-- **Generation refines the recursion.**  In every session, where the count is positive, the string
and the source are those of the recursion, in the table that counting leaves.  The loop ends after
exactly `2 * n - 1` iterations: `n` emit a terminal, and `n - 1` split a part. -/
theorem generateFrom_eq_recursiveString {g : Grammar} {s : Source} {gen₀ gen gen' : Generator}
    {calls : List GeneratorCall} {a : Nonterminal} {n k : Nat}
    (h : Generator.new g s = .ok gen₀) (hgen : gen₀.runCalls calls = gen) (hn : 0 < n)
    (hcount : gen.count? a n = some (k, gen')) (hk : 0 < k) :
    ∃ i w s', gen'.table.numbering.id? a = some i ∧
      gen'.table.recursiveString i n gen.source = (.ok w, s') ∧
      gen.generateFrom a n = (.ok w, { gen' with source := s' }) ∧
      (∃ kinds, gen'.table.Runs kinds ⟨[⟨i, n⟩], [], gen.source⟩ ⟨[], w.reverse, s'⟩ ∧
        kinds.length = 2 * n - 1 ∧ kinds.count .emit = n ∧ kinds.count .split = n - 1) ∧
      ∀ fuel, gen'.table.derive fuel [⟨i, n⟩] [] gen.source = (.ok w, s') ↔ 2 * n - 1 ≤ fuel := by
  have hover : gen.Over g := hgen ▸ (Generator.over_new h).2.runCalls calls
  obtain ⟨⟨k, u⟩, hu, heq⟩ := Option.map_eq_some_iff.1 hcount
  cases heq
  obtain ⟨hc, ⟨-, rfl⟩ | ⟨i, hi, hui, hext, hle, rfl⟩⟩ := hover.counts.of_count? hu
  · cases hk
  obtain ⟨τ, s', -, -, hrec⟩ := hc.recursiveString_eq hn hle (Nat.le_refl n) hk gen.source
  obtain ⟨-, -, kinds, hruns, hemit, hsplit⟩ := runs_of_recursiveString hrec [] []
  rw [List.append_nil] at hruns
  have hlength : kinds.length = 2 * n - 1 := by
    rw [length_eq_count]
    omega
  refine ⟨i, τ.yield, s', hui, hrec, ?_, ⟨kinds, hruns, hlength, hemit, hsplit⟩, fun fuel => ?_⟩
  · unfold Generator.generateFrom
    simp only [hi, if_neg (Nat.pos_iff_ne_zero.1 hn), hext, if_neg (Nat.pos_iff_ne_zero.1 hk),
      deriveString_of_recursiveString hrec]
  · rw [hruns.derive_eq_iff, hlength]

/-- Four letters are derived in seven iterations, after a shorter string. -/
theorem generateFrom_eq_recursiveString_bracketings : ∃ gen₀ gen gen' i w s' kinds,
    Generator.new Grammar.bracketings (.script [7, 5]) = .ok gen₀ ∧
      gen₀.runCalls [.generate 2] = gen ∧ gen.count? ⟨"S"⟩ 4 = some (5, gen') ∧
      gen'.table.recursiveString i 4 gen.source = (.ok w, s') ∧
      gen.generateFrom ⟨"S"⟩ 4 = (.ok w, { gen' with source := s' }) ∧
      gen'.table.Runs kinds ⟨[⟨i, 4⟩], [], gen.source⟩ ⟨[], w.reverse, s'⟩ ∧
      kinds.length = 7 ∧ kinds.count .emit = 4 ∧ kinds.count .split = 3 := by
  let gen : Generator := ⟨Grammar.bracketings, .ofGrammar Grammar.bracketings, .script [7, 5]⟩
  have hnew : Generator.new Grammar.bracketings (.script [7, 5]) = .ok gen := rfl
  have hfive : ((gen.runCalls [.generate 2]).count? ⟨"S"⟩ 4).map Prod.fst = some 5 := by
    decide +kernel
  obtain ⟨⟨k, gen'⟩, hcount, rfl⟩ := Option.map_eq_some_iff.1 hfive
  obtain ⟨i, w, s', -, hrec, hresult, ⟨kinds, hruns, hlength, hemit, hsplit⟩, -⟩ :=
    generateFrom_eq_recursiveString hnew rfl (by decide) hcount (by decide)
  exact ⟨gen, _, gen', i, w, s', kinds, hnew, rfl, hcount, hrec, hresult, hruns, hlength, hemit,
    hsplit⟩

end recursion

end GrammarSampler
