import Mathlib.Logic.Function.Iterate
import GrammarSampler.CommandLine.Execution
import GrammarSampler.Proofs.EstimateRuns
import GrammarSampler.Proofs.SessionIndependence

/-!
# What `generate` writes: all strings, or nothing

A request asks for some number of strings.  They are generated in turn on one generator, and only
when there are all of them is anything written.  So there are two outcomes
(`generate_allOrNothing`): either all strings have been written, each of which is the result of its
generation on a new generator; or the command has failed for one of the reasons in `FailsWith`, and
neither a string has been written nor a file touched.  That the table is filled ahead of time makes
no difference, as the generator is alike before and after (`prepare_cases`).

A generation for which no length is given draws one after another.  It fails exactly if none of the
twenty lengths has a count other than zero (`generateAnyLength_cases`).
-/

namespace GrammarSampler

namespace Generator

variable {c : Grammar} {gen gen' : Generator} {n : Nat}

/-- The count of the start symbol, unless there is no room for it. -/
def startCount? (gen : Generator) (n : Nat) : Option Nat :=
  (gen.count? gen.grammar.start n).map Prod.fst

theorem Over.startCount?_eq (h : Over c gen) (hfits : gen.table.Fits n) :
    gen.startCount? n = some (gen.startCount n) := by
  rcases h.count?_start_cases n with ⟨hfull, -⟩ | ⟨u, -, -, -, hcount⟩
  · exact absurd hfits hfull
  · rw [startCount?, hcount, Option.map_some]

/-- Where there is room for the length, a string is generated or there is none. -/
theorem Over.generate_cases (h : Over c gen) (hfits : gen.table.Fits n) :
    (∃ w, gen.startCount n ≠ 0 ∧ (gen.generate n).1 = .ok w ∧ c.Generates w ∧ w.length = n) ∨
      gen.startCount n = 0 ∧ (gen.generate n).1 = .error (.noString n) := by
  rcases h.generateFrom_cases gen.grammar.start n with ⟨-, ⟨-, hlong⟩, -⟩ |
    ⟨k, u, hcount, -, ⟨hpos, τ, ⟨hτ, hroot, hsize⟩, hresult⟩ | ⟨rfl, hresult⟩⟩
  · exact absurd hfits hlong
  · refine .inl ⟨τ.yield, ?_, hresult, ?_, τ.length_yield.trans hsize⟩
    · rw [h.startCount_of_count? hcount]
      omega
    · rw [Grammar.Generates, ← h.grammar, ← hroot, h.grammar]
      exact hτ.derives
  · exact .inr ⟨h.startCount_of_count? hcount, hresult⟩

/-- A generation leaves room for another one of its length. -/
theorem Over.fits_generate (h : Over c gen) (hfits : gen.table.Fits n) :
    (gen.generate n).2.table.Fits n := by
  rcases table_generateFrom_cases gen gen.grammar.start n with htable | hu
  · rw [Generator.generate, htable]
    exact hfits
  · exact (h.rows.extend? hu).fits_of_le (h.counts.extend? hu).2

end Generator

namespace CommandLine

open Generator

variable {c : Grammar} {gen gen' : Generator} {length : Option Nat}

/-! ### Generations without a length -/

/-- The first `k` lengths from 1 to 10 that are drawn from the source. -/
def drawnLengths (k : Nat) (s : Source) : List Nat :=
  (AmbiguityOptions.drawLengths { shortest := 1, longest := 10 } k s).1

theorem drawnLengths_succ (k : Nat) (s : Source) :
    drawnLengths (k + 1) s = (s.inRange 1 10).1 :: drawnLengths k (s.inRange 1 10).2 := rfl

theorem length_drawnLengths (k : Nat) (s : Source) : (drawnLengths k s).length = k :=
  AmbiguityOptions.length_drawLengths _ k s

theorem bounds_of_mem_drawnLengths (k : Nat) (s : Source) :
    ∀ n ∈ drawnLengths k s, 1 ≤ n ∧ n ≤ 10 := by
  have hword : 10 < wordCount - 1 := by decide
  exact AmbiguityOptions.bounds_of_mem_drawLengths (by decide) hword k s

theorem fits_of_le_ten (h : Over c gen) {n : Nat} (hn : n ≤ 10) : gen.table.Fits n := by
  have hlimit : 20 ≤ sequenceLimit := by decide
  exact h.fits_of_two_mul_le (by omega)

/-- One attempt: a string is generated, or the attempts go on after a failure. -/
theorem generateAnyLength_succ (attempts last : Nat) (gen : Generator) :
    generateAnyLength (attempts + 1) last gen =
      match (gen.drawInRange 1 10).2.generate (gen.drawInRange 1 10).1 with
      | (.error (.noString n), g) => generateAnyLength attempts n g
      | result => result := rfl

/-- **One attempt** makes a string of the length that is drawn; or this has none, and the attempts
go on from a generator that has taken just the words for the length. -/
theorem generateAnyLength_succ_cases (h : Over c gen) (attempts last : Nat) :
    (gen.startCount (gen.source.inRange 1 10).1 ≠ 0 ∧
      ∃ w, (generateAnyLength (attempts + 1) last gen).1 = .ok w ∧ c.Generates w ∧
        1 ≤ w.length ∧ w.length ≤ 10) ∨
      gen.startCount (gen.source.inRange 1 10).1 = 0 ∧
      ∃ next, Over c next ∧ next.source = (gen.source.inRange 1 10).2 ∧
        generateAnyLength (attempts + 1) last gen =
          generateAnyLength attempts (gen.source.inRange 1 10).1 next := by
  obtain ⟨⟨n, gen₁⟩, hdraw⟩ : ∃ r, gen.drawInRange 1 10 = r := ⟨_, rfl⟩
  obtain ⟨⟨answer, gen₂⟩, hgen⟩ : ∃ r, gen₁.generate n = r := ⟨_, rfl⟩
  have hn : (gen.source.inRange 1 10).1 = n := congrArg Prod.fst hdraw
  have hsource : (gen.source.inRange 1 10).2 = gen₁.source :=
    congrArg (fun r : Nat × Generator => r.2.source) hdraw
  have hdrawn : Over c gen₁ := by
    simpa [hdraw] using h.drawInRange 1 10
  obtain ⟨hlow, hhigh⟩ : 1 ≤ n ∧ n ≤ 10 :=
    bounds_of_mem_drawnLengths 1 gen.source n (hn ▸ List.mem_cons_self)
  have hroom : gen₁.table.Fits n := fits_of_le_ten hdrawn hhigh
  rw [generateAnyLength_succ, hdraw, hn, hsource, ← h.startCount_eq hdrawn]
  simp only [hgen]
  rcases hdrawn.generate_cases hroom with ⟨w, hcount, hw, hderives, hlength⟩ | ⟨hcount, herror⟩
  · rw [hgen] at hw
    obtain rfl : answer = .ok w := hw
    exact .inl ⟨hcount, w, rfl, hderives, by omega, by omega⟩
  · have hnext := hdrawn.generateFrom gen₁.grammar.start n
    have hkept := hdrawn.source_of_error (a := gen₁.grammar.start) (n := n) (e := .noString n)
    rw [← Generator.generate, hgen] at hnext hkept
    rw [hgen] at herror
    obtain rfl : answer = .error (.noString n) := herror
    exact .inr ⟨hcount, gen₂, hnext, hkept rfl, rfl⟩

/-- **Attempts with lengths that are drawn** fail exactly if no length has a string, and name the
last one.  The string of a successful attempt has one of the lengths. -/
theorem generateAnyLength_cases (h : Over c gen) (attempts last : Nat) :
    (∃ w, (∃ n ∈ drawnLengths attempts gen.source, gen.startCount n ≠ 0) ∧
        (generateAnyLength attempts last gen).1 = .ok w ∧ c.Generates w ∧
        1 ≤ w.length ∧ w.length ≤ 10) ∨
      (∀ n ∈ drawnLengths attempts gen.source, gen.startCount n = 0) ∧
        (generateAnyLength attempts last gen).1 =
          .error (.noString ((drawnLengths attempts gen.source).getLastD last)) := by
  induction attempts generalizing gen last with
  | zero => exact .inr ⟨by simp [drawnLengths, AmbiguityOptions.drawLengths], rfl⟩
  | succ attempts ih =>
    rw [drawnLengths_succ, List.getLastD_cons]
    rcases generateAnyLength_succ_cases h attempts last with ⟨hne, w, hw⟩ |
      ⟨hzero, next, hnext, hsource, heq⟩
    · exact .inl ⟨w, ⟨_, List.mem_cons_self, hne⟩, hw⟩
    -- the attempts go on with the same counts
    have hrest := ih hnext (gen.source.inRange 1 10).1
    rw [hsource, h.startCount_eq hnext] at hrest
    rw [heq]
    rcases hrest with ⟨w, ⟨n, hn, hne⟩, hw⟩ | ⟨hzeros, herror⟩
    · exact .inl ⟨w, ⟨n, List.mem_cons_of_mem _ hn, hne⟩, hw⟩
    · exact .inr ⟨List.forall_mem_cons.2 ⟨hzero, hzeros⟩, herror⟩

theorem alike_generateAnyLength (h : Alike c gen gen') (attempts last : Nat) :
    SameAnswer c (generateAnyLength attempts last gen) (generateAnyLength attempts last gen') := by
  induction attempts generalizing gen gen' last with
  | zero => exact ⟨rfl, h⟩
  | succ attempts ih =>
    obtain ⟨hlength, hdrawn⟩ := h.drawInRange 1 10
    have hten : (gen.drawInRange 1 10).1 ≤ 10 :=
      (bounds_of_mem_drawnLengths 1 gen.source _ List.mem_cons_self).2
    obtain ⟨hanswer, hnext⟩ := hdrawn.generate
      (hdrawn.left.answers_generateFrom (fits_of_le_ten hdrawn.left hten) _)
      (hdrawn.right.answers_generateFrom (fits_of_le_ten hdrawn.right hten) _)
    rw [generateAnyLength_succ, generateAnyLength_succ, ← hlength]
    obtain ⟨⟨answer, gen₂⟩, hgen⟩ :
        ∃ r, (gen.drawInRange 1 10).2.generate (gen.drawInRange 1 10).1 = r := ⟨_, rfl⟩
    obtain ⟨⟨answer', gen₂'⟩, hgen'⟩ :
        ∃ r, (gen'.drawInRange 1 10).2.generate (gen.drawInRange 1 10).1 = r := ⟨_, rfl⟩
    rw [hgen, hgen'] at hanswer hnext
    obtain rfl : answer = answer' := hanswer
    simp only [hgen, hgen']
    cases answer with
    | ok w => exact ⟨rfl, hnext⟩
    | error e =>
      cases e with
      | noString n => exact ih hnext n
      | weightMismatch => exact ⟨rfl, hnext⟩
      | tooLong => exact ⟨rfl, hnext⟩

/-! ### Generations in turn -/

/-- A string of the length that is asked for; if there is none, of a length from 1 to 10. -/
def HasLength (length : Option Nat) (w : List Terminal) : Prop :=
  match length with
  | some n => w.length = n
  | none => 1 ≤ w.length ∧ w.length ≤ 10

/-- The generator after `i` generations in turn. -/
def generatorAfter (length : Option Nat) (gen : Generator) (i : Nat) : Generator :=
  (fun g => (generateOne length g).2)^[i] gen

/-- **The result of the generation number `i`**, counted from 0, of generations in turn. -/
def generation (length : Option Nat) (gen : Generator) (i : Nat) :
    Except GenerateError (List Terminal) :=
  (generateOne length (generatorAfter length gen i)).1

/-- A new table has room for the length, if one is asked for. -/
def HasRoom (length : Option Nat) : Prop := ∀ n, length = some n → n < sequenceLimit

/-- The table of the generator has room for the length, if one is asked for. -/
def Ready (length : Option Nat) (gen : Generator) : Prop :=
  ∀ n, length = some n → gen.table.Fits n

/-- One generation leaves room for the next one. -/
theorem ready_generateOne (h : Over c gen) (hready : Ready length gen) :
    Ready length (generateOne length gen).2 := by
  rintro n rfl
  exact h.fits_generate (hready n rfl)

theorem alike_generateOne (h : Alike c gen gen') (hready : Ready length gen)
    (hready' : Ready length gen') :
    SameAnswer c (generateOne length gen) (generateOne length gen') := by
  cases length with
  | some n =>
    exact h.generate (h.left.answers_generateFrom (hready n rfl) _)
      (h.right.answers_generateFrom (hready' n rfl) _)
  | none => exact alike_generateAnyLength h 20 10

theorem over_generateOne (h : Over c gen) : Over c (generateOne length gen).2 := by
  cases length with
  | some n => exact h.generateFrom _ n
  | none => exact (alike_generateAnyLength ⟨h, h, rfl⟩ 20 10).alike.left

theorem over_generatorAfter (h : Over c gen) (i : Nat) : Over c (generatorAfter length gen i) := by
  induction i generalizing gen with
  | zero => exact h
  | succ i ih => exact ih (over_generateOne h)

theorem ready_generatorAfter (h : Over c gen) (hready : Ready length gen) (i : Nat) :
    Ready length (generatorAfter length gen i) := by
  induction i generalizing gen with
  | zero => exact hready
  | succ i ih => exact ih (over_generateOne h) (ready_generateOne h hready)

/-- Generations on generators that are alike have the same results. -/
theorem generation_eq (h : Alike c gen gen') (hready : Ready length gen)
    (hready' : Ready length gen') (i : Nat) :
    generation length gen i = generation length gen' i := by
  induction i generalizing gen gen' with
  | zero => exact (alike_generateOne h hready hready').answer
  | succ i ih =>
    exact ih (alike_generateOne h hready hready').alike (ready_generateOne h.left hready)
      (ready_generateOne h.right hready')

/-- One generation makes a string of the grammar, or names a length. -/
theorem generateOne_cases (h : Over c gen) (hready : Ready length gen) :
    (∃ w, (generateOne length gen).1 = .ok w ∧ c.Generates w ∧ HasLength length w) ∨
      ∃ n, (generateOne length gen).1 = .error (.noString n) := by
  cases length with
  | some n =>
    rcases h.generate_cases (hready n rfl) with ⟨w, -, hw, hderives, hlength⟩ | ⟨-, herror⟩
    · exact .inl ⟨w, hw, hderives, hlength⟩
    · exact .inr ⟨n, herror⟩
  | none =>
    rcases generateAnyLength_cases h 20 10 with ⟨w, -, hw, hderives, hlength⟩ | ⟨-, herror⟩
    · exact .inl ⟨w, hw, hderives, hlength⟩
    · exact .inr ⟨_, herror⟩

theorem generation_cases (h : Over c gen) (hready : Ready length gen) (i : Nat) :
    (∃ w, generation length gen i = .ok w ∧ c.Generates w ∧ HasLength length w) ∨
      ∃ n, generation length gen i = .error (.noString n) :=
  generateOne_cases (over_generatorAfter h i) (ready_generatorAfter h hready i)

/-- **A generation without a length** fails exactly if none of the next twenty lengths has a string,
and then the last of these is named. -/
theorem generation_none_iff (h : Over c gen) (i : Nat) (e : GenerateError) :
    generation none gen i = .error e ↔
      (∀ n ∈ drawnLengths 20 (generatorAfter none gen i).source,
        (generatorAfter none gen i).startCount? n = some 0) ∧
      ∃ n, (drawnLengths 20 (generatorAfter none gen i).source).getLast? = some n ∧
        e = .noString n := by
  have hafter : Over c (generatorAfter none gen i) := over_generatorAfter h i
  have hcount : ∀ n ∈ drawnLengths 20 (generatorAfter none gen i).source,
      (generatorAfter none gen i).startCount? n = some 0 ↔
        (generatorAfter none gen i).startCount n = 0 := by
    intro n hn
    have hten := (bounds_of_mem_drawnLengths 20 _ n hn).2
    rw [hafter.startCount?_eq (fits_of_le_ten hafter hten), Option.some.injEq]
  have hlast : ∀ ns : List Nat, ns.length = 20 → ns.getLast? = some (ns.getLastD 10) := by
    intro ns hns
    cases ns with
    | nil => cases hns
    | cons m ns => rw [List.getLast?_cons, List.getLastD_cons, List.getLastD_eq_getLast?]
  rw [hlast _ (length_drawnLengths ..), forall₂_congr hcount]
  rcases generateAnyLength_cases hafter 20 10 with ⟨w, ⟨n, hn, hne⟩, hw, -⟩ | ⟨hzero, herror⟩
  · refine iff_of_false ?_ fun hall => hne (hall.1 n hn)
    intro heq
    rw [generation, generateOne, hw] at heq
    cases heq
  · rw [generation, generateOne, herror, and_iff_right hzero]
    simp [eq_comm]

/-- **Generations in turn** all succeed, or end with the first that fails. -/
theorem generateMany_cases (length : Option Nat) (number : Nat) (gen : Generator) :
    (∃ ws, (generateMany length number gen).1 = .ok ws ∧ ws.length = number ∧
        ∀ i w, ws[i]? = some w → generation length gen i = .ok w) ∨
      ∃ i e, i < number ∧ (∀ j < i, ∃ w, generation length gen j = .ok w) ∧
        generation length gen i = .error e ∧ (generateMany length number gen).1 = .error e := by
  induction number generalizing gen with
  | zero => exact .inl ⟨[], rfl, rfl, by simp⟩
  | succ number ih =>
    obtain ⟨⟨answer, gen₁⟩, hone⟩ : ∃ r, generateOne length gen = r := ⟨_, rfl⟩
    have hfirst : generation length gen 0 = answer := congrArg Prod.fst hone
    have hlater (i : Nat) : generation length gen (i + 1) = generation length gen₁ i := by
      have hnext : (generateOne length gen).2 = gen₁ := congrArg Prod.snd hone
      show generation length (generateOne length gen).2 i = _
      rw [hnext]
    rw [generateMany, hone]
    cases answer with
    | error e => exact .inr ⟨0, e, Nat.succ_pos _, by simp, hfirst, rfl⟩
    | ok w =>
      obtain ⟨⟨rest, gen₂⟩, hmany⟩ : ∃ r, generateMany length number gen₁ = r := ⟨_, rfl⟩
      have hrest := ih gen₁
      rw [hmany] at hrest
      simp only [hmany]
      rcases hrest with ⟨ws, hws, hlength, hall⟩ | ⟨i, e, hi, hbefore, he, herror⟩
      · obtain rfl : rest = .ok ws := hws
        refine .inl ⟨w :: ws, rfl, by rw [List.length_cons, hlength], fun i v hv => ?_⟩
        cases i with
        | zero =>
          obtain rfl : w = v := Option.some.inj hv
          exact hfirst
        | succ i => exact (hlater i).trans (hall i v hv)
      · obtain rfl : rest = .error e := herror
        refine .inr ⟨i + 1, e, Nat.succ_lt_succ hi, fun j hj => ?_, (hlater i).trans he, rfl⟩
        cases j with
        | zero => exact ⟨w, hfirst⟩
        | succ j =>
          rw [hlater]
          exact hbefore j (Nat.lt_of_succ_lt_succ hj)

/-! ### The whole command -/

/-- **The generator of a request**: for the normal form of the grammar in the file, with a new
table, and with the seed of the request, or `entropy` if it has none. -/
def GenerateRequest.Starts (r : GenerateRequest) (content : Except SystemError ByteArray)
    (entropy : UInt64) (gen : Generator) : Prop :=
  ∃ g, Grammar.readBytes content = .ok g ∧ g.toChomsky = .ok gen.grammar ∧
    Generator.new gen.grammar (.seeded ((r.seed.map Nat.toUInt64).getD entropy)) = .ok gen

/-- What is left when the strings `ws` have been written: they stand in the output file if there is
one, else on standard output. -/
def GenerateRequest.written (r : GenerateRequest) (ws : List (List Terminal)) : Outcome :=
  match r.output with
  | none => ⟨0, stringsText r.format r.separator ws, "", none⟩
  | some path => ⟨0, "", "", some (path, stringsText r.format r.separator ws)⟩

/-- **Why a request fails.** -/
inductive GenerateRequest.FailsWith (r : GenerateRequest) (content : Except SystemError ByteArray)
    (entropy : UInt64) : Failure → Prop
  /-- There is no grammar in the file. -/
  | read {e : ReadError} : Grammar.readBytes content = .error e →
      r.FailsWith content entropy (.read e)
  /-- The grammar has no normal form. -/
  | normalForm {g : Grammar} {e : NormalFormError} : Grammar.readBytes content = .ok g →
      g.toChomsky = .error e → r.FailsWith content entropy (.normalForm e)
  /-- There is no room for the length that is asked for. -/
  | tooLong {start : Generator} {n : Nat} : r.Starts content entropy start →
      r.length = some n → sequenceLimit ≤ n → r.FailsWith content entropy (.generator .tooLong)
  /-- There is no room for so many strings. -/
  | tooMany {start : Generator} : r.Starts content entropy start → HasRoom r.length →
      sequenceLimit < r.number → r.FailsWith content entropy .tooMany
  /-- One of the generations fails, after others that did not. -/
  | generation {start : Generator} {i n : Nat} : r.Starts content entropy start →
      HasRoom r.length → r.number ≤ sequenceLimit → i < r.number →
      (∀ j < i, ∃ w, generation r.length start j = .ok w) →
      generation r.length start i = .error (.noString n) →
      r.FailsWith content entropy (.generate (.noString n))

variable {r : GenerateRequest} {content : Except SystemError ByteArray} {entropy : UInt64}

/-- The generator of a request holds the counts of the normal form. -/
theorem over_of_starts (h : r.Starts content entropy gen) : Over gen.grammar gen := by
  obtain ⟨g, -, -, hnew⟩ := h
  exact (Generator.over_new hnew).2

/-- Its table is new, so that there is room for all lengths below the limit. -/
theorem fits_iff_of_starts (h : r.Starts content entropy gen) (n : Nat) :
    gen.table.Fits n ↔ n < sequenceLimit := by
  obtain ⟨g, -, -, hnew⟩ := h
  rw [Generator.table_new hnew]
  exact DerivationTable.fits_ofGrammar_iff

theorem ready_of_starts (h : r.Starts content entropy gen) (hroom : HasRoom length) :
    Ready length gen := fun n hn => (fits_iff_of_starts h n).2 (hroom n hn)

/-- Counting ahead of time leaves the generator of a request alike, if there is room for the
length. -/
theorem prepare_cases (h : r.Starts content entropy gen) (length : Option Nat) :
    (∃ n, length = some n ∧ sequenceLimit ≤ n ∧
        prepare gen length = .error (.generator .tooLong)) ∨
      HasRoom length ∧ ∃ gen', prepare gen length = .ok gen' ∧
        Alike gen.grammar gen gen' ∧ Ready length gen' := by
  have hover := over_of_starts h
  rcases length with _ | _ | n
  · exact .inr ⟨by simp [HasRoom], gen, rfl, ⟨hover, hover, rfl⟩, by simp [Ready]⟩
  · have hroom : HasRoom (some 0) := by simp [HasRoom, sequenceLimit, wordCount]
    exact .inr ⟨hroom, gen, rfl, ⟨hover, hover, rfl⟩, ready_of_starts h hroom⟩
  · have hroom := (hover.rows.extend?_eq_none_iff (n := n + 1)).trans
      (not_congr (fits_iff_of_starts h _))
    rw [prepare, Generator.preprocess, if_neg (Nat.succ_ne_zero n)]
    cases htable : gen.table.extend? (n + 1) with
    | none => exact .inl ⟨n + 1, rfl, Nat.not_lt.1 (hroom.1 htable), rfl⟩
    | some t =>
      obtain ⟨hcounts, hle⟩ := hover.counts.extend? htable
      have hrows := hover.rows.extend? htable
      refine .inr ⟨?_, _, rfl, ⟨hover, ⟨rfl, hcounts, hrows⟩, rfl⟩, ?_⟩
      · intro m hm
        obtain rfl := Option.some.inj hm
        rw [htable] at hroom
        simpa using hroom
      · intro m hm
        obtain rfl := Option.some.inj hm
        exact hrows.fits_of_le hle

/-- A request fails before there is a generator, or starts from one. -/
theorem generatorFor_cases (r : GenerateRequest) (content : Except SystemError ByteArray)
    (entropy : UInt64) :
    (∃ f, r.FailsWith content entropy f ∧
        (normalForm content >>= fun c => generatorFor c r.seed entropy) = .error f) ∨
      ∃ gen, r.Starts content entropy gen ∧
        (normalForm content >>= fun c => generatorFor c r.seed entropy) = .ok gen := by
  cases hread : Grammar.readBytes content with
  | error e =>
    refine .inl ⟨_, .read hread, ?_⟩
    rw [normalForm, hread]
    rfl
  | ok g =>
    cases hform : g.toChomsky with
    | error e =>
      refine .inl ⟨_, .normalForm hread hform, ?_⟩
      rw [normalForm, hread]
      simp only [hform]
      rfl
    | ok c =>
      have hnew := new_eq_ok (Grammar.isChomsky_toChomsky hform)
        (.seeded ((r.seed.map Nat.toUInt64).getD entropy))
      refine .inr ⟨⟨c, .ofGrammar c, _⟩, ⟨g, hread, hform, hnew⟩, ?_⟩
      rw [normalForm, hread]
      simp only [hform]
      show generatorFor c r.seed entropy = _
      rw [generatorFor, hnew]

/-- What is put out when the generator of a request has been prepared. -/
def GenerateRequest.outputFrom (r : GenerateRequest) (gen : Generator) : Except Failure Output :=
  if sequenceLimit < r.number then .error .tooMany
  else
    match (generateMany r.length r.number gen).1 with
    | .error e => .error (.generate e)
    | .ok ws => .ok ⟨stringsText r.format r.separator ws, r.output⟩

theorem execute_eq (r : GenerateRequest) (content : Except SystemError ByteArray)
    (entropy : UInt64) :
    r.execute content entropy =
      (normalForm content >>= fun c => generatorFor c r.seed entropy) >>= fun gen =>
        prepare gen r.length >>= r.outputFrom := by
  rw [GenerateRequest.execute, bind_assoc]
  rfl

/-- There is no room for so many strings, or all are put out, or a generation fails. -/
theorem outputFrom_cases (h : Over c gen) (hready : Ready r.length gen) :
    sequenceLimit < r.number ∧ r.outputFrom gen = .error .tooMany ∨
      (∃ ws, ws.length = r.number ∧ (∀ i w, ws[i]? = some w → generation r.length gen i = .ok w) ∧
        r.outputFrom gen = .ok ⟨stringsText r.format r.separator ws, r.output⟩) ∨
      ∃ i n, r.number ≤ sequenceLimit ∧ i < r.number ∧
        (∀ j < i, ∃ w, generation r.length gen j = .ok w) ∧
        generation r.length gen i = .error (.noString n) ∧
        r.outputFrom gen = .error (.generate (.noString n)) := by
  rw [GenerateRequest.outputFrom]
  split
  · next hmany => exact .inl ⟨hmany, rfl⟩
  · next hfew =>
    refine .inr ?_
    rcases generateMany_cases r.length r.number gen with ⟨ws, hws, hlength, hall⟩ |
      ⟨i, e, hi, hbefore, he, herror⟩
    · rw [hws]
      exact .inl ⟨ws, hlength, hall, rfl⟩
    · obtain ⟨n, rfl⟩ : ∃ n, e = .noString n := by
        rcases generation_cases h hready i with ⟨w, hw, -⟩ | ⟨n, hn⟩
        · rw [he] at hw
          cases hw
        · rw [he] at hn
          exact ⟨n, Except.error.inj hn⟩
      rw [herror]
      exact .inr ⟨i, n, Nat.not_lt.1 hfew, hi, hbefore, he, rfl⟩

/-- **What a request makes**: the text of all strings, or a failure. -/
theorem execute_cases (r : GenerateRequest) (content : Except SystemError ByteArray)
    (entropy : UInt64) :
    (∃ gen ws, r.Starts content entropy gen ∧ HasRoom r.length ∧ ws.length = r.number ∧
        (∀ i w, ws[i]? = some w → generation r.length gen i = .ok w) ∧
        r.execute content entropy = .ok ⟨stringsText r.format r.separator ws, r.output⟩) ∨
      ∃ f, r.FailsWith content entropy f ∧ r.execute content entropy = .error f := by
  rcases generatorFor_cases r content entropy with ⟨f, hf, herror⟩ | ⟨gen, hstarts, hok⟩
  · rw [execute_eq, herror]
    exact .inr ⟨f, hf, rfl⟩
  have hprepare : r.execute content entropy = prepare gen r.length >>= r.outputFrom := by
    rw [execute_eq, hok]
    rfl
  rcases prepare_cases hstarts r.length with ⟨n, hn, hlong, herror⟩ |
    ⟨hroom, gen', hok', halike, hready⟩
  · rw [hprepare, herror]
    exact .inr ⟨_, .tooLong hstarts hn hlong, rfl⟩
  have houtput : r.execute content entropy = r.outputFrom gen' := by
    rw [hprepare, hok']
    rfl
  rw [houtput]
  -- the results are those of the generator before it was prepared
  have heq (i : Nat) : generation r.length gen' i = generation r.length gen i :=
    (generation_eq halike (ready_of_starts hstarts hroom) hready i).symm
  have hcases := outputFrom_cases halike.right hready
  simp only [heq] at hcases
  rcases hcases with ⟨hmany, herror⟩ | ⟨ws, hlength, hall, hws⟩ |
    ⟨i, n, hfew, hi, hbefore, hn, herror⟩
  · exact .inr ⟨_, .tooMany hstarts hroom hmany, herror⟩
  · exact .inl ⟨gen, ws, hstarts, hroom, hlength, hall, hws⟩
  · exact .inr ⟨_, .generation hstarts hroom hfew hi hbefore hn, herror⟩

/-- The outcome of a request, where every text can be written to every path. -/
def GenerateRequest.outcome (r : GenerateRequest) (content : Except SystemError ByteArray)
    (entropy : UInt64) : Outcome :=
  (Command.generate r).outcome content entropy fun _ _ => none

theorem Failure.code_ne_zero (f : Failure) : f.code ≠ 0 := by
  unfold Failure.code
  split <;> decide

/-- Three words, to be written to a file. -/
def threeWords : GenerateRequest :=
  ⟨"words.cfg", 3, none, .string, some "words.txt", some 7, ""⟩

/-- With a single word of one letter the first generation succeeds, the second does not; nothing is
written. -/
example : threeWords.outcome (.ok "S -> 'a'\n".toUTF8) 0 =
    ⟨1, "", "Error: GenerationFailure \x7b length: 4 \x7d\n", none⟩ := by decide +kernel

end CommandLine

end GrammarSampler
