import GrammarSampler.Proofs.AmbiguityReports
import GrammarSampler.Proofs.ProductionCounts

/-!
# The run of an estimate of ambiguity

An estimate draws one length after another, and counts the trees of each, up to the first length
that has any (`Generator.tried`).  Counts do not change as the table grows, so that the whole run
can be told from the generator that it starts with: there is a report if one of the lengths has a
tree and there is room for all counts on the way to it (`Generator.Over.estimateWith_cases`).  The
rows grow with the lengths in turn, so that the room is that for all of them in their order
(`FitsAll`).

Once a length with a positive count is found, no sample fails (`Generator.Over.exists_sampleInto`).
As many strings are recorded as are asked for, each in one place of the frequencies
(`Frequencies.Balanced`).  If no length is found, exactly the lengths were drawn
(`estimateAmbiguity_cases`).
-/

namespace GrammarSampler

/-! ### Lengths that are drawn -/

namespace AmbiguityOptions

/-- The first `k` lengths that are drawn from the source, and the source after them. -/
def drawLengths (o : AmbiguityOptions) : Nat → Source → List Nat × Source
  | 0, s => ([], s)
  | k + 1, s =>
    let (n, s) := s.inRange o.shortest o.longest
    let (ns, s) := o.drawLengths k s
    (n :: ns, s)

/-- **The lengths that an estimate may try**, and the source after them.  None is drawn if there are
none between the shortest and the longest. -/
def attempts (o : AmbiguityOptions) (s : Source) : List Nat × Source :=
  if o.longest < o.shortest then ([], s) else o.drawLengths o.maxAttempts s

theorem length_drawLengths (o : AmbiguityOptions) (k : Nat) (s : Source) :
    (o.drawLengths k s).1.length = k := by
  induction k generalizing s with
  | zero => rfl
  | succ k ih => exact congrArg (· + 1) (ih _)

theorem bounds_of_mem_drawLengths {o : AmbiguityOptions} (h : o.shortest ≤ o.longest)
    (hword : o.longest < wordCount - 1) (k : Nat) (s : Source) :
    ∀ n ∈ (o.drawLengths k s).1, o.shortest ≤ n ∧ n ≤ o.longest := by
  induction k generalizing s with
  | zero => simp [drawLengths]
  | succ k ih =>
    exact List.forall_mem_cons.2 ⟨⟨s.le_inRange hword, s.inRange_le h hword⟩, ih _⟩

/-- No length that is tried is longer than the longest one. -/
theorem le_of_mem_attempts {o : AmbiguityOptions} {s : Source} {n : Nat}
    (ho : 2 * o.longest ≤ sequenceLimit) (hn : n ∈ (o.attempts s).1) : n ≤ o.longest := by
  rw [attempts] at hn
  split at hn
  · cases hn
  · next hrange =>
    have hword : o.longest < wordCount - 1 := by
      have hlimit : sequenceLimit < wordCount - 1 := by decide
      omega
    exact (bounds_of_mem_drawLengths (Nat.not_lt.1 hrange) hword _ _ n hn).2

end AmbiguityOptions

/-! ### Recorded strings -/

namespace Frequencies

/-- The counts of all strings add up to the total. -/
def Balanced (f : Frequencies) : Prop :=
  GrammarSampler.total (f.counts.map Prod.snd) = f.total

theorem total_bump (w : List Terminal) (counts : List (List Terminal × Nat)) :
    GrammarSampler.total ((bump w counts).map Prod.snd) =
      GrammarSampler.total (counts.map Prod.snd) + 1 := by
  induction counts with
  | nil => rfl
  | cons c counts ih =>
    obtain ⟨v, n⟩ := c
    rw [bump]
    split
    · exact Nat.add_comm ..
    · exact Nat.add_right_comm ..
    · simp only [List.map_cons, GrammarSampler.total, ih, Nat.add_assoc]

/-- As many occurrences are recorded as there are strings, and each in one place. -/
theorem Balanced.foldl_record {f : Frequencies} (h : f.Balanced) (ws : List (List Terminal)) :
    (ws.foldl record f).Balanced ∧ (ws.foldl record f).total = f.total + ws.length := by
  induction ws generalizing f with
  | nil => exact ⟨h, rfl⟩
  | cons w ws ih =>
    have hrecord : (f.record w).Balanced := by
      rw [Balanced, record, total_bump, h]
    obtain ⟨hbalanced, htotal⟩ := ih hrecord
    refine ⟨hbalanced, htotal.trans ?_⟩
    rw [record, List.length_cons, Nat.add_assoc, Nat.add_comm 1]

end Frequencies

/-! ### Room for lengths in turn -/

/-- The capacity of rows of the capacity `c` when all lengths have been counted, one after the
other. -/
def capacityAfter (c : Nat) (ns : List Nat) : Nat := ns.foldl (fun c n => grownCapacity c (n + 1)) c

theorem le_grownCapacity (c n : Nat) : c ≤ grownCapacity c n := by
  rw [grownCapacity]
  split <;> omega

theorem le_capacityAfter (c : Nat) (ns : List Nat) : c ≤ capacityAfter c ns := by
  induction ns generalizing c with
  | nil => exact Nat.le_refl c
  | cons n ns ih => exact (le_grownCapacity c (n + 1)).trans (ih _)

namespace DerivationTable

variable {t u : DerivationTable} {n : Nat} {ns : List Nat}

/-- There is room for all lengths, one after the other. -/
def FitsAll (t : DerivationTable) (ns : List Nat) : Prop :=
  capacityAfter t.capacity ns ≤ sequenceLimit

instance (t : DerivationTable) (ns : List Nat) : Decidable (t.FitsAll ns) :=
  inferInstanceAs (Decidable (_ ≤ _))

theorem FitsAll.fits (h : t.FitsAll (n :: ns)) : t.Fits n := (le_capacityAfter _ ns).trans h

/-- An extension that is answered has grown the rows as they grow for its length. -/
theorem Allocated.capacity_of_extend? (h : t.Allocated) (hu : t.extend? n = some u) :
    u.capacity = grownCapacity t.capacity (n + 1) := by
  have hlt := h.maxLength_lt
  obtain rfl := eq_extend_of_extend? hu
  unfold extend
  split
  · rw [grownCapacity, if_pos (by omega)]
  · exact capacity_fillUpTo t n

theorem Allocated.fitsAll_cons_iff (h : t.Allocated) (hu : t.extend? n = some u) :
    t.FitsAll (n :: ns) ↔ u.FitsAll ns := by
  rw [FitsAll, FitsAll, h.capacity_of_extend? hu]
  rfl

/-- **Lengths up to half the limit** have room in any order. -/
theorem fitsAll_of_two_mul_le (h : t.capacity ≤ sequenceLimit)
    (hns : ∀ n ∈ ns, 2 * n ≤ sequenceLimit) : t.FitsAll ns := by
  rw [FitsAll]
  generalize t.capacity = c at h
  induction ns generalizing c with
  | nil => exact h
  | cons n ns ih =>
    obtain ⟨hn, hns⟩ := List.forall_mem_cons.1 hns
    refine ih hns _ ?_
    show grownCapacity c (n + 1) ≤ sequenceLimit
    have hlimit : 4 ≤ sequenceLimit := by decide
    rw [grownCapacity]
    split <;> omega

end DerivationTable

/-! ### The lengths that are counted -/

namespace Generator

variable {g : Grammar} {gen gen' : Generator} {n : Nat} {o : AmbiguityOptions}

/-- The number of trees of the start symbol with `n` terminals. -/
def startCount (gen : Generator) (n : Nat) : Nat := gen.table.nonterminalCount gen.grammar.start n

/-- **The lengths that are counted**: those up to the first that has a tree. -/
def tried (gen : Generator) : List Nat → List Nat
  | [] => []
  | n :: ns => if gen.startCount n = 0 then n :: gen.tried ns else [n]

theorem Over.startCount_eq (h : Over g gen) (h' : Over g gen') :
    gen'.startCount = gen.startCount := by
  funext n
  rw [startCount, startCount, h.counts.nonterminalCount_eq h'.counts, h.grammar, h'.grammar]

theorem Over.tried_eq (h : Over g gen) (h' : Over g gen') : gen'.tried = gen.tried := by
  funext lengths
  induction lengths with
  | nil => rfl
  | cons n lengths ih => rw [tried, tried, h.startCount_eq h', ih]

theorem tried_subset (gen : Generator) {lengths : List Nat} : gen.tried lengths ⊆ lengths := by
  induction lengths with
  | nil => exact List.Subset.refl _
  | cons n lengths ih =>
    rw [tried]
    split
    · exact List.cons_subset_cons n ih
    · exact List.cons_subset_cons n (List.nil_subset lengths)

/-- The first length is counted in any case. -/
theorem fits_of_fitsAll_tried {t : DerivationTable} {lengths : List Nat}
    (h : t.FitsAll (gen.tried (n :: lengths))) : t.Fits n := by
  rw [tried] at h
  split at h
  · exact h.fits
  · exact h.fits

/-- What is drawn first is the first of the lengths. -/
theorem drawLengths_of_drawInRange {k : Nat}
    (hdraw : gen.drawInRange o.shortest o.longest = (n, gen')) :
    o.drawLengths (k + 1) gen.source =
      (n :: (o.drawLengths k gen'.source).1, (o.drawLengths k gen'.source).2) := by
  cases hdraw
  rfl

/-- A count that is answered is this one. -/
theorem Over.startCount_of_count? (h : Over g gen) {k : Nat}
    (hk : gen.count? gen.grammar.start n = some (k, gen')) : gen.startCount n = k := by
  obtain ⟨⟨k', u⟩, hu, heq⟩ := Option.map_eq_some_iff.1 hk
  cases heq
  exact h.counts.nonterminalCount_eq_of_count? h.counts hu

/-- **One count** of the start symbol: there is no room for it, or the table is extended. -/
theorem Over.count?_start_cases (h : Over g gen) (n : Nat) :
    (¬gen.table.Fits n ∧ gen.count? gen.grammar.start n = none) ∨
      ∃ u, Over g { gen with table := u } ∧ gen.table.extend? n = some u ∧ n ≤ u.maxLength ∧
        gen.count? gen.grammar.start n = some (gen.startCount n, { gen with table := u }) := by
  have hstart : g.start ∈ g.nonterminals := mem_sortedDistinct.2 List.mem_cons_self
  cases hcount : gen.table.count? gen.grammar.start n with
  | none =>
    obtain ⟨-, hfits⟩ := (h.counts.count?_eq_none_iff h.rows).1 hcount
    exact .inl ⟨hfits, by rw [Generator.count?, hcount, Option.map_none]⟩
  | some r =>
    obtain ⟨k, u⟩ := r
    have hgen : gen.count? gen.grammar.start n = some (k, { gen with table := u }) := by
      rw [Generator.count?, hcount, Option.map_some]
    obtain ⟨-, ⟨hunknown, -⟩ | ⟨i, -, -, hu, hle, -⟩⟩ := h.counts.of_count? hcount
    · exact absurd (h.grammar ▸ hstart) hunknown
    · exact .inr ⟨u, h.count? hgen, hu, hle, h.startCount_of_count? hgen ▸ hgen⟩

/-- Where the count is positive a string is generated. -/
theorem Over.exists_generate (h : Over g gen) (hfits : gen.table.Fits n)
    (hpos : 0 < gen.startCount n) : ∃ w, (gen.generate n).1 = .ok w := by
  rcases h.generateFrom_cases gen.grammar.start n with ⟨-, ⟨-, hlong⟩, -⟩ |
    ⟨k, u, hcount, -, ⟨-, τ, -, hresult⟩ | ⟨rfl, -⟩⟩
  · exact absurd hfits hlong
  · exact ⟨τ.yield, hresult⟩
  · exact absurd (h.startCount_of_count? hcount) (Nat.pos_iff_ne_zero.1 hpos)

/-- A table that goes as far as is generated stays as it is. -/
theorem table_generate (hn : n ≤ gen.table.maxLength) : (gen.generate n).2.table = gen.table := by
  rcases table_generateFrom_cases gen gen.grammar.start n with htable | hu
  · exact htable
  · rw [DerivationTable.extend?_of_le hn] at hu
    exact (Option.some.inj hu).symm

/-- **No sample fails** where the count is positive: it stays so from one sample to the next. -/
theorem Over.exists_sampleInto (h : Over g gen) (hn : n ≤ gen.table.maxLength)
    (hpos : 0 < gen.startCount n) (samples : Nat) (f : Frequencies) :
    ∃ f', (Generator.sampleInto n samples f gen).1 = .ok f' := by
  induction samples generalizing gen f with
  | zero => exact ⟨f, rfl⟩
  | succ samples ih =>
    obtain ⟨w, hw⟩ := h.exists_generate (h.rows.fits_of_le hn) hpos
    have hnext : Over g (gen.generate n).2 := h.generateFrom gen.grammar.start n
    have htable := table_generate hn
    unfold Generator.sampleInto
    split
    · next heq =>
      rw [heq] at hw
      cases hw
    · next u heq =>
      rw [heq] at hnext htable
      exact ih hnext (htable ▸ hn) (h.startCount_eq hnext ▸ hpos) _

/-- There is a report on a length with a positive count. -/
theorem Over.exists_report (h : Over g gen) (hn : n ≤ gen.table.maxLength)
    (hpos : 0 < gen.startCount n) (trees samples : Nat) :
    ∃ f, (gen.report n trees samples).1 = .ok ⟨n, trees, f⟩ := by
  obtain ⟨f, hf⟩ := h.exists_sampleInto hn hpos samples .empty
  exact ⟨f, congrArg (Except.map (AmbiguityReport.mk n trees)) hf⟩

/-- **One estimate** tries the lengths that may be drawn, as far as there is room. -/
theorem Over.estimateWith_cases (h : Over g gen) (ho : o.shortest ≤ o.longest)
    (attempts last : Nat) {lengths : List Nat} {s : Source}
    (hlengths : o.drawLengths attempts gen.source = (lengths, s)) :
    (¬gen.table.FitsAll (gen.tried lengths) ∧
        (Generator.estimateWith o attempts last gen).1 = .error .tooLong) ∨
      gen.table.FitsAll (gen.tried lengths) ∧
        ((∃ n f, lengths.find? (0 < gen.startCount ·) = some n ∧
            (Generator.estimateWith o attempts last gen).1 = .ok ⟨n, gen.startCount n, f⟩) ∨
          (∀ n ∈ lengths, gen.startCount n = 0) ∧
            (Generator.estimateWith o attempts last gen).1 =
              .error (.noString (lengths.getLastD last)) ∧
            (Generator.estimateWith o attempts last gen).2.source = s) := by
  induction attempts generalizing gen last lengths with
  | zero =>
    cases hlengths
    exact .inr ⟨h.rows.capacity_le, .inr ⟨by simp, rfl, rfl⟩⟩
  | succ attempts ih =>
    obtain ⟨⟨n, gen₁⟩, hdraw⟩ : ∃ r, gen.drawInRange o.shortest o.longest = r := ⟨_, rfl⟩
    obtain ⟨rfl, rfl⟩ := Prod.mk.inj ((drawLengths_of_drawInRange hdraw).symm.trans hlengths)
    have hdrawn : Over g gen₁ := by
      simpa [hdraw] using h.drawInRange o.shortest o.longest
    have htable : gen₁.table = gen.table := by
      cases hdraw
      rfl
    rw [Generator.estimateWith, if_neg (Nat.not_lt.2 ho), hdraw]
    simp only
    rw [← h.tried_eq hdrawn, ← h.startCount_eq hdrawn, ← htable]
    rcases hdrawn.count?_start_cases n with ⟨hfull, hnone⟩ | ⟨u, hu, hext, hle, hcount⟩
    · -- there is no room for the first length
      exact .inl ⟨fun hall => hfull (fits_of_fitsAll_tried hall), by rw [hnone]⟩
    have hsame := hdrawn.startCount_eq hu
    rw [hcount]
    by_cases hzero : gen₁.startCount n = 0
    · -- the estimate goes on with the next length
      have hrest := ih hu n rfl
      rw [hdrawn.tried_eq hu, hsame] at hrest
      rw [tried, if_pos hzero, hdrawn.rows.fitsAll_cons_iff hext, List.getLastD_cons,
        List.find?_cons_of_neg (by simp [hzero]), List.forall_mem_cons, and_iff_right hzero, hzero]
      exact hrest
    · -- the estimate reports on this length
      obtain ⟨k, hk⟩ := Nat.exists_eq_succ_of_ne_zero hzero
      have hpos : 0 < gen₁.startCount n := Nat.pos_of_ne_zero hzero
      obtain ⟨f, hf⟩ := hu.exists_report hle (hsame ▸ hpos) (k + 1) o.samples
      have hroom : u.FitsAll [] := hu.rows.capacity_le
      rw [tried, if_neg hzero, hdrawn.rows.fitsAll_cons_iff hext,
        List.find?_cons_of_pos (by simpa using hpos)]
      refine .inr ⟨hroom, .inl ⟨n, f, rfl, ?_⟩⟩
      rw [hk]
      exact hf

/-- **A whole estimate** tries the lengths that it may draw. -/
theorem Over.estimateAmbiguity_cases (h : Over g gen) {lengths : List Nat} {s : Source}
    (hlengths : o.attempts gen.source = (lengths, s)) :
    (¬gen.table.FitsAll (gen.tried lengths) ∧ (gen.estimateAmbiguity o).1 = .error .tooLong) ∨
      gen.table.FitsAll (gen.tried lengths) ∧
        ((∃ n f, lengths.find? (0 < gen.startCount ·) = some n ∧
            (gen.estimateAmbiguity o).1 = .ok ⟨n, gen.startCount n, f⟩) ∨
          (∀ n ∈ lengths, gen.startCount n = 0) ∧
            (gen.estimateAmbiguity o).1 = .error (.noString (lengths.getLastD o.shortest)) ∧
            (gen.estimateAmbiguity o).2.source = s) := by
  rw [AmbiguityOptions.attempts] at hlengths
  rw [Generator.estimateAmbiguity]
  split at hlengths
  · next hempty =>
    cases hlengths
    refine .inr ⟨h.rows.capacity_le, .inr ⟨by simp, ?_⟩⟩
    cases o.maxAttempts with
    | zero => exact ⟨rfl, rfl⟩
    | succ attempts =>
      rw [Generator.estimateWith, if_pos hempty]
      exact ⟨rfl, rfl⟩
  · next hrange => exact h.estimateWith_cases (Nat.not_lt.1 hrange) _ _ hlengths

/-- What a report records: as many strings as are asked for, of its length, which the grammar
generates. -/
theorem Over.frequencies_of_report (h : Over g gen) {r : AmbiguityReport}
    (hr : (gen.estimateAmbiguity o).1 = .ok r) :
    r.frequencies.total = o.samples ∧ total (r.frequencies.counts.map Prod.snd) = o.samples ∧
      ∀ w ∈ r.frequencies.strings, w.length = r.length ∧ g.Generates w := by
  obtain ⟨-, ws, hlength, hws, hyields⟩ := h.of_estimateWith hr
  obtain ⟨hbalanced, htotal⟩ := Frequencies.Balanced.foldl_record (f := .empty) rfl ws
  rw [← hws] at hbalanced htotal
  have hsamples : r.frequencies.total = o.samples := by
    rw [htotal, hlength]
    exact Nat.zero_add _
  refine ⟨hsamples, hbalanced.trans hsamples, fun w hw => ?_⟩
  rw [hws, Frequencies.mem_strings_foldl_record] at hw
  rcases hw with hw | hw
  · obtain ⟨τ, ⟨hτ, hroot, hsize⟩, rfl⟩ := hyields w hw
    refine ⟨τ.length_yield.trans hsize, ?_⟩
    rw [Grammar.Generates, ← hroot]
    exact hτ.derives
  · cases hw

end Generator

/-- **Estimates of ambiguity**, in every session.  There is a report exactly if one of the lengths
that may be tried has a tree, and there is room for the counts of all lengths up to the first of
these.  The report is on this length: it has the count, which is positive, as many recorded strings
as are asked for, and only strings of this length that the grammar generates.  Where there is no
room for the counts, and only there, nothing is reported.  If no length has a tree, the last one is
named, and just the lengths were drawn.  For lengths up to half the limit there is always room. -/
theorem estimateAmbiguity_iff {g : Grammar} {s s' : Source} {gen₀ gen : Generator}
    {calls : List GeneratorCall} {o : AmbiguityOptions} {lengths : List Nat}
    (h : Generator.new g s = .ok gen₀) (hgen : gen₀.runCalls calls = gen)
    (hlengths : o.attempts gen.source = (lengths, s')) :
    (∀ n, (g.trees g.start n).encard = gen.startCount n ∧
      ∀ k gen', gen.count? g.start n = some (k, gen') → gen.startCount n = k) ∧
    ((∃ r, (gen.estimateAmbiguity o).1 = .ok r) ↔
      (∃ n ∈ lengths, 0 < gen.startCount n) ∧ gen.table.FitsAll (gen.tried lengths)) ∧
    (∀ r, (gen.estimateAmbiguity o).1 = .ok r →
      lengths.find? (0 < gen.startCount ·) = some r.length ∧
      gen.startCount r.length = r.trees ∧ 0 < r.trees ∧
      r.frequencies.total = o.samples ∧ total (r.frequencies.counts.map Prod.snd) = o.samples ∧
      ∀ w ∈ r.frequencies.strings, w.length = r.length ∧ g.Generates w) ∧
    ((gen.estimateAmbiguity o).1 = .error .tooLong ↔ ¬gen.table.FitsAll (gen.tried lengths)) ∧
    ((∀ n ∈ lengths, gen.startCount n = 0) → gen.table.FitsAll (gen.tried lengths) →
      (gen.estimateAmbiguity o).1 = .error (.noString (lengths.getLastD o.shortest)) ∧
      (gen.estimateAmbiguity o).2.source = s') ∧
    (2 * o.longest ≤ sequenceLimit → gen.table.FitsAll (gen.tried lengths)) ∧
    (gen.estimateAmbiguity o).1 ≠ .error .weightMismatch := by
  have hover : gen.Over g := hgen ▸ (Generator.over_new h).2.runCalls calls
  have hcounts (n : Nat) : (g.trees g.start n).encard = gen.startCount n ∧
      ∀ k gen', gen.count? g.start n = some (k, gen') → gen.startCount n = k := by
    refine ⟨?_, fun k gen' hk => hover.startCount_of_count? (hover.grammar.symm ▸ hk)⟩
    rw [Generator.startCount, hover.grammar]
    exact hover.counts.encard_eq_nonterminalCount g.start n
  have hhalf (ho : 2 * o.longest ≤ sequenceLimit) : gen.table.FitsAll (gen.tried lengths) := by
    refine DerivationTable.fitsAll_of_two_mul_le hover.rows.capacity_le fun n hn => ?_
    have hmem : n ∈ (o.attempts gen.source).1 := by
      rw [hlengths]
      exact gen.tried_subset hn
    have hle := AmbiguityOptions.le_of_mem_attempts ho hmem
    omega
  refine ⟨hcounts, ?_⟩
  rcases hover.estimateAmbiguity_cases hlengths with ⟨hfull, hresult⟩ |
    ⟨hroom, ⟨n, f, hn, hresult⟩ | ⟨hzero, hresult, hsource⟩⟩
  · -- there is no room for the counts
    have hnone (r : AmbiguityReport) : (gen.estimateAmbiguity o).1 ≠ .ok r := by
      rw [hresult]
      simp
    refine ⟨iff_of_false (fun ⟨r, hr⟩ => hnone r hr) fun hall => hfull hall.2,
      fun r hr => absurd hr (hnone r), iff_of_true hresult hfull,
      fun _ hroom => absurd hroom hfull, hhalf, ?_⟩
    rw [hresult]
    simp
  · -- the length has a positive count
    have hpos : 0 < gen.startCount n := by simpa using List.find?_some hn
    have hmem : n ∈ lengths := List.mem_of_find?_eq_some hn
    refine ⟨iff_of_true ⟨_, hresult⟩ ⟨⟨n, hmem, hpos⟩, hroom⟩, fun r hr => ?_,
      iff_of_false ?_ (not_not_intro hroom), fun hzero => ?_, hhalf, ?_⟩
    · have hfrequencies := hover.frequencies_of_report hr
      rw [hresult] at hr
      obtain rfl := Except.ok.inj hr
      exact ⟨hn, rfl, hpos, hfrequencies⟩
    · rw [hresult]
      simp
    · exact absurd (hzero n hmem) (Nat.pos_iff_ne_zero.1 hpos)
    · rw [hresult]
      simp
  · -- all counts are zero
    have hnone (r : AmbiguityReport) : (gen.estimateAmbiguity o).1 ≠ .ok r := by
      rw [hresult]
      simp
    refine ⟨iff_of_false (fun ⟨r, hr⟩ => hnone r hr) ?_, fun r hr => absurd hr (hnone r),
      iff_of_false ?_ (not_not_intro hroom), fun _ _ => ⟨hresult, hsource⟩, hhalf, ?_⟩
    · rintro ⟨⟨n, hn, hpos⟩, -⟩
      exact Nat.pos_iff_ne_zero.1 hpos (hzero n hn)
    · rw [hresult]
      simp
    · rw [hresult]
      simp

/-- No two letters are a word, but the second length that is drawn is one letter. -/
theorem estimateAmbiguity_iff_letter : ∃ gen r,
    Generator.new Grammar.letter (.script [0x8000000000000000]) = .ok gen ∧
      ((gen.runCalls [.preprocess 2]).estimateAmbiguity ⟨2, 4, 1, 3⟩).1 = .ok r ∧
      r.length = 1 ∧ r.trees = 1 ∧ r.frequencies.total = 2 := by
  let gen : Generator :=
    ⟨Grammar.letter, .ofGrammar Grammar.letter, .script [0x8000000000000000]⟩
  have hnew : Generator.new Grammar.letter (.script [0x8000000000000000]) = .ok gen := rfl
  have hlengths : ((AmbiguityOptions.mk 2 4 1 3).attempts
      (gen.runCalls [.preprocess 2]).source).1 = [2, 1, 1, 1] := by decide +kernel
  have hdrawn : (AmbiguityOptions.mk 2 4 1 3).attempts (gen.runCalls [.preprocess 2]).source =
      ([2, 1, 1, 1], ((AmbiguityOptions.mk 2 4 1 3).attempts
        (gen.runCalls [.preprocess 2]).source).2) := Prod.ext hlengths rfl
  have htwo : (gen.runCalls [.preprocess 2]).startCount 2 = 0 := by decide +kernel
  have hone : (gen.runCalls [.preprocess 2]).startCount 1 = 1 := by decide +kernel
  obtain ⟨-, hok, hreport, -, -, hroom, -⟩ := estimateAmbiguity_iff hnew rfl hdrawn
  have hpos : 0 < (gen.runCalls [.preprocess 2]).startCount 1 := by
    rw [hone]
    exact Nat.one_pos
  obtain ⟨r, hr⟩ := hok.2 ⟨⟨1, by decide, hpos⟩, hroom (by decide)⟩
  obtain ⟨hlength, htrees, -, htotal, -⟩ := hreport r hr
  rw [List.find?_cons_of_neg (by simp [htwo]),
    List.find?_cons_of_pos (by simp [hone])] at hlength
  have hlength : r.length = 1 := (Option.some.inj hlength).symm
  rw [hlength, hone] at htrees
  exact ⟨gen, r, hnew, hr, hlength, htrees.symm, htotal⟩

/-- For a length that is a machine word, but that there is no room for, there is no report, and the
failure does not name a length. -/
theorem estimateAmbiguity_letter_tooLong : 2 ^ 60 < 2 ^ 64 - 1 ∧ ∃ gen,
    Generator.new Grammar.letter (.script []) = .ok gen ∧
      (gen.estimateAmbiguity ⟨5, 3, 2 ^ 60, 2 ^ 60⟩).1 = .error .tooLong :=
  ⟨by decide, _, rfl, by decide +kernel⟩

end GrammarSampler
