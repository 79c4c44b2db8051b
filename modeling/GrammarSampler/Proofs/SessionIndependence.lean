import GrammarSampler.Proofs.GeneratorSessions

/-!
# What is generated does not depend on what was counted

The tables of one grammar hold the same counts as far as they go (`Counts.agree`), and a string is
derived from the counts up to its length (`Agree.derive`).  So two generators over one grammar that
take the same words from their sources give the same answers, however far their tables go, and are
still alike after a call (`Alike.run`).

This holds of answers.  Whether there is one depends on the room in the table, and so on how its
rows have grown.  A session ends where a call gets no answer.  A call that only counts takes no
word; so sessions that differ in such calls generate the same strings, as far as both go
(`Alike.generated_filter`).  If no length exceeds half the limit they go to their ends
(`Over.answersAll`).
-/

namespace GrammarSampler

/-! ### Tables of one grammar -/

namespace DerivationTable

variable {g : Grammar} {t u : DerivationTable} {n : Nat}

/-- The tables have the same rules, and the same counts up to the length `n`. -/
structure Agree (n : Nat) (t u : DerivationTable) : Prop where
  rulesOf : ∀ i, u.rulesOf i = t.rulesOf i
  entry : ∀ i k, k ≤ n → u.entry i k = t.entry i k

theorem Counts.numbering_eq (ht : t.Counts g) (hu : u.Counts g) : u.numbering = t.numbering :=
  hu.numbering.trans ht.numbering.symm

theorem Counts.rulesOf_eq (ht : t.Counts g) (hu : u.Counts g) (i : Nat) :
    u.rulesOf i = t.rulesOf i := by
  have hnumbering := ht.numbering_eq hu
  rcases t.id_cases g i with ⟨a, hi⟩ | ⟨hi, -⟩
  · rw [ht.rules i a hi, hu.rules i a (hnumbering ▸ hi), hnumbering]
  · rw [ht.unknown i hi, hu.unknown i (hnumbering ▸ hi)]

/-- **Two tables of one grammar** have the same counts, as far as both go. -/
theorem Counts.agree (ht : t.Counts g) (hu : u.Counts g) (hnt : n ≤ t.maxLength)
    (hnu : n ≤ u.maxLength) : Agree n t u := by
  refine ⟨ht.rulesOf_eq hu, fun i k => ?_⟩
  induction k using Nat.strongRecOn generalizing i with
  | ind k ih =>
    intro hk
    -- by the recurrence, which reads shorter lengths
    obtain rfl | rfl | h2 : k = 0 ∨ k = 1 ∨ 2 ≤ k := by omega
    · rw [ht.entry_zero, hu.entry_zero, ht.rulesOf_eq hu]
    · rw [ht.entry_one, hu.entry_one, ht.rulesOf_eq hu]
    · have hshort : ∀ i m, m < k → u.entry i m = t.entry i m := fun i m hm =>
        ih m hm i (by omega)
      rw [ht.entry_eq i k h2 (by omega), hu.entry_eq i k h2 (by omega),
        pairSums_congr (ht.rulesOf_eq hu i) hshort]

/-- Tables that are extended to a length agree up to it. -/
theorem Counts.agree_extend? (ht : t.Counts g) (hu : u.Counts g) {t' u' : DerivationTable}
    (ht' : t.extend? n = some t') (hu' : u.extend? n = some u') : Agree n t' u' := by
  obtain ⟨htc, htn⟩ := ht.extend? ht'
  obtain ⟨huc, hun⟩ := hu.extend? hu'
  exact htc.agree huc htn hun

/-! ### What a derivation reads -/

theorem Agree.chooseTerminal (h : Agree n t u) (i : Nat) (s : Source) :
    u.chooseTerminal i s = t.chooseTerminal i s := by
  unfold DerivationTable.chooseTerminal
  rw [h.rulesOf]

/-- A part is split by the counts up to its length. -/
theorem Agree.split (h : Agree n t u) {p : Pending} (hp : p.length ≤ n) (s : Source) :
    u.split p s = t.split p s := by
  have hshort : ∀ i k, k < p.length → u.entry i k = t.entry i k := fun i k hk =>
    h.entry i k (by omega)
  have hpair : u.choosePair p.id p.length s = t.choosePair p.id p.length s := by
    rw [choosePair, choosePair, h.rulesOf, pairSums_congr (h.rulesOf _) hshort, h.entry _ _ hp]
  have hsplit : ∀ b c s, u.chooseSplit b c p.length s = t.chooseSplit b c p.length s := by
    intro b c s
    rw [chooseSplit, chooseSplit, splitCounts_congr hshort, splitSum_congr hshort]
  rw [DerivationTable.split, DerivationTable.split, hpair]
  simp only [hsplit]

/-- The parts of a split are not longer than the whole. -/
theorem length_le_of_split {p left right : Pending} {s s' : Source}
    (h : t.split p s = (.ok (left, right), s')) :
    left.length ≤ p.length ∧ right.length ≤ p.length := by
  unfold DerivationTable.split at h
  split at h
  · cases h
  · split at h
    · cases h
    · next hk =>
      cases h
      exact ⟨Nat.le_of_lt (bounds_of_chooseSplit hk).2, Nat.sub_le ..⟩

/-- **A derivation** reads the counts up to the greatest length of its parts. -/
theorem Agree.derive (h : Agree n t u) {fuel : Nat} {pending : List Pending}
    {done : List Terminal} {s : Source} (hpending : ∀ p ∈ pending, p.length ≤ n) :
    u.derive fuel pending done s = t.derive fuel pending done s := by
  induction fuel generalizing pending done s with
  | zero => cases pending <;> rfl
  | succ fuel ih =>
    cases pending with
    | nil => rfl
    | cons p pending =>
      obtain ⟨hp, hpending⟩ := List.forall_mem_cons.1 hpending
      rw [DerivationTable.derive, DerivationTable.derive, h.chooseTerminal, h.split hp]
      split
      · split
        · rfl
        · exact ih hpending
      · split
        · rfl
        · next hsplit =>
          obtain ⟨hleft, hright⟩ := length_le_of_split hsplit
          exact ih (List.forall_mem_cons.2
            ⟨by omega, List.forall_mem_cons.2 ⟨by omega, hpending⟩⟩)

theorem Agree.deriveString (h : Agree n t u) (i : Nat) (s : Source) :
    u.deriveString i n s = t.deriveString i n s := by
  have hpending : ∀ p ∈ [Pending.mk i n], p.length ≤ n := by simp
  rw [DerivationTable.deriveString, DerivationTable.deriveString, h.derive hpending]

end DerivationTable

/-! ### Room for a generation -/

/-- The result of a generation for which there is no room. -/
def isTooLong {α : Type} : Except GenerateError α → Bool
  | .error .tooLong => true
  | _ => false

theorem isTooLong_iff {α : Type} {r : Except GenerateError α} :
    isTooLong r = true ↔ r = .error .tooLong := by
  rcases r with (_ | _ | _) | _ <;> simp [isTooLong]

theorem isTooLong_map {α β : Type} (f : α → β) (r : Except GenerateError α) :
    isTooLong (r.map f) = isTooLong r := by
  rcases r with (_ | _ | _) | _ <;> rfl

theorem isTooLong_error {α β : Type} (e : GenerateError) :
    isTooLong (Except.error e : Except _ α) = isTooLong (Except.error e : Except _ β) := by
  cases e <;> rfl

namespace Generator

variable {g : Grammar} {gen gen' : Generator} {a : Nonterminal} {n : Nat}

/-- **A generation is refused** exactly where a count is. -/
theorem Over.generateFrom_eq_tooLong_iff (h : Over g gen) (a : Nonterminal) (n : Nat) :
    (gen.generateFrom a n).1 = .error .tooLong ↔ a ∈ g.nonterminals ∧ ¬gen.table.Fits n := by
  rcases h.generateFrom_cases a n with ⟨-, hlong, hresult⟩ |
    ⟨k, gen', -, hshort, ⟨-, τ, -, hresult⟩ | ⟨-, hresult⟩⟩
  · exact iff_of_true hresult hlong
  · exact iff_of_false (by simp [hresult]) hshort
  · exact iff_of_false (by simp [hresult]) hshort

theorem Over.answers_generateFrom (h : Over g gen) (hfits : gen.table.Fits n) (a : Nonterminal) :
    isTooLong (gen.generateFrom a n).1 = false := by
  rw [Bool.eq_false_iff, ne_eq, isTooLong_iff, h.generateFrom_eq_tooLong_iff]
  exact fun hlong => hlong.2 hfits

/-- For half the limit there is room in every session. -/
theorem Over.fits_of_two_mul_le (h : Over g gen) (hn : 2 * n ≤ sequenceLimit) :
    gen.table.Fits n :=
  DerivationTable.fits_of_two_mul_le h.rows.capacity_le hn

/-- A sample that is answered begins with a generation that is. -/
theorem answers_of_sampleInto {samples : Nat} {f : Frequencies}
    (h : isTooLong (sampleInto n (samples + 1) f gen).1 = false) :
    isTooLong (gen.generate n).1 = false := by
  unfold sampleInto at h
  split at h
  · next heq =>
    rw [heq]
    exact (isTooLong_error _).trans h
  · next heq =>
    rw [heq]
    rfl

end Generator

/-! ### Generators with one source -/

namespace Generator

/-- Two generators over `g` that are about to take the same words. -/
structure Alike (g : Grammar) (gen gen' : Generator) : Prop where
  left : Over g gen
  right : Over g gen'
  source : gen.source = gen'.source

/-- One answer from two generators, which are alike after it. -/
structure SameAnswer {α : Type} (g : Grammar) (r r' : α × Generator) : Prop where
  answer : r.1 = r'.1
  alike : Alike g r.2 r'.2

variable {g : Grammar} {gen gen' : Generator} {a : Nonterminal} {n : Nat}

/-- **Generation** takes the same words from both sources, and makes the same string of them. -/
theorem Alike.generateFrom (h : Alike g gen gen')
    (hr : isTooLong (gen.generateFrom a n).1 = false)
    (hr' : isTooLong (gen'.generateFrom a n).1 = false) :
    SameAnswer g (gen.generateFrom a n) (gen'.generateFrom a n) := by
  have hrules := h.left.counts.rulesOf_eq h.right.counts
  have heq : (gen.generateFrom a n).1 = (gen'.generateFrom a n).1 ∧
      (gen.generateFrom a n).2.source = (gen'.generateFrom a n).2.source := by
    unfold Generator.generateFrom at hr hr' ⊢
    rw [h.left.counts.numbering_eq h.right.counts] at hr' ⊢
    cases hi : gen.table.numbering.id? a with
    | none => exact ⟨rfl, h.source⟩
    | some i =>
      simp only [hi] at hr hr' ⊢
      by_cases hn : n = 0
      · rw [if_pos hn, if_pos hn, hrules]
        exact ⟨rfl, h.source⟩
      simp only [if_neg hn] at hr hr' ⊢
      cases ht : gen.table.extend? n with
      | none => simp [ht, isTooLong] at hr
      | some t =>
        cases hu : gen'.table.extend? n with
        | none => simp [hu, isTooLong] at hr'
        | some u =>
          have hagree := h.left.counts.agree_extend? h.right.counts ht hu
          simp only [hagree.entry i n (Nat.le_refl n), hagree.deriveString, h.source]
          by_cases hzero : t.entry i n = 0
          · simp only [if_pos hzero, and_self]
          · simp only [if_neg hzero, and_self]
  exact ⟨heq.1, h.left.generateFrom a n, h.right.generateFrom a n, heq.2⟩

theorem Alike.grammar_eq (h : Alike g gen gen') : gen'.grammar = gen.grammar :=
  h.right.grammar.trans h.left.grammar.symm

theorem Alike.generate (h : Alike g gen gen') (hr : isTooLong (gen.generate n).1 = false)
    (hr' : isTooLong (gen'.generate n).1 = false) :
    SameAnswer g (gen.generate n) (gen'.generate n) := by
  unfold Generator.generate at hr hr' ⊢
  rw [h.grammar_eq] at hr' ⊢
  exact h.generateFrom hr hr'

theorem Alike.generateText (h : Alike g gen gen') {separator : String}
    (hr : isTooLong (gen.generateText n separator).1 = false)
    (hr' : isTooLong (gen'.generateText n separator).1 = false) :
    SameAnswer g (gen.generateText n separator) (gen'.generateText n separator) := by
  let joined (w : List Terminal) := separator.intercalate (w.map Terminal.text)
  obtain ⟨hanswer, halike⟩ := h.generate ((isTooLong_map joined _).symm.trans hr)
    ((isTooLong_map joined _).symm.trans hr')
  exact ⟨congrArg (Except.map joined) hanswer, halike⟩

theorem Alike.sampleInto (h : Alike g gen gen') {samples : Nat} {f : Frequencies}
    (hr : isTooLong (sampleInto n samples f gen).1 = false)
    (hr' : isTooLong (sampleInto n samples f gen').1 = false) :
    SameAnswer g (sampleInto n samples f gen) (sampleInto n samples f gen') := by
  induction samples generalizing gen gen' f with
  | zero => exact ⟨rfl, h⟩
  | succ samples ih =>
    obtain ⟨hanswer, halike⟩ := h.generate (answers_of_sampleInto hr) (answers_of_sampleInto hr')
    unfold Generator.sampleInto at hr hr' ⊢
    rw [← Prod.eta (gen'.generate n), ← hanswer] at hr' ⊢
    cases hw : (gen.generate n).1 with
    | error e =>
      rw [← Prod.eta (gen.generate n), hw]
      exact ⟨rfl, halike⟩
    | ok w =>
      rw [← Prod.eta (gen.generate n), hw] at hr
      rw [hw] at hr'
      rw [← Prod.eta (gen.generate n), hw]
      exact ih halike hr hr'

theorem source_of_count? {k : Nat} {u : Generator} (h : gen.count? a n = some (k, u)) :
    u.source = gen.source := by
  obtain ⟨r, -, heq⟩ := Option.map_eq_some_iff.1 h
  cases heq
  rfl

/-- A count is the number of trees, whichever table has it. -/
theorem Alike.count? (h : Alike g gen gen') {k k' : Nat} {u u' : Generator}
    (hu : gen.count? a n = some (k, u)) (hu' : gen'.count? a n = some (k', u')) :
    k = k' ∧ Alike g u u' := by
  have hk := h.left.encard_of_count? hu
  rw [h.right.encard_of_count? hu'] at hk
  refine ⟨by exact_mod_cast hk.symm, h.left.count? hu, h.right.count? hu', ?_⟩
  rw [source_of_count? hu, source_of_count? hu', h.source]

theorem Alike.drawInRange (h : Alike g gen gen') (lo hi : Nat) :
    SameAnswer g (gen.drawInRange lo hi) (gen'.drawInRange lo hi) := by
  have hdraw : (gen.drawInRange lo hi).1 = (gen'.drawInRange lo hi).1 ∧
      (gen.drawInRange lo hi).2.source = (gen'.drawInRange lo hi).2.source := by
    simp [Generator.drawInRange, h.source]
  exact ⟨hdraw.1, h.left.drawInRange lo hi, h.right.drawInRange lo hi, hdraw.2⟩

theorem Alike.estimateWith (h : Alike g gen gen') {o : AmbiguityOptions} {attempts last : Nat}
    (hr : isTooLong (estimateWith o attempts last gen).1 = false)
    (hr' : isTooLong (estimateWith o attempts last gen').1 = false) :
    SameAnswer g (estimateWith o attempts last gen) (estimateWith o attempts last gen') := by
  induction attempts generalizing gen gen' last with
  | zero => exact ⟨rfl, h⟩
  | succ attempts ih =>
    obtain ⟨hlength, hdrawn⟩ := h.drawInRange o.shortest o.longest
    unfold Generator.estimateWith at hr hr' ⊢
    by_cases hrange : o.longest < o.shortest
    · rw [if_pos hrange, if_pos hrange]
      exact ⟨rfl, h⟩
    simp only [if_neg hrange, ← hlength, hdrawn.grammar_eq] at hr hr' ⊢
    cases hu : (gen.drawInRange o.shortest o.longest).2.count?
        (gen.drawInRange o.shortest o.longest).2.grammar.start
        (gen.drawInRange o.shortest o.longest).1 with
    | none => simp [hu, isTooLong] at hr
    | some r =>
      cases hu' : (gen'.drawInRange o.shortest o.longest).2.count?
          (gen.drawInRange o.shortest o.longest).2.grammar.start
          (gen.drawInRange o.shortest o.longest).1 with
      | none => simp [hu', isTooLong] at hr'
      | some r' =>
        obtain ⟨k, u⟩ := r
        obtain ⟨k', u'⟩ := r'
        obtain ⟨rfl, halike⟩ := hdrawn.count? hu hu'
        rw [hu] at hr
        rw [hu'] at hr'
        cases k with
        | zero => exact ih halike hr hr'
        | succ k =>
          let report (f : Frequencies) : AmbiguityReport :=
            ⟨(gen.drawInRange o.shortest o.longest).1, k + 1, f⟩
          obtain ⟨hanswer, halike⟩ := halike.sampleInto ((isTooLong_map report _).symm.trans hr)
            ((isTooLong_map report _).symm.trans hr')
          exact ⟨congrArg (Except.map report) hanswer, halike⟩

end Generator

/-! ### Sessions -/

/-- What is generated by one call. -/
inductive Generated where
  | string (r : Except GenerateError (List Terminal))
  | text (r : Except GenerateError String)
  | sample (r : Except GenerateError Frequencies)
  | report (r : Except GenerateError AmbiguityReport)
  deriving DecidableEq

/-- There is no room for what was to be generated. -/
def Generated.isTooLong : Generated → Bool
  | string r => GrammarSampler.isTooLong r
  | text r => GrammarSampler.isTooLong r
  | sample r => GrammarSampler.isTooLong r
  | report r => GrammarSampler.isTooLong r

namespace GeneratorCall

/-- The call counts ahead of time or asks for a count. -/
def onlyCounts : GeneratorCall → Bool
  | preprocess _ => true
  | count _ _ => true
  | countProduction _ _ => true
  | _ => false

/-- The greatest length that the call may ask for. -/
def longest : GeneratorCall → Nat
  | preprocess n => n
  | count _ n => n
  | countProduction _ n => n
  | generate n => n
  | generateText n _ => n
  | generateFrom _ n => n
  | sample n _ => n
  | estimate o => o.longest
  | useSource _ => 0
  | copy => 0

end GeneratorCall

namespace Generator

/-- What a call generates, if it is one that generates. -/
def generated? (gen : Generator) : GeneratorCall → Option Generated
  | .generate n => some (.string (gen.generate n).1)
  | .generateText n separator => some (.text (gen.generateText n separator).1)
  | .generateFrom a n => some (.string (gen.generateFrom a n).1)
  | .sample n samples => some (.sample (gen.sample n samples).1)
  | .estimate o => some (.report (gen.estimateAmbiguity o).1)
  | _ => none

/-- The call gets no answer, as there is no room for a length. -/
def refuses (gen : Generator) : GeneratorCall → Bool
  | .preprocess n => (gen.preprocess n matches .error .tooLong)
  | .count a n => (gen.count? a n).isNone
  | .countProduction p n => (gen.countProduction? p n).isNone
  | call => (gen.generated? call).any Generated.isTooLong

/-- **What is generated in a session**, which ends before the first call that gets no answer. -/
def generated (gen : Generator) : List GeneratorCall → List Generated
  | [] => []
  | call :: calls =>
    if gen.refuses call then [] else (gen.generated? call).toList ++ (gen.run call).generated calls

/-- All calls of the session get an answer. -/
def AnswersAll (gen : Generator) : List GeneratorCall → Prop
  | [] => True
  | call :: calls => gen.refuses call = false ∧ (gen.run call).AnswersAll calls

variable {g : Grammar} {gen gen' : Generator} {call : GeneratorCall} {n : Nat}

/-- A call that only counts takes no word from the source. -/
theorem source_run (hcall : call.onlyCounts = true) : (gen.run call).source = gen.source := by
  cases call with
  | preprocess n =>
    rw [Generator.run, Generator.preprocess]
    split
    · rfl
    · split
      · rfl
      · rfl
  | count a n =>
    rw [Generator.run]
    cases hcount : gen.count? a n with
    | none => rfl
    | some r => exact source_of_count? hcount
  | countProduction p n =>
    rw [Generator.run, Generator.countProduction?]
    cases gen.table.countProduction? p n <;> rfl
  | generate | generateText | generateFrom | sample | estimate | useSource | copy => cases hcall

theorem Alike.run_left (h : Alike g gen gen') (hcall : call.onlyCounts = true) :
    Alike g (gen.run call) gen' :=
  ⟨h.left.run call, h.right, (source_run hcall).trans h.source⟩

/-- **One call** that both generators answer generates the same from both, and leaves them alike. -/
theorem Alike.run (h : Alike g gen gen') (hr : gen.refuses call = false)
    (hr' : gen'.refuses call = false) :
    gen.generated? call = gen'.generated? call ∧ Alike g (gen.run call) (gen'.run call) := by
  have hcounts (hcall : call.onlyCounts = true) : Alike g (gen.run call) (gen'.run call) :=
    ⟨h.left.run call, h.right.run call, by rw [source_run hcall, source_run hcall, h.source]⟩
  cases call with
  | preprocess n => exact ⟨rfl, hcounts rfl⟩
  | count a n => exact ⟨rfl, hcounts rfl⟩
  | countProduction p n => exact ⟨rfl, hcounts rfl⟩
  | generate n =>
    obtain ⟨hanswer, halike⟩ := h.generate hr hr'
    exact ⟨congrArg (some ∘ Generated.string) hanswer, halike⟩
  | generateText n separator =>
    obtain ⟨hanswer, halike⟩ := h.generateText hr hr'
    exact ⟨congrArg (some ∘ Generated.text) hanswer, halike⟩
  | generateFrom a n =>
    obtain ⟨hanswer, halike⟩ := h.generateFrom hr hr'
    exact ⟨congrArg (some ∘ Generated.string) hanswer, halike⟩
  | sample n samples =>
    obtain ⟨hanswer, halike⟩ := h.sampleInto hr hr'
    exact ⟨congrArg (some ∘ Generated.sample) hanswer, halike⟩
  | estimate o =>
    obtain ⟨hanswer, halike⟩ := h.estimateWith hr hr'
    exact ⟨congrArg (some ∘ Generated.report) hanswer, halike⟩
  | useSource s =>
    exact ⟨rfl, h.left.run (.useSource s), h.right.run (.useSource s), rfl⟩
  | copy => exact ⟨rfl, h.left.run .copy, h.right.run .copy, h.source⟩

/-- **Calls that only count change nothing that is generated.**  With them and without, a session
generates the same as far as both go, and the same altogether if both get all their answers. -/
theorem Alike.generated_filter (h : Alike g gen gen') (calls : List GeneratorCall) :
    (gen.generated calls <+: gen'.generated (calls.filter fun call => !call.onlyCounts) ∨
      gen'.generated (calls.filter fun call => !call.onlyCounts) <+: gen.generated calls) ∧
    (gen.AnswersAll calls → gen'.AnswersAll (calls.filter fun call => !call.onlyCounts) →
      gen.generated calls = gen'.generated (calls.filter fun call => !call.onlyCounts)) := by
  induction calls generalizing gen gen' with
  | nil => exact ⟨.inl List.prefix_rfl, fun _ _ => rfl⟩
  | cons call calls ih =>
    rw [generated]
    cases hcall : call.onlyCounts with
    | true =>
      obtain ⟨hupTo, heq⟩ := ih (h.run_left hcall)
      have hnone : gen.generated? call = none := by
        cases call with
        | preprocess | count | countProduction => rfl
        | generate | generateText | generateFrom | sample | estimate | useSource | copy =>
          cases hcall
      rw [List.filter_cons_of_neg (by simp [hcall]), hnone, Option.toList_none, List.nil_append]
      cases hr : gen.refuses call with
      | true => exact ⟨.inl List.nil_prefix, fun hanswers => by cases hr.symm.trans hanswers.1⟩
      | false => exact ⟨hupTo, fun hanswers => heq hanswers.2⟩
    | false =>
      rw [List.filter_cons_of_pos (by simp [hcall]), generated]
      cases hr : gen.refuses call with
      | true => exact ⟨.inl List.nil_prefix, fun hanswers => by cases hr.symm.trans hanswers.1⟩
      | false =>
        cases hr' : gen'.refuses call with
        | true =>
          exact ⟨.inr List.nil_prefix, fun _ hanswers => by cases hr'.symm.trans hanswers.1⟩
        | false =>
          obtain ⟨hgenerated, halike⟩ := h.run hr hr'
          obtain ⟨hupTo, heq⟩ := ih halike
          rw [hgenerated]
          refine ⟨hupTo.imp (List.prefix_append_right_inj _).2 (List.prefix_append_right_inj _).2,
            fun hanswers hanswers' => ?_⟩
          exact congrArg (_ ++ ·) (heq hanswers.2 hanswers'.2)

/-! ### Sessions with room -/

theorem Over.answers_sampleInto (h : Over g gen) (hn : 2 * n ≤ sequenceLimit) (samples : Nat)
    (f : Frequencies) : isTooLong (Generator.sampleInto n samples f gen).1 = false := by
  induction samples generalizing gen f with
  | zero => rfl
  | succ samples ih =>
    have hone : isTooLong (gen.generate n).1 = false :=
      h.answers_generateFrom (h.fits_of_two_mul_le hn) _
    have hnext : Over g (gen.generate n).2 := h.generateFrom _ n
    unfold Generator.sampleInto
    split
    · next heq =>
      rw [heq] at hone
      exact (isTooLong_error _).trans hone
    · next heq =>
      rw [heq] at hnext
      exact ih hnext _

theorem Over.exists_count? (h : Over g gen) (hn : 2 * n ≤ sequenceLimit) (a : Nonterminal) :
    ∃ k gen', gen.count? a n = some (k, gen') := by
  rcases h.count?_cases a n with ⟨-, hlong, -⟩ | ⟨-, k, gen', hcount, -⟩
  · exact absurd (h.fits_of_two_mul_le hn) hlong
  · exact ⟨k, gen', hcount⟩

theorem Over.answers_estimateWith (h : Over g gen) {o : AmbiguityOptions}
    (ho : 2 * o.longest ≤ sequenceLimit) (attempts last : Nat) :
    isTooLong (Generator.estimateWith o attempts last gen).1 = false := by
  induction attempts generalizing gen last with
  | zero => rfl
  | succ attempts ih =>
    have hdrawn := h.drawInRange o.shortest o.longest
    unfold Generator.estimateWith
    split
    · rfl
    · next hrange =>
      have hword : o.longest < wordCount - 1 := by
        have hlimit : sequenceLimit < wordCount - 1 := by decide
        omega
      have hle : (gen.drawInRange o.shortest o.longest).1 ≤ o.longest :=
        Source.inRange_le _ (Nat.not_lt.1 hrange) hword
      have hhalf : 2 * (gen.drawInRange o.shortest o.longest).1 ≤ sequenceLimit := by omega
      obtain ⟨k, gen', hcount⟩ := hdrawn.exists_count? hhalf
        (gen.drawInRange o.shortest o.longest).2.grammar.start
      have hnext := hdrawn.count? hcount
      simp only [hcount]
      cases k with
      | zero => exact ih hnext _
      | succ k => exact (isTooLong_map _ _).trans (hnext.answers_sampleInto hhalf _ _)

/-- **A call** for lengths up to half the limit gets an answer. -/
theorem Over.refuses_eq_false (h : Over g gen) (hcall : 2 * call.longest ≤ sequenceLimit) :
    gen.refuses call = false := by
  have hrun (c : TableCall) (hc : 2 * c.length ≤ sequenceLimit) : ∃ u, c.run gen.table = some u :=
    h.rows.exists_run (h.fits_of_two_mul_le hc)
  cases call with
  | preprocess n =>
    obtain ⟨u, hu⟩ : ∃ u, gen.table.extend? n = some u := hrun (.extend n) hcall
    rw [refuses, Generator.preprocess, hu]
    by_cases hzero : n = 0
    · rw [if_pos hzero]
    · rw [if_neg hzero]
  | count a n =>
    have hn : 2 * n ≤ sequenceLimit := hcall
    obtain ⟨k, gen', hcount⟩ := h.exists_count? hn a
    rw [refuses, hcount, Option.isNone_some]
  | countProduction p n =>
    obtain ⟨u, hu⟩ := hrun (.countProduction p n) hcall
    obtain ⟨r, hr, -⟩ := Option.map_eq_some_iff.1 hu
    rw [refuses, Generator.countProduction?, hr, Option.map_some, Option.isNone_some]
  | generate n => exact h.answers_generateFrom (h.fits_of_two_mul_le hcall) _
  | generateText n separator =>
    exact (isTooLong_map _ _).trans (h.answers_generateFrom (h.fits_of_two_mul_le hcall) _)
  | generateFrom a n => exact h.answers_generateFrom (h.fits_of_two_mul_le hcall) a
  | sample n samples => exact h.answers_sampleInto hcall _ _
  | estimate o => exact h.answers_estimateWith hcall _ _
  | useSource s => rfl
  | copy => rfl

/-- **A session** for lengths up to half the limit gets all its answers. -/
theorem Over.answersAll (h : Over g gen) {calls : List GeneratorCall}
    (hcalls : ∀ call ∈ calls, 2 * call.longest ≤ sequenceLimit) : gen.AnswersAll calls := by
  induction calls generalizing gen with
  | nil => trivial
  | cons call calls ih =>
    obtain ⟨hcall, hcalls⟩ := List.forall_mem_cons.1 hcalls
    exact ⟨h.refuses_eq_false hcall, ih (h.run call) hcalls⟩

end Generator

/-- **What is generated depends on the source alone**, not on what was counted or generated before.
From equal sources two generators over one grammar generate the same string from any nonterminal,
and leave equal sources, if both answer.  So calls that only count, made anywhere in a session,
change nothing that it generates, as long as all calls get an answer with them and without.  A call
is refused only where the rows of the table would have to grow beyond the limit, and never for
lengths up to half of it. -/
theorem generateFrom_eq_of_source_eq {g : Grammar} {s s' : Source} {gen₀ gen₀' gen gen' : Generator}
    {calls calls' : List GeneratorCall} (h : Generator.new g s = .ok gen₀)
    (h' : Generator.new g s' = .ok gen₀') (hgen : gen₀.runCalls calls = gen)
    (hgen' : gen₀'.runCalls calls' = gen') (hsource : gen.source = gen'.source) :
    (∀ a n, ((gen.generateFrom a n).1 = .error .tooLong ↔
        a ∈ g.nonterminals ∧ ¬gen.table.Fits n) ∧
      ((gen.generateFrom a n).1 ≠ .error .tooLong → (gen'.generateFrom a n).1 ≠ .error .tooLong →
        (gen.generateFrom a n).1 = (gen'.generateFrom a n).1 ∧
        (gen.generateFrom a n).2.source = (gen'.generateFrom a n).2.source)) ∧
    ∀ session kept : List GeneratorCall, kept = session.filter (fun call => !call.onlyCounts) →
      (gen.generated session <+: gen'.generated kept ∨
        gen'.generated kept <+: gen.generated session) ∧
      (gen.AnswersAll session → gen'.AnswersAll kept →
        gen.generated session = gen'.generated kept) ∧
      ((∀ call ∈ session, 2 * call.longest ≤ sequenceLimit) →
        gen.AnswersAll session ∧ gen'.AnswersAll kept) := by
  have hover : gen.Over g := hgen ▸ (Generator.over_new h).2.runCalls calls
  have hover' : gen'.Over g := hgen' ▸ (Generator.over_new h').2.runCalls calls'
  have halike : Generator.Alike g gen gen' := ⟨hover, hover', hsource⟩
  refine ⟨fun a n => ⟨hover.generateFrom_eq_tooLong_iff a n, fun hr hr' => ?_⟩, ?_⟩
  · rw [ne_eq, ← isTooLong_iff, Bool.not_eq_true] at hr hr'
    obtain ⟨hanswer, hnext⟩ := halike.generateFrom hr hr'
    exact ⟨hanswer, hnext.source⟩
  · rintro session kept rfl
    obtain ⟨hupTo, heq⟩ := halike.generated_filter session
    refine ⟨hupTo, heq, fun hshort => ⟨hover.answersAll hshort, hover'.answersAll ?_⟩⟩
    exact fun call hcall => hshort call (List.mem_filter.1 hcall).1

/-- Four letters, generated from equal sources: once after a shorter string, in a table that has the
counts for six letters, and once in a new table. -/
theorem generateFrom_eq_of_source_eq_bracketings : ∃ gen₀ gen gen',
    Generator.new Grammar.bracketings (.script [7, 5]) = .ok gen₀ ∧
      Generator.new Grammar.bracketings (.script [5]) = .ok gen' ∧
      gen₀.runCalls [.generate 2, .preprocess 6, .useSource (.script [5])] = gen ∧
      gen.table.maxLength = 6 ∧ gen'.table.maxLength = 1 ∧
      (gen.generateFrom ⟨"S"⟩ 4).1 = (gen'.generateFrom ⟨"S"⟩ 4).1 ∧
      gen.generated [.count ⟨"S"⟩ 5, .generate 4] = gen'.generated [.generate 4] := by
  let start (words : List UInt64) : Generator :=
    ⟨Grammar.bracketings, .ofGrammar Grammar.bracketings, .script words⟩
  let calls : List GeneratorCall := [.generate 2, .preprocess 6, .useSource (.script [5])]
  have hnew (words : List UInt64) :
      Generator.new Grammar.bracketings (.script words) = .ok (start words) := rfl
  have hrun : (start [5]).runCalls [] = start [5] := rfl
  obtain ⟨hfrom, hsession⟩ := generateFrom_eq_of_source_eq (hnew [7, 5]) (hnew [5])
    (show (start [7, 5]).runCalls calls = _ from rfl) hrun rfl
  obtain ⟨-, heq, hanswers⟩ := hsession [.count ⟨"S"⟩ 5, .generate 4] [.generate 4] rfl
  obtain ⟨hall, hkept⟩ := hanswers (by decide)
  obtain ⟨hfour, -⟩ := (hfrom ⟨"S"⟩ 4).2 (by decide +kernel) (by decide +kernel)
  exact ⟨_, _, _, hnew [7, 5], hnew [5], rfl, by decide +kernel, by decide +kernel, hfour,
    heq hall hkept⟩

/-- A letter is generated, unless a count is asked for before that there is no room for. -/
theorem generated_letter_tooLong : ∃ gen, Generator.new Grammar.letter (.script []) = .ok gen ∧
    gen.generated [.generate 1] = [.string (.ok [⟨"a"⟩])] ∧
      gen.generated [.count ⟨"S"⟩ (2 ^ 60), .generate 1] = [] :=
  ⟨_, rfl, by decide +kernel, by decide +kernel⟩

end GrammarSampler
