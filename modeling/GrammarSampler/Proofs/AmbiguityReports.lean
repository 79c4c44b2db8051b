import GrammarSampler.Proofs.GeneratorSessions

/-!
# What an estimate of ambiguity shows

A report counts all trees of its length, and the strings that were drawn are yields of such trees.
Frequencies have one entry for every string, however often it was drawn (`Frequencies.Sorted`).  So
there are at most as many strings as trees; and if every yield was drawn, there are fewer exactly if
two trees have one yield (`distinct_lt_trees_iff`).
-/

namespace GrammarSampler

/-! ### The order of strings -/

theorem compare_terminal (a b : Terminal) : compare a b = compare a.text b.text := by
  cases a
  cases b
  exact Ordering.then_eq ..

theorem compare_eq_compareOn_text : (compare : Terminal → Terminal → Ordering) =
    compareOn Terminal.text :=
  funext fun a => funext fun b => compare_terminal a b

instance : Std.TransOrd Terminal := by
  rw [Std.TransOrd, compare_eq_compareOn_text]
  infer_instance

instance : Std.LawfulEqOrd Terminal where
  eq_of_compare {a b} h := by
    rw [compare_terminal] at h
    cases a
    cases b
    exact congrArg Terminal.mk (Std.LawfulEqOrd.eq_of_compare h)

/-! ### Frequencies -/

namespace Frequencies

variable {f : Frequencies} {v w : List Terminal} {counts : List (List Terminal × Nat)}

/-- The strings that were seen. -/
def strings (f : Frequencies) : List (List Terminal) := f.counts.map Prod.fst

/-- The strings are in order, so that each is there once. -/
def Sorted (f : Frequencies) : Prop := f.strings.Pairwise fun v w => compare v w = .lt

theorem sorted_empty : empty.Sorted := .nil

theorem Sorted.nodup (h : f.Sorted) : f.strings.Nodup := by
  refine List.Pairwise.imp ?_ h
  rintro v _ hlt rfl
  have hself : compare v v = .eq := Std.ReflCmp.compare_self
  rw [hself] at hlt
  cases hlt

theorem mem_map_fst_bump : v ∈ (bump w counts).map Prod.fst ↔ v = w ∨ v ∈ counts.map Prod.fst := by
  induction counts with
  | nil => simp [bump]
  | cons c counts ih =>
    obtain ⟨u, n⟩ := c
    rw [bump]
    split
    · simp
    · next heq =>
      obtain rfl : w = u := Std.LawfulEqOrd.eq_of_compare heq
      simp
    · simp only [List.map_cons, List.mem_cons, ih]
      exact or_left_comm

theorem sorted_bump (w : List Terminal)
    (h : (counts.map Prod.fst).Pairwise fun v w => compare v w = .lt) :
    ((bump w counts).map Prod.fst).Pairwise fun v w => compare v w = .lt := by
  induction counts with
  | nil => exact List.pairwise_singleton ..
  | cons c counts ih =>
    obtain ⟨u, n⟩ := c
    obtain ⟨hu, hcounts⟩ := List.pairwise_cons.1 h
    rw [bump]
    split
    · next hlt =>
      refine List.pairwise_cons.2 ⟨fun v hv => ?_, h⟩
      rcases List.mem_cons.1 hv with rfl | hv
      · exact hlt
      · exact Std.TransCmp.lt_trans hlt (hu v hv)
    · exact List.pairwise_cons.2 ⟨hu, hcounts⟩
    · next hgt =>
      refine List.pairwise_cons.2 ⟨fun v hv => ?_, ih hcounts⟩
      rcases mem_map_fst_bump.1 hv with rfl | hv
      · exact Std.OrientedCmp.lt_of_gt hgt
      · exact hu v hv

theorem Sorted.foldl_record (h : f.Sorted) (ws : List (List Terminal)) :
    (ws.foldl record f).Sorted := by
  induction ws generalizing f with
  | nil => exact h
  | cons w ws ih => exact ih (sorted_bump w h)

theorem mem_strings_foldl_record {ws : List (List Terminal)} :
    v ∈ (ws.foldl record f).strings ↔ v ∈ ws ∨ v ∈ f.strings := by
  induction ws generalizing f with
  | nil => simp
  | cons w ws ih =>
    have hrecord : v ∈ (f.record w).strings ↔ v = w ∨ v ∈ f.strings := mem_map_fst_bump
    rw [List.foldl_cons, ih, hrecord, List.mem_cons, or_left_comm, or_assoc]

end Frequencies

/-! ### Strings and trees -/

/-- Two trees of the start symbol have one yield of `n` terminals. -/
def Grammar.AmbiguousAt (g : Grammar) (n : Nat) : Prop :=
  ∃ τ ∈ g.trees g.start n, ∃ τ' ∈ g.trees g.start n, τ ≠ τ' ∧ τ.yield = τ'.yield

section yields

variable {trees : Set ChomskyTree} {k : Nat} {strings : List (List Terminal)}

theorem encard_mem_eq_length (h : strings.Nodup) : {w | w ∈ strings}.encard = strings.length := by
  rw [← List.coe_toFinset, Set.encard_coe_eq_coe_finsetCard, List.toFinset_card_of_nodup h]

/-- There are no more yields than trees. -/
theorem length_le_of_yields (hk : trees.encard = k) (hnodup : strings.Nodup)
    (hyields : ∀ w ∈ strings, ∃ τ ∈ trees, τ.yield = w) : strings.length ≤ k := by
  have hle : (strings.length : ℕ∞) ≤ k := calc
    (strings.length : ℕ∞) = {w | w ∈ strings}.encard := (encard_mem_eq_length hnodup).symm
    _ ≤ (ChomskyTree.yield '' trees).encard := Set.encard_le_encard hyields
    _ ≤ trees.encard := Set.encard_image_le ..
    _ = k := hk
  exact_mod_cast hle

/-- Where every yield is there, there are fewer of them exactly if two trees have one yield. -/
theorem length_lt_iff_of_yields (hk : trees.encard = k) (hnodup : strings.Nodup)
    (hyields : ∀ w, w ∈ strings ↔ ∃ τ ∈ trees, τ.yield = w) :
    strings.length < k ↔ ∃ τ ∈ trees, ∃ τ' ∈ trees, τ ≠ τ' ∧ τ.yield = τ'.yield := by
  have himage : {w | w ∈ strings} = ChomskyTree.yield '' trees := Set.ext hyields
  have hlength : (ChomskyTree.yield '' trees).encard = strings.length :=
    himage ▸ encard_mem_eq_length hnodup
  have hfinite : trees.Finite := Set.finite_of_encard_eq_coe hk
  constructor
  · intro hlt
    by_contra hno
    have hinj : Set.InjOn ChomskyTree.yield trees := fun τ hτ τ' hτ' heq =>
      by_contra fun hne => hno ⟨τ, hτ, τ', hτ', hne, heq⟩
    have heq : (strings.length : ℕ∞) = k := hlength.symm.trans (hinj.encard_image.trans hk)
    exact Nat.ne_of_lt hlt (by exact_mod_cast heq)
  · rintro ⟨τ, hτ, τ', hτ', hne, hyield⟩
    refine Nat.lt_of_le_of_ne
      (length_le_of_yields hk hnodup fun w hw => (hyields w).1 hw) fun heq => hne ?_
    have himagecard : (ChomskyTree.yield '' trees).encard = trees.encard := by
      rw [hlength, hk, heq]
    exact hfinite.injOn_of_encard_image_eq himagecard hτ hτ' hyield

end yields

/-! ### Samples and reports -/

namespace Generator

variable {g : Grammar} {gen : Generator} {n : Nat}

theorem Over.exists_tree_of_generateFrom (h : Over g gen) {a : Nonterminal} {w : List Terminal}
    (hw : (gen.generateFrom a n).1 = .ok w) : ∃ τ ∈ g.trees a n, τ.yield = w := by
  rcases h.generateFrom_cases a n with ⟨-, -, hresult⟩ |
    ⟨-, -, -, -, ⟨-, τ, hτ, hresult⟩ | ⟨-, hresult⟩⟩
  · rw [hresult] at hw
    cases hw
  · rw [hresult] at hw
    exact ⟨τ, hτ, Except.ok.inj hw⟩
  · rw [hresult] at hw
    cases hw

/-- What is recorded are as many yields of trees as are asked for. -/
theorem Over.of_sampleInto (h : Over g gen) {samples : Nat} {f f' : Frequencies}
    (hf : (Generator.sampleInto n samples f gen).1 = .ok f') :
    ∃ ws : List (List Terminal), ws.length = samples ∧ f' = ws.foldl Frequencies.record f ∧
      ∀ w ∈ ws, ∃ τ ∈ g.trees g.start n, τ.yield = w := by
  induction samples generalizing gen f with
  | zero => exact ⟨[], rfl, (Except.ok.inj hf).symm, by simp⟩
  | succ samples ih =>
    unfold Generator.sampleInto Generator.generate at hf
    have hnext := h.generateFrom gen.grammar.start n
    split at hf
    · cases hf
    · next w _ heq =>
      rw [heq] at hnext
      obtain ⟨ws, hlength, hws, hyields⟩ := ih hnext hf
      have hw := h.exists_tree_of_generateFrom (congrArg Prod.fst heq)
      rw [h.grammar] at hw
      exact ⟨w :: ws, by rw [List.length_cons, hlength], hws,
        List.forall_mem_cons.2 ⟨hw, hyields⟩⟩

theorem of_report {trees samples : Nat} {r : AmbiguityReport}
    (hr : (gen.report n trees samples).1 = .ok r) :
    ∃ f, (Generator.sampleInto n samples .empty gen).1 = .ok f ∧ ⟨n, trees, f⟩ = r := by
  have hmap : (Generator.sampleInto n samples .empty gen).1.map (AmbiguityReport.mk n trees) =
    .ok r := hr
  cases hf : (Generator.sampleInto n samples .empty gen).1 with
  | error e => rw [hf] at hmap; cases hmap
  | ok f => exact ⟨f, rfl, by rw [hf] at hmap; exact Except.ok.inj hmap⟩

/-- **A report** has the number of all trees of its length, and the frequencies of as many yields as
are asked for. -/
theorem Over.of_estimateWith (h : Over g gen) {o : AmbiguityOptions} {attempts last : Nat}
    {r : AmbiguityReport} (hr : (Generator.estimateWith o attempts last gen).1 = .ok r) :
    (g.trees g.start r.length).encard = r.trees ∧ ∃ ws : List (List Terminal),
      ws.length = o.samples ∧ r.frequencies = ws.foldl Frequencies.record .empty ∧
        ∀ w ∈ ws, ∃ τ ∈ g.trees g.start r.length, τ.yield = w := by
  induction attempts generalizing gen last with
  | zero => cases hr
  | succ attempts ih =>
    have hdrawn := h.drawInRange o.shortest o.longest
    unfold Generator.estimateWith at hr
    split at hr
    · cases hr
    · simp only at hr
      split at hr
      · cases hr
      · next heq => exact ih (hdrawn.count? heq) hr
      · next trees gen' _ heq =>
        have hcount := hdrawn.encard_of_count? heq
        rw [hdrawn.grammar] at hcount
        obtain ⟨f, hf, rfl⟩ := of_report hr
        exact ⟨hcount, (hdrawn.count? heq).of_sampleInto hf⟩

end Generator

/-- **More trees than strings show that the grammar is ambiguous**, for every report in every
session: there are never fewer trees than strings; and if every yield of a tree without empty
productions was drawn, or the length is 0, there are more exactly if some string of the length has
two trees. -/
theorem distinct_lt_trees_iff {g : Grammar} {s : Source} {gen₀ gen : Generator}
    {calls : List GeneratorCall} {o : AmbiguityOptions} {r : AmbiguityReport}
    (h : Generator.new g s = .ok gen₀) (hgen : gen₀.runCalls calls = gen)
    (hr : (gen.estimateAmbiguity o).1 = .ok r) :
    (g.trees g.start r.length).encard = r.trees ∧
    (∀ w ∈ r.frequencies.strings, ∃ τ ∈ g.trees g.start r.length, τ.yield = w) ∧
    r.frequencies.strings.Nodup ∧ r.frequencies.strings.length = r.frequencies.distinct ∧
    r.frequencies.distinct ≤ r.trees ∧
    (1 ≤ o.samples →
      r.treesPerString = Number.double r.trees / Number.double r.frequencies.distinct ∧
      ((r.length = 0 ∨ ∀ τ ∈ g.trees g.start r.length, τ.Follows (nonempty g.productions) →
          τ.yield ∈ r.frequencies.strings) →
        (r.frequencies.distinct < r.trees ↔ g.AmbiguousAt r.length))) := by
  have hover : gen.Over g := hgen ▸ (Generator.over_new h).2.runCalls calls
  obtain ⟨hk, ws, hlength, hws, hyields⟩ := hover.of_estimateWith hr
  have hmem : ∀ w, w ∈ r.frequencies.strings ↔ w ∈ ws := fun w => by
    rw [hws, Frequencies.mem_strings_foldl_record, Frequencies.strings, Frequencies.empty]
    simp
  have hnodup : r.frequencies.strings.Nodup := by
    rw [hws]
    exact (Frequencies.sorted_empty.foldl_record ws).nodup
  have hsound : ∀ w ∈ r.frequencies.strings, ∃ τ ∈ g.trees g.start r.length, τ.yield = w :=
    fun w hw => hyields w ((hmem w).1 hw)
  have hdistinct : r.frequencies.strings.length = r.frequencies.distinct := List.length_map _
  have hle := length_le_of_yields hk hnodup hsound
  refine ⟨hk, hsound, hnodup, hdistinct, hdistinct ▸ hle, fun hsamples => ?_⟩
  obtain ⟨w, hw⟩ : ∃ w, w ∈ ws := List.exists_mem_of_length_pos (by omega)
  have hpos : 0 < r.frequencies.strings.length :=
    List.length_pos_of_mem ((hmem w).2 hw)
  refine ⟨if_neg (by omega), fun hall => ?_⟩
  have hevery : ∀ τ ∈ g.trees g.start r.length, τ.yield ∈ r.frequencies.strings := by
    intro τ hτ
    have hsize : τ.size = r.length := hτ.2.2
    rcases Nat.eq_zero_or_pos r.length with hzero | hrpos
    · -- the empty string is the only yield, and something was drawn
      obtain ⟨τ', hτ', hw'⟩ := hyields w hw
      have hsize' : τ'.size = r.length := hτ'.2.2
      have hempty : τ.yield = [] := List.eq_nil_of_length_eq_zero (by rw [τ.length_yield]; omega)
      have hempty' : τ'.yield = [] := List.eq_nil_of_length_eq_zero (by rw [τ'.length_yield]; omega)
      rw [hempty, ← hempty', hw']
      exact (hmem w).2 hw
    · rcases hall with hzero | hall
      · omega
      · exact hall τ hτ (hτ.1.nonempty (by omega))
  rw [← hdistinct]
  refine length_lt_iff_of_yields hk hnodup fun w => ⟨hsound w, ?_⟩
  rintro ⟨τ, hτ, rfl⟩
  exact hevery τ hτ

/-- All letters of the bracketings are the same. -/
theorem eq_of_mem_yield_bracketings {τ : ChomskyTree}
    (h : τ.Follows Grammar.bracketings.productions) {t : Terminal} (ht : t ∈ τ.yield) :
    t = ⟨"a"⟩ := by
  induction τ with
  | empty a => cases ht
  | leaf a u =>
    obtain rfl := List.mem_singleton.1 ht
    have hp : ⟨a, [.terminal t]⟩ ∈ Grammar.bracketings.productions := h
    obtain ⟨-, ht⟩ : a = ⟨"S"⟩ ∧ t = ⟨"a"⟩ := by simpa [Grammar.bracketings] using hp
    exact ht
  | node a left right ihl ihr =>
    obtain ⟨-, ⟨hl, -⟩, hr, -⟩ := h
    rcases List.mem_append.1 ht with ht | ht
    · exact ihl hl ht
    · exact ihr hr ht

/-- One string of four letters is drawn three times; its five trees show that it is ambiguous. -/
theorem distinct_lt_trees_iff_bracketings : ∃ gen r,
    Generator.new Grammar.bracketings (.script [7]) = .ok gen ∧
      ((gen.runCalls [.preprocess 6]).estimateAmbiguity ⟨3, 5, 4, 4⟩).1 = .ok r ∧
      r.frequencies.total = 3 ∧ r.frequencies.distinct = 1 ∧ r.trees = 5 ∧
      Grammar.bracketings.AmbiguousAt 4 := by
  let gen : Generator :=
    ⟨Grammar.bracketings, .ofGrammar Grammar.bracketings, .script [7]⟩
  let word : List Terminal := List.replicate 4 ⟨"a"⟩
  have hnew : Generator.new Grammar.bracketings (.script [7]) = .ok gen := rfl
  have hreport : ((gen.runCalls [.preprocess 6]).estimateAmbiguity ⟨3, 5, 4, 4⟩).1 =
      .ok ⟨4, 5, ⟨[(word, 3)], 3⟩⟩ := by decide +kernel
  refine ⟨gen, _, hnew, hreport, rfl, rfl, rfl, ?_⟩
  obtain ⟨-, -, -, -, -, hsamples⟩ := distinct_lt_trees_iff hnew rfl hreport
  refine ((hsamples (by decide)).2 (.inr fun τ hτ _ => ?_)).1 (by decide)
  have hyield : τ.yield = word := List.eq_replicate_iff.2
    ⟨τ.length_yield.trans hτ.2.2, fun t => eq_of_mem_yield_bracketings hτ.1⟩
  exact List.mem_singleton.2 hyield

end GrammarSampler
