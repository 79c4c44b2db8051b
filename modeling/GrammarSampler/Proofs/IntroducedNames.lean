import GrammarSampler.NormalForm.Binarization
import GrammarSampler.NormalForm.Isolation
import GrammarSampler.Proofs.FreshNames

/-!
# The nonterminals that isolation and binarization introduce

Both passes draw names from a supply, one for each nonterminal that they introduce.  `Introduces`
says that these are all: the nonterminals after a pass are those before it and the ones with the
names that were drawn (`isolateTerminals_introduces`, `binarize_introduces`).  If the supply had the
names of the productions in use, no introduced nonterminal was among the old ones
(`Introduces.not_mem`).

What isolation does to its state it does terminal by terminal, so that whatever is kept when one
terminal gets its stand-in is kept by the whole pass (`Isolation.rewrite_keeps`).
-/

namespace GrammarSampler

/-! ### Names in use -/

theorem mem_nonterminalsOf {ps : List Production} {a : Nonterminal} :
    a ∈ nonterminalsOf ps ↔ ∃ p ∈ ps, p.lhs = a ∨ .nonterminal a ∈ p.rhs := by
  simp only [nonterminalsOf, List.mem_flatMap, List.mem_cons, Production.mem_nonterminals,
    eq_comm (a := a)]

theorem mem_nonterminalsOf_cons {p : Production} {ps : List Production} {a : Nonterminal} :
    a ∈ nonterminalsOf (p :: ps) ↔
      (p.lhs = a ∨ .nonterminal a ∈ p.rhs) ∨ a ∈ nonterminalsOf ps := by
  simp only [mem_nonterminalsOf, List.exists_mem_cons_iff]

theorem mem_nonterminalsOf_append {ps qs : List Production} {a : Nonterminal} :
    a ∈ nonterminalsOf (ps ++ qs) ↔ a ∈ nonterminalsOf ps ∨ a ∈ nonterminalsOf qs := by
  simp [nonterminalsOf]

/-- The name of every nonterminal of the productions is in use. -/
def NameSupply.Uses (s : NameSupply) (ps : List Production) : Prop :=
  ∀ a ∈ nonterminalsOf ps, a.name ∈ s.used

/-- With `names`, drawn from `s`, of which `s'` is left, `ps` was rewritten to `qs`: the
nonterminals of `qs` are those of `ps` and the ones with these names. -/
structure Introduces (s : NameSupply) (ps : List Production) (names : List String)
    (s' : NameSupply) (qs : List Production) : Prop where
  draws : s.Draws names s'
  mem_iff : ∀ a, a ∈ nonterminalsOf qs ↔ a ∈ nonterminalsOf ps ∨ a.name ∈ names

namespace Introduces

theorem refl (s : NameSupply) (ps : List Production) : Introduces s ps [] s ps :=
  ⟨NameSupply.draws_nil_iff.2 rfl, fun a => by simp⟩

variable {s s' s'' : NameSupply} {ps ps' qs qs' rs : List Production} {names names' : List String}

theorem trans (h : Introduces s ps names s' qs) (h' : Introduces s' qs names' s'' rs) :
    Introduces s ps (names ++ names') s'' rs := by
  refine ⟨h.draws.append h'.draws, fun a => ?_⟩
  rw [h'.mem_iff, h.mem_iff, List.mem_append, or_assoc]

/-- Two lists of productions are rewritten one after the other. -/
theorem append (h : Introduces s ps names s' qs) (h' : Introduces s' ps' names' s'' qs') :
    Introduces s (ps ++ ps') (names ++ names') s'' (qs ++ qs') := by
  refine ⟨h.draws.append h'.draws, fun a => ?_⟩
  rw [mem_nonterminalsOf_append, mem_nonterminalsOf_append, h.mem_iff, h'.mem_iff,
    List.mem_append, or_or_or_comm]

/-- After the pass, the names of all nonterminals are in use again. -/
theorem uses (h : Introduces s ps names s' qs) (huses : s.Uses ps) : s'.Uses qs := by
  intro a ha
  rw [h.draws.mem_used]
  rcases (h.mem_iff a).1 ha with ha | ha
  · exact .inr (huses a ha)
  · exact .inl ha

/-- No introduced nonterminal is an old one. -/
theorem not_mem (h : Introduces s ps names s' qs) (huses : s.Uses ps) :
    ∀ a ∈ nonterminalsOf ps, a.name ∉ names := by
  intro a ha hname
  exact h.draws.not_mem_used _ hname (huses a ha)

end Introduces

/-! ### Isolation -/

namespace Isolation

section keeps

variable {P : Isolation → Prop} {s : Isolation}

theorem replace_keeps {r : List Symbol}
    (hstep : ∀ s t, Symbol.terminal t ∈ r → P s → P (s.standIn t).2) (h : P s) :
    P (s.replace r).2 := by
  induction r generalizing s with
  | nil => exact h
  | cons y r ih =>
    have hrest : ∀ s t, Symbol.terminal t ∈ r → P s → P (s.standIn t).2 := fun s t ht =>
      hstep s t (List.mem_cons_of_mem _ ht)
    cases y with
    | nonterminal a => exact ih hrest h
    | terminal t => exact ih hrest (hstep s t List.mem_cons_self h)

/-- What is kept when a terminal of the productions gets its stand-in is kept by the whole pass. -/
theorem rewrite_keeps {ps : List Production}
    (hstep : ∀ s t, (∃ p ∈ ps, Symbol.terminal t ∈ p.rhs) → P s → P (s.standIn t).2) (h : P s) :
    P (s.rewrite ps).2 := by
  induction ps generalizing s with
  | nil => exact h
  | cons p ps ih =>
    have hrest : ∀ s t, (∃ q ∈ ps, Symbol.terminal t ∈ q.rhs) → P s → P (s.standIn t).2 := by
      rintro s t ⟨q, hq, ht⟩
      exact hstep s t ⟨q, List.mem_cons_of_mem _ hq, ht⟩
    unfold rewrite
    split
    · exact ih hrest h
    · apply ih hrest
      apply replace_keeps _ h
      intro s t ht
      exact hstep s t ⟨p, List.mem_cons_self, ht⟩

end keeps

/-- The names of the introduced nonterminals, in order of introduction. -/
def names (s : Isolation) : List String := s.assigned.map fun ta => ta.2.name

variable {supply : NameSupply} {s : Isolation} {t : Terminal} {a : Nonterminal}

theorem names_subset_standIn : s.names ⊆ (s.standIn t).2.names := by
  unfold standIn
  split
  · exact List.Subset.refl _
  · simp [names]

theorem name_standIn_mem : (s.standIn t).1.name ∈ (s.standIn t).2.names := by
  unfold standIn
  split
  · next b hb =>
    obtain ⟨l₁, l₂, hl, -⟩ := List.lookup_eq_some_iff.1 hb
    simp [names, hl]
  · simp [names]

/-- The introduced nonterminals have the names that were drawn, one each. -/
theorem draws_standIn (h : supply.Draws s.names s.supply) :
    supply.Draws (s.standIn t).2.names (s.standIn t).2.supply := by
  unfold standIn
  split
  · exact h
  · simpa [names] using h.append (NameSupply.draws_next s.supply)

theorem draws_rewrite (supply : NameSupply) (ps : List Production) :
    supply.Draws (Isolation.rewrite ⟨supply, []⟩ ps).2.names
      (Isolation.rewrite ⟨supply, []⟩ ps).2.supply :=
  rewrite_keeps (P := fun s => supply.Draws s.names s.supply) (fun _ _ _ h => draws_standIn h)
    (NameSupply.draws_nil_iff.2 rfl)

theorem names_subset_replace (r : List Symbol) : s.names ⊆ (s.replace r).2.names :=
  replace_keeps (P := fun s' => s.names ⊆ s'.names)
    (fun _ _ _ h => List.Subset.trans h names_subset_standIn) (List.Subset.refl _)

theorem names_subset_rewrite (ps : List Production) : s.names ⊆ (s.rewrite ps).2.names :=
  rewrite_keeps (P := fun s' => s.names ⊆ s'.names)
    (fun _ _ _ h => List.Subset.trans h names_subset_standIn) (List.Subset.refl _)

theorem mem_replace_of_mem {r : List Symbol} (ha : .nonterminal a ∈ r) :
    .nonterminal a ∈ (s.replace r).1 := by
  induction r generalizing s with
  | nil => cases ha
  | cons y r ih =>
    cases y with
    | nonterminal b =>
      rcases List.mem_cons.1 ha with ha | ha
      · exact ha ▸ List.mem_cons_self
      · exact List.mem_cons_of_mem _ (ih ha)
    | terminal t => exact List.mem_cons_of_mem _ (ih (by simpa using ha))

/-- A nonterminal of a replaced right-hand side was there before or was introduced. -/
theorem mem_or_name_mem_of_mem_replace {r : List Symbol} (ha : .nonterminal a ∈ (s.replace r).1) :
    .nonterminal a ∈ r ∨ a.name ∈ (s.replace r).2.names := by
  induction r generalizing s with
  | nil => cases ha
  | cons y r ih =>
    cases y with
    | nonterminal b =>
      rcases List.mem_cons.1 ha with ha | ha
      · exact .inl (ha ▸ List.mem_cons_self)
      · exact (ih ha).imp_left (List.mem_cons_of_mem _)
    | terminal t =>
      rcases List.mem_cons.1 ha with ha | ha
      · cases ha
        exact .inr (names_subset_replace r name_standIn_mem)
      · exact (ih ha).imp_left (List.mem_cons_of_mem _)

theorem mem_nonterminalsOf_rewrite_of_mem {ps : List Production} (ha : a ∈ nonterminalsOf ps) :
    a ∈ nonterminalsOf (s.rewrite ps).1 := by
  induction ps generalizing s with
  | nil => exact ha
  | cons p ps ih =>
    rw [mem_nonterminalsOf_cons] at ha
    unfold rewrite
    split
    · exact mem_nonterminalsOf_cons.2 (ha.imp_right ih)
    · exact mem_nonterminalsOf_cons.2 (ha.imp (Or.imp_right mem_replace_of_mem) ih)

theorem mem_or_name_mem_of_mem_rewrite {ps : List Production}
    (ha : a ∈ nonterminalsOf (s.rewrite ps).1) :
    a ∈ nonterminalsOf ps ∨ a.name ∈ (s.rewrite ps).2.names := by
  induction ps generalizing s with
  | nil => exact .inl ha
  | cons p ps ih =>
    rw [mem_nonterminalsOf_cons]
    unfold rewrite at ha ⊢
    split at ha
    · next hlen =>
      rw [if_pos hlen]
      rcases mem_nonterminalsOf_cons.1 ha with ha | ha
      · exact .inl (.inl ha)
      · exact (ih ha).imp_left .inr
    · next hlen =>
      rw [if_neg hlen]
      rcases mem_nonterminalsOf_cons.1 ha with (ha | ha) | ha
      · exact .inl (.inl (.inl ha))
      · rcases mem_or_name_mem_of_mem_replace ha with ha | ha
        · exact .inl (.inl (.inr ha))
        · exact .inr (names_subset_rewrite ps ha)
      · exact (ih ha).imp_left .inr

theorem mem_introduced {q : Production} :
    q ∈ s.introduced ↔ ∃ t, (t, q.lhs) ∈ s.assigned ∧ q.rhs = [.terminal t] := by
  obtain ⟨a, r⟩ := q
  simp only [introduced, List.mem_map, Prod.exists, Production.mk.injEq]
  constructor
  · rintro ⟨t, b, hmem, rfl, rfl⟩
    exact ⟨t, hmem, rfl⟩
  · rintro ⟨t, hmem, rfl⟩
    exact ⟨t, a, hmem, rfl, rfl⟩

theorem mem_nonterminalsOf_introduced : a ∈ nonterminalsOf s.introduced ↔ a.name ∈ s.names := by
  rw [mem_nonterminalsOf, names, List.mem_map]
  constructor
  · rintro ⟨q, hq, ha⟩
    obtain ⟨t, ht, hrhs⟩ := mem_introduced.1 hq
    rcases ha with rfl | ha
    · exact ⟨_, ht, rfl⟩
    · simp [hrhs] at ha
  · rintro ⟨⟨t, b⟩, ht, hname⟩
    obtain rfl : b = a := by
      cases a
      cases b
      exact congrArg _ hname
    exact ⟨⟨b, [.terminal t]⟩, mem_introduced.2 ⟨t, ht, rfl⟩, .inl rfl⟩

end Isolation

/-- **Isolation introduces** one nonterminal for each name that it draws, and no others. -/
theorem isolateTerminals_introduces (ps : List Production) (supply : NameSupply) :
    ∃ names, Introduces supply ps names (isolateTerminals ps supply).2
      (isolateTerminals ps supply).1 := by
  refine ⟨_, Isolation.draws_rewrite supply ps, fun a => ?_⟩
  show a ∈ nonterminalsOf (_ ++ Isolation.introduced _) ↔ _
  rw [mem_nonterminalsOf_append, Isolation.mem_nonterminalsOf_introduced]
  constructor
  · rintro (ha | ha)
    · exact Isolation.mem_or_name_mem_of_mem_rewrite ha
    · exact .inr ha
  · rintro (ha | ha)
    · exact .inl (Isolation.mem_nonterminalsOf_rewrite_of_mem ha)
    · exact .inr ha

/-! ### Binarization -/

/-- One step of a chain: the next name stands for the end of a right-hand side. -/
theorem end_introduces (s : NameSupply) (a : Nonterminal) (x : Symbol) (r : List Symbol) :
    Introduces s [⟨a, x :: r⟩] [s.next.1] s.next.2
      [⟨a, [x, .nonterminal ⟨s.next.1⟩]⟩, ⟨⟨s.next.1⟩, r⟩] := by
  refine ⟨s.draws_next, fun b => ?_⟩
  have hname : b.name = s.next.1 ↔ b = ⟨s.next.1⟩ := by
    cases b
    simp
  simp only [mem_nonterminalsOf_cons, List.mem_cons, List.not_mem_nil, or_false, hname,
    Symbol.nonterminal.injEq, eq_comm (b := b)]
  grind

theorem binaryChain_introduces (a : Nonterminal) (s : NameSupply) (r : List Symbol) :
    ∃ names, Introduces s [⟨a, r⟩] names (binaryChain a s r).2 (binaryChain a s r).1 := by
  induction r generalizing a s with
  | nil => exact ⟨[], .refl _ _⟩
  | cons x r ih =>
    rcases r with _ | ⟨y, _ | ⟨z, r⟩⟩
    · exact ⟨[], .refl _ _⟩
    · exact ⟨[], .refl _ _⟩
    · obtain ⟨names, hrest⟩ := ih ⟨s.next.1⟩ s.next.2
      have hhead := Introduces.refl s.next.2 [⟨a, [x, .nonterminal ⟨s.next.1⟩]⟩]
      exact ⟨_, (end_introduces s a x (y :: z :: r)).trans (hhead.append hrest)⟩

/-- **Binarization introduces** one nonterminal for each name that it draws, and no others. -/
theorem binarize_introduces (ps : List Production) (s : NameSupply) :
    ∃ names, Introduces s ps names (binarize ps s).2 (binarize ps s).1 := by
  induction ps generalizing s with
  | nil => exact ⟨[], .refl _ _⟩
  | cons p ps ih =>
    obtain ⟨names, hchain⟩ := binaryChain_introduces p.lhs s p.rhs
    obtain ⟨names', hrest⟩ := ih (binaryChain p.lhs s p.rhs).2
    exact ⟨_, hchain.append hrest⟩

/-- Both passes, one after the other. -/
theorem binaryForm_introduces (ps : List Production) (s : NameSupply) :
    ∃ names, Introduces s ps names (binarize (isolateTerminals ps s).1 (isolateTerminals ps s).2).2
      (binarize (isolateTerminals ps s).1 (isolateTerminals ps s).2).1 := by
  obtain ⟨names, hisolation⟩ := isolateTerminals_introduces ps s
  obtain ⟨names', hbinary⟩ :=
    binarize_introduces (isolateTerminals ps s).1 (isolateTerminals ps s).2
  exact ⟨_, hisolation.trans hbinary⟩

end GrammarSampler
