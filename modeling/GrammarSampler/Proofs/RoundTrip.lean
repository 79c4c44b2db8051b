import GrammarSampler.Grammar.Printer
import GrammarSampler.Proofs.Reading
import Mathlib.Data.List.Basic

/-!
# Written grammars are read back

A written line has the tokens of its rule again, whether or not an empty last alternative was
trimmed from it (`Lexes.line`).  So a written grammar is read as its productions in the order of the
lines, which are those of the grammar in blocks of one left-hand side (`Grammar.grouped`).  The same
productions in another order are an equal grammar, and the lines of that grammar are the same.
-/

namespace GrammarSampler

/-! ### Written lines -/

theorem alternativeChars_cons {rhs : List Symbol} (hne : rhs ≠ []) (s : Symbol) :
    alternativeChars (s :: rhs) = s.chars ++ ' ' :: alternativeChars rhs := by
  rw [alternativeChars, List.map_cons, List.intercalate_cons_of_ne_nil (by simpa using hne),
    List.append_assoc, List.singleton_append, alternativeChars]

/-- A written alternative is one token for each symbol. -/
theorem Lexes.alternative {rhs : List Symbol} (hrhs : ∀ s ∈ rhs, s.Legible) {cs : List Char}
    {tokens : List Token} (hcs : EndsIdentifier cs) (h : Lexes cs tokens) :
    Lexes (alternativeChars rhs ++ cs) (rhs.map Symbol.token ++ tokens) := by
  induction rhs with
  | nil => exact h
  | cons s rhs ih =>
    obtain ⟨hs, hrhs⟩ := List.forall_mem_cons.1 hrhs
    by_cases hlast : rhs = []
    · subst hlast
      rw [alternativeChars, List.map_singleton, List.intercalate_singleton]
      exact h.symbol hs hcs
    · rw [alternativeChars_cons hlast, List.append_assoc, List.cons_append]
      exact Lexes.symbol hs (endsIdentifier_cons (by decide +kernel) _) (ih hrhs).space

/-- A written alternative that is not empty does not end in a blank. -/
theorem exists_alternativeChars_eq_append {rhs : List Symbol} (hrhs : ∀ s ∈ rhs, s.Legible)
    (hne : rhs ≠ []) : ∃ cs c, alternativeChars rhs = cs ++ [c] ∧ Text.isBlank c = false := by
  induction rhs with
  | nil => exact absurd rfl hne
  | cons s rhs ih =>
    obtain ⟨hs, hrhs⟩ := List.forall_mem_cons.1 hrhs
    by_cases hlast : rhs = []
    · subst hlast
      rw [alternativeChars, List.map_singleton, List.intercalate_singleton]
      exact exists_chars_eq_append hs
    · obtain ⟨cs, c, hcs, hc⟩ := ih hrhs hlast
      refine ⟨s.chars ++ ' ' :: cs, c, ?_, hc⟩
      rw [alternativeChars_cons hlast, hcs, List.append_assoc, List.cons_append]

/-- Alternatives with a bar between two, as they stand on a line. -/
def alternativesChars (alternatives : List (List Symbol)) : List Char :=
  " | ".toList.intercalate (alternatives.map alternativeChars)

theorem alternativesChars_cons {alternatives : List (List Symbol)} (hne : alternatives ≠ [])
    (rhs : List Symbol) : alternativesChars (rhs :: alternatives) =
      alternativeChars rhs ++ ' ' :: '|' :: ' ' :: alternativesChars alternatives := by
  rw [alternativesChars, List.map_cons, List.intercalate_cons_of_ne_nil (by simpa using hne),
    List.append_assoc, alternativesChars]
  rfl

/-- The alternatives of a line up to its end.  Only a last alternative that is empty is trimmed. -/
theorem Lexes.alternatives {alternatives : List (List Symbol)}
    (hlegible : ∀ rhs ∈ alternatives, ∀ s ∈ rhs, s.Legible) (hne : alternatives ≠ [])
    {cs : List Char} {tokens : List Token} (h : Lexes cs tokens) :
    Lexes (Text.trimEnd (' ' :: alternativesChars alternatives) ++ '\n' :: cs)
      (alternativeTokens alternatives ++ .lineEnd :: tokens) := by
  induction alternatives with
  | nil => exact absurd rfl hne
  | cons rhs alternatives ih =>
    obtain ⟨hrhs, hlegible⟩ := List.forall_mem_cons.1 hlegible
    by_cases hlast : alternatives = []
    · subst hlast
      rw [alternativesChars, alternativeTokens, List.map_singleton, List.map_singleton,
        List.intercalate_singleton, List.intercalate_singleton]
      by_cases hempty : rhs = []
      · subst hempty
        exact h.lineEnd
      · obtain ⟨ds, c, hds, hc⟩ := exists_alternativeChars_eq_append hrhs hempty
        have htrim : Text.trimEnd (' ' :: alternativeChars rhs) = ' ' :: alternativeChars rhs := by
          rw [hds]
          exact Text.trimEnd_append_of_not_blank (' ' :: ds) hc
        rw [htrim]
        exact (h.lineEnd.alternative hrhs (endsIdentifier_cons (by decide +kernel) _)).space
    · have htrim : Text.trimEnd (' ' :: alternativesChars (rhs :: alternatives)) =
          ' ' :: alternativeChars rhs ++ ' ' ::
            '|' :: Text.trimEnd (' ' :: alternativesChars alternatives) := by
        rw [alternativesChars_cons hlast]
        have hbar := Text.trimEnd_append_cons (c := '|') (by decide)
          (' ' :: alternativeChars rhs ++ [' ']) (' ' :: alternativesChars alternatives)
        simpa using hbar
      rw [htrim, alternativeTokens_cons hlast, List.append_assoc, List.append_assoc]
      exact ((ih hlegible hlast).bar.space.alternative hrhs
        (endsIdentifier_cons (by decide +kernel) _)).space

/-- **A written line** is its left-hand side, an arrow, and its alternatives. -/
theorem Lexes.line {a : Nonterminal} {alternatives : List (List Symbol)}
    (ha : IsIdentifier a.name) (hlegible : ∀ rhs ∈ alternatives, ∀ s ∈ rhs, s.Legible)
    (hne : alternatives ≠ []) {cs : List Char} {tokens : List Token} (h : Lexes cs tokens) :
    Lexes (ruleChars a alternatives ++ '\n' :: cs) (lineTokens a alternatives ++ tokens) := by
  have htrim : ruleChars a alternatives = a.name.toList ++ ' ' :: '-' :: '>' ::
      Text.trimEnd (' ' :: alternativesChars alternatives) := by
    have harrow := Text.trimEnd_append_cons (c := '>') (by decide)
      (a.name.toList ++ [' ', '-']) (' ' :: alternativesChars alternatives)
    simpa [ruleChars, alternativesChars] using harrow
  rw [htrim, lineTokens_append, List.append_assoc]
  exact Lexes.identifier ha (endsIdentifier_cons (by decide +kernel) _)
    (Lexes.alternatives hlegible hne h).arrow.space

/-! ### The order of the productions -/

theorem eraseDups_of_forall_eq {xs : List Nonterminal} {a : Nonterminal} (ha : a ∈ xs)
    (h : ∀ b ∈ xs, b = a) : xs.eraseDups = [a] := by
  obtain ⟨b, xs, rfl⟩ := List.exists_cons_of_ne_nil (List.ne_nil_of_mem ha)
  obtain ⟨rfl, h⟩ := List.forall_mem_cons.1 h
  have hothers : xs.filter (fun c => !c == b) = [] := by
    simpa [List.filter_eq_nil_iff] using h
  rw [List.eraseDups_cons, hothers, List.eraseDups_nil]

theorem removeAll_eq_self {xs ys : List Nonterminal} (h : ∀ a ∈ xs, a ∉ ys) :
    xs.removeAll ys = xs := by
  refine List.filter_eq_self.2 fun a ha => ?_
  simpa using h a ha

section blocks

variable {order : List Nonterminal} {ps : List Production} {a : Nonterminal} {p : Production}

theorem mem_filter_lhs : p ∈ ps.filter (fun p => p.lhs = a) ↔ p ∈ ps ∧ p.lhs = a := by
  rw [List.mem_filter, decide_eq_true_eq]

/-- The productions in blocks of one left-hand side. -/
def blocks (order : List Nonterminal) (ps : List Production) : List Production :=
  order.flatMap fun a => ps.filter fun p => p.lhs = a

theorem blocks_cons : blocks (a :: order) ps = ps.filter (fun p => p.lhs = a) ++ blocks order ps :=
  List.flatMap_cons

theorem mem_blocks : p ∈ blocks order ps ↔ p ∈ ps ∧ p.lhs ∈ order := by
  simp only [blocks, List.mem_flatMap, mem_filter_lhs]
  constructor
  · rintro ⟨a, ha, hp, rfl⟩
    exact ⟨hp, ha⟩
  · rintro ⟨hp, ha⟩
    exact ⟨p.lhs, ha, hp, rfl⟩

theorem nodup_blocks (horder : order.Nodup) (hps : ps.Nodup) : (blocks order ps).Nodup := by
  refine List.pairwise_flatMap.2 ⟨fun a _ => hps.filter _, ?_⟩
  refine horder.imp fun hne p hp q hq hpq => hne ?_
  rw [← (mem_filter_lhs.1 hp).2, ← (mem_filter_lhs.1 hq).2, hpq]

/-- The productions of `a`, in their order, are the block of `a`. -/
theorem filter_blocks (horder : order.Nodup) (ha : a ∈ order) :
    (blocks order ps).filter (fun p => p.lhs = a) = ps.filter fun p => p.lhs = a := by
  induction order with
  | nil => cases ha
  | cons b order ih =>
    obtain ⟨hb, horder⟩ := List.nodup_cons.1 horder
    rw [blocks_cons, List.filter_append, List.filter_filter]
    by_cases hab : a = b
    · subst hab
      have hrest : (blocks order ps).filter (fun p => p.lhs = a) = [] := by
        refine List.eq_nil_iff_forall_not_mem.2 fun p hp => hb ?_
        obtain ⟨hmem, hlhs⟩ := mem_filter_lhs.1 hp
        exact hlhs ▸ (mem_blocks.1 hmem).2
      rw [hrest, List.append_nil]
      simp
    · have hblock : ps.filter (fun p => decide (p.lhs = a) && decide (p.lhs = b)) = [] := by
        simp only [List.filter_eq_nil_iff, Bool.and_eq_true, decide_eq_true_eq]
        rintro p - ⟨rfl, hlhs⟩
        exact hab hlhs
      rw [hblock, List.nil_append]
      exact ih horder ((List.mem_cons.1 ha).resolve_left hab)

/-- The left-hand sides of blocks that are not empty are in the order of the blocks. -/
theorem eraseDups_blocks (horder : order.Nodup) (hne : ∀ a ∈ order, ∃ p ∈ ps, p.lhs = a) :
    ((blocks order ps).map Production.lhs).eraseDups = order := by
  induction order with
  | nil => rfl
  | cons b order ih =>
    obtain ⟨hb, horder⟩ := List.nodup_cons.1 horder
    obtain ⟨⟨q, hq, hlhs⟩, hne⟩ := List.forall_mem_cons.1 hne
    have hfirst : ((ps.filter fun p => p.lhs = b).map Production.lhs).eraseDups = [b] := by
      apply eraseDups_of_forall_eq
      · exact List.mem_map.2 ⟨q, mem_filter_lhs.2 ⟨hq, hlhs⟩, hlhs⟩
      · intro c hc
        obtain ⟨p, hp, rfl⟩ := List.mem_map.1 hc
        exact (mem_filter_lhs.1 hp).2
    have hrest : ((blocks order ps).map Production.lhs).removeAll
        ((ps.filter fun p => p.lhs = b).map Production.lhs) =
          (blocks order ps).map Production.lhs := by
      apply removeAll_eq_self
      intro c hc hc'
      obtain ⟨p, hp, rfl⟩ := List.mem_map.1 hc
      obtain ⟨p', hp', hlhs'⟩ := List.mem_map.1 hc'
      have hbp : b = p.lhs := (mem_filter_lhs.1 hp').2.symm.trans hlhs'
      exact hb (hbp ▸ (mem_blocks.1 hp).2)
    rw [blocks_cons, List.map_append, List.eraseDups_append, hfirst, hrest, ih horder hne,
      List.singleton_append]

end blocks

namespace Grammar

variable (g : Grammar)

theorem mem_lineOrder {a : Nonterminal} :
    a ∈ g.lineOrder ↔ ∃ p ∈ g.productions, p.lhs = a := by
  have horder : a ∈ g.lineOrder ↔ a ∈ (g.productions.map Production.lhs).eraseDups := by
    unfold lineOrder
    simp only
    split
    · next hstart => exact (List.perm_cons_erase hstart).mem_iff.symm
    · exact Iff.rfl
  rw [horder, List.mem_eraseDups, List.mem_map]

theorem nodup_lineOrder : g.lineOrder.Nodup := by
  unfold lineOrder
  simp only
  split
  · next hstart => exact (List.perm_cons_erase hstart).nodup_iff.1 (nodup_eraseDups _)
  · exact nodup_eraseDups _

/-- The productions in the order in which they are written. -/
def grouped : List Production := blocks g.lineOrder g.productions

theorem mem_grouped {p : Production} : p ∈ g.grouped ↔ p ∈ g.productions := by
  rw [grouped, mem_blocks, and_iff_left_iff_imp, mem_lineOrder]
  exact fun hp => ⟨p, hp, rfl⟩

theorem nodup_grouped : g.grouped.Nodup := nodup_blocks g.nodup_lineOrder g.nodup

theorem perm_grouped : g.grouped.Perm g.productions :=
  (List.perm_ext_iff_of_nodup g.nodup_grouped g.nodup).2 fun _ => g.mem_grouped

/-- The grammar with its productions in the order in which they are written. -/
def regrouped : Grammar where
  start := g.start
  productions := g.grouped
  nodup := g.nodup_grouped
  defined := by simpa only [mem_grouped] using g.defined

theorem regrouped_beq : (g.regrouped == g) = true :=
  beq_iff.2 ⟨rfl, g.perm_grouped.length_eq, fun _ hp => g.mem_grouped.2 hp⟩

/-- The lines stay in their order: the start symbol, if it has a line, is the first already. -/
theorem lineOrder_regrouped : g.regrouped.lineOrder = g.lineOrder := by
  have horder : (g.grouped.map Production.lhs).eraseDups = g.lineOrder :=
    eraseDups_blocks g.nodup_lineOrder fun _ ha => g.mem_lineOrder.1 ha
  have hstart : g.regrouped.lineOrder =
      if g.start ∈ g.lineOrder then g.start :: g.lineOrder.erase g.start else g.lineOrder := by
    rw [← horder]
    rfl
  rw [hstart]
  split
  · next hmem =>
    unfold lineOrder at hmem ⊢
    simp only at hmem ⊢
    split
    · rw [List.erase_cons_head]
    · next hnot => rw [if_neg hnot] at hmem; exact absurd hmem hnot
  · rfl

theorem chars_regrouped : g.regrouped.chars = g.chars := by
  unfold chars
  rw [lineOrder_regrouped]
  refine List.flatMap_congr fun a ha => ?_
  have halternatives :
      alternativesFor a g.regrouped.productions = alternativesFor a g.productions :=
    congrArg (List.map Production.rhs) (filter_blocks g.nodup_lineOrder ha)
  rw [halternatives]

end Grammar

/-! ### Reading a written grammar -/

section lines

variable {ps : List Production} {order : List Nonterminal}

theorem map_alternativesFor (a : Nonterminal) :
    (alternativesFor a ps).map (⟨a, ·⟩) = ps.filter fun p => p.lhs = a := by
  rw [alternativesFor, List.map_map]
  refine (List.map_congr_left fun p hp => ?_).trans (List.map_id _)
  obtain ⟨-, rfl⟩ := mem_filter_lhs.1 hp
  rfl

theorem alternativesFor_ne_nil {a : Nonterminal} (h : ∃ p ∈ ps, p.lhs = a) :
    alternativesFor a ps ≠ [] := by
  obtain ⟨p, hp, hlhs⟩ := h
  exact List.ne_nil_of_mem (List.mem_map_of_mem (mem_filter_lhs.2 ⟨hp, hlhs⟩))

/-- All lines together are the lines one after the other. -/
theorem lexes_lines (hps : ∀ p ∈ ps, p.Legible) (horder : ∀ a ∈ order, ∃ p ∈ ps, p.lhs = a) :
    Lexes (order.flatMap fun a => ruleChars a (alternativesFor a ps) ++ ['\n'])
      (order.flatMap fun a => lineTokens a (alternativesFor a ps)) := by
  induction order with
  | nil => exact lexes_nil
  | cons a order ih =>
    obtain ⟨ha, horder⟩ := List.forall_mem_cons.1 horder
    have hname : IsIdentifier a.name := by
      obtain ⟨p, hp, rfl⟩ := ha
      exact (hps p hp).1
    have hlegible : ∀ rhs ∈ alternativesFor a ps, ∀ s ∈ rhs, s.Legible := by
      intro rhs hrhs
      obtain ⟨p, hp, rfl⟩ := List.mem_map.1 hrhs
      exact (hps p (mem_filter_lhs.1 hp).1).2
    rw [List.flatMap_cons, List.flatMap_cons, List.append_assoc, List.singleton_append]
    exact (ih horder).line hname hlegible (alternativesFor_ne_nil ha)

theorem reads_lines (horder : ∀ a ∈ order, ∃ p ∈ ps, p.lhs = a) :
    Reads .rule (order.flatMap fun a => lineTokens a (alternativesFor a ps))
      (blocks order ps) := by
  induction order with
  | nil => exact reads_nil
  | cons a order ih =>
    obtain ⟨ha, horder⟩ := List.forall_mem_cons.1 horder
    rw [List.flatMap_cons, blocks_cons, ← map_alternativesFor]
    exact (ih horder).line (alternativesFor_ne_nil ha)

end lines

namespace Grammar

variable {g : Grammar}

/-- The start symbol has a line, and the names of the nonterminals can be read. -/
structure Legible (g : Grammar) : Prop where
  start_ne_nil : g.productionsFor g.start ≠ []
  names : ∀ a ∈ g.nonterminals, IsIdentifier a.name

theorem Legible.productions (h : g.Legible) : ∀ p ∈ g.productions, p.Legible := by
  intro p hp
  have hnames : ∀ a ∈ p.lhs :: p.nonterminals, IsIdentifier a.name := fun a ha =>
    h.names a (mem_sortedDistinct.2 (List.mem_cons_of_mem _ (List.mem_flatMap.2 ⟨p, hp, ha⟩)))
  obtain ⟨hlhs, hrhs⟩ := List.forall_mem_cons.1 hnames
  refine ⟨hlhs, fun s hs => ?_⟩
  cases s with
  | terminal t => trivial
  | nonterminal a => exact hrhs a (Production.mem_nonterminals.2 hs)

/-- The order of the lines, when the start symbol has one. -/
theorem Legible.lineOrder_eq (h : g.Legible) : g.lineOrder =
    g.start :: (g.productions.map Production.lhs).eraseDups.erase g.start := by
  obtain ⟨p, hp⟩ := List.exists_mem_of_ne_nil _ h.start_ne_nil
  have hstart : g.start ∈ (g.productions.map Production.lhs).eraseDups :=
    List.mem_eraseDups.2 (List.mem_map.2 ⟨p, mem_filter_lhs.1 hp⟩)
  unfold lineOrder
  simp only
  rw [if_pos hstart]

theorem Legible.readProductions_chars (h : g.Legible) :
    readProductions g.chars = .ok g.grouped := by
  have horder : ∀ a ∈ g.lineOrder, ∃ p ∈ g.productions, p.lhs = a := fun _ ha =>
    g.mem_lineOrder.1 ha
  exact readProductions_eq (lexes_lines h.productions horder) (reads_lines horder)

/-- A written grammar is read as the grammar, with its productions in the order of the lines. -/
theorem Legible.read_written (h : g.Legible) : read g.written = .ok g.regrouped := by
  -- the first production is one of the start symbol
  obtain ⟨p, first, hfirst⟩ := List.exists_cons_of_ne_nil h.start_ne_nil
  have hlhs : p.lhs = g.start := by
    have hp : p ∈ g.productionsFor g.start := hfirst ▸ List.mem_cons_self
    exact (mem_filter_lhs.1 hp).2
  obtain ⟨rest, hrest⟩ : ∃ rest, g.grouped = p :: rest := by
    rw [grouped, h.lineOrder_eq, blocks_cons]
    exact ⟨_, congrArg (· ++ _) hfirst⟩
  have hread := h.readProductions_chars
  rw [hrest] at hread
  have hbuilt : ofProductions p.lhs (p :: rest) = .ok g.regrouped := by
    rw [hlhs, ← hrest]
    exact g.regrouped.ofProductions_self
  rw [read_eq, written, String.toList_ofList, hread]
  exact congrArg (Except.mapError _) hbuilt

/-- A grammar that is read can be written: its names were read. -/
theorem legible_of_read {text : String} (h : read text = .ok g) : g.Legible := by
  rw [read_eq] at h
  split at h
  · cases h
  · cases h
  · next p ps hps =>
    cases hg' : ofProductions p.lhs (p :: ps) with
    | error e => rw [hg'] at h; cases h
    | ok g' =>
      rw [hg'] at h
      obtain rfl : g' = g := Except.ok.inj h
      obtain ⟨hstart, hmem⟩ := ofProductions_eq_ok hg'
      have hlegible := legible_of_readProductions hps
      refine ⟨?_, fun a ha => ?_⟩
      · exact List.ne_nil_of_mem (mem_filter_lhs.2 ⟨(hmem p).2 List.mem_cons_self, hstart.symm⟩)
      · rcases List.mem_cons.1 (mem_sortedDistinct.1 ha) with rfl | ha
        · rw [hstart]
          exact (hlegible p List.mem_cons_self).1
        · obtain ⟨q, hq, ha⟩ := List.mem_flatMap.1 ha
          obtain ⟨hlhs, hrhs⟩ := hlegible q ((hmem q).1 hq)
          rcases List.mem_cons.1 ha with rfl | ha
          · exact hlhs
          · exact hrhs _ (Production.mem_nonterminals.1 ha)

/-- **A written grammar is read back.**  This takes a start symbol with a production and names that
can be read, as every grammar that was read has; terminals may have any text.  The grammar that is
read is equal, has the productions in blocks of one left-hand side, with that of the start symbol
first, and is written as the same text. -/
theorem written_roundTrip :
    (∀ text g, read text = .ok g → g.Legible) ∧
      ∀ g : Grammar, g.Legible → ∃ g', read g.written = .ok g' ∧ (g' == g) = true ∧
        g'.productions = (g.start :: (g.productions.map Production.lhs).eraseDups.erase
          g.start).flatMap g.productionsFor ∧ g'.written = g.written := by
  refine ⟨fun text g h => legible_of_read h, fun g h => ?_⟩
  refine ⟨g.regrouped, h.read_written, g.regrouped_beq, ?_, ?_⟩
  · rw [← h.lineOrder_eq]
    rfl
  · rw [written, chars_regrouped, written]

/-- A grammar whose rules are interleaved, with empty alternatives in the first and the last place
and a terminal of characters that mean something elsewhere. -/
def quotations : Grammar where
  start := ⟨"S"⟩
  productions := [⟨⟨"A"⟩, []⟩,
    ⟨⟨"S"⟩, [.terminal ⟨"it's \"\\\" # | -> \n\t\r "⟩, .nonterminal ⟨"A"⟩]⟩,
    ⟨⟨"A"⟩, [.terminal ⟨""⟩]⟩, ⟨⟨"S"⟩, []⟩]
  nodup := by decide
  defined := by decide

theorem legible_quotations : quotations.Legible := by
  have hnames : quotations.start :: nonterminalsOf quotations.productions =
      [⟨"S"⟩, ⟨"A"⟩, ⟨"S"⟩, ⟨"A"⟩, ⟨"A"⟩, ⟨"S"⟩] := rfl
  have hlegible : ∀ a ∈ ([⟨"S"⟩, ⟨"A"⟩, ⟨"S"⟩, ⟨"A"⟩, ⟨"A"⟩, ⟨"S"⟩] : List Nonterminal),
      IsIdentifier a.name := by decide +kernel
  refine ⟨by decide, fun a ha => hlegible a ?_⟩
  rwa [nonterminals, mem_sortedDistinct, hnames] at ha

/-- The interleaved rules are read as two blocks, that of the start symbol first; what is read can
be written again. -/
theorem written_roundTrip_quotations : quotations.Legible ∧
    ∃ g', read quotations.written = .ok g' ∧ g'.Legible ∧ (g' == quotations) = true ∧
      g'.productions.map Production.lhs = [⟨"S"⟩, ⟨"S"⟩, ⟨"A"⟩, ⟨"A"⟩] ∧
        g'.written = quotations.written := by
  obtain ⟨hlegible, hread⟩ := written_roundTrip
  obtain ⟨g', hg', hbeq, hproductions, hwritten⟩ := hread quotations legible_quotations
  refine ⟨legible_quotations, g', hg', hlegible _ _ hg', hbeq, ?_, hwritten⟩
  rw [hproductions]
  decide

end Grammar

end GrammarSampler
