import GrammarSampler.Proofs.StageAccesses
import GrammarSampler.Proofs.TableHistory

/-!
# Tables of counts access what is there

A table of counts has rules and a row of counts for each id.  Its construction adds each production
to the rules of its left-hand side, with ids in place of the nonterminals on the right
(`ofGrammarInRange?`), and every query looks up ids and reads rules and rows there.  In a table that
calls leave, all ids have rules and rows, those in the rules included: nothing is read or written
out of range (`Counts.inRange`).
-/

namespace GrammarSampler

/-! ### Construction -/

/-- Adds a production to the rules of its left-hand side.  A nonterminal of a binary production must
have an id. -/
def RuleSet.add? (x : Numbering) (r : RuleSet) (p : Production) : Option RuleSet :=
  match p.terminal?, p.binary? with
  | some t, _ => some { r with terminals := r.terminals ++ [t] }
  | none, some (b, c) => do
    let i ← x.id? b
    let j ← x.id? c
    return { r with pairs := r.pairs ++ [(i, j)] }
  | none, none => some (if p.isEmpty then { r with hasEmpty := true } else r)

/-- The rules of all ids, with every access in range. -/
def Numbering.rules? (x : Numbering) (ps : List Production) : Option (Array RuleSet) :=
  x.collect? (RuleSet.add? x) default ps

namespace RuleSet

variable {x : Numbering} {ps : List Production} {p : Production}

theorem ofProductions_concat_of_ne {a : Nonterminal} (h : p.lhs ≠ a) :
    ofProductions x (ps ++ [p]) a = ofProductions x ps a := by
  simp [ofProductions, h]

theorem ofProductions_concat_self : ofProductions x (ps ++ [p]) p.lhs =
    ⟨(ofProductions x ps p.lhs).terminals ++ p.terminal?.toList,
      (ofProductions x ps p.lhs).pairs ++ (p.pair? x).toList,
      (ofProductions x ps p.lhs).hasEmpty || p.isEmpty⟩ := by
  have hone {β : Type} (f : Production → Option β) : [p].filterMap f = (f p).toList := by
    cases h : f p <;> simp [h]
  simp [ofProductions, List.filterMap_append, hone]

/-- **One production more**: it has one form, and its nonterminals have ids. -/
theorem add?_ofProductions (hp : ∀ a ∈ p.nonterminals, a ∈ x.names) :
    (ofProductions x ps p.lhs).add? x p = some (ofProductions x (ps ++ [p]) p.lhs) := by
  rw [ofProductions_concat_self, add?]
  cases ht : p.terminal? with
  | some t =>
    have hrhs := Production.terminal?_eq_some.1 ht
    simp [Production.pair?, Production.binary?, Production.isEmpty, hrhs]
  | none =>
    cases hb : p.binary? with
    | some bc =>
      obtain ⟨b, c⟩ := bc
      have hrhs := Production.binary?_eq_some.1 hb
      obtain ⟨i, hi⟩ := exists_id?_of_mem_names (hp b (by simp [Production.nonterminals, hrhs,
        Symbol.nonterminal?]))
      obtain ⟨j, hj⟩ := exists_id?_of_mem_names (hp c (by simp [Production.nonterminals, hrhs,
        Symbol.nonterminal?]))
      simp [Production.pair?, hb, hi, hj, Production.isEmpty, hrhs]
    | none => cases he : p.isEmpty <;> simp [Production.pair?, hb]

end RuleSet

theorem exists_rules? {x : Numbering} {ps : List Production} (hx : x.Knows ps) :
    ∃ rules, x.rules? ps = some rules ∧ x.Tabulates (RuleSet.ofProductions x ps) rules :=
  exists_collect? (RuleSet.ofProductions x) (fun _ => rfl)
    (fun _ _ _ hne => RuleSet.ofProductions_concat_of_ne hne)
    fun p hp => ⟨(hx p hp).1, fun _ => RuleSet.add?_ofProductions (hx p hp).2⟩

namespace DerivationTable

/-- `ofGrammar`, with every access in range. -/
def ofGrammarInRange? (g : Grammar) : Option DerivationTable := do
  let x := Numbering.ofProductions g.start g.productions
  let rules ← x.rules? g.productions
  return ⟨x, rules, rules.map fun r => #[if r.hasEmpty then 1 else 0, r.terminals.length], 2, 1⟩

/-- **The first table** is made without an access out of range. -/
theorem ofGrammarInRange?_eq (g : Grammar) : ofGrammarInRange? g = some (ofGrammar g) := by
  obtain ⟨rules, hrules, htable⟩ := exists_rules? (knows_ofProductions g.start g.productions)
  have heq : rules = ((Numbering.ofProductions g.start g.productions).names.map
      (RuleSet.ofProductions (Numbering.ofProductions g.start g.productions)
        g.productions)).toArray := by
    refine eq_of_getElem?_eq htable.size (by simp [Numbering.size]) fun i hi => ?_
    have hget : (Numbering.ofProductions g.start g.productions).names[i]? =
        some (Numbering.ofProductions g.start g.productions).names[i] := List.getElem?_eq_getElem hi
    rw [htable.row _ i (Numbering.id?_eq_some_iff.2 hget)]
    simp [hget]
  simp only [ofGrammarInRange?, hrules, Option.bind_eq_bind, Option.bind_some]
  rw [heq]
  rfl

/-! ### Queries -/

/-- `count?`, with every access in range.  There is an answer inside if the counts fit. -/
def countInRange? (t : DerivationTable) (a : Nonterminal) (n : Nat) :
    Option (Option (Nat × DerivationTable)) :=
  match t.numbering.id? a, t.extend? n with
  | none, _ => some (some (0, t))
  | some _, none => some none
  | some i, some _ => do
    let u ← t.extendInRange? n
    let k ← u.countAt? i n
    return some (k, u)

/-- `countPair?`, with every access in range. -/
def countPairInRange? (t : DerivationTable) (rules : RuleSet) (bc : Nat × Nat) (n : Nat) :
    Option (Option (Nat × DerivationTable)) :=
  if n < 2 || !rules.pairs.contains bc then some (some (0, t))
  else
    match t.extend? n with
    | none => some none
    | some _ => do
      let u ← t.extendInRange? n
      let k ← u.splitSum? bc.1 bc.2 n
      return some (k, u)

/-- `countProduction?`, with every access in range. -/
def countProductionInRange? (t : DerivationTable) (p : Production) (n : Nat) :
    Option (Option (Nat × DerivationTable)) :=
  match t.numbering.id? p.lhs with
  | none => some (some (0, t))
  | some i => do
    let rules ← t.rules[i]?
    match p.terminal?, p.binary? with
    | some a, _ => return some (if n = 1 ∧ a ∈ rules.terminals then 1 else 0, t)
    | none, some _ =>
      match p.pair? t.numbering with
      | none => return some (0, t)
      | some bc => t.countPairInRange? rules bc n
    | none, none => return some (if p.isEmpty ∧ n = 0 ∧ rules.hasEmpty then 1 else 0, t)

/-- `counts?`, with the row in range. -/
def countsInRange? (t : DerivationTable) (a : Nonterminal) : Option (Option (List Nat)) :=
  match t.numbering.id? a with
  | none => some none
  | some i => t.rows[i]?.map fun row => some row.toList

/-- **Every access of `t` is in range.** -/
structure InRange (t : DerivationTable) : Prop where
  extend (n : Nat) : t.extendInRange? n = some (t.extend n)
  count (a : Nonterminal) (n : Nat) : t.countInRange? a n = some (t.count? a n)
  countProduction (p : Production) (n : Nat) :
    t.countProductionInRange? p n = some (t.countProduction? p n)
  counts (a : Nonterminal) : t.countsInRange? a = some (t.counts? a)
  /-- Each id has a nonterminal, rules and a row. -/
  id (i : Nat) (hi : i < t.numbering.size) : (∃ a, t.numbering.get? i = some a) ∧
    t.rules[i]? = some (t.rulesOf i) ∧ t.rows[i]? = some (t.rowOf i)
  /-- The ids in the rules are ids. -/
  closed : t.Closed
  /-- A split of a length that is counted is read in range. -/
  splitCount (n k i : Nat) (bc : Nat × Nat) (hbc : bc ∈ (t.rulesOf i).pairs) (hk : 0 < k)
    (hkn : k < n) (hn : n ≤ t.maxLength) :
    t.splitCount? bc.1 bc.2 n k = some (t.splitCount bc.1 bc.2 n k)

variable {g : Grammar} {t u : DerivationTable} {n : Nat}

theorem Regular.countInRange?_eq {t₀ : DerivationTable} (h : Regular t₀ t) (a : Nonterminal)
    (n : Nat) : t.countInRange? a n = some (t.count? a n) := by
  unfold countInRange? count?
  cases hi : t.numbering.id? a with
  | none => rfl
  | some i =>
    cases hu : t.extend? n with
    | none => rfl
    | some u =>
      obtain rfl := eq_extend_of_extend? hu
      simp [h.extend, h.entry n (Numbering.lt_size_of_id? hi)]

theorem Regular.countPairInRange?_eq {t₀ : DerivationTable} (h : Regular t₀ t) (i : Nat)
    (bc : Nat × Nat) (n : Nat) :
    t.countPairInRange? (t.rulesOf i) bc n = some (t.countPair? i bc n) := by
  have hcond : (n < 2 || !(t.rulesOf i).pairs.contains bc) = true ↔
      n < 2 ∨ bc ∉ (t.rulesOf i).pairs := by
    simp
  unfold countPairInRange? countPair?
  by_cases hbc : n < 2 ∨ bc ∉ (t.rulesOf i).pairs
  · rw [if_pos (hcond.2 hbc), if_pos hbc]
  · rw [if_neg (mt hcond.1 hbc), if_neg hbc]
    obtain ⟨-, hmem⟩ := not_or.1 hbc
    cases hu : t.extend? n with
    | none => rfl
    | some u =>
      obtain rfl := eq_extend_of_extend? hu
      simp [h.extend, h.splitSum n (not_not.1 hmem)]

theorem Regular.countProductionInRange?_eq {t₀ : DerivationTable} (h : Regular t₀ t)
    (p : Production) (n : Nat) :
    t.countProductionInRange? p n = some (t.countProduction? p n) := by
  unfold countProductionInRange? countProduction?
  cases hi : t.numbering.id? p.lhs with
  | none => rfl
  | some i =>
    have hrules := h.shaped.getElem?_rules (Numbering.lt_size_of_id? hi)
    simp only [hrules, Option.bind_eq_bind, Option.bind_some]
    cases p.terminal? with
    | some a => rfl
    | none =>
      cases p.binary? with
      | none => rfl
      | some _ =>
        cases p.pair? t.numbering with
        | none => rfl
        | some bc => exact h.countPairInRange?_eq i bc n

theorem Shaped.countsInRange?_eq (h : t.Shaped n) (a : Nonterminal) :
    t.countsInRange? a = some (t.counts? a) := by
  unfold countsInRange? counts?
  cases hi : t.numbering.id? a with
  | none => rfl
  | some i => simp [h.getElem?_rows (Numbering.lt_size_of_id? hi)]

/-- **A table of `g` that calls have left** accesses what is there. -/
theorem Counts.inRange {t₀ : DerivationTable} (h₀ : t₀.Counts g) (h : t.Counts g)
    (hle : t₀.maxLength ≤ t.maxLength) : t.InRange := by
  have hregular := h₀.regular h hle
  refine ⟨hregular.extend, hregular.countInRange?_eq, hregular.countProductionInRange?_eq,
    h.shaped.countsInRange?_eq, fun i hi => ?_, h.closed, ?_⟩
  · exact ⟨⟨_, List.getElem?_eq_getElem hi⟩, h.shaped.getElem?_rules hi, h.shaped.getElem?_rows hi⟩
  · intro n k i bc hbc hk hkn hn
    obtain ⟨hb, hc⟩ := h.closed i bc hbc
    simp [splitCount?, splitCount, h.shaped.countAt?_eq hb (show k ≤ t.maxLength by omega),
      h.shaped.countAt?_eq hc (show n - k ≤ t.maxLength by omega)]

end DerivationTable

end GrammarSampler
