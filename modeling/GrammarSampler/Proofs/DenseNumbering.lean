import GrammarSampler.Proofs.GrammarEquality
import GrammarSampler.Proofs.TableAccesses
import GrammarSampler.Proofs.UselessRemoval

/-!
# Numberings are dense

An insertion gives a nonterminal the next id, unless it has one, and keeps all other ids
(`id?_insert`).  After any insertions into the empty numbering the nonterminals stand in the order
of their first insertion (`names_insertAll_empty`), and the ids are recorded in that order as well,
each once (`ids_insertAll`).  A numbering of productions knows all that occurs in them, so whatever
the normal form and the tables of counts access at their ids is there (`insertAll_dense`).
-/

namespace GrammarSampler

namespace Numbering

variable {x : Numbering} {a b : Nonterminal} {i : Nat}

/-! ### Insertions -/

theorem insert_of_id? (h : x.id? a = some i) : x.insert a = x := by
  unfold insert
  split
  · rfl
  · next hnone => cases h.symm.trans hnone

theorem ids_insert_of_id? (h : x.id? a = none) : (x.insert a).ids = (a, x.size) :: x.ids := by
  unfold insert
  split
  · next hsome => cases h.symm.trans hsome
  · rfl

/-- **One insertion**: the nonterminal has the id that is its due, and no other id changes. -/
theorem id?_insert (x : Numbering) (a b : Nonterminal) :
    (x.insert a).id? b = if b = a then some (x.idFor a) else x.id? b := by
  cases ha : x.id? a with
  | some i =>
    rw [insert_of_id? ha, idFor, ha]
    split
    · next hab => rw [hab, ha]; rfl
    · rfl
  | none =>
    rw [id?, ids_insert_of_id? ha, idFor, ha, List.lookup_cons]
    by_cases hab : b = a
    · simp [hab]
    · simp [hab, id?, beq_false_of_ne hab]

theorem insertAll_append (x : Numbering) (as bs : List Nonterminal) :
    x.insertAll (as ++ bs) = (x.insertAll as).insertAll bs :=
  List.foldl_append

theorem insertAll_concat (x : Numbering) (as : List Nonterminal) (a : Nonterminal) :
    x.insertAll (as ++ [a]) = (x.insertAll as).insert a :=
  x.insertAll_append as [a]

/-- **Ids stay** whatever is inserted later. -/
theorem id?_insertAll_of_id? (h : x.id? a = some i) (as : List Nonterminal) :
    (x.insertAll as).id? a = some i := by
  obtain ⟨rest, hrest⟩ := prefix_names_insertAll x as
  have hlt : i < x.names.length := lt_size_of_id? h
  rw [id?_eq_some_iff, get?] at h ⊢
  rwa [← hrest, List.getElem?_append_left hlt]

theorem names_insertAll_empty (as : List Nonterminal) :
    (empty.insertAll as).names = as.eraseDups := by
  induction as using List.reverseRecOn with
  | nil => rfl
  | append_singleton as a ih =>
    rw [insertAll_concat, names_insert, eraseDups_concat, ih]
    simp only [List.mem_eraseDups]

/-- The ids are recorded in their order, the last one first. -/
theorem ids_insert (h : x.ids = x.names.zipIdx.reverse) (a : Nonterminal) :
    (x.insert a).ids = (x.insert a).names.zipIdx.reverse := by
  cases ha : x.id? a with
  | some i => rwa [insert_of_id? ha]
  | none =>
    rw [ids_insert_of_id? ha, names_insert, if_neg (id?_eq_none_iff.1 ha), List.zipIdx_append, h]
    simp [size]

theorem ids_insertAll (h : x.ids = x.names.zipIdx.reverse) (as : List Nonterminal) :
    (x.insertAll as).ids = (x.insertAll as).names.zipIdx.reverse := by
  induction as using List.reverseRecOn with
  | nil => exact h
  | append_singleton as a ih =>
    rw [insertAll_concat]
    exact ids_insert ih a

theorem id?_eq_some_iff_lt : x.id? a = some i ↔ i < x.size ∧ x.get? i = some a :=
  ⟨fun h => ⟨lt_size_of_id? h, id?_eq_some_iff.1 h⟩, fun h => id?_eq_some_iff.2 h.2⟩

theorem map_fst_toList (x : Numbering) : x.toList.map Prod.fst = List.range x.size := by
  have hsnd : (Prod.fst ∘ fun p : Nonterminal × Nat => (p.2, p.1)) = Prod.snd := rfl
  rw [toList, List.map_map, hsnd, List.zipIdx_map_snd, List.range_eq_range', size]

/-! ### Runs of insertions -/

/-- **What insertions make of the empty numbering**, where `as` are the nonterminals that were
inserted, in order and with repetitions. -/
structure Dense (as : List Nonterminal) (x : Numbering) : Prop where
  /-- The ids in use are those below the size, each used once. -/
  used : (x.ids.map Prod.snd).Perm (List.range x.size)
  /-- An id and its nonterminal determine each other. -/
  inverse (a : Nonterminal) (i : Nat) : x.id? a = some i ↔ i < x.size ∧ x.get? i = some a
  /-- What was inserted has an id. -/
  known (a : Nonterminal) : (∃ i, x.id? a = some i) ↔ a ∈ as
  /-- The ids follow the order of first insertion. -/
  order : x.names = as.eraseDups
  /-- At its first insertion a nonterminal gets as id the number of different ones before it. -/
  first (before after : List Nonterminal) (a : Nonterminal) (has : as = before ++ a :: after)
    (hnew : a ∉ before) : x.id? a = some before.eraseDups.length
  /-- The id that any insertion gives is the one in the end. -/
  given (before after : List Nonterminal) (a : Nonterminal) (has : as = before ++ a :: after) :
    x.id? a = some ((empty.insertAll before).idFor a)
  /-- Later insertions change no id. -/
  stays (later : List Nonterminal) (a : Nonterminal) (i : Nat) (hi : x.id? a = some i) :
    (x.insertAll later).id? a = some i
  /-- All ids are listed with their nonterminals, in order. -/
  listed : x.toList.map Prod.fst = List.range x.size ∧
    ∀ i a, (i, a) ∈ x.toList ↔ x.id? a = some i

theorem id?_given (before after : List Nonterminal) (a : Nonterminal) :
    (empty.insertAll (before ++ a :: after)).id? a = some ((empty.insertAll before).idFor a) := by
  have hnow : ((empty.insertAll before).insert a).id? a =
      some ((empty.insertAll before).idFor a) := by
    rw [id?_insert, if_pos rfl]
  rw [insertAll_append]
  exact id?_insertAll_of_id? hnow after

theorem idFor_of_not_mem {before : List Nonterminal} (h : a ∉ before) :
    (empty.insertAll before).idFor a = before.eraseDups.length := by
  have hnames := names_insertAll_empty before
  have hnone : (empty.insertAll before).id? a = none := by
    rwa [id?_eq_none_iff, hnames, List.mem_eraseDups]
  rw [idFor, hnone, Option.getD_none, size, hnames]

theorem dense_insertAll (as : List Nonterminal) : Dense as (empty.insertAll as) where
  used := by
    rw [ids_insertAll rfl as, List.map_reverse, List.zipIdx_map_snd, ← List.range_eq_range']
    exact List.reverse_perm _
  inverse _ _ := id?_eq_some_iff_lt
  known a := by
    rw [← Option.ne_none_iff_exists', ne_eq, id?_eq_none_iff, not_not, names_insertAll_empty,
      List.mem_eraseDups]
  order := names_insertAll_empty as
  first before after a has hnew := by
    rw [has, id?_given, idFor_of_not_mem hnew]
  given before after a has := has ▸ id?_given before after a
  stays later _ _ hi := id?_insertAll_of_id? hi later
  listed := ⟨map_fst_toList _, fun _ _ => mem_toList_iff⟩

end Numbering

/-! ### Accesses -/

/-- **Numberings are dense, and accesses at their ids are in range.**  After any insertions the ids
are those below the size, in the order of first insertion, and they stay.  A numbering of
productions gives the start symbol the id 0, and an id to each nonterminal in them.  The stages of
the normal form come to the same productions if an access out of range is a failure; the first table
of a grammar and the queries to all tables that calls leave come to the same as well. -/
theorem insertAll_dense (as : List Nonterminal) (start : Nonterminal) (ps : List Production)
    (g : Grammar) (calls : List TableCall) :
    (Numbering.empty.insertAll as).Dense as ∧
      ((Numbering.ofProductions start ps).id? start = some 0 ∧
        ∀ p ∈ ps, ∀ a, a = p.lhs ∨ .nonterminal a ∈ p.rhs →
          ∃ i < (Numbering.ofProductions start ps).size,
            (Numbering.ofProductions start ps).id? a = some i) ∧
      (eliminateEmpty? ps start = some (eliminateEmpty ps start) ∧
        eliminateUnits? ps start = some (eliminateUnits ps start) ∧
        removeUseless? ps start = some (removeUseless ps start)) ∧
      ∀ t₀, DerivationTable.ofGrammar? g = some t₀ →
        DerivationTable.ofGrammarInRange? g = some t₀ ∧
          ∀ t, t₀.runCalls calls = some t → t.InRange := by
  refine ⟨Numbering.dense_insertAll as, ⟨id?_start, fun p hp a ha => ?_⟩, ?_, fun t₀ h => ?_⟩
  · have hknown : a ∈ (Numbering.ofProductions start ps).names := by
      obtain ⟨hlhs, hrhs⟩ := knows_ofProductions start ps p hp
      rcases ha with rfl | ha
      · exact hlhs
      · exact hrhs a (Production.mem_nonterminals.2 ha)
    obtain ⟨i, hi⟩ := exists_id?_of_mem_names hknown
    exact ⟨i, Numbering.lt_size_of_id? hi, hi⟩
  · exact ⟨eliminateEmpty?_eq ps start, eliminateUnits?_eq ps start, removeUseless?_eq ps start⟩
  · obtain ⟨-, rfl⟩ := DerivationTable.ofGrammar?_eq_some_iff.1 h
    refine ⟨DerivationTable.ofGrammarInRange?_eq g, fun t ht => ?_⟩
    have h₀ := DerivationTable.counts_ofGrammar g
    exact h₀.inRange (h₀.runCalls ht) (DerivationTable.maxLength_le_of_runCalls ht)

/-- Repeated insertions leave the ids as they are, and a count is read in range. -/
theorem insertAll_dense_bracketings :
    let x := Numbering.empty.insertAll [⟨"S"⟩, ⟨"A"⟩, ⟨"S"⟩, ⟨"B"⟩, ⟨"A"⟩]
    x.ids = [(⟨"B"⟩, 2), (⟨"A"⟩, 1), (⟨"S"⟩, 0)] ∧ x.id? ⟨"B"⟩ = some 2 ∧
      (x.insertAll [⟨"C"⟩, ⟨"B"⟩]).id? ⟨"B"⟩ = some 2 ∧
      DerivationTable.ofGrammar? Grammar.bracketings =
        some (DerivationTable.ofGrammar Grammar.bracketings) ∧
      ∃ t, (DerivationTable.ofGrammar Grammar.bracketings).runCalls [.count ⟨"S"⟩ 5] = some t ∧
        (t.countInRange? ⟨"S"⟩ 5).map (·.map Prod.fst) = some (some 14) ∧ t.InRange := by
  intro x
  obtain ⟨hdense, -, -, htables⟩ := insertAll_dense [⟨"S"⟩, ⟨"A"⟩, ⟨"S"⟩, ⟨"B"⟩, ⟨"A"⟩] ⟨"S"⟩ []
    Grammar.bracketings [.count ⟨"S"⟩ 5]
  have hid := hdense.first [⟨"S"⟩, ⟨"A"⟩, ⟨"S"⟩] [⟨"A"⟩] ⟨"B"⟩ rfl (by decide)
  refine ⟨by decide, hid, hdense.stays _ _ _ hid, rfl, ?_⟩
  obtain ⟨-, hinRange⟩ := htables _ rfl
  have hcounts : ((DerivationTable.ofGrammar Grammar.bracketings).runCalls [.count ⟨"S"⟩ 5]).map
      (fun t => (t.countInRange? ⟨"S"⟩ 5).map (·.map Prod.fst)) = some (some (some 14)) := by
    decide +kernel
  obtain ⟨t, ht, hcount⟩ := Option.map_eq_some_iff.1 hcounts
  exact ⟨t, ht, hcount, hinRange t ht⟩

end GrammarSampler
