import Mathlib.Data.List.Induction
import GrammarSampler.Proofs.CheckedLists
import GrammarSampler.Proofs.EmptyElimination
import GrammarSampler.Proofs.UnitElimination
import GrammarSampler.Proofs.UselessRemoval

/-!
# The stages of the normal form access what is there

The stages number the nonterminals and access sets, relations and tables at their ids.  An id out of
range would go unnoticed there: a set does not hold it, a relation stays as it is, and there is
nothing to take over.  The stages are therefore done again with accesses that fail out of range
(`eliminateEmpty?`, `eliminateUnits?`, `removeUseless?`).  Sets, relations and tables have the size
of the numbering, and every id is below it; so nothing fails, and the productions are the same.
-/

namespace GrammarSampler

/-- What `access` finds at the id of `a`, which is nothing where `a` has no id. -/
def Numbering.atId? (x : Numbering) (access : Nat → Option Bool) (a : Nonterminal) : Option Bool :=
  match x.id? a with
  | none => some false
  | some i => access i

/-- An access that does not fail below the size does not fail at an id. -/
theorem atId?_eq {x : Numbering} {access : Nat → Option Bool} {access' : Nat → Bool}
    (h : ∀ i < x.size, access i = some (access' i)) (a : Nonterminal) :
    x.atId? access a = some ((x.id? a).any access') := by
  unfold Numbering.atId?
  cases ha : x.id? a with
  | none => rfl
  | some i => exact h i (Numbering.lt_size_of_id? ha)

/-! ### Sets -/

namespace IdSet

/-- `has`, for an id below the size. -/
def hasInRange? (s : IdSet) (i : Nat) : Option Bool := if i < s.size then some (s.has i) else none

theorem hasInRange?_eq {s : IdSet} {i : Nat} (h : i < s.size) : s.hasInRange? i = some (s.has i) :=
  if_pos h

theorem set?_eq_add {s : IdSet} {i : Nat} (h : i < s.size) : s.set? i true = some (s.add i) := by
  simp [set?, add, h]

end IdSet

/-- `idSet`, with room for every id. -/
def Numbering.idSet? (x : Numbering) (as : List Nonterminal) : Option IdSet :=
  (as.filterMap x.id?).foldlM (fun s i => s.set? i true) (IdSet.empty x.size)

/-- `grants`, with room for the id. -/
def Numbering.grants? (x : Numbering) (rule : TerminalRule) (s : IdSet) : Symbol → Option Bool
  | .terminal _ => some (rule = .hold)
  | .nonterminal a => x.atId? s.hasInRange? a

section sets

variable {x : Numbering} {s : IdSet} {rule : TerminalRule}

theorem idSet?_eq (x : Numbering) (as : List Nonterminal) : x.idSet? as = some (x.idSet as) := by
  have hadd : ∀ s : IdSet, s.size = x.size → ∀ i ∈ as.filterMap x.id?,
      s.set? i true = some (s.add i) ∧ (s.add i).size = x.size := by
    intro s hs i hi
    obtain ⟨a, -, ha⟩ := List.mem_filterMap.1 hi
    have hlt : i < s.size := hs ▸ Numbering.lt_size_of_id? ha
    exact ⟨IdSet.set?_eq_add hlt, (IdSet.size_add s i).trans hs⟩
  exact (foldlM_eq_some (I := fun s => s.size = x.size) (IdSet.size_empty x.size) hadd).1

theorem atId?_hasInRange?_eq (hs : s.size = x.size) (a : Nonterminal) :
    x.atId? s.hasInRange? a = some ((x.id? a).any s.has) :=
  atId?_eq (fun _ hi => IdSet.hasInRange?_eq (hs ▸ hi)) a

theorem grants?_eq (hs : s.size = x.size) (y : Symbol) :
    x.grants? rule s y = some (x.grants rule s y) := by
  cases y with
  | terminal t => rfl
  | nonterminal a => exact atId?_hasInRange?_eq hs a

end sets

/-! ### Closures -/

namespace Worklist

/-- `visit`, with the left-hand side and the right-hand side in range. -/
def visit? (x : Numbering) (rule : TerminalRule) (w : Worklist) (o : Occurrence) :
    Option Worklist := do
  if ← w.set.hasInRange? o.lhs then return w
  else if ← o.rhs.allM (x.grants? rule w.set) then
    return ⟨← w.set.set? o.lhs true, o.lhs :: w.stack⟩
  else return w

/-- `step`, with all visits in range. -/
def step? (x : Numbering) (rule : TerminalRule) (os : List Occurrence) (w : Worklist) :
    Option Worklist :=
  match w.stack with
  | [] => some w
  | i :: stack => (occurrencesOf i os).foldlM (visit? x rule) ⟨w.set, stack⟩

/-- `run`, with all steps in range. -/
def run? (x : Numbering) (rule : TerminalRule) (os : List Occurrence) :
    Nat → Worklist → Option Worklist
  | 0, w => some w
  | n + 1, w => (w.step? x rule os).bind (run? x rule os n)

variable {x : Numbering} {ps : List Production} {rule : TerminalRule} {w : Worklist}

theorem visit?_eq (hs : w.set.size = x.size) {o : Occurrence} (ho : o.lhs < x.size) :
    w.visit? x rule o = some (w.visit x rule o) := by
  have hlt : o.lhs < w.set.size := hs ▸ ho
  have hall : o.rhs.allM (x.grants? rule w.set) = some (o.rhs.all (x.grants rule w.set)) :=
    allM_eq_some fun y _ => grants?_eq hs y
  rw [visit?, visit, IdSet.hasInRange?_eq hlt, hall, IdSet.set?_eq_add hlt]
  cases w.set.has o.lhs <;> cases o.rhs.all (x.grants rule w.set) <;> rfl

theorem step?_eq (ps : List Production) (rule : TerminalRule) (hs : w.set.size = x.size) :
    w.step? x rule (occurrences x ps) = some (w.step x rule (occurrences x ps)) := by
  cases hstack : w.stack with
  | nil => rw [step?, step, hstack]
  | cons i stack =>
    have hvisit : ∀ w : Worklist, w.set.size = x.size → ∀ o ∈ occurrencesOf i (occurrences x ps),
        w.visit? x rule o = some (w.visit x rule o) ∧ (w.visit x rule o).set.size = x.size := by
      intro w hs o ho
      have ho := lhs_lt_of_mem_occurrencesOf ho
      exact ⟨visit?_eq hs ho, (grows_visit (hs ▸ ho)).size.trans hs⟩
    rw [step?, step, hstack]
    have hpopped : (⟨w.set, stack⟩ : Worklist).set.size = x.size := hs
    exact (foldlM_eq_some (I := fun w : Worklist => w.set.size = x.size) hpopped hvisit).1

theorem run?_eq (ps : List Production) (rule : TerminalRule) (n : Nat) (hs : w.set.size = x.size) :
    w.run? x rule (occurrences x ps) n = some (w.run x rule (occurrences x ps) n) := by
  induction n generalizing w with
  | zero => rfl
  | succ n ih =>
    rw [run?, step?_eq ps rule hs]
    exact ih (size_step hs)

end Worklist

/-- `closure`, with all accesses in range. -/
def IdSet.closure? (s : IdSet) (x : Numbering) (ps : List Production) (rule : TerminalRule) :
    Option IdSet :=
  ((Worklist.ofSet s).run? x rule (occurrences x ps) s.size).map Worklist.set

/-- `nullableSet`, with all accesses in range. -/
def nullableSet? (x : Numbering) (ps : List Production) : Option IdSet := do
  let empty ← x.idSet? ((ps.filter Production.isEmpty).map Production.lhs)
  empty.closure? x ps .lack

/-- `productiveSet`, with all accesses in range. -/
def productiveSet? (x : Numbering) (ps : List Production) : Option IdSet := do
  let terminalOnly ← x.idSet? ((ps.filter fun p => p.nonterminals.isEmpty).map Production.lhs)
  terminalOnly.closure? x ps .hold

section closures

variable {x : Numbering} {ps : List Production} {rule : TerminalRule} {s : IdSet}

theorem closure?_eq (ps : List Production) (rule : TerminalRule) (hs : s.size = x.size) :
    s.closure? x ps rule = some (s.closure x ps rule) := by
  rw [IdSet.closure?, Worklist.run?_eq ps rule s.size (w := Worklist.ofSet s) hs]
  rfl

theorem size_closure (ps : List Production) (rule : TerminalRule) (hs : s.size = x.size) :
    (s.closure x ps rule).size = x.size :=
  Worklist.run_induct (I := fun w => w.set.size = x.size) (fun _ hw => Worklist.size_step hw) hs

theorem nullableSet?_eq (x : Numbering) (ps : List Production) :
    nullableSet? x ps = some (nullableSet x ps) ∧ (nullableSet x ps).size = x.size := by
  refine ⟨?_, size_closure ps .lack size_idSet⟩
  rw [nullableSet?, idSet?_eq]
  exact closure?_eq ps .lack size_idSet

theorem productiveSet?_eq (x : Numbering) (ps : List Production) :
    productiveSet? x ps = some (productiveSet x ps) ∧ (productiveSet x ps).size = x.size := by
  refine ⟨?_, size_closure ps .hold size_idSet⟩
  rw [productiveSet?, idSet?_eq]
  exact closure?_eq ps .hold size_idSet

end closures

/-! ### Relations -/

namespace IdRelation

/-- Relates two ids below the size.  The bits that fill a row up are out of range. -/
def relateInRange? (r : IdRelation) (i j : Nat) : Option IdRelation :=
  if i < r.size ∧ j < r.size then r.set? i j true else none

/-- `has`, for two ids below the size. -/
def hasInRange? (r : IdRelation) (i j : Nat) : Option Bool :=
  if i < r.size ∧ j < r.size then r.has? i j else none

/-- `row`, for an id below the size. -/
def rowInRange? (r : IdRelation) (i : Nat) : Option (List Nat) :=
  if i < r.size then r.row? i else none

variable {r : IdRelation} {i j : Nat}

theorem relateInRange?_eq (hi : i < r.size) (hj : j < r.size) :
    r.relateInRange? i j = some (r.insert i j) := by
  rw [relateInRange?, if_pos ⟨hi, hj⟩, set?, cell?_eq_some hi hj]
  rfl

theorem hasInRange?_eq (hi : i < r.size) (hj : j < r.size) :
    r.hasInRange? i j = some (r.has i j) := by
  rw [hasInRange?, if_pos ⟨hi, hj⟩, has?, cell?_eq_some hi hj]
  rfl

theorem rowInRange?_eq (hi : i < r.size) : r.rowInRange? i = some (r.row i) := by
  rw [rowInRange?, if_pos hi, row?, if_pos (.inl hi)]

end IdRelation

/-- `link`, with both ids in range. -/
def Numbering.link? (x : Numbering) (r : IdRelation) (ab : Nonterminal × Nonterminal) :
    Option IdRelation :=
  match x.id? ab.1, x.id? ab.2 with
  | some i, some j => r.relateInRange? i j
  | _, _ => some r

/-- `relation`, with all ids in range. -/
def Numbering.relation? (x : Numbering) (pairs : List (Nonterminal × Nonterminal)) :
    Option IdRelation :=
  pairs.foldlM x.link? (IdRelation.empty x.size)

/-- `reachability`, with all ids in range. -/
def reachability? (x : Numbering) (ps : List Production) : Option IdRelation := do
  let direct ← x.relation? (ps.flatMap Production.uses)
  return direct.transitive.reflexive

/-- `unitDerivation`, with all ids in range. -/
def unitDerivation? (x : Numbering) (ps : List Production) : Option IdRelation := do
  let units ← x.relation? ((ps.filter Production.isUnit).flatMap Production.uses)
  return units.transitive.reflexive

section relations

variable {x : Numbering}

theorem link?_eq {r : IdRelation} (hr : r.size = x.size) (ab : Nonterminal × Nonterminal) :
    x.link? r ab = some (x.link r ab) := by
  unfold Numbering.link? Numbering.link
  cases ha : x.id? ab.1 with
  | none => rfl
  | some i =>
    cases hb : x.id? ab.2 with
    | none => rfl
    | some j =>
      have hi : i < r.size := hr ▸ Numbering.lt_size_of_id? ha
      have hj : j < r.size := hr ▸ Numbering.lt_size_of_id? hb
      exact IdRelation.relateInRange?_eq hi hj

theorem relation?_eq (x : Numbering) (pairs : List (Nonterminal × Nonterminal)) :
    x.relation? pairs = some (x.relation pairs) := by
  have hlink : ∀ r : IdRelation, r.size = x.size → ∀ ab ∈ pairs,
      x.link? r ab = some (x.link r ab) ∧ (x.link r ab).size = x.size := fun r hr ab _ =>
    ⟨link?_eq hr ab, (size_link r ab).trans hr⟩
  exact (foldlM_eq_some (I := fun r => r.size = x.size) (IdRelation.size_empty x.size) hlink).1

theorem reachability?_eq (x : Numbering) (ps : List Production) :
    reachability? x ps = some (reachability x ps) ∧ (reachability x ps).size = x.size := by
  refine ⟨?_, size_relation_closure⟩
  rw [reachability?, relation?_eq]
  rfl

theorem unitDerivation?_eq (x : Numbering) (ps : List Production) :
    unitDerivation? x ps = some (unitDerivation x ps) ∧ (unitDerivation x ps).size = x.size := by
  refine ⟨?_, size_relation_closure⟩
  rw [unitDerivation?, relation?_eq]
  rfl

end relations

/-! ### Tables by id -/

/-- Adds `p` to what stands at the id of its left-hand side.  There must be an id, and a place for
it. -/
def Numbering.addAt? {γ : Type} (x : Numbering) (add : γ → Production → Option γ) (rows : Array γ)
    (p : Production) : Option (Array γ) := do
  let i ← x.id? p.lhs
  let row ← rows[i]?
  let row ← add row p
  return rows.setIfInBounds i row

/-- A place for each id, with the productions of its nonterminal added to `first` in turn. -/
def Numbering.collect? {γ : Type} (x : Numbering) (add : γ → Production → Option γ) (first : γ)
    (ps : List Production) : Option (Array γ) :=
  ps.foldlM (x.addAt? add) (Array.replicate x.size first)

/-- There is a place for each id, and it holds what belongs to the nonterminal. -/
structure Numbering.Tabulates {γ : Type} (x : Numbering) (own : Nonterminal → γ) (rows : Array γ) :
    Prop where
  size : rows.size = x.size
  row : ∀ a i, x.id? a = some i → rows[i]? = some (own a)

section tables

variable {γ : Type} {x : Numbering} {add : γ → Production → Option γ} {first : γ}

theorem tabulates_replicate (x : Numbering) (first : γ) :
    x.Tabulates (fun _ => first) (Array.replicate x.size first) where
  size := Array.size_replicate
  row a i hi := by rw [Array.getElem?_replicate, if_pos (Numbering.lt_size_of_id? hi)]

/-- **One production more** is added at a place that is there, and no other place changes. -/
theorem Numbering.Tabulates.addAt? {old new : Nonterminal → γ} {rows : Array γ}
    (h : x.Tabulates old rows) {p : Production} (hp : p.lhs ∈ x.names)
    (hadd : add (old p.lhs) p = some (new p.lhs)) (hkeep : ∀ a, p.lhs ≠ a → new a = old a) :
    ∃ rows', x.addAt? add rows p = some rows' ∧ x.Tabulates new rows' := by
  obtain ⟨k, hk⟩ := exists_id?_of_mem_names hp
  have hrow := h.row p.lhs k hk
  have hlt : k < rows.size := h.size ▸ Numbering.lt_size_of_id? hk
  refine ⟨rows.setIfInBounds k (new p.lhs), by simp [Numbering.addAt?, hk, hrow, hadd], ?_⟩
  refine ⟨Array.size_setIfInBounds.trans h.size, fun a i hi => ?_⟩
  rw [Array.getElem?_setIfInBounds]
  by_cases hki : k = i
  · subst hki
    rw [if_pos rfl, if_pos hlt, id?_inj hk hi]
  · have hne : p.lhs ≠ a := by
      rintro rfl
      exact hki (Option.some.inj (hk.symm.trans hi))
    rw [if_neg hki, h.row a i hi, hkeep a hne]

/-- **All productions** find their places. -/
theorem exists_collect? (own : List Production → Nonterminal → γ) {ps : List Production}
    (hfirst : ∀ a, own [] a = first) (hkeep : ∀ qs p a, p.lhs ≠ a → own (qs ++ [p]) a = own qs a)
    (hps : ∀ p ∈ ps, p.lhs ∈ x.names ∧
      ∀ qs, add (own qs p.lhs) p = some (own (qs ++ [p]) p.lhs)) :
    ∃ rows, x.collect? add first ps = some rows ∧ x.Tabulates (own ps) rows := by
  induction ps using List.reverseRecOn with
  | nil =>
    have hown : own [] = fun _ => first := funext hfirst
    exact ⟨_, rfl, hown ▸ tabulates_replicate x first⟩
  | append_singleton ps p ih =>
    obtain ⟨rows, hrows, htable⟩ := ih fun q hq => hps q (List.mem_append_left _ hq)
    obtain ⟨hp, hadd⟩ := hps p (List.mem_append_right _ (List.mem_singleton_self p))
    obtain ⟨rows', hrows', htable'⟩ := htable.addAt? hp (hadd ps) (hkeep ps p)
    rw [Numbering.collect?] at hrows ⊢
    exact ⟨rows', by simp [List.foldlM_append, hrows, hrows'], htable'⟩

end tables

/-- The right-hand sides of the productions by id. -/
def Numbering.alternatives? (x : Numbering) (ps : List Production) :
    Option (Array (List (List Symbol))) :=
  x.collect? (fun row p => some (row ++ [p.rhs])) [] ps

theorem alternativesFor_concat (a : Nonterminal) (ps : List Production) (p : Production) :
    alternativesFor a (ps ++ [p]) =
      if p.lhs = a then alternativesFor a ps ++ [p.rhs] else alternativesFor a ps := by
  by_cases h : p.lhs = a <;> simp [alternativesFor, h]

theorem exists_alternatives? {x : Numbering} {ps : List Production}
    (hps : ∀ p ∈ ps, p.lhs ∈ x.names) :
    ∃ rows, x.alternatives? ps = some rows ∧ x.Tabulates (alternativesFor · ps) rows := by
  have hkeep : ∀ qs (p : Production) a, p.lhs ≠ a →
      alternativesFor a (qs ++ [p]) = alternativesFor a qs := fun qs p a hne => by
    rw [alternativesFor_concat, if_neg hne]
  have hadd : ∀ p ∈ ps, p.lhs ∈ x.names ∧ ∀ qs, some (alternativesFor p.lhs qs ++ [p.rhs]) =
      some (alternativesFor p.lhs (qs ++ [p])) := fun p hp => by
    refine ⟨hps p hp, fun qs => ?_⟩
    rw [alternativesFor_concat, if_pos rfl]
  exact exists_collect? (fun qs a => alternativesFor a qs) (fun _ => rfl) hkeep hadd

/-! ### The stages -/

/-- `variants`, where it may fail to tell whether a symbol is optional. -/
def variants? (optional : Symbol → Option Bool) (rhs : List Symbol) : Option (List (List Symbol)) :=
  rhs.foldlM (fun partials y => (optional y).map fun b => forkAt (fun _ => b) partials y) [[]]

/-- `Production.variants`, likewise. -/
def Production.variants? (optional : Symbol → Option Bool) (start : Nonterminal) (p : Production) :
    Option (List Production) := do
  let alternatives ← GrammarSampler.variants? optional p.rhs
  return (alternatives.filter fun rhs => !rhs.isEmpty || p.lhs = start).map fun rhs => ⟨p.lhs, rhs⟩

/-- `eliminateEmpty`, with all accesses in range. -/
def eliminateEmpty? (ps : List Production) (start : Nonterminal) : Option (List Production) := do
  let x := Numbering.ofProductions start ps
  let nullable ← nullableSet? x ps
  let alternatives ← ps.mapM (Production.variants? (x.grants? .lack nullable) start)
  return alternatives.flatten.eraseDups

/-- What the nonterminal `a` with the id `i` takes over, with all accesses in range. -/
def takeOver? (units : IdRelation) (others : Array (List (List Symbol))) (start : Nonterminal)
    (ia : Nat × Nonterminal) : Option (List Production) := do
  let row ← units.rowInRange? ia.1
  let alternatives ← (ia.1 :: row.filter (· ≠ ia.1)).mapM fun j => others[j]?
  return alternatives.flatten.filterMap fun rhs =>
    if rhs.isEmpty && ia.2 ≠ start then none else some ⟨ia.2, rhs⟩

/-- `eliminateUnits`, with all accesses in range. -/
def eliminateUnits? (ps : List Production) (start : Nonterminal) : Option (List Production) := do
  let x := Numbering.ofProductions start ps
  let units ← unitDerivation? x ps
  let others ← x.alternatives? (ps.filter fun p => !p.isUnit)
  let alternatives ← x.toList.mapM (takeOver? units others start)
  return alternatives.flatten.eraseDups

/-- `removeUseless`, with all accesses in range, those at the id 0 of the start symbol included. -/
def removeUseless? (ps : List Production) (start : Nonterminal) : Option (List Production) := do
  let x := Numbering.ofProductions start ps
  let productive ← productiveSet? x ps
  let kept ← ps.filterM fun p => (p.lhs :: p.nonterminals).allM (x.atId? productive.hasInRange?)
  let reachable ← reachability? x kept
  kept.filterM fun p => x.atId? (reachable.hasInRange? 0) p.lhs

section stages

variable {ps : List Production} {start : Nonterminal}

theorem variants?_eq {optional : Symbol → Option Bool} {optional' : Symbol → Bool}
    (h : ∀ y, optional y = some (optional' y)) (rhs : List Symbol) :
    variants? optional rhs = some (variants optional' rhs) := by
  have hfork : ∀ partials, True → ∀ y ∈ rhs,
      (optional y).map (fun b => forkAt (fun _ => b) partials y) =
        some (forkAt optional' partials y) ∧ True := by
    intro partials _ y _
    rw [h y]
    exact ⟨rfl, trivial⟩
  exact (foldlM_eq_some trivial hfork).1

theorem variants?_production_eq {optional : Symbol → Option Bool} {optional' : Symbol → Bool}
    (h : ∀ y, optional y = some (optional' y)) (start : Nonterminal) (p : Production) :
    p.variants? optional start = some (p.variants optional' start) := by
  rw [Production.variants?, variants?_eq h]
  rfl

/-- **Elimination of empty productions** reads no id out of range. -/
theorem eliminateEmpty?_eq (ps : List Production) (start : Nonterminal) :
    eliminateEmpty? ps start = some (eliminateEmpty ps start) := by
  obtain ⟨hnullable, hsize⟩ := nullableSet?_eq (Numbering.ofProductions start ps) ps
  have hoptional : ∀ y, (Numbering.ofProductions start ps).grants? .lack
      (nullableSet (Numbering.ofProductions start ps) ps) y = some (isOptional ps start y) := by
    intro y
    rw [grants?_eq hsize]
    cases y <;> rfl
  have hvariants := mapM_eq_some fun p (_ : p ∈ ps) => variants?_production_eq hoptional start p
  simp only [eliminateEmpty?, hnullable, hvariants, Option.bind_eq_bind, Option.bind_some]
  rfl

/-- All ids that are taken over are in use. -/
theorem lt_size_of_mem_takenOver {r : IdRelation} {i j : Nat} (hi : i < r.size)
    (hj : j ∈ takenOver r i) : j < r.size := by
  rcases List.mem_cons.1 hj with rfl | hj
  · exact hi
  · exact List.mem_range.1 (List.mem_filter.1 (List.mem_filter.1 hj).1).1

/-- What stands at ids in use is what their nonterminals have. -/
theorem mapM_alternatives {x : Numbering} {rows : Array (List (List Symbol))}
    (h : x.Tabulates (alternativesFor · ps) rows) {js : List Nat} (hjs : ∀ j ∈ js, j < x.size) :
    (js.mapM fun j => rows[j]?).map List.flatten =
      some ((js.filterMap x.get?).flatMap (alternativesFor · ps)) := by
  induction js with
  | nil => rfl
  | cons j js ih =>
    obtain ⟨hj, hjs⟩ := List.forall_mem_cons.1 hjs
    have hget : x.get? j = some x.names[j] := List.getElem?_eq_getElem hj
    obtain ⟨rest, hrest, hflat⟩ := Option.map_eq_some_iff.1 (ih hjs)
    simp [List.mapM_cons, h.row _ j (Numbering.id?_eq_some_iff.2 hget), hrest, hget, hflat]

theorem takeOver?_eq {x : Numbering} {r : IdRelation} {rows : Array (List (List Symbol))}
    (hr : r.size = x.size) (h : x.Tabulates (alternativesFor · ps) rows) (start : Nonterminal)
    {ia : Nat × Nonterminal} (hia : ia ∈ x.toList) : takeOver? r rows start ia =
      some ((((takenOver r ia.1).filterMap x.get?).flatMap (alternativesFor · ps)).filterMap
        fun rhs => if rhs.isEmpty && ia.2 ≠ start then none else some ⟨ia.2, rhs⟩) := by
  have hi : ia.1 < r.size := hr ▸ Numbering.lt_size_of_id? (mem_toList_iff.1 hia)
  have htaken : ∀ j ∈ takenOver r ia.1, j < x.size := fun j hj =>
    hr ▸ lt_size_of_mem_takenOver hi hj
  obtain ⟨rest, hrest, hflat⟩ := Option.map_eq_some_iff.1 (mapM_alternatives h htaken)
  rw [takenOver] at hrest
  simp only [takeOver?, IdRelation.rowInRange?_eq hi, Option.bind_eq_bind, Option.bind_some, hrest,
    hflat]
  rfl

/-- **Elimination of unit productions** reads and writes nothing out of range. -/
theorem eliminateUnits?_eq (ps : List Production) (start : Nonterminal) :
    eliminateUnits? ps start = some (eliminateUnits ps start) := by
  obtain ⟨hunits, hsize⟩ := unitDerivation?_eq (Numbering.ofProductions start ps) ps
  have hlhs : ∀ p ∈ ps.filter fun p => !p.isUnit,
      p.lhs ∈ (Numbering.ofProductions start ps).names := fun p hp =>
    (knows_ofProductions start ps p (List.mem_filter.1 hp).1).1
  obtain ⟨rows, hrows, htable⟩ := exists_alternatives? hlhs
  have htake := mapM_eq_some fun ia hia => takeOver?_eq hsize htable start hia
  simp only [eliminateUnits?, hunits, hrows, htake, Option.bind_eq_bind, Option.bind_some]
  rfl

/-- The row of the start symbol is there as soon as any id is in use. -/
theorem hasInRange?_zero_eq {x : Numbering} {r : IdRelation} (hr : r.size = x.size) :
    ∀ i < x.size, r.hasInRange? 0 i = some (r.has 0 i) := fun i hi => by
  have hi : i < r.size := hr ▸ hi
  exact IdRelation.hasInRange?_eq (Nat.zero_lt_of_lt hi) hi

/-- **Removal of useless productions** reads no id out of range. -/
theorem removeUseless?_eq (ps : List Production) (start : Nonterminal) :
    removeUseless? ps start = some (removeUseless ps start) := by
  obtain ⟨hproductive, hsize⟩ := productiveSet?_eq (Numbering.ofProductions start ps) ps
  have hkept : ps.filterM (fun p => (p.lhs :: p.nonterminals).allM
      ((Numbering.ofProductions start ps).atId?
        (productiveSet (Numbering.ofProductions start ps) ps).hasInRange?)) =
      some (productiveRules ps start) :=
    filterM_eq_some fun p _ => allM_eq_some fun a _ => atId?_hasInRange?_eq hsize a
  obtain ⟨hreachable, hsize'⟩ :=
    reachability?_eq (Numbering.ofProductions start ps) (productiveRules ps start)
  have hreached := filterM_eq_some fun p (_ : p ∈ productiveRules ps start) =>
    atId?_eq (hasInRange?_zero_eq hsize') p.lhs
  simp only [removeUseless?, hproductive, hkept, hreachable, hreached, Option.bind_eq_bind,
    Option.bind_some]
  rfl

end stages

end GrammarSampler
