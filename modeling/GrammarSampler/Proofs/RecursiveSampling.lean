import GrammarSampler.Proofs.WeightedDraws
import GrammarSampler.Sampling.Generator

/-!
# The loop over the pending parts is a recursion

`recursiveString` derives a string as one would write it down: a single terminal is chosen; a longer
string is split by a production and a length, and its left part is derived before its right part.
The generator has a loop in place of the recursion, and a stack of pending parts in place of the
calls that are still to come.  Each iteration either emits a terminal or splits a part (`Step`).

A part on top of the stack is derived in the iterations of `Runs`, without a look at the parts below
it: they add its string to what is done, take the same words from the source as the recursion, and
are `n` that emit and `n - 1` that split (`runs_of_recursiveString`).
-/

namespace GrammarSampler

theorem lt_length_of_chooseWeighted {ws : List Nat} {expected k : Nat} {s s' : Source}
    (h : chooseWeighted ws expected s = (.ok k, s')) : k < ws.length := by
  unfold chooseWeighted at h
  split at h
  · cases h
  · dsimp only at h
    split at h
    · next hk =>
      cases h
      exact (coveringIndex_eq_some_iff.1 hk).1
    · cases h

namespace DerivationTable

variable {t : DerivationTable} {i n k : Nat} {s s' : Source} {w : List Terminal}

/-! ### The recursion -/

theorem length_splitCounts (t : DerivationTable) (b c n : Nat) :
    (t.splitCounts b c n).length = n - 1 := by
  rw [splitCounts, List.length_map, List.length_range]

/-- Both parts of a split are shorter than the whole. -/
theorem bounds_of_chooseSplit {b c : Nat} (h : t.chooseSplit b c n s = (.ok k, s')) :
    0 < k ∧ k < n := by
  unfold chooseSplit at h
  split at h
  · next hk =>
    cases h
    have hlt := lt_length_of_chooseWeighted hk
    rw [length_splitCounts] at hlt
    omega
  · cases h

/-- Derives a string of `n` terminals from the id `i`, by recursion on the length. -/
def recursiveString (t : DerivationTable) (i n : Nat) (s : Source) :
    Except GenerateError (List Terminal) × Source :=
  if n = 1 then
    match t.chooseTerminal i s with
    | (.error e, s) => (.error e, s)
    | (.ok a, s) => (.ok [a], s)
  else
    match t.choosePair i n s with
    | (.error e, s) => (.error e, s)
    | (.ok (b, c), s) =>
      match hsplit : t.chooseSplit b c n s with
      | (.error e, s) => (.error e, s)
      | (.ok k, s) =>
        have := bounds_of_chooseSplit hsplit
        match t.recursiveString b k s with
        | (.error e, s) => (.error e, s)
        | (.ok left, s) =>
          match t.recursiveString c (n - k) s with
          | (.error e, s) => (.error e, s)
          | (.ok right, s) => (.ok (left ++ right), s)
termination_by n

theorem recursiveString_one_eq_ok_iff : t.recursiveString i 1 s = (.ok w, s') ↔
    ∃ a, w = [a] ∧ t.chooseTerminal i s = (.ok a, s') := by
  rw [recursiveString, if_pos rfl]
  constructor
  · intro h
    split at h
    · cases h
    · next a s₁ hchoose =>
      cases h
      exact ⟨a, rfl, hchoose⟩
  · rintro ⟨a, rfl, hchoose⟩
    rw [hchoose]

/-- The choices behind a string of several terminals. -/
theorem recursiveString_eq_ok_iff (hn : n ≠ 1) : t.recursiveString i n s = (.ok w, s') ↔
    ∃ b c k left right s₁ s₂ s₃, w = left ++ right ∧ t.choosePair i n s = (.ok (b, c), s₁) ∧
      t.chooseSplit b c n s₁ = (.ok k, s₂) ∧ t.recursiveString b k s₂ = (.ok left, s₃) ∧
        t.recursiveString c (n - k) s₃ = (.ok right, s') := by
  rw [recursiveString, if_neg hn]
  constructor
  · intro h
    split at h
    · cases h
    next b c s₁ hpair =>
    split at h
    · cases h
    next k s₂ hsplit =>
    simp only at h
    split at h
    · cases h
    next left s₃ hleft =>
    split at h
    · cases h
    next right s₄ hright =>
    cases h
    exact ⟨b, c, k, left, right, s₁, s₂, s₃, rfl, hpair, hsplit, hleft, hright⟩
  · rintro ⟨b, c, k, left, right, s₁, s₂, s₃, rfl, hpair, hsplit, hleft, hright⟩
    rw [hpair]
    simp only
    split
    · next heq => cases hsplit.symm.trans heq
    · next heq =>
      cases hsplit.symm.trans heq
      simp only [hleft, hright]

/-! ### The loop -/

/-- The state of the loop: the parts that are pending, the terminals that are done, the last one
first, and the source. -/
structure Loop where
  pending : List Pending
  done : List Terminal
  source : Source

/-- What an iteration does. -/
inductive Iteration where
  | emit
  | split
  deriving DecidableEq

/-- **One iteration**: a part of one terminal is emitted after a choice of the terminal, a longer
one is split after two weighted choices, of a production and of a length. -/
inductive Step (t : DerivationTable) : Iteration → Loop → Loop → Prop
  | emit {i : Nat} {a : Terminal} {s s' : Source} {pending : List Pending} {done : List Terminal} :
    t.chooseTerminal i s = (.ok a, s') →
      Step t .emit ⟨⟨i, 1⟩ :: pending, done, s⟩ ⟨pending, a :: done, s'⟩
  | split {i n b c k : Nat} {s s₁ s₂ : Source} {pending : List Pending} {done : List Terminal} :
    n ≠ 1 → t.choosePair i n s = (.ok (b, c), s₁) → t.chooseSplit b c n s₁ = (.ok k, s₂) →
      Step t .split ⟨⟨i, n⟩ :: pending, done, s⟩ ⟨⟨b, k⟩ :: ⟨c, n - k⟩ :: pending, done, s₂⟩

/-- Iterations one after the other. -/
inductive Runs (t : DerivationTable) : List Iteration → Loop → Loop → Prop
  | refl {l : Loop} : Runs t [] l l
  | cons {kind : Iteration} {kinds : List Iteration} {l l' l'' : Loop} :
    Step t kind l l' → Runs t kinds l' l'' → Runs t (kind :: kinds) l l''

variable {kind : Iteration} {kinds kinds' : List Iteration} {l l' l'' : Loop}

theorem Runs.append (h : Runs t kinds l l') (h' : Runs t kinds' l' l'') :
    Runs t (kinds ++ kinds') l l'' := by
  induction h with
  | refl => exact h'
  | cons hstep _ ih => exact .cons hstep (ih h')

/-- An iteration takes one unit of fuel. -/
theorem Step.derive (h : Step t kind l l') (fuel : Nat) :
    t.derive (fuel + 1) l.pending l.done l.source =
      t.derive fuel l'.pending l'.done l'.source := by
  cases h with
  | emit hchoose => simp only [DerivationTable.derive, if_true, hchoose]
  | split hn hpair hsplit =>
    simp only [DerivationTable.derive, if_neg hn, DerivationTable.split, hpair, hsplit]

theorem Runs.derive (h : Runs t kinds l l') (fuel : Nat) :
    t.derive (fuel + kinds.length) l.pending l.done l.source =
      t.derive fuel l'.pending l'.done l'.source := by
  induction h with
  | refl => rfl
  | cons hstep _ ih => exact (hstep.derive _).trans ih

/-- The loop is not over while there are iterations to come. -/
theorem Runs.derive_of_lt (h : Runs t kinds l l') {fuel : Nat} (hfuel : fuel < kinds.length) :
    (t.derive fuel l.pending l.done l.source).1 = .error .weightMismatch := by
  induction h generalizing fuel with
  | refl => cases hfuel
  | cons hstep _ ih =>
    cases fuel with
    | zero => cases hstep <;> rfl
    | succ fuel =>
      rw [hstep.derive]
      exact ih (Nat.lt_of_succ_lt_succ hfuel)

/-- **The loop ends** after exactly the iterations that empty the stack. -/
theorem Runs.derive_eq_iff (h : Runs t kinds l ⟨[], w.reverse, s'⟩) (fuel : Nat) :
    t.derive fuel l.pending l.done l.source = (.ok w, s') ↔ kinds.length ≤ fuel := by
  rcases Nat.lt_or_ge fuel kinds.length with hlt | hle
  · refine iff_of_false (fun heq => ?_) (Nat.not_le.2 hlt)
    have herror := h.derive_of_lt hlt
    rw [heq] at herror
    cases herror
  · refine iff_of_true ?_ hle
    rw [← Nat.sub_add_cancel hle, h.derive, DerivationTable.derive, List.reverse_reverse]

/-! ### The loop does what the recursion does -/

/-- **A part on the stack** is derived by the iterations of the recursion: the right part waits
below the left one. -/
theorem runs_of_recursiveString (h : t.recursiveString i n s = (.ok w, s'))
    (pending : List Pending) (done : List Terminal) : w.length = n ∧ 0 < n ∧
      ∃ kinds, Runs t kinds ⟨⟨i, n⟩ :: pending, done, s⟩ ⟨pending, w.reverse ++ done, s'⟩ ∧
        kinds.count .emit = n ∧ kinds.count .split = n - 1 := by
  induction n using Nat.strongRecOn generalizing i s s' w pending done with
  | ind n ih =>
    by_cases hn : n = 1
    · subst hn
      obtain ⟨a, rfl, hchoose⟩ := recursiveString_one_eq_ok_iff.1 h
      exact ⟨rfl, Nat.one_pos, [.emit], .cons (.emit hchoose) .refl, rfl, rfl⟩
    · obtain ⟨b, c, k, left, right, s₁, s₂, s₃, rfl, hpair, hsplit, hleft, hright⟩ :=
        (recursiveString_eq_ok_iff hn).1 h
      obtain ⟨hpos, hlt⟩ := bounds_of_chooseSplit hsplit
      obtain ⟨hll, -, kl, hkl, hel, hsl⟩ := ih k hlt hleft (⟨c, n - k⟩ :: pending) done
      obtain ⟨hlr, -, kr, hkr, her, hsr⟩ :=
        ih (n - k) (by omega) hright pending (left.reverse ++ done)
      refine ⟨?_, by omega, .split :: (kl ++ kr), ?_, ?_, ?_⟩
      · rw [List.length_append]
        omega
      · rw [List.reverse_append, List.append_assoc]
        exact .cons (.split hn hpair hsplit) (hkl.append hkr)
      · rw [List.count_cons_of_ne (by decide), List.count_append]
        omega
      · rw [List.count_cons_self, List.count_append]
        omega

theorem length_eq_count (kinds : List Iteration) :
    kinds.length = kinds.count .emit + kinds.count .split := by
  induction kinds with
  | nil => rfl
  | cons kind kinds ih =>
    cases kind with
    | emit =>
      rw [List.length_cons, ih, List.count_cons_self, List.count_cons_of_ne (by decide)]
      omega
    | split =>
      rw [List.length_cons, ih, List.count_cons_self, List.count_cons_of_ne (by decide)]
      omega

/-- The string of the recursion is the one that is derived. -/
theorem deriveString_of_recursiveString (h : t.recursiveString i n s = (.ok w, s')) :
    t.deriveString i n s = (.ok w, s') := by
  obtain ⟨hlength, hpos, kinds, hruns, hemit, hsplit⟩ := runs_of_recursiveString h [] []
  have hle : kinds.length ≤ 2 * n - 1 := by
    rw [length_eq_count]
    omega
  rw [List.append_nil] at hruns
  rw [deriveString, (hruns.derive_eq_iff _).2 hle]
  simp only [hlength, if_true]

end DerivationTable

end GrammarSampler
