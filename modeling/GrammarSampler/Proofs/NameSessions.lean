import GrammarSampler.Proofs.FreshNames

/-!
# Sessions of a name supply

A supply hands out names, one or several at a time, and has names reserved in between.  The cursor
only moves forward, past names that are in use and stay so; hence every name before the cursor is in
use (`NameSupply.Dense`), and the next name is the first free one of the whole sequence
(`NameSupply.next_first_free`).

The search for it looks at one place after another, without a bound (`NameSupply.Search`).  It ends,
as only so many names are in use.
-/

namespace GrammarSampler

/-- A call on a name supply. -/
inductive SupplyCall where
  /-- The next name. -/
  | next
  /-- The next `n` names, all at once or one after another. -/
  | take (n : Nat)
  | reserve (name : String)

/-- The name that the call reserves. -/
def SupplyCall.reserved? : SupplyCall → Option String
  | reserve name => some name
  | _ => none

namespace NameSupply

/-! ### The search, place after place -/

/-- A search from the place `i` on ends after some rounds, at the place `j`: names in use are passed
one by one, and the first free name ends it. -/
inductive Search (used : List String) : Nat → Nat → Nat → Prop
  | free {i} (h : letterName i ∉ used) : Search used i 1 i
  | passed {i rounds j} (h : letterName i ∈ used) (hrest : Search used (i + 1) rounds j) :
      Search used i (rounds + 1) j

theorem search_of_forall {used : List String} (j : Nat) (hfree : letterName j ∉ used) :
    ∀ d i, i + d = j → (∀ m, i ≤ m → m < j → letterName m ∈ used) → Search used i (d + 1) j
  | 0, i, hi, _ => by
    obtain rfl : i = j := hi
    exact .free hfree
  | d + 1, i, hi, hpassed =>
    .passed (hpassed i (Nat.le_refl i) (by omega))
      (search_of_forall j hfree d (i + 1) (by omega) fun m hm => hpassed m (by omega))

/-- A search ends at one place only. -/
theorem Search.eq {used : List String} {i rounds rounds' j j' : Nat} (h : Search used i rounds j)
    (h' : Search used i rounds' j') : rounds = rounds' ∧ j = j' := by
  induction h generalizing rounds' with
  | free hfree =>
    cases h' with
    | free => exact ⟨rfl, rfl⟩
    | passed hused => exact absurd hused hfree
  | passed hused _ ih =>
    cases h' with
    | free hfree => exact absurd hused hfree
    | passed _ hrest =>
      obtain ⟨rfl, rfl⟩ := ih hrest
      exact ⟨rfl, rfl⟩

theorem le_freePlace (used : List String) (n i : Nat) : i ≤ freePlace used n i := by
  induction n generalizing i with
  | zero => exact Nat.le_refl i
  | succ n ih =>
    rw [freePlace]
    split
    · exact Nat.le_of_succ_le (ih (i + 1))
    · exact Nat.le_refl i

theorem freePlace_le (used : List String) (n i : Nat) : freePlace used n i ≤ i + n := by
  induction n generalizing i with
  | zero => exact Nat.le_refl i
  | succ n ih =>
    rw [freePlace]
    split
    · have := ih (i + 1)
      omega
    · exact Nat.le_add_right ..

/-- **The search ends** at the next place, after at most one round more than names are in use. -/
theorem search_nextPlace (s : NameSupply) : ∃ k ≤ s.usedCount + 1, ∀ rounds i,
    Search s.used s.cursor rounds i ↔ rounds = k ∧ i = s.nextPlace := by
  have hle := le_freePlace s.used s.used.length s.cursor
  have hlast := freePlace_le s.used s.used.length s.cursor
  have hsearch : Search s.used s.cursor (s.nextPlace - s.cursor + 1) s.nextPlace :=
    search_of_forall _ s.letterName_nextPlace_not_mem _ _ (Nat.add_sub_of_le hle)
      fun m hm hlt => mem_of_lt_freePlace hm hlt
  refine ⟨s.nextPlace - s.cursor + 1, ?_, fun rounds i => ⟨fun h => h.eq hsearch, ?_⟩⟩
  · unfold nextPlace usedCount
    omega
  · rintro ⟨rfl, rfl⟩
    exact hsearch

/-! ### Names before the cursor -/

theorem cursor_reserve (s : NameSupply) (name : String) : (s.reserve name).cursor = s.cursor := by
  rw [reserve]
  split <;> rfl

theorem cursor_ofUsed (names : List String) : (ofUsed names).cursor = 0 := by
  have hfold : ∀ s : NameSupply, (names.foldl reserve s).cursor = s.cursor := by
    induction names with
    | nil => exact fun s => rfl
    | cons name names ih => exact fun s => (ih (s.reserve name)).trans (s.cursor_reserve name)
  exact hfold empty

/-- Every name before the cursor is in use. -/
def Dense (s : NameSupply) : Prop := ∀ i < s.cursor, letterName i ∈ s.used

theorem dense_of_cursor_eq_zero {s : NameSupply} (h : s.cursor = 0) : s.Dense := by
  intro i hi
  omega

/-- All names before the next place are in use. -/
theorem Dense.mem_of_lt_nextPlace {s : NameSupply} (h : s.Dense) {i : Nat}
    (hi : i < s.nextPlace) : letterName i ∈ s.used := by
  by_cases hcursor : i < s.cursor
  · exact h i hcursor
  · exact mem_of_lt_freePlace (Nat.not_lt.1 hcursor) hi

theorem Dense.reserve {s : NameSupply} (h : s.Dense) (name : String) : (s.reserve name).Dense := by
  intro i hi
  exact mem_used_reserve.2 (.inr (h i (s.cursor_reserve name ▸ hi)))

theorem Dense.next {s : NameSupply} (h : s.Dense) : s.next.2.Dense := by
  intro i hi
  rw [mem_used_next]
  rcases Nat.lt_succ_iff_lt_or_eq.1 (show i < s.nextPlace + 1 from hi) with hi | rfl
  · exact .inr (h.mem_of_lt_nextPlace hi)
  · exact .inl rfl

theorem Dense.take {s : NameSupply} (h : s.Dense) (n : Nat) : (s.take n).2.Dense := by
  induction n generalizing s with
  | zero => exact h
  | succ n ih => exact ih h.next

/-- The cursor is not ahead of the number of names in use. -/
theorem Dense.cursor_le {s : NameSupply} (h : s.Dense) : s.cursor ≤ s.usedCount := by
  have hnodup : ((List.range s.cursor).map letterName).Nodup :=
    List.Nodup.map (fun _ _ => letterName_injective) List.nodup_range
  have hsub : (List.range s.cursor).map letterName ⊆ s.used := by
    intro name hname
    obtain ⟨i, hi, rfl⟩ := List.mem_map.1 hname
    exact h i (List.mem_range.1 hi)
  have hlen := (List.subperm_of_subset hnodup hsub).length_le
  rwa [List.length_map, List.length_range] at hlen

/-! ### The whole sequence -/

/-- A supply in which just the names before the cursor are in use hands out all further names. -/
theorem take_of_used {s : NameSupply} (h : ∀ b, b ∈ s.used ↔ ∃ i < s.cursor, b = letterName i)
    (n : Nat) : (s.take n).1 = (List.range' s.cursor n).map letterName := by
  induction n generalizing s with
  | zero => rfl
  | succ n ih =>
    have hplace : s.nextPlace = s.cursor := by
      by_contra hne
      have hlt : s.cursor < s.nextPlace :=
        Nat.lt_of_le_of_ne (le_freePlace ..) fun heq => hne heq.symm
      obtain ⟨i, hi, heq⟩ := (h _).1 (mem_of_lt_freePlace (Nat.le_refl _) hlt)
      exact absurd (letterName_injective heq) (by omega)
    have hname : s.next.1 = letterName s.cursor := congrArg letterName hplace
    have hcursor : s.next.2.cursor = s.cursor + 1 := congrArg (· + 1) hplace
    have hused : ∀ b, b ∈ s.next.2.used ↔ ∃ i < s.next.2.cursor, b = letterName i := by
      intro b
      rw [mem_used_next, h b, hname, hcursor, Nat.exists_lt_succ_right, or_comm]
    calc (s.take (n + 1)).1 = s.next.1 :: (s.next.2.take n).1 := rfl
      _ = (List.range' s.cursor (n + 1)).map letterName := by
        rw [ih hused, hname, hcursor, List.range'_succ, List.map_cons]

/-- If no name is in use at first, the whole sequence is handed out. -/
theorem take_empty (n : Nat) : (empty.take n).1 = (List.range n).map letterName := by
  rw [List.range_eq_range']
  exact take_of_used (fun b => by simp [empty]) n

example : (empty.take 3).1 = ["A", "B", "C"] ∧
    [25, 26, 27, 51, 52].map letterName = ["Z", "AA", "BB", "ZZ", "AAA"] := by
  decide +kernel

/-! ### Sessions -/

/-- The names that a call hands out, and the supply after it. -/
def run (s : NameSupply) : SupplyCall → List String × NameSupply
  | .next => ([s.next.1], s.next.2)
  | .take n => s.take n
  | .reserve name => ([], s.reserve name)

/-- The names that all calls hand out in order, and the supply after them. -/
def runCalls : List SupplyCall → NameSupply → List String × NameSupply
  | [], s => ([], s)
  | call :: calls, s =>
    let (names, s) := s.run call
    let (later, s) := runCalls calls s
    (names ++ later, s)

theorem draws_take (n : Nat) (s : NameSupply) : s.Draws (s.take n).1 (s.take n).2 := by
  induction n generalizing s with
  | zero => exact draws_nil_iff.2 rfl
  | succ n ih => exact draws_cons_iff.2 ⟨rfl, ih s.next.2⟩

/-- **One call** hands out different names that were not in use.  These and the name that it
reserves are in use from then on, and no other is; and the names before the cursor stay in use. -/
theorem run_spec (s : NameSupply) (call : SupplyCall) :
    (s.run call).1.Nodup ∧ (∀ name ∈ (s.run call).1, name ∉ s.used) ∧
      (∀ b, b ∈ (s.run call).2.used ↔
        b ∈ (s.run call).1 ∨ call.reserved? = some b ∨ b ∈ s.used) ∧
      (s.Dense → (s.run call).2.Dense) := by
  cases call with
  | next =>
    have hdraws := s.draws_next
    refine ⟨hdraws.nodup, hdraws.not_mem_used, fun b => ?_, Dense.next⟩
    simpa [run, SupplyCall.reserved?] using hdraws.mem_used
  | take n =>
    have hdraws := draws_take n s
    refine ⟨hdraws.nodup, hdraws.not_mem_used, fun b => ?_, fun h => h.take n⟩
    simpa [run, SupplyCall.reserved?] using hdraws.mem_used
  | reserve name =>
    refine ⟨List.nodup_nil, by simp [run], fun b => ?_, fun h => h.reserve name⟩
    simp [run, SupplyCall.reserved?, mem_used_reserve, eq_comm]

/-- **A whole session** hands out different names that were not in use before it.  These and the
names that it reserves are in use after it, and no others but those in use before. -/
theorem runCalls_spec (calls : List SupplyCall) (s : NameSupply) :
    (s.runCalls calls).1.Nodup ∧ (∀ name ∈ (s.runCalls calls).1, name ∉ s.used) ∧
      (∀ b, b ∈ (s.runCalls calls).2.used ↔ b ∈ (s.runCalls calls).1 ∨
        b ∈ calls.filterMap SupplyCall.reserved? ∨ b ∈ s.used) ∧
      (s.Dense → (s.runCalls calls).2.Dense) := by
  induction calls generalizing s with
  | nil => exact ⟨List.nodup_nil, by simp [runCalls], by simp [runCalls], id⟩
  | cons call calls ih =>
    obtain ⟨hnodup, hfresh, hused, hdense⟩ := s.run_spec call
    obtain ⟨hnodup', hfresh', hused', hdense'⟩ := ih (s.run call).2
    have hlater : ∀ name ∈ ((s.run call).2.runCalls calls).1,
        name ∉ (s.run call).1 ∧ name ∉ s.used := fun name hname =>
      ⟨fun h => hfresh' name hname ((hused name).2 (.inl h)),
        fun h => hfresh' name hname ((hused name).2 (.inr (.inr h)))⟩
    refine ⟨?_, ?_, fun b => ?_, fun h => hdense' (hdense h)⟩
    · exact List.nodup_append'.2 ⟨hnodup, hnodup', fun name hname hname' =>
        (hlater name hname').1 hname⟩
    · exact List.forall_mem_append.2 ⟨hfresh, fun name hname => (hlater name hname).2⟩
    · have happend : b ∈ (s.runCalls (call :: calls)).1 ↔
          b ∈ (s.run call).1 ∨ b ∈ ((s.run call).2.runCalls calls).1 := List.mem_append
      have hreserved : b ∈ (call :: calls).filterMap SupplyCall.reserved? ↔
          call.reserved? = some b ∨ b ∈ calls.filterMap SupplyCall.reserved? := by
        cases hcall : call.reserved? <;> simp [hcall, eq_comm]
      rw [happend, hreserved]
      refine (hused' b).trans ?_
      rw [hused b]
      simp only [or_assoc, or_left_comm]

theorem isUsed_iff {s : NameSupply} {name : String} : s.isUsed name = true ↔ name ∈ s.used :=
  decide_eq_true_iff

theorem usedCount_next (s : NameSupply) : s.next.2.usedCount = s.usedCount + 1 :=
  (s.usedCount_reserve s.next.1).trans (if_neg s.next_name_not_mem)

/-- **Fresh names are fresh and minimal.**  After any calls on a supply that starts with the names
`U` in use, the search for the next name ends.  It finds the first name of the whole sequence that
is free, so one that is not in `U`, was not reserved and was not handed out before; and nothing
else changes than that this name is in use.  The cursor stays within the number of names in use. -/
theorem next_first_free {U : List String} {calls : List SupplyCall} {names : List String}
    {s : NameSupply} (h : (ofUsed U).runCalls calls = (names, s)) :
    (∀ b, s.isUsed b = true ↔
        b ∈ U ∨ b ∈ calls.filterMap SupplyCall.reserved? ∨ b ∈ names) ∧
      names.Nodup ∧ (∀ name ∈ names, name ∉ U) ∧
      (∃ k ≤ s.usedCount + 1, ∀ rounds i,
        Search s.used s.cursor rounds i ↔ rounds = k ∧ i = s.nextPlace) ∧
      s.next.1 = letterName s.nextPlace ∧
      s.isUsed s.next.1 = false ∧ (∀ i < s.nextPlace, s.isUsed (letterName i) = true) ∧
      s.next.1 ∉ U ∧ s.next.1 ∉ calls.filterMap SupplyCall.reserved? ∧ s.next.1 ∉ names ∧
      s.next.2.usedCount = s.usedCount + 1 ∧
      (∀ b, s.next.2.isUsed b = true ↔ b = s.next.1 ∨ s.isUsed b = true) ∧
      s.next.2.cursor ≤ s.next.2.usedCount := by
  obtain ⟨hnodup, hfresh, hused, hdense⟩ := (ofUsed U).runCalls_spec calls
  rw [h] at hnodup hfresh hused hdense
  have hs : s.Dense := hdense (dense_of_cursor_eq_zero (cursor_ofUsed U))
  have hiff : ∀ b, s.isUsed b = true ↔
      b ∈ U ∨ b ∈ calls.filterMap SupplyCall.reserved? ∨ b ∈ names := by
    intro b
    rw [isUsed_iff, hused b, mem_used_ofUsed]
    tauto
  have hfree : ¬ s.isUsed s.next.1 = true := fun hmem => s.next_name_not_mem (isUsed_iff.1 hmem)
  refine ⟨hiff, hnodup, fun name hname hU => hfresh name hname (mem_used_ofUsed.2 hU),
    s.search_nextPlace, rfl, eq_false_of_ne_true hfree,
    fun i hi => isUsed_iff.2 (hs.mem_of_lt_nextPlace hi), ?_, ?_, ?_, s.usedCount_next,
    fun b => ?_, hs.next.cursor_le⟩
  · exact fun hU => hfree ((hiff _).2 (.inl hU))
  · exact fun hreserved => hfree ((hiff _).2 (.inr (.inl hreserved)))
  · exact fun hname => hfree ((hiff _).2 (.inr (.inr hname)))
  · rw [isUsed_iff, isUsed_iff, mem_used_next]

theorem next_first_free_skips :
    ∃ s, (ofUsed ["A", "C", "BB"]).runCalls [.next, .reserve "D", .take 2] = (["B", "E", "F"], s) ∧
      s.next.1 = "G" ∧ s.usedCount = 7 ∧ s.next.2.usedCount = 8 ∧
      ∀ i < s.nextPlace, s.isUsed (letterName i) = true := by
  have hrun : (ofUsed ["A", "C", "BB"]).runCalls [.next, .reserve "D", .take 2] =
      (["B", "E", "F"], ((ofUsed ["A", "C", "BB"]).runCalls [.next, .reserve "D", .take 2]).2) :=
    Prod.ext (by decide +kernel) rfl
  obtain ⟨-, -, -, -, -, -, hall, -, -, -, hcount, -, -⟩ := next_first_free hrun
  have hseven : ((ofUsed ["A", "C", "BB"]).runCalls
      [.next, .reserve "D", .take 2]).2.usedCount = 7 := by decide +kernel
  exact ⟨_, hrun, by decide +kernel, hseven, hcount.trans (by rw [hseven]), hall⟩

end NameSupply

end GrammarSampler
