import Mathlib.Data.List.Nodup
import GrammarSampler.Proofs.Abbreviation
import GrammarSampler.Proofs.IntroducedNames

/-!
# Isolation and binarization keep the derivation trees

Both rewrite productions with names from a supply that has the names of the productions in use
(`Rewrites`).  Isolation abbreviates terminals, all at once (`isolation_rewrites`).  Binarization
abbreviates one end of a right-hand side after another, each time with the rest of the productions
before and after it (`binarize_rewrites`).

What they are for is the form of right-hand sides: less than two symbols, or two nonterminals
(`isShort_of_mem_binaryForm`).  All together it is `binaryForm_trees`: short right-hand sides, new
nonterminals that differ from the old ones, and for these the same trees.
-/

namespace GrammarSampler

/-! ### Rewriting with fresh names -/

/-- With names from `s`, of which `s'` is left, `ps` was rewritten to `qs` and has the same trees
for all nonterminals whose names were in use. -/
structure Rewrites (s : NameSupply) (ps : List Production) (s' : NameSupply)
    (qs : List Production) : Prop where
  sameTrees : SameTrees (fun a => a.name ∈ s.used) ps qs
  nodup : qs.Nodup
  uses : s'.Uses qs
  used_mono : ∀ n ∈ s.used, n ∈ s'.used

theorem Rewrites.refl {s : NameSupply} {ps : List Production} (hnodup : ps.Nodup)
    (huses : s.Uses ps) : Rewrites s ps s ps :=
  ⟨.refl _ _, hnodup, huses, fun _ hn => hn⟩

theorem Rewrites.trans {s s' s'' : NameSupply} {ps qs rs : List Production}
    (h : Rewrites s ps s' qs) (h' : Rewrites s' qs s'' rs) : Rewrites s ps s'' rs :=
  ⟨h.sameTrees.trans h'.sameTrees fun _ ha => h.used_mono _ ha, h'.nodup, h'.uses,
    fun n hn => h'.used_mono n (h.used_mono n hn)⟩

/-! ### Isolation -/

namespace Isolation

/-- What the introduced nonterminals stand for. -/
def meaning (s : Isolation) : Abbreviations := fun a =>
  (s.assigned.find? fun ta => ta.2 = a).map fun ta => [.terminal ta.1]

/-- The introduced nonterminals differ from each other, and their names, now in use, were not among
the names `old`. -/
structure Fresh (old : List String) (s : Isolation) : Prop where
  nodup : (s.assigned.map Prod.snd).Nodup
  used : ∀ n ∈ old, n ∈ s.supply.used
  introduced : ∀ ta ∈ s.assigned, ta.2.name ∉ old ∧ ta.2.name ∈ s.supply.used

variable {old : List String} {s : Isolation}

theorem meaning_eq_some_iff (h : (s.assigned.map Prod.snd).Nodup) {a : Nonterminal}
    {r : List Symbol} : s.meaning a = some r ↔ ∃ t, (t, a) ∈ s.assigned ∧ r = [.terminal t] := by
  rw [meaning, Option.map_eq_some_iff]
  constructor
  · rintro ⟨⟨t, b⟩, hfind, rfl⟩
    obtain rfl : b = a := by simpa using List.find?_some hfind
    exact ⟨t, List.mem_of_find?_eq_some hfind, rfl⟩
  · rintro ⟨t, hmem, rfl⟩
    cases hfind : s.assigned.find? fun ta => ta.2 = a with
    | none =>
      have hne : ¬a = a := by simpa using List.find?_eq_none.1 hfind _ hmem
      exact absurd rfl hne
    | some ta =>
      have ha : ta.2 = a := by simpa using List.find?_some hfind
      have heq := List.inj_on_of_nodup_map h (List.mem_of_find?_eq_some hfind) hmem ha
      exact ⟨ta, rfl, by rw [heq]⟩

theorem Fresh.meaning_eq_none (h : Fresh old s) {a : Nonterminal} (ha : a.name ∈ old) :
    s.meaning a = none := by
  refine Option.eq_none_iff_forall_ne_some.2 fun r hr => ?_
  obtain ⟨t, hmem, -⟩ := (meaning_eq_some_iff h.nodup).1 hr
  exact (h.introduced _ hmem).1 ha

theorem fresh_init (supply : NameSupply) : Fresh supply.used ⟨supply, []⟩ :=
  ⟨List.nodup_nil, fun _ hn => hn, fun _ h => absurd h List.not_mem_nil⟩

/-- A terminal gets a nonterminal with the next name. -/
theorem Fresh.assign (h : Fresh old s) (t : Terminal) :
    Fresh old ⟨s.supply.next.2, s.assigned ++ [(t, ⟨s.supply.next.1⟩)]⟩ := by
  have hfresh := s.supply.next_name_not_mem
  have hmono : ∀ n ∈ s.supply.used, n ∈ s.supply.next.2.used := fun n hn =>
    NameSupply.mem_used_next.2 (.inr hn)
  refine ⟨?_, fun n hn => hmono n (h.used n hn), ?_⟩
  · simp only [List.map_append, List.map_cons, List.map_nil]
    refine List.nodup_append.2 ⟨h.nodup, by simp, ?_⟩
    rintro b hb c hc rfl
    obtain ⟨ta, hta, rfl⟩ := List.mem_map.1 hb
    have hname := (h.introduced ta hta).2
    rw [List.mem_singleton.1 hc] at hname
    exact hfresh hname
  · intro ta hta
    rcases List.mem_append.1 hta with hta | hta
    · exact ⟨(h.introduced ta hta).1, hmono _ (h.introduced ta hta).2⟩
    · rw [List.mem_singleton.1 hta]
      exact ⟨fun hold => hfresh (h.used _ hold), NameSupply.mem_used_next.2 (.inl rfl)⟩

/-- What one step of isolation keeps: introduced nonterminals stay. -/
structure Advances (old : List String) (s s' : Isolation) : Prop where
  fresh : Fresh old s'
  assigned_subset : s.assigned ⊆ s'.assigned
  used_mono : ∀ n ∈ s.supply.used, n ∈ s'.supply.used

theorem Advances.refl (h : Fresh old s) : Advances old s s := ⟨h, fun _ hx => hx, fun _ hn => hn⟩

theorem Advances.trans {s' s'' : Isolation} (h : Advances old s s') (h' : Advances old s' s'') :
    Advances old s s'' :=
  ⟨h'.fresh, fun _ hx => h'.assigned_subset (h.assigned_subset hx),
    fun n hn => h'.used_mono n (h.used_mono n hn)⟩

theorem standIn_spec (h : Fresh old s) (t : Terminal) :
    Advances old s (s.standIn t).2 ∧ (t, (s.standIn t).1) ∈ (s.standIn t).2.assigned := by
  unfold standIn
  split
  · next a ha =>
    obtain ⟨l₁, l₂, hl, -⟩ := List.lookup_eq_some_iff.1 ha
    exact ⟨.refl h, by rw [hl]; simp⟩
  · exact ⟨⟨h.assign t, by simp, fun n hn => NameSupply.mem_used_next.2 (.inr hn)⟩, by simp⟩

theorem replace_advances (h : Fresh old s) (r : List Symbol) : Advances old s (s.replace r).2 :=
  replace_keeps (P := Advances old s)
    (fun _ t _ hadv => hadv.trans (standIn_spec hadv.fresh t).1) (.refl h)

theorem rewrite_advances (h : Fresh old s) (ps : List Production) :
    Advances old s (s.rewrite ps).2 :=
  rewrite_keeps (P := Advances old s)
    (fun _ t _ hadv => hadv.trans (standIn_spec hadv.fresh t).1) (.refl h)

/-- No terminal is left. -/
theorem eq_nonterminal_of_mem_replace {r : List Symbol} {y : Symbol} (hy : y ∈ (s.replace r).1) :
    ∃ a, y = .nonterminal a := by
  induction r generalizing s with
  | nil => cases hy
  | cons z r ih =>
    cases z with
    | nonterminal a =>
      rcases List.mem_cons.1 hy with rfl | hy
      · exact ⟨a, rfl⟩
      · exact ih hy
    | terminal t =>
      rcases List.mem_cons.1 hy with rfl | hy
      · exact ⟨_, rfl⟩
      · exact ih hy

/-- What is introduced in the end expands a right-hand side back. -/
theorem expand_replace {s' : Isolation} {r : List Symbol} (h : Fresh old s)
    (hr : ∀ a, .nonterminal a ∈ r → a.name ∈ old) (hs' : Advances old (s.replace r).2 s') :
    s'.meaning.expand (s.replace r).1 = r := by
  induction r generalizing s with
  | nil => rfl
  | cons y r ih =>
    have hr' : ∀ a, .nonterminal a ∈ r → a.name ∈ old := fun a ha =>
      hr a (List.mem_cons_of_mem _ ha)
    cases y with
    | nonterminal a =>
      have ha := hs'.fresh.meaning_eq_none (hr a List.mem_cons_self)
      have hrest := ih h hr' hs'
      simp only [replace, Abbreviations.expand, ha, Option.getD_none, hrest, List.singleton_append]
    | terminal t =>
      obtain ⟨hstep, hmem⟩ := standIn_spec h t
      have hadv := (replace_advances hstep.fresh r).trans hs'
      have ht := (meaning_eq_some_iff hs'.fresh.nodup).2 ⟨t, hadv.assigned_subset hmem, rfl⟩
      have hrest := ih hstep.fresh hr' hs'
      simp only [replace, Abbreviations.expand, ht, Option.getD_some, hrest, List.singleton_append]

/-! ### All productions -/

variable {ps : List Production}

theorem map_expandRhs_rewrite {s' : Isolation} (h : Fresh old s)
    (hps : ∀ a ∈ nonterminalsOf ps, a.name ∈ old) (hs' : Advances old (s.rewrite ps).2 s') :
    (s.rewrite ps).1.map s'.meaning.expandRhs = ps := by
  induction ps generalizing s with
  | nil => rfl
  | cons p ps ih =>
    have hp : ∀ a, .nonterminal a ∈ p.rhs → a.name ∈ old := fun a ha =>
      hps a (mem_nonterminalsOf.2 ⟨p, List.mem_cons_self, .inr ha⟩)
    have hrest : ∀ a ∈ nonterminalsOf ps, a.name ∈ old := fun a ha => by
      obtain ⟨q, hq, ha⟩ := mem_nonterminalsOf.1 ha
      exact hps a (mem_nonterminalsOf.2 ⟨q, List.mem_cons_of_mem _ hq, ha⟩)
    unfold rewrite at hs' ⊢
    split
    · next hlen =>
      rw [if_pos hlen] at hs'
      have hplain : s'.meaning.Plain p.rhs := fun a ha => hs'.fresh.meaning_eq_none (hp a ha)
      simp only [List.map_cons, Abbreviations.expandRhs, expand_of_plain hplain]
      exact congrArg (p :: ·) (ih h hrest hs')
    · next hlen =>
      rw [if_neg hlen] at hs'
      have hstep := replace_advances h p.rhs
      have hadv := (rewrite_advances hstep.fresh ps).trans hs'
      simp only [List.map_cons, Abbreviations.expandRhs, expand_replace h hp hadv]
      exact congrArg (p :: ·) (ih hstep.fresh hrest hs')

/-- A production after isolation is a short one from before, or has its right-hand side replaced at
some moment. -/
theorem exists_of_mem_rewrite (h : Fresh old s) {q : Production} (hq : q ∈ (s.rewrite ps).1) :
    ∃ p ∈ ps, p.lhs = q.lhs ∧ (p.rhs.length < 2 ∧ p.rhs = q.rhs ∨ ∃ s₀, Fresh old s₀ ∧
      q.rhs = (s₀.replace p.rhs).1 ∧ Advances old (s₀.replace p.rhs).2 (s.rewrite ps).2) := by
  induction ps generalizing s with
  | nil => cases hq
  | cons p ps ih =>
    unfold rewrite at hq ⊢
    split at hq
    · next hlen =>
      rw [if_pos hlen]
      rcases List.mem_cons.1 hq with rfl | hq
      · exact ⟨_, List.mem_cons_self, rfl, .inl ⟨hlen, rfl⟩⟩
      · obtain ⟨p', hp', hlhs, hcase⟩ := ih h hq
        exact ⟨p', List.mem_cons_of_mem _ hp', hlhs, hcase⟩
    · next hlen =>
      rw [if_neg hlen]
      have hstep := replace_advances h p.rhs
      rcases List.mem_cons.1 hq with rfl | hq
      · exact ⟨p, List.mem_cons_self, rfl, .inr ⟨s, h, rfl, rewrite_advances hstep.fresh ps⟩⟩
      · obtain ⟨p', hp', hlhs, hcase⟩ := ih hstep.fresh hq
        exact ⟨p', List.mem_cons_of_mem _ hp', hlhs, hcase⟩

end Isolation

section isolation

variable {ps : List Production} {supply : NameSupply}

/-- Isolation abbreviates terminals. -/
theorem isolation_abbreviates (hnodup : ps.Nodup) (huses : supply.Uses ps) :
    Abbreviates (Isolation.rewrite ⟨supply, []⟩ ps).2.meaning (isolateTerminals ps supply).1
      ps := by
  have hinit := Isolation.fresh_init supply
  have hadv := Isolation.rewrite_advances hinit ps
  have hmeaning := @Isolation.meaning_eq_some_iff _ hadv.fresh.nodup
  refine .of_map _ (fun q => ?_) (fun q hq => ?_) (fun {a r} hr => ?_)
    (Isolation.map_expandRhs_rewrite hinit huses (.refl hadv.fresh)) hnodup
  · show q ∈ _ ++ Isolation.introduced _ ↔ _
    rw [List.mem_append, Isolation.mem_introduced, hmeaning]
  · obtain ⟨p, hp, hlhs, -⟩ := Isolation.exists_of_mem_rewrite hinit hq
    exact hadv.fresh.meaning_eq_none (huses _ (mem_nonterminalsOf.2 ⟨p, hp, .inl hlhs⟩))
  · obtain ⟨t, -, rfl⟩ := hmeaning.1 hr
    intro b hb
    simp at hb

/-- The form after isolation. -/
theorem isolation_form {q : Production} (hq : q ∈ (isolateTerminals ps supply).1) :
    q.rhs.length < 2 ∨ ∀ y ∈ q.rhs, ∃ a, y = .nonterminal a := by
  have hinit := Isolation.fresh_init supply
  rcases List.mem_append.1 hq with hq | hq
  · obtain ⟨p, -, -, ⟨hlen, hrhs⟩ | ⟨s₀, -, hrhs, -⟩⟩ := Isolation.exists_of_mem_rewrite hinit hq
    · exact .inl (hrhs ▸ hlen)
    · exact .inr fun y hy => Isolation.eq_nonterminal_of_mem_replace (hrhs ▸ hy)
  · obtain ⟨t, -, hrhs⟩ := Isolation.mem_introduced.1 hq
    exact .inl (by simp [hrhs])

theorem nodup_isolateTerminals (hnodup : ps.Nodup) (huses : supply.Uses ps) :
    (isolateTerminals ps supply).1.Nodup := by
  have hinit := Isolation.fresh_init supply
  have hadv := Isolation.rewrite_advances hinit ps
  have hmap := Isolation.map_expandRhs_rewrite hinit huses (.refl hadv.fresh)
  refine List.nodup_append.2 ⟨(hmap ▸ hnodup).of_map, ?_, ?_⟩
  · have hlhs : (Isolation.rewrite ⟨supply, []⟩ ps).2.introduced.map Production.lhs =
        (Isolation.rewrite ⟨supply, []⟩ ps).2.assigned.map Prod.snd := by
      simp [Isolation.introduced]
    exact List.Nodup.of_map Production.lhs (hlhs ▸ hadv.fresh.nodup)
  · rintro q hq q' hq' rfl
    obtain ⟨p, hp, hlhs, -⟩ := Isolation.exists_of_mem_rewrite hinit hq
    obtain ⟨t, ht, -⟩ := Isolation.mem_introduced.1 hq'
    exact (hadv.fresh.introduced _ ht).1 (huses _ (mem_nonterminalsOf.2 ⟨p, hp, .inl hlhs⟩))

theorem isolation_rewrites (hnodup : ps.Nodup) (huses : supply.Uses ps) :
    Rewrites supply ps (isolateTerminals ps supply).2 (isolateTerminals ps supply).1 := by
  have hinit := Isolation.fresh_init supply
  have hadv := Isolation.rewrite_advances hinit ps
  obtain ⟨names, hintroduces⟩ := isolateTerminals_introduces ps supply
  refine ⟨(isolation_abbreviates hnodup huses).sameTrees fun a ha => ?_,
    nodup_isolateTerminals hnodup huses, hintroduces.uses huses, hadv.used_mono⟩
  exact hadv.fresh.meaning_eq_none ha

end isolation

/-! ### Binarization -/

/-- The one nonterminal `n` stands for `r`. -/
def Abbreviations.single (n : Nonterminal) (r : List Symbol) : Abbreviations :=
  fun a => if a = n then some r else none

theorem single_plain {n : Nonterminal} {r s : List Symbol} (h : .nonterminal n ∉ s) :
    (Abbreviations.single n r).Plain s := by
  intro a ha
  refine if_neg ?_
  rintro rfl
  exact h ha

/-- The abbreviation at the end of a right-hand side is written out. -/
theorem single_expand_end {n : Nonterminal} {x : Symbol} (r : List Symbol)
    (hx : x ≠ .nonterminal n) :
    (Abbreviations.single n r).expand [x, .nonterminal n] = x :: r := by
  have hplain : (Abbreviations.single n r).Plain [x] :=
    single_plain fun h => hx (List.mem_singleton.1 h).symm
  rw [← List.singleton_append, expand_append, expand_of_plain hplain]
  simp [Abbreviations.expand, Abbreviations.single]

/-- Productions without the nonterminal are not changed. -/
theorem map_single_expandRhs {n : Nonterminal} (r : List Symbol) {l : List Production}
    (hl : ∀ p ∈ l, .nonterminal n ∉ p.rhs) :
    l.map (Abbreviations.single n r).expandRhs = l := by
  refine (List.map_congr_left fun p hp => ?_).trans (List.map_id l)
  rw [Abbreviations.expandRhs, expand_of_plain (single_plain (hl p hp))]
  rfl

section chain

variable {pre post : List Production} {a n : Nonterminal} {x : Symbol} {r : List Symbol}

theorem mem_of_mem_sides {p q : Production} (hp : p ∈ pre ++ post) : p ∈ pre ++ q :: post :=
  ((List.sublist_cons_self q post).append_left pre).subset hp

/-- A nonterminal that no production has differs from all left-hand sides and is on no right-hand
side. -/
theorem ne_lhs_of_not_mem {ps : List Production} (hn : n ∉ nonterminalsOf ps) {p : Production}
    (hp : p ∈ ps) : p.lhs ≠ n ∧ .nonterminal n ∉ p.rhs :=
  ⟨fun h => hn (mem_nonterminalsOf.2 ⟨p, hp, .inl h⟩),
    fun h => hn (mem_nonterminalsOf.2 ⟨p, hp, .inr h⟩)⟩

/-- The end of a right-hand side is abbreviated by a new nonterminal. -/
theorem abbreviates_end (hnodup : (pre ++ ⟨a, x :: r⟩ :: post).Nodup)
    (hn : n ∉ nonterminalsOf (pre ++ ⟨a, x :: r⟩ :: post)) :
    Abbreviates (.single n r) (pre ++ ⟨a, [x, .nonterminal n]⟩ :: ⟨n, r⟩ :: post)
      (pre ++ ⟨a, x :: r⟩ :: post) := by
  have hmid : a ≠ n ∧ .nonterminal n ∉ x :: r := ne_lhs_of_not_mem hn (p := ⟨a, x :: r⟩) (by simp)
  have hside : ∀ p ∈ pre ++ post, p.lhs ≠ n ∧ .nonterminal n ∉ p.rhs :=
    fun p hp => ne_lhs_of_not_mem hn (mem_of_mem_sides hp)
  refine .of_map (pre ++ ⟨a, [x, .nonterminal n]⟩ :: post) (fun q => ?_) (fun q hq => ?_)
    (fun {b s} hs => ?_) ?_ hnodup
  · have hbody : (Abbreviations.single n r) q.lhs = some q.rhs ↔ q = ⟨n, r⟩ := by
      obtain ⟨b, s⟩ := q
      simp [Abbreviations.single, eq_comm]
    rw [hbody]
    simp only [List.mem_append, List.mem_cons]
    tauto
  · refine if_neg ?_
    rcases List.mem_cons.1 (List.perm_middle.mem_iff.1 hq) with rfl | hq
    · exact hmid.1
    · exact (hside q hq).1
  · have hs : (if b = n then some r else none) = some s := hs
    split at hs
    · cases hs
      exact single_plain fun h => hmid.2 (List.mem_cons_of_mem _ h)
    · cases hs
  · have hx : x ≠ .nonterminal n := fun h => hmid.2 (h ▸ List.mem_cons_self)
    rw [List.map_append, List.map_cons, Abbreviations.expandRhs, single_expand_end r hx,
      map_single_expandRhs r fun p hp => (hside p (List.mem_append_left _ hp)).2,
      map_single_expandRhs r fun p hp => (hside p (List.mem_append_right _ hp)).2]

/-- The production that is left and that of the new nonterminal are not there yet. -/
theorem nodup_end (hnodup : (pre ++ ⟨a, x :: r⟩ :: post).Nodup)
    (hn : n ∉ nonterminalsOf (pre ++ ⟨a, x :: r⟩ :: post)) :
    (pre ++ ⟨a, [x, .nonterminal n]⟩ :: ⟨n, r⟩ :: post).Nodup := by
  have hside : ∀ p ∈ pre ++ post, p.lhs ≠ n ∧ .nonterminal n ∉ p.rhs :=
    fun p hp => ne_lhs_of_not_mem hn (mem_of_mem_sides hp)
  have hhead : ⟨a, [x, .nonterminal n]⟩ ∉ pre ++ post := fun h => (hside _ h).2 (by simp)
  have hbody : ⟨n, r⟩ ∉ pre ++ post := fun h => (hside _ h).1 rfl
  have hne : a ≠ n := (ne_lhs_of_not_mem hn (p := ⟨a, x :: r⟩) (by simp)).1
  have hrest := (List.nodup_cons.1 (List.nodup_middle.1 hnodup)).2
  refine List.nodup_middle.2 (List.nodup_cons.2 ⟨fun h => ?_, ?_⟩)
  · rcases List.mem_cons.1 (List.perm_middle.mem_iff.1 h) with h | h
    · exact hne (Production.mk.inj h).1
    · exact hhead h
  · exact List.nodup_middle.2 (List.nodup_cons.2 ⟨hbody, hrest⟩)

/-- One step of a chain: the next name abbreviates the end of a right-hand side. -/
theorem end_rewrites {s : NameSupply} (hnodup : (pre ++ ⟨a, x :: r⟩ :: post).Nodup)
    (huses : s.Uses (pre ++ ⟨a, x :: r⟩ :: post)) :
    Rewrites s (pre ++ ⟨a, x :: r⟩ :: post) s.next.2
      (pre ++ ⟨a, [x, .nonterminal ⟨s.next.1⟩]⟩ :: ⟨⟨s.next.1⟩, r⟩ :: post) := by
  have hfresh : ∀ b : Nonterminal, b.name ∈ s.used → b ≠ ⟨s.next.1⟩ := by
    rintro b hb rfl
    exact s.next_name_not_mem hb
  have hnew : (⟨s.next.1⟩ : Nonterminal) ∉ nonterminalsOf (pre ++ ⟨a, x :: r⟩ :: post) :=
    fun h => hfresh _ (huses _ h) rfl
  have hintroduces := (Introduces.refl s pre).append
    ((end_introduces s a x r).append (.refl _ post))
  exact ⟨(abbreviates_end hnodup hnew).sameTrees fun b hb => if_neg (hfresh b hb),
    nodup_end hnodup hnew, hintroduces.uses huses, fun n hn => NameSupply.mem_used_next.2 (.inr hn)⟩

end chain

/-- The chain of a production takes its place. -/
theorem binaryChain_rewrites {s : NameSupply} {pre post : List Production} {a : Nonterminal}
    {r : List Symbol} (hnodup : (pre ++ ⟨a, r⟩ :: post).Nodup)
    (huses : s.Uses (pre ++ ⟨a, r⟩ :: post)) :
    Rewrites s (pre ++ ⟨a, r⟩ :: post) (binaryChain a s r).2
      (pre ++ ((binaryChain a s r).1 ++ post)) := by
  induction r generalizing a s pre with
  | nil => exact .refl hnodup huses
  | cons x r ih =>
    rcases r with _ | ⟨y, _ | ⟨z, r⟩⟩
    · exact .refl hnodup huses
    · exact .refl hnodup huses
    · have hstep := end_rewrites hnodup huses
      have hassoc : ∀ p, ∀ l : List Production, pre ++ p :: l = (pre ++ [p]) ++ l := by simp
      rw [hassoc ⟨a, [x, _]⟩] at hstep
      have hrest := hstep.trans (ih hstep.nodup hstep.uses)
      rwa [List.append_assoc] at hrest

theorem binarize_rewrites {s : NameSupply} (pre : List Production) {ps : List Production}
    (hnodup : (pre ++ ps).Nodup) (huses : s.Uses (pre ++ ps)) :
    Rewrites s (pre ++ ps) (binarize ps s).2 (pre ++ (binarize ps s).1) := by
  induction ps generalizing s pre with
  | nil => exact .refl hnodup huses
  | cons p ps ih =>
    have hchain := binaryChain_rewrites hnodup huses
    have hassoc : pre ++ ((binaryChain p.lhs s p.rhs).1 ++ ps) =
        (pre ++ (binaryChain p.lhs s p.rhs).1) ++ ps := (List.append_assoc ..).symm
    rw [hassoc] at hchain
    have hrest := hchain.trans (ih _ hchain.nodup hchain.uses)
    rwa [List.append_assoc] at hrest

/-! ### The form of right-hand sides -/

/-- A right-hand side of less than two symbols, or of two nonterminals. -/
def IsShort (r : List Symbol) : Prop := r.length < 2 ∨ ∃ b c, r = [.nonterminal b, .nonterminal c]

theorem isShort_binaryChain {r : List Symbol} (s : NameSupply) (a : Nonterminal)
    (hr : r.length < 2 ∨ ∀ y ∈ r, ∃ b, y = .nonterminal b) :
    ∀ q ∈ (binaryChain a s r).1, IsShort q.rhs := by
  induction r generalizing a s with
  | nil =>
    intro q hq
    rw [List.mem_singleton.1 hq]
    exact .inl (by simp)
  | cons x r ih =>
    rcases r with _ | ⟨y, r⟩
    · intro q hq
      rw [List.mem_singleton.1 hq]
      exact .inl (by simp)
    · have hnt : ∀ u ∈ x :: y :: r, ∃ b, u = .nonterminal b :=
        hr.resolve_left (by simp)
      obtain ⟨b, rfl⟩ := hnt x (by simp)
      rcases r with _ | ⟨z, r⟩
      · obtain ⟨c, rfl⟩ := hnt y (by simp)
        intro q hq
        rw [List.mem_singleton.1 hq]
        exact .inr ⟨b, c, rfl⟩
      · intro q hq
        rcases List.mem_cons.1 hq with rfl | hq
        · exact .inr ⟨b, _, rfl⟩
        · exact ih _ _ (.inr fun u hu => hnt u (List.mem_cons_of_mem _ hu)) q hq

theorem isShort_of_mem_binarize {ps : List Production} {s : NameSupply}
    (hps : ∀ p ∈ ps, p.rhs.length < 2 ∨ ∀ y ∈ p.rhs, ∃ b, y = .nonterminal b) :
    ∀ q ∈ (binarize ps s).1, IsShort q.rhs := by
  induction ps generalizing s with
  | nil => exact fun _ hq => absurd hq List.not_mem_nil
  | cons p ps ih =>
    intro q hq
    rcases List.mem_append.1 hq with hq | hq
    · exact isShort_binaryChain s p.lhs (hps p List.mem_cons_self) q hq
    · exact ih (fun p' hp' => hps p' (List.mem_cons_of_mem _ hp')) q hq

/-- **Isolation and binarization**, one after the other: the trees of all nonterminals that had a
name stay the same in number, and right-hand sides are short. -/
theorem binaryForm_rewrites {ps : List Production} {s : NameSupply} (hnodup : ps.Nodup)
    (huses : s.Uses ps) :
    Rewrites s ps (binarize (isolateTerminals ps s).1 (isolateTerminals ps s).2).2
      (binarize (isolateTerminals ps s).1 (isolateTerminals ps s).2).1 := by
  have hisolation := isolation_rewrites hnodup huses
  exact hisolation.trans (binarize_rewrites [] hisolation.nodup hisolation.uses)

theorem isShort_of_mem_binaryForm {ps : List Production} {s : NameSupply} {q : Production}
    (hq : q ∈ (binarize (isolateTerminals ps s).1 (isolateTerminals ps s).2).1) :
    IsShort q.rhs :=
  isShort_of_mem_binarize (fun _ hp => isolation_form hp) q hq

theorem IsShort.length_le {r : List Symbol} (h : IsShort r) : r.length ≤ 2 := by
  rcases h with h | ⟨b, c, rfl⟩
  · omega
  · simp

/-- Two symbols are nonterminals. -/
theorem IsShort.isNonterminal {r : List Symbol} (h : IsShort r) (hlen : r.length = 2) :
    ∀ y ∈ r, y.isNonterminal = true := by
  intro y hy
  rcases h with h | ⟨b, c, rfl⟩
  · omega
  · rcases List.mem_cons.1 hy with rfl | hy
    · rfl
    · rw [List.mem_singleton.1 hy]
      rfl

/-- **The binary form has the same trees.**  Its right-hand sides have at most two symbols, and two
only if these are nonterminals.  Its nonterminals are the old ones and those with the names that
were drawn, and none of the latter was an old one.  For each old nonterminal, the trees of every
word before and after correspond to each other one to one. -/
theorem binaryForm_trees {ps : List Production} {s : NameSupply} (hnodup : ps.Nodup)
    (huses : s.Uses ps) :
    let isolated := isolateTerminals ps s
    let binary := binarize isolated.1 isolated.2
    (∀ q ∈ binary.1, q.rhs.length ≤ 2 ∧
      (q.rhs.length = 2 → ∀ y ∈ q.rhs, y.isNonterminal = true)) ∧
    (∃ names, s.Draws names binary.2 ∧
      (∀ a, a ∈ nonterminalsOf binary.1 ↔ a ∈ nonterminalsOf ps ∨ a.name ∈ names) ∧
      ∀ a, a.name ∈ names → a ∉ nonterminalsOf ps) ∧
    ∀ a ∈ nonterminalsOf ps, ∀ w, Nonempty (treesOf ps a w ≃ treesOf binary.1 a w) := by
  intro isolated binary
  refine ⟨fun q hq => ?_, ?_, fun a ha w => ?_⟩
  · have hshort := isShort_of_mem_binaryForm hq
    exact ⟨hshort.length_le, hshort.isNonterminal⟩
  · obtain ⟨names, hintroduces⟩ := binaryForm_introduces ps s
    refine ⟨names, hintroduces.draws, hintroduces.mem_iff, fun a hname ha => ?_⟩
    exact hintroduces.not_mem huses a ha hname
  · exact (binaryForm_rewrites hnodup huses).sameTrees a (huses a ha) w

/-- Letters around words, where a right-hand side has two letters and a letter stands on two of
them. -/
def letteredWords : List Production :=
  [⟨⟨"S"⟩, [.terminal ⟨"a"⟩, .nonterminal ⟨"S"⟩, .nonterminal ⟨"A"⟩, .terminal ⟨"b"⟩]⟩,
    ⟨⟨"S"⟩, [.terminal ⟨"a"⟩]⟩, ⟨⟨"A"⟩, [.terminal ⟨"b"⟩, .terminal ⟨"b"⟩]⟩, ⟨⟨"A"⟩, []⟩]

/-- The binary form of `letteredWords`. -/
def letteredForm : List Production :=
  [⟨⟨"S"⟩, [.nonterminal ⟨"B"⟩, .nonterminal ⟨"D"⟩]⟩,
    ⟨⟨"D"⟩, [.nonterminal ⟨"S"⟩, .nonterminal ⟨"E"⟩]⟩,
    ⟨⟨"E"⟩, [.nonterminal ⟨"A"⟩, .nonterminal ⟨"C"⟩]⟩, ⟨⟨"S"⟩, [.terminal ⟨"a"⟩]⟩,
    ⟨⟨"A"⟩, [.nonterminal ⟨"C"⟩, .nonterminal ⟨"C"⟩]⟩, ⟨⟨"A"⟩, []⟩,
    ⟨⟨"B"⟩, [.terminal ⟨"a"⟩]⟩, ⟨⟨"C"⟩, [.terminal ⟨"b"⟩]⟩]

/-- The first name of the sequence is in use, so that it is not drawn, and the next one is. -/
theorem binaryForm_trees_letteredWords :
    letteredWords.Nodup ∧ (NameSupply.ofUsed ["S", "A"]).Uses letteredWords ∧
      (∀ q ∈ letteredForm, q.rhs.length ≤ 2 ∧
        (q.rhs.length = 2 → ∀ y ∈ q.rhs, y.isNonterminal = true)) ∧
      (∃ names s', (NameSupply.ofUsed ["S", "A"]).Draws names s' ∧ "A" ∉ names ∧ "B" ∈ names) ∧
      ∀ w, Nonempty (treesOf letteredWords ⟨"S"⟩ w ≃ treesOf letteredForm ⟨"S"⟩ w) := by
  have hnodup : letteredWords.Nodup := by decide
  have huses : (NameSupply.ofUsed ["S", "A"]).Uses letteredWords := by
    unfold NameSupply.Uses
    decide
  have hform : (binarize (isolateTerminals letteredWords (.ofUsed ["S", "A"])).1
      (isolateTerminals letteredWords (.ofUsed ["S", "A"])).2).1 = letteredForm := by
    decide +kernel
  obtain ⟨hshort, ⟨names, hdraws, hmem, hnew⟩, htrees⟩ := binaryForm_trees hnodup huses
  rw [hform] at hshort hmem htrees
  refine ⟨hnodup, huses, hshort, ⟨names, _, hdraws, ?_, ?_⟩, htrees ⟨"S"⟩ (by decide)⟩
  · intro hA
    exact hnew ⟨"A"⟩ hA (by decide)
  · have hB : (⟨"B"⟩ : Nonterminal) ∈ nonterminalsOf letteredForm := by decide
    exact ((hmem ⟨"B"⟩).1 hB).resolve_left (by decide)

end GrammarSampler
