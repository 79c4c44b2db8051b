import Mathlib.Data.List.Nodup
import Mathlib.Logic.Equiv.Set
import GrammarSampler.Grammar.Derivation

/-!
# Abbreviating parts of right-hand sides

Isolation and binarization both introduce nonterminals that stand for a part of a right-hand side
and have that part as their only production.  `Abbreviates σ qs ps` says that `qs` is `ps` with such
abbreviations `σ`.  To undo them in a derivation tree, the children of an abbreviation take its
place (`Forest.inline`).  That is a bijection between the trees by `qs` and the trees by `ps`
(`Abbreviates.bijOn_inline`), so that both have the same trees for every other nonterminal.
-/

namespace GrammarSampler

/-! ### Forests in a row -/

namespace Forest

/-- The trees of `f`, then those of `g`. -/
def append : Forest → Forest → Forest
  | nil, g => g
  | terminal t rest, g => terminal t (rest.append g)
  | rule p children rest, g => rule p children (rest.append g)

@[simp] theorem roots_append (f g : Forest) : (f.append g).roots = f.roots ++ g.roots := by
  induction f with
  | nil => rfl
  | terminal t rest ih => simp [append, roots, ih]
  | rule p children rest _ ih => simp [append, roots, ih]

@[simp] theorem yield_append (f g : Forest) : (f.append g).yield = f.yield ++ g.yield := by
  induction f with
  | nil => rfl
  | terminal t rest ih => simp [append, yield, ih]
  | rule p children rest _ ih => simp [append, yield, ih]

theorem append_assoc (f g h : Forest) : (f.append g).append h = f.append (g.append h) := by
  induction f with
  | nil => rfl
  | terminal t rest ih => simp only [append, ih]
  | rule p children rest _ ih => simp only [append, ih]

theorem follows_append {ps : List Production} {f g : Forest} :
    (f.append g).Follows ps ↔ f.Follows ps ∧ g.Follows ps := by
  induction f with
  | nil => simp [append, Follows]
  | terminal t rest ih => simp [append, Follows, ih]
  | rule p children rest _ ih => simp [append, Follows, ih, and_assoc]

/-- Where the roots of the first parts are equal in number, both parts are equal. -/
theorem append_inj {f f' g g' : Forest} (h : f.append g = f'.append g')
    (hlen : f.roots.length = f'.roots.length) : f = f' ∧ g = g' := by
  induction f generalizing f' with
  | nil =>
    cases f' with
    | nil => exact ⟨rfl, h⟩
    | terminal => simp [roots] at hlen
    | rule => simp [roots] at hlen
  | terminal t rest ih =>
    cases f' with
    | nil => simp [roots] at hlen
    | terminal t' rest' =>
      obtain ⟨rfl, hrest⟩ := Forest.terminal.inj h
      obtain ⟨rfl, rfl⟩ := ih hrest (by simpa [roots] using hlen)
      exact ⟨rfl, rfl⟩
    | rule => cases h
  | rule p children rest _ ih =>
    cases f' with
    | nil => simp [roots] at hlen
    | terminal => cases h
    | rule p' children' rest' =>
      obtain ⟨rfl, rfl, hrest⟩ := Forest.rule.inj h
      obtain ⟨rfl, rfl⟩ := ih hrest (by simpa [roots] using hlen)
      exact ⟨rfl, rfl⟩

/-- A forest falls apart where its roots do. -/
theorem exists_eq_append {f : Forest} {r₁ r₂ : List Symbol} (h : f.roots = r₁ ++ r₂) :
    ∃ f₁ f₂ : Forest, f = f₁.append f₂ ∧ f₁.roots = r₁ ∧ f₂.roots = r₂ := by
  induction f generalizing r₁ with
  | nil =>
    obtain ⟨rfl, rfl⟩ := List.append_eq_nil_iff.1 h.symm
    exact ⟨nil, nil, rfl, rfl, rfl⟩
  | terminal t rest ih =>
    cases r₁ with
    | nil => exact ⟨nil, _, rfl, rfl, h⟩
    | cons y r₁ =>
      obtain ⟨rfl, hrest⟩ := List.cons.inj h
      obtain ⟨f₁, f₂, rfl, rfl, rfl⟩ := ih hrest
      exact ⟨terminal t f₁, f₂, rfl, rfl, rfl⟩
  | rule p children rest _ ih =>
    cases r₁ with
    | nil => exact ⟨nil, _, rfl, rfl, h⟩
    | cons y r₁ =>
      obtain ⟨rfl, hrest⟩ := List.cons.inj h
      obtain ⟨f₁, f₂, rfl, rfl, rfl⟩ := ih hrest
      exact ⟨rule p children f₁, f₂, rfl, rfl, rfl⟩

/-- The number of productions and terminals. -/
def size : Forest → Nat
  | nil => 0
  | terminal _ rest => rest.size + 1
  | rule _ children rest => children.size + rest.size + 1

theorem size_append (f g : Forest) : (f.append g).size = f.size + g.size := by
  induction f with
  | nil => simp [append, size]
  | terminal t rest ih =>
    simp only [append, size, ih]
    omega
  | rule p children rest _ ih =>
    simp only [append, size, ih]
    omega

end Forest

/-! ### Abbreviations -/

/-- Some nonterminals stand for lists of symbols. -/
abbrev Abbreviations := Nonterminal → Option (List Symbol)

/-- Puts the lists of symbols in the place of their abbreviations. -/
def Abbreviations.expand (σ : Abbreviations) : List Symbol → List Symbol
  | [] => []
  | .terminal t :: r => .terminal t :: σ.expand r
  | .nonterminal a :: r => (σ a).getD [.nonterminal a] ++ σ.expand r

/-- No nonterminal of the list is an abbreviation. -/
def Abbreviations.Plain (σ : Abbreviations) (r : List Symbol) : Prop :=
  ∀ a, .nonterminal a ∈ r → σ a = none

variable {σ : Abbreviations} {ps qs : List Production}

theorem expand_of_plain {r : List Symbol} (h : σ.Plain r) : σ.expand r = r := by
  induction r with
  | nil => rfl
  | cons y r ih =>
    have hr := ih fun a ha => h a (List.mem_cons_of_mem _ ha)
    cases y with
    | terminal t => rw [Abbreviations.expand, hr]
    | nonterminal a => rw [Abbreviations.expand, hr, h a List.mem_cons_self]; rfl

theorem expand_append (r s : List Symbol) : σ.expand (r ++ s) = σ.expand r ++ σ.expand s := by
  induction r with
  | nil => rfl
  | cons y r ih => cases y <;> simp [Abbreviations.expand, ih]

/-- The productions `qs` are `ps` with the abbreviations `σ`: each abbreviation has what it stands
for as its only production, and the others become `ps`, one for one, when they are expanded. -/
structure Abbreviates (σ : Abbreviations) (qs ps : List Production) : Prop where
  body_mem : ∀ {a r}, σ a = some r → ⟨a, r⟩ ∈ qs
  rhs_eq : ∀ {q r}, q ∈ qs → σ q.lhs = some r → q.rhs = r
  plain : ∀ {a r}, σ a = some r → σ.Plain r
  expand_mem : ∀ {q}, q ∈ qs → σ q.lhs = none → ⟨q.lhs, σ.expand q.rhs⟩ ∈ ps
  exists_mem : ∀ {p}, p ∈ ps → ∃ q ∈ qs, σ q.lhs = none ∧ q.lhs = p.lhs ∧ σ.expand q.rhs = p.rhs
  inj : ∀ {q q'}, q ∈ qs → q' ∈ qs → σ q.lhs = none → q.lhs = q'.lhs →
    σ.expand q.rhs = σ.expand q'.rhs → q = q'

/-- Expands the right-hand side. -/
def Abbreviations.expandRhs (σ : Abbreviations) (p : Production) : Production :=
  ⟨p.lhs, σ.expand p.rhs⟩

/-- Productions abbreviate others if, apart from those of the abbreviations, they become the others
when they are expanded. -/
theorem Abbreviates.of_map (old : List Production)
    (hqs : ∀ q, q ∈ qs ↔ q ∈ old ∨ σ q.lhs = some q.rhs) (hold : ∀ q ∈ old, σ q.lhs = none)
    (hplain : ∀ {a r}, σ a = some r → σ.Plain r) (hmap : old.map σ.expandRhs = ps)
    (hnodup : ps.Nodup) : Abbreviates σ qs ps where
  body_mem ha := (hqs _).2 (.inr ha)
  rhs_eq {q r} hq hr := by
    rcases (hqs q).1 hq with hq | hq
    · exact absurd (hr.symm.trans (hold q hq)) (Option.some_ne_none r)
    · exact Option.some.inj (hq.symm.trans hr)
  plain := hplain
  expand_mem {q} hq hσ := by
    rcases (hqs q).1 hq with hq | hq
    · exact hmap ▸ List.mem_map_of_mem hq
    · exact absurd (hq.symm.trans hσ) (Option.some_ne_none _)
  exists_mem {p} hp := by
    obtain ⟨q, hq, rfl⟩ := List.mem_map.1 (hmap ▸ hp)
    exact ⟨q, (hqs q).2 (.inl hq), hold q hq, rfl, rfl⟩
  inj {q q'} hq hq' hσ hlhs hrhs := by
    have hmem : ∀ p, p ∈ qs → σ p.lhs = none → p ∈ old := fun p hp hσ =>
      ((hqs p).1 hp).resolve_right fun h => Option.some_ne_none _ (h.symm.trans hσ)
    have heq : σ.expandRhs q = σ.expandRhs q' := by
      rw [Abbreviations.expandRhs, Abbreviations.expandRhs, hlhs, hrhs]
    exact List.inj_on_of_nodup_map (hmap ▸ hnodup) (hmem q hq hσ) (hmem q' hq' (hlhs ▸ hσ)) heq

/-- Puts the children of abbreviations in their place. -/
def Forest.inline (σ : Abbreviations) : Forest → Forest
  | nil => nil
  | terminal t rest => terminal t (rest.inline σ)
  | rule p children rest =>
    match σ p.lhs with
    | some _ => (children.inline σ).append (rest.inline σ)
    | none => rule ⟨p.lhs, σ.expand p.rhs⟩ (children.inline σ) (rest.inline σ)

theorem inline_rule_some {p : Production} {c f : Forest} {r : List Symbol}
    (h : σ p.lhs = some r) :
    (Forest.rule p c f).inline σ = (c.inline σ).append (f.inline σ) := by
  simp only [Forest.inline, h]

theorem inline_rule_none {p : Production} {c f : Forest} (h : σ p.lhs = none) :
    (Forest.rule p c f).inline σ =
      .rule ⟨p.lhs, σ.expand p.rhs⟩ (c.inline σ) (f.inline σ) := by
  simp only [Forest.inline, h]

@[simp] theorem yield_inline (f : Forest) : (f.inline σ).yield = f.yield := by
  induction f with
  | nil => rfl
  | terminal t rest ih => simp [Forest.inline, Forest.yield, ih]
  | rule p c rest ihc ihr =>
    cases h : σ p.lhs with
    | some r => rw [inline_rule_some h, Forest.yield_append, ihc, ihr, Forest.yield]
    | none => rw [inline_rule_none h, Forest.yield, ihc, ihr, Forest.yield]

/-- The forests by `ps` of a size up to `n` with the expanded roots `r` are inlined forests with the
roots `r`. -/
def Covers (σ : Abbreviations) (qs ps : List Production) (n : Nat) (r : List Symbol) : Prop :=
  ∀ g : Forest, g.size ≤ n → g.Follows ps → g.roots = σ.expand r →
    ∃ f : Forest, f.Follows qs ∧ f.roots = r ∧ f.inline σ = g

theorem covers_nil (n : Nat) : Covers σ qs ps n [] := by
  intro g _ _ hroots
  cases g with
  | nil => exact ⟨.nil, trivial, rfl, rfl⟩
  | terminal => cases hroots
  | rule => cases hroots

theorem covers_terminal {n : Nat} {t : Terminal} {r : List Symbol} (hr : Covers σ qs ps n r) :
    Covers σ qs ps n (.terminal t :: r) := by
  intro g hsize hg hroots
  cases g with
  | nil => cases hroots
  | rule => cases (List.cons.inj hroots).1
  | terminal t' rest =>
    obtain ⟨hhead, hrest⟩ := List.cons.inj hroots
    obtain rfl : t' = t := Symbol.terminal.inj hhead
    obtain ⟨f, hf, rfl, rfl⟩ := hr rest (by rw [Forest.size] at hsize; omega) hg hrest
    exact ⟨.terminal t' f, hf, rfl, rfl⟩

namespace Abbreviates

variable (h : Abbreviates σ qs ps)
include h

theorem roots_inline {f : Forest} (hf : f.Follows qs) : (f.inline σ).roots = σ.expand f.roots := by
  induction f with
  | nil => rfl
  | terminal t rest ih => simp [Forest.inline, Forest.roots, Abbreviations.expand, ih hf]
  | rule p c rest ihc ihr =>
    obtain ⟨hp, hroots, hc, hrest⟩ := hf
    rw [Forest.roots, Abbreviations.expand, ← ihr hrest]
    cases hlhs : σ p.lhs with
    | some r =>
      have hr : p.rhs = r := h.rhs_eq hp hlhs
      rw [inline_rule_some hlhs, Forest.roots_append, ihc hc, hroots, hr,
        expand_of_plain (h.plain hlhs), Option.getD_some]
    | none => rw [inline_rule_none hlhs]; rfl

theorem follows_inline {f : Forest} (hf : f.Follows qs) : (f.inline σ).Follows ps := by
  induction f with
  | nil => trivial
  | terminal t rest ih => exact ih hf
  | rule p c rest ihc ihr =>
    obtain ⟨hp, hroots, hc, hrest⟩ := hf
    cases hlhs : σ p.lhs with
    | some r =>
      rw [inline_rule_some hlhs]
      exact Forest.follows_append.2 ⟨ihc hc, ihr hrest⟩
    | none =>
      rw [inline_rule_none hlhs]
      exact ⟨h.expand_mem hp hlhs, by rw [h.roots_inline hc, hroots], ihc hc, ihr hrest⟩

/-- Which abbreviations were in a forest can be told from its roots. -/
theorem eq_of_inline_eq {f f' : Forest} (hf : f.Follows qs) (hf' : f'.Follows qs)
    (hroots : f.roots = f'.roots) (heq : f.inline σ = f'.inline σ) : f = f' := by
  induction f generalizing f' with
  | nil =>
    cases f' with
    | nil => rfl
    | terminal => cases hroots
    | rule => cases hroots
  | terminal t rest ih =>
    cases f' with
    | nil => cases hroots
    | terminal t' rest' =>
      obtain ⟨rfl, hreq⟩ := Forest.terminal.inj heq
      have hrr := (List.cons.inj hroots).2
      have hrest' : rest'.Follows qs := hf'
      rw [ih hf hrest' hrr hreq]
    | rule => cases (List.cons.inj hroots).1
  | rule p c rest ihc ihr =>
    cases f' with
    | nil => cases hroots
    | terminal => cases (List.cons.inj hroots).1
    | rule p' c' rest' =>
      obtain ⟨hp, hcr, hc, hrest⟩ := hf
      obtain ⟨hp', hcr', hc', hrest'⟩ := hf'
      obtain ⟨hhead, hrr⟩ := List.cons.inj hroots
      have hlhs : p.lhs = p'.lhs := Symbol.nonterminal.inj hhead
      cases hσ : σ p.lhs with
      | some r =>
        have hσ' : σ p'.lhs = some r := hlhs ▸ hσ
        have hrhs : p.rhs = p'.rhs := (h.rhs_eq hp hσ).trans (h.rhs_eq hp' hσ').symm
        have hchildren : c.roots = c'.roots := by rw [hcr, hcr', hrhs]
        rw [inline_rule_some hσ, inline_rule_some hσ'] at heq
        obtain ⟨hceq, hreq⟩ := Forest.append_inj heq
          (by rw [h.roots_inline hc, h.roots_inline hc', hchildren])
        have hpeq : p = p' := by
          cases p
          cases p'
          cases hlhs
          cases hrhs
          rfl
        rw [hpeq, ihc hc hc' hchildren hceq, ihr hrest hrest' hrr hreq]
      | none =>
        have hσ' : σ p'.lhs = none := hlhs ▸ hσ
        rw [inline_rule_none hσ, inline_rule_none hσ'] at heq
        obtain ⟨hpeq, hceq, hreq⟩ := Forest.rule.inj heq
        obtain rfl := h.inj hp hp' hσ hlhs (Production.mk.inj hpeq).2
        rw [ihc hc hc' (by rw [hcr, hcr']) hceq, ihr hrest hrest' hrr hreq]

/-! ### Every forest is an inlined one -/

/-- The children of the first tree are a smaller forest. -/
theorem covers_nonterminal {n : Nat} {a : Nonterminal} {r : List Symbol} (ha : σ a = none)
    (hsmaller : ∀ m < n, ∀ s, Covers σ qs ps m s) (hr : Covers σ qs ps n r) :
    Covers σ qs ps n (.nonterminal a :: r) := by
  intro g hsize hg hroots
  rw [Abbreviations.expand, ha, Option.getD_none, List.singleton_append] at hroots
  cases g with
  | nil => cases hroots
  | terminal => cases (List.cons.inj hroots).1
  | rule p c rest =>
    obtain ⟨hp, hcr, hc, hrest⟩ := hg
    obtain ⟨hhead, hrr⟩ := List.cons.inj hroots
    obtain rfl : p.lhs = a := Symbol.nonterminal.inj hhead
    rw [Forest.size] at hsize
    obtain ⟨q, hq, hσ, hlhs, hrhs⟩ := h.exists_mem hp
    obtain ⟨f, hf, rfl, rfl⟩ := hr rest (by omega) hrest hrr
    obtain ⟨c', hc', hcr', rfl⟩ :=
      hsmaller c.size (by omega) q.rhs c le_rfl hc (hcr.trans hrhs.symm)
    refine ⟨.rule q c' f, ⟨hq, hcr', hc', hf⟩, by rw [Forest.roots, hlhs], ?_⟩
    rw [inline_rule_none hσ, hlhs, hrhs]

/-- An abbreviation is the root of the trees that it stands for. -/
theorem covers_abbreviation {n : Nat} {a : Nonterminal} {b r : List Symbol} (ha : σ a = some b)
    (hb : Covers σ qs ps n b) (hr : Covers σ qs ps n r) :
    Covers σ qs ps n (.nonterminal a :: r) := by
  intro g hsize hg hroots
  rw [Abbreviations.expand, ha, Option.getD_some] at hroots
  obtain ⟨g₁, g₂, rfl, hg₁, hg₂⟩ := Forest.exists_eq_append hroots
  obtain ⟨hfol₁, hfol₂⟩ := Forest.follows_append.1 hg
  rw [Forest.size_append] at hsize
  obtain ⟨f₁, hf₁, hr₁, rfl⟩ := hb g₁ (by omega) hfol₁ (by rw [hg₁, expand_of_plain (h.plain ha)])
  obtain ⟨f₂, hf₂, rfl, rfl⟩ := hr g₂ (by omega) hfol₂ hg₂
  exact ⟨.rule ⟨a, b⟩ f₁ f₂, ⟨h.body_mem ha, hr₁, hf₁, hf₂⟩, rfl, inline_rule_some ha⟩

theorem covers_of_plain {n : Nat} (hsmaller : ∀ m < n, ∀ s, Covers σ qs ps m s) {r : List Symbol}
    (hr : σ.Plain r) : Covers σ qs ps n r := by
  induction r with
  | nil => exact covers_nil n
  | cons y r ih =>
    have hrest := ih fun a ha => hr a (List.mem_cons_of_mem _ ha)
    cases y with
    | terminal t => exact covers_terminal hrest
    | nonterminal a => exact h.covers_nonterminal (hr a List.mem_cons_self) hsmaller hrest

theorem covers (n : Nat) (r : List Symbol) : Covers σ qs ps n r := by
  induction n using Nat.strong_induction_on generalizing r with
  | _ n hsmaller =>
    induction r with
    | nil => exact covers_nil n
    | cons y r ih =>
      cases y with
      | terminal t => exact covers_terminal ih
      | nonterminal a =>
        cases ha : σ a with
        | none => exact h.covers_nonterminal ha hsmaller ih
        | some b =>
          exact h.covers_abbreviation ha (h.covers_of_plain hsmaller (h.plain ha)) ih

end Abbreviates

/-! ### Trees of a nonterminal -/

/-- The derivation trees of `a` with the leaves `w`. -/
def treesOf (ps : List Production) (a : Nonterminal) (w : List Terminal) : Set Forest :=
  {f | f.Follows ps ∧ f.roots = [.nonterminal a] ∧ f.yield = w}

/-- Undoing abbreviations is a bijection of the trees of all other nonterminals. -/
theorem Abbreviates.bijOn_inline (h : Abbreviates σ qs ps) {a : Nonterminal} (ha : σ a = none)
    (w : List Terminal) : Set.BijOn (Forest.inline σ) (treesOf qs a w) (treesOf ps a w) := by
  have hroots : σ.expand [.nonterminal a] = [.nonterminal a] := by
    refine expand_of_plain fun b hb => ?_
    obtain rfl : b = a := by simpa using hb
    exact ha
  refine ⟨?_, ?_, ?_⟩
  · rintro f ⟨hf, hr, rfl⟩
    exact ⟨h.follows_inline hf, by rw [h.roots_inline hf, hr, hroots], yield_inline f⟩
  · rintro f ⟨hf, hr, -⟩ f' ⟨hf', hr', -⟩ heq
    exact h.eq_of_inline_eq hf hf' (hr.trans hr'.symm) heq
  · rintro g ⟨hg, hr, rfl⟩
    obtain ⟨f, hf, hfr, rfl⟩ := h.covers g.size [.nonterminal a] g le_rfl hg (hr.trans hroots.symm)
    exact ⟨f, ⟨hf, hfr, (yield_inline f).symm⟩, rfl⟩

/-- For the nonterminals `known`, both lists of productions have the same number of trees of each
word, in a one-to-one correspondence. -/
def SameTrees (known : Nonterminal → Prop) (ps qs : List Production) : Prop :=
  ∀ a, known a → ∀ w, Nonempty (treesOf ps a w ≃ treesOf qs a w)

theorem SameTrees.refl (known : Nonterminal → Prop) (ps : List Production) :
    SameTrees known ps ps := fun _ _ _ => ⟨Equiv.refl _⟩

theorem SameTrees.trans {known known' : Nonterminal → Prop} {rs : List Production}
    (h : SameTrees known ps qs) (h' : SameTrees known' qs rs) (hsub : ∀ a, known a → known' a) :
    SameTrees known ps rs := by
  intro a ha w
  obtain ⟨e⟩ := h a ha w
  obtain ⟨e'⟩ := h' a (hsub a ha) w
  exact ⟨e.trans e'⟩

theorem Abbreviates.sameTrees (h : Abbreviates σ qs ps) {known : Nonterminal → Prop}
    (hknown : ∀ a, known a → σ a = none) : SameTrees known ps qs :=
  fun a ha w => ⟨(h.bijOn_inline (hknown a ha) w).equiv.symm⟩

theorem nonempty_treesOf_iff {a : Nonterminal} {w : List Terminal} :
    Nonempty (treesOf ps a w) ↔ Derives ps [.nonterminal a] w := by
  rw [derives_iff_exists_forest, Set.nonempty_coe_sort]
  rfl

theorem SameTrees.derives_iff {known : Nonterminal → Prop} (h : SameTrees known ps qs)
    {a : Nonterminal} (ha : known a) {w : List Terminal} :
    Derives ps [.nonterminal a] w ↔ Derives qs [.nonterminal a] w := by
  obtain ⟨e⟩ := h a ha w
  rw [← nonempty_treesOf_iff, ← nonempty_treesOf_iff]
  exact e.nonempty_congr

end GrammarSampler
