import GrammarSampler.Grammar.Basic

/-!
# Derivations

`Derives ps rhs w` is the ordinary meaning of productions: the symbols `rhs` derive the terminals
`w`, where every production may be applied anywhere.  A `Forest` is such a derivation as data: the
derivation trees of a list of symbols, each tree with the production at its root and the forest of
its children.
-/

namespace GrammarSampler

/-- The symbols on the left derive the terminals on the right. -/
inductive Derives (ps : List Production) : List Symbol → List Terminal → Prop
  | nil : Derives ps [] []
  | terminal {t rhs w} : Derives ps rhs w → Derives ps (.terminal t :: rhs) (t :: w)
  | rule {p rhs u v} : p ∈ ps → Derives ps p.rhs u → Derives ps rhs v →
      Derives ps (.nonterminal p.lhs :: rhs) (u ++ v)

/-- The terminals derive from the start symbol of the grammar. -/
def Grammar.Generates (g : Grammar) (w : List Terminal) : Prop :=
  Derives g.productions [.nonterminal g.start] w

/-- Derivation trees in a row: that of a terminal, or that of a nonterminal with its production and
its children, before further trees. -/
inductive Forest where
  | nil
  | terminal (t : Terminal) (rest : Forest)
  | rule (p : Production) (children rest : Forest)
  deriving DecidableEq

namespace Forest

/-- The symbols at the roots. -/
def roots : Forest → List Symbol
  | nil => []
  | terminal t rest => .terminal t :: rest.roots
  | rule p _ rest => .nonterminal p.lhs :: rest.roots

/-- The terminals at the leaves. -/
def yield : Forest → List Terminal
  | nil => []
  | terminal t rest => t :: rest.yield
  | rule _ children rest => children.yield ++ rest.yield

/-- Every tree applies productions of `ps` to the roots of its children. -/
def Follows (ps : List Production) : Forest → Prop
  | nil => True
  | terminal _ rest => rest.Follows ps
  | rule p children rest =>
    p ∈ ps ∧ children.roots = p.rhs ∧ children.Follows ps ∧ rest.Follows ps

end Forest

theorem Derives.append {ps : List Production} {r₁ r₂ : List Symbol} {w₁ w₂ : List Terminal}
    (h₁ : Derives ps r₁ w₁) (h₂ : Derives ps r₂ w₂) : Derives ps (r₁ ++ r₂) (w₁ ++ w₂) := by
  induction h₁ with
  | nil => exact h₂
  | terminal _ ih => exact .terminal ih
  | rule hp hu _ _ ih =>
    rw [List.append_assoc]
    exact .rule hp hu ih

theorem Derives.mono {ps qs : List Production} (hsub : ∀ p ∈ ps, p ∈ qs) {r : List Symbol}
    {w : List Terminal} (h : Derives ps r w) : Derives qs r w := by
  induction h with
  | nil => exact .nil
  | terminal _ ih => exact .terminal ih
  | rule hp _ _ ihu ihv => exact .rule (hsub _ hp) ihu ihv

theorem Forest.derives {ps : List Production} {f : Forest} (h : f.Follows ps) :
    Derives ps f.roots f.yield := by
  induction f with
  | nil => exact .nil
  | terminal t rest ih => exact .terminal (ih h)
  | rule p children rest ihc ihr =>
    obtain ⟨hp, hroots, hc, hr⟩ := h
    exact .rule hp (hroots ▸ ihc hc) (ihr hr)

/-- A list of symbols derives exactly the yields of its forests. -/
theorem derives_iff_exists_forest {ps : List Production} {r : List Symbol} {w : List Terminal} :
    Derives ps r w ↔ ∃ f : Forest, f.Follows ps ∧ f.roots = r ∧ f.yield = w := by
  refine ⟨fun h => ?_, ?_⟩
  · induction h with
    | nil => exact ⟨.nil, trivial, rfl, rfl⟩
    | @terminal t _ _ _ ih =>
      obtain ⟨f, hf, rfl, rfl⟩ := ih
      exact ⟨.terminal t f, hf, rfl, rfl⟩
    | @rule p _ _ _ hp _ _ ihu ihv =>
      obtain ⟨c, hc, hroots, rfl⟩ := ihu
      obtain ⟨f, hf, rfl, rfl⟩ := ihv
      exact ⟨.rule p c f, ⟨hp, hroots, hc, hf⟩, rfl, rfl⟩
  · rintro ⟨f, hf, rfl, rfl⟩
    exact Forest.derives hf

end GrammarSampler
