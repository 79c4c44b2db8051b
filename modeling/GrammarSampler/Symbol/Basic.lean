/-!
# Symbols

A symbol is a terminal, which stands in generated text, or a nonterminal, which productions
rewrite.  The tag belongs to the symbol: a terminal and a nonterminal of one spelling differ.  All
orders are by code points, and terminals come before nonterminals.
-/

namespace GrammarSampler

/-- A piece of generated text; it may be empty. -/
structure Terminal where
  text : String
  deriving DecidableEq, Ord, Inhabited

/-- A name that productions rewrite. -/
structure Nonterminal where
  name : String
  deriving DecidableEq, Ord, Inhabited

/-- A terminal or a nonterminal. -/
inductive Symbol where
  | terminal (t : Terminal)
  | nonterminal (a : Nonterminal)
  deriving DecidableEq, Ord, Inhabited

namespace Symbol

/-- The nonterminal that `s` is. -/
def nonterminal? : Symbol → Option Nonterminal
  | terminal _ => none
  | nonterminal a => some a

/-- The terminal that `s` is. -/
def terminal? : Symbol → Option Terminal
  | terminal t => some t
  | nonterminal _ => none

def isTerminal : Symbol → Bool
  | terminal _ => true
  | nonterminal _ => false

def isNonterminal : Symbol → Bool
  | terminal _ => false
  | nonterminal _ => true

theorem nonterminal?_eq_some {s : Symbol} {a : Nonterminal} :
    s.nonterminal? = some a ↔ s = nonterminal a := by
  cases s <;> simp [nonterminal?]

theorem terminal?_eq_some {s : Symbol} {t : Terminal} :
    s.terminal? = some t ↔ s = terminal t := by
  cases s <;> simp [terminal?]

end Symbol

/-- One character of a terminal's text between single quotes. -/
def Terminal.quotedChar (c : Char) : List Char :=
  if c = '\'' then ['\\', '\'']
  else if c = '\\' then ['\\', '\\']
  else if c = '\n' then ['\\', 'n']
  else if c = '\t' then ['\\', 't']
  else [c]

/-- The text between single quotes. -/
def Terminal.quoted (t : Terminal) : List Char :=
  '\'' :: t.text.toList.flatMap Terminal.quotedChar ++ ['\'']

/-- The characters of a written symbol: a nonterminal is bare, a terminal is quoted. -/
def Symbol.chars : Symbol → List Char
  | .terminal t => t.quoted
  | .nonterminal a => a.name.toList

/-- The written symbol. -/
def Symbol.written (s : Symbol) : String := String.ofList s.chars

theorem nodup_eraseDups {α : Type} [DecidableEq α] :
    ∀ xs : List α, xs.eraseDups.Nodup
  | [] => by simp
  | x :: xs => by
    rw [List.eraseDups_cons, List.nodup_cons]
    exact ⟨by simp, nodup_eraseDups _⟩
  termination_by xs => xs.length
  decreasing_by exact Nat.lt_succ_of_le (List.length_filter_le ..)

theorem eraseDups_of_nodup {α : Type} [DecidableEq α] {xs : List α} (h : xs.Nodup) :
    xs.eraseDups = xs := by
  induction xs with
  | nil => rfl
  | cons x xs ih =>
    obtain ⟨hx, hxs⟩ := List.nodup_cons.1 h
    have hfilter : xs.filter (fun y => !y == x) = xs := by
      refine List.filter_eq_self.2 fun y hy => ?_
      have hne : y ≠ x := fun heq => hx (heq ▸ hy)
      simpa using hne
    rw [List.eraseDups_cons, hfilter, ih hxs]

/-- The members of `xs`, each once, in increasing order. -/
def sortedDistinct {α : Type} [DecidableEq α] [Ord α] (xs : List α) : List α :=
  xs.eraseDups.mergeSort fun a b => (compare a b).isLE

theorem mem_sortedDistinct {α : Type} [DecidableEq α] [Ord α] {xs : List α} {x : α} :
    x ∈ sortedDistinct xs ↔ x ∈ xs := by
  simp [sortedDistinct]

end GrammarSampler
