import GrammarSampler.Number.Double
import GrammarSampler.Sampling.Frequencies
import GrammarSampler.Sampling.Generator

/-!
# Estimating ambiguity

All derivation trees of one length are equally likely, so a string is drawn in proportion to the
number of its trees.  The estimate draws strings of one length and compares their frequencies with a
uniform distribution.
-/

namespace GrammarSampler

/-- How many strings are drawn, how many lengths are tried, and which lengths. -/
structure AmbiguityOptions where
  samples : Nat := 1000
  maxAttempts : Nat := 100
  shortest : Nat := 1
  longest : Nat := 10

/-- What was seen: the strings drawn of one length, and the number of derivation trees of that
length. -/
structure AmbiguityReport where
  length : Nat
  trees : Nat
  frequencies : Frequencies
  deriving DecidableEq

namespace AmbiguityReport

/-- The probability of each string that was seen, if all were equally likely. -/
def expectedProbability (r : AmbiguityReport) : Float :=
  if r.frequencies.distinct = 0 then 0.0 else 1.0 / Number.double r.frequencies.distinct

/-- Each string that was seen with its share of the samples. -/
def probabilities (r : AmbiguityReport) : List (List Terminal × Float) :=
  let total := Number.double (max r.frequencies.total 1)
  r.frequencies.counts.map fun (w, n) => (w, Number.double n / total)

/-- The greatest distance of a share from the expected probability. -/
def maxDeviation (r : AmbiguityReport) : Float :=
  let expected := r.expectedProbability
  r.probabilities.foldl (fun greatest (_, p) =>
    let deviation := (p - expected).abs
    if greatest < deviation then deviation else greatest) 0.0

/-- The number of derivation trees for each string that was seen. -/
def treesPerString (r : AmbiguityReport) : Float :=
  if r.frequencies.distinct = 0 then 0.0
  else Number.double r.trees / Number.double r.frequencies.distinct

end AmbiguityReport

namespace Generator

/-- Records `samples` strings of length `n` in `f`. -/
def sampleInto (n : Nat) :
    Nat → Frequencies → Generator → Except GenerateError Frequencies × Generator
  | 0, f, g => (.ok f, g)
  | samples + 1, f, g =>
    match g.generate n with
    | (.error e, g) => (.error e, g)
    | (.ok w, g) => sampleInto n samples (f.record w) g

/-- Generates `samples` strings of length `n` and counts them. -/
def sample (g : Generator) (n samples : Nat) : Except GenerateError Frequencies × Generator :=
  sampleInto n samples Frequencies.empty g

/-- Reports on the length `n`, for which there are `trees` derivation trees. -/
def report (g : Generator) (n trees samples : Nat) :
    Except GenerateError AmbiguityReport × Generator :=
  let (result, g) := g.sample n samples
  (result.map fun f => ⟨n, trees, f⟩, g)

/-- Draws up to `attempts` lengths until one has derivation trees, and reports on that one.  The
last length drawn so far is `last`. -/
def estimateWith (o : AmbiguityOptions) :
    Nat → Nat → Generator → Except GenerateError AmbiguityReport × Generator
  | 0, last, g => (.error (.noString last), g)
  | attempts + 1, last, g =>
    if o.longest < o.shortest then (.error (.noString last), g)
    else
      let (n, g) := g.drawInRange o.shortest o.longest
      match g.count? g.grammar.start n with
      | none => (.error .tooLong, g)
      | some (0, g) => estimateWith o attempts n g
      | some (trees, g) => g.report n trees o.samples

/-- Estimates the ambiguity of the grammar. -/
def estimateAmbiguity (g : Generator) (o : AmbiguityOptions) :
    Except GenerateError AmbiguityReport × Generator :=
  estimateWith o o.maxAttempts o.shortest g

end Generator

end GrammarSampler
