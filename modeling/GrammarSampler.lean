import GrammarSampler.Analysis.Closure
import GrammarSampler.Analysis.Numbered
import GrammarSampler.Analysis.Relations
import GrammarSampler.CommandLine.Arguments
import GrammarSampler.CommandLine.Command
import GrammarSampler.CommandLine.Execution
import GrammarSampler.CommandLine.Failure
import GrammarSampler.CommandLine.Json
import GrammarSampler.Counting.DerivationTable
import GrammarSampler.Counting.Total
import GrammarSampler.Grammar.Basic
import GrammarSampler.Grammar.Builder
import GrammarSampler.Grammar.Derivation
import GrammarSampler.Grammar.FileError
import GrammarSampler.Grammar.Printer
import GrammarSampler.Grammar.Production
import GrammarSampler.Grammar.Reader
import GrammarSampler.Grammar.Lexer
import GrammarSampler.Grammar.Token
import GrammarSampler.Main
import GrammarSampler.NormalForm.Binarization
import GrammarSampler.NormalForm.Chomsky
import GrammarSampler.NormalForm.EmptyFree
import GrammarSampler.NormalForm.Isolation
import GrammarSampler.NormalForm.UnitFree
import GrammarSampler.NormalForm.Useful
import GrammarSampler.Number.Double
import GrammarSampler.Number.FixedPoint
import GrammarSampler.Number.Shortest
import GrammarSampler.Number.Word
import GrammarSampler.Proofs.Abbreviation
import GrammarSampler.Proofs.BinaryForm
import GrammarSampler.Proofs.ChomskyForm
import GrammarSampler.Proofs.ChomskyTrees
import GrammarSampler.Proofs.Closures
import GrammarSampler.Proofs.Derivations
import GrammarSampler.Proofs.Drawings
import GrammarSampler.Proofs.EmptyElimination
import GrammarSampler.Proofs.FreshNames
import GrammarSampler.Proofs.Generation
import GrammarSampler.Proofs.IntroducedNames
import GrammarSampler.Proofs.RelationClosures
import GrammarSampler.Proofs.TableInvariant
import GrammarSampler.Proofs.TreeCounts
import GrammarSampler.Proofs.TreeDrawing
import GrammarSampler.Proofs.Uniformity
import GrammarSampler.Proofs.UnitElimination
import GrammarSampler.Proofs.UselessRemoval
import GrammarSampler.Proofs.WeightedDraws
import GrammarSampler.Proofs.Worklists
import GrammarSampler.Random.Draw
import GrammarSampler.Random.Source
import GrammarSampler.Sampling.Ambiguity
import GrammarSampler.Sampling.Frequencies
import GrammarSampler.Sampling.Generator
import GrammarSampler.Sampling.WeightedChoice
import GrammarSampler.Symbol.Basic
import GrammarSampler.Symbol.IdRelation
import GrammarSampler.Symbol.IdSet
import GrammarSampler.Symbol.NameSupply
import GrammarSampler.Symbol.Numbering
import GrammarSampler.Text.Alphanumeric
import GrammarSampler.Text.Blank
import GrammarSampler.Text.Combining
import GrammarSampler.Text.Invisible
import GrammarSampler.Text.Quoted
import GrammarSampler.Text.Range
import GrammarSampler.Proofs.GeneratorSessions
import GrammarSampler.Proofs.ChomskyShape
import GrammarSampler.Proofs.TreeEmbeddings
import GrammarSampler.Proofs.Unambiguity
import GrammarSampler.Proofs.Lexing
import GrammarSampler.Proofs.Reading
import GrammarSampler.Proofs.RoundTrip
import GrammarSampler.Proofs.ChomskyText
import GrammarSampler.Proofs.LineTokens
import GrammarSampler.Proofs.LineGrammar
import GrammarSampler.Proofs.SessionIndependence
import GrammarSampler.Proofs.AmbiguityReports
import GrammarSampler.Proofs.TableHistory
import GrammarSampler.Proofs.ProductionCounts
import GrammarSampler.Proofs.RecursiveSampling
import GrammarSampler.Proofs.EstimateRuns
import GrammarSampler.Proofs.NameSessions
import GrammarSampler.Proofs.PlacedReading
import GrammarSampler.Proofs.Spellings
import GrammarSampler.Proofs.ErrorPositions
import GrammarSampler.Proofs.GrammarEquality
import GrammarSampler.Proofs.GenerateCommand
import GrammarSampler.Proofs.EmptyVariants
import GrammarSampler.Proofs.NumberedChains
import GrammarSampler.Proofs.CheckedLists
import GrammarSampler.Proofs.StageAccesses
import GrammarSampler.Proofs.TableAccesses
import GrammarSampler.Proofs.DenseNumbering
