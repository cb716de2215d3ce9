import BuildScript.Host.Stock
import BuildScript.Main
import BuildScript.Proofs.Concatenation
import BuildScript.Proofs.Declarative
import BuildScript.Proofs.ParsedPrograms
import BuildScript.Proofs.HermeticImports
import BuildScript.Proofs.TokenArrays
import BuildScript.Proofs.Splicing
import BuildScript.Proofs.SpelledTrees
import BuildScript.Proofs.Sessions
import BuildScript.Proofs.ClientEvaluation
import BuildScript.Proofs.RenderedData
import BuildScript.Proofs.Layout
import BuildScript.Proofs.Replay
import BuildScript.Proofs.LexicalGrammar
import BuildScript.Proofs.Termination
import BuildScript.Proofs.PrintedDefinitions
import BuildScript.Proofs.Unrolling
import BuildScript.Proofs.Locations
import BuildScript.Proofs.LeftoverPlace
import BuildScript.Proofs.ResolverCalls
import BuildScript.Proofs.FreeVariables
import BuildScript.Proofs.FailingNodes
import BuildScript.Proofs.ArgumentPlaces
import BuildScript.Proofs.FaithfulRendering
import BuildScript.Proofs.LexerRuns
import BuildScript.Proofs.ScopeChain
import BuildScript.Proofs.NodePlaces
import BuildScript.Proofs.EnumeratedImports
import BuildScript.Proofs.AgreeingBuiltins
import BuildScript.Proofs.RenderedTrees
import BuildScript.Proofs.ArgumentLists
