import CardTable.Main
import CardTable.Proofs.Script.BodiesWithoutTypes
import CardTable.Proofs.Script.Expressions.Casts
import CardTable.Proofs.Script.Expressions.Lengths
import CardTable.Proofs.Script.Expressions.Negation
import CardTable.Proofs.Script.Expressions.OrderedValues
import CardTable.Proofs.Script.Expressions.SpreadLiterals
import CardTable.Proofs.Script.Interpreter.UnexpectedTokens
import CardTable.Proofs.Script.Lexer.StringEscapes
import CardTable.Proofs.Source.LeadingComments
import CardTable.Proofs.Source.UntypedTexts
import CardTable.Proofs.Files.NormalizedPaths
import CardTable.Proofs.Modules.BatchEvaluation
import CardTable.Proofs.Modules.Manifests
import CardTable.Proofs.Corpus.DateSpellings
import CardTable.Proofs.Table.RefusedCards
import CardTable.Proofs.Table.StoredCells
import CardTable.Proofs.Table.TableStatements
import CardTable.Proofs.Artifact.Atomicity
import CardTable.Proofs.Compile.CleanUp
import CardTable.Proofs.Compile.ComposedIds
import CardTable.Proofs.Compile.Reruns
