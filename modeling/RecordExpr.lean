import RecordExpr.Command.Logging
import RecordExpr.Main
import RecordExpr.Settle.Session
import RecordExpr.Proofs.Chronicle
import RecordExpr.Proofs.History
import RecordExpr.Proofs.Interleaving
import RecordExpr.Proofs.DecidableOutcomes
import RecordExpr.Proofs.DirectEvaluation
import RecordExpr.Proofs.BatchOfOne
import RecordExpr.Proofs.Handles
import RecordExpr.Proofs.DirectBatch
import RecordExpr.Proofs.Repetition
import RecordExpr.Proofs.CacheView
import RecordExpr.Proofs.AnswerOrder
import RecordExpr.Proofs.Growth
import RecordExpr.Proofs.DependencyDepth
import RecordExpr.Proofs.Conclusion
import RecordExpr.Proofs.SettlingDepth
import RecordExpr.Proofs.LookupCount
import RecordExpr.Proofs.BatchSettling
import RecordExpr.Proofs.NearestNumber
import RecordExpr.Proofs.NumberText
import RecordExpr.Proofs.LookupTransparency
import RecordExpr.Proofs.PlainValues
import RecordExpr.Proofs.StaleTickets
import RecordExpr.Proofs.FilterMode
import RecordExpr.Proofs.Grammar
import RecordExpr.Proofs.GrammarReading
import RecordExpr.Proofs.Lexemes
import RecordExpr.Proofs.PrintedText
import RecordExpr.Proofs.Reprinting
import RecordExpr.Proofs.Completion
import RecordExpr.Proofs.PendingPolicies
import RecordExpr.Proofs.Precedence
import RecordExpr.Proofs.PatternMatching
import RecordExpr.Proofs.PatternWalk
import RecordExpr.Proofs.Nodes
import RecordExpr.Proofs.Courses
import RecordExpr.Proofs.EvaluationRules
import RecordExpr.Proofs.EvaluationOrder
import RecordExpr.Proofs.BlamedCalls
import RecordExpr.Proofs.Places
import RecordExpr.Proofs.TokenRanges
import RecordExpr.Proofs.FaultLocation
import RecordExpr.Proofs.RoundCeiling
import RecordExpr.Proofs.Spelling
import RecordExpr.Proofs.NodeRanges
import RecordExpr.Proofs.EqualValues
import RecordExpr.Proofs.StringLiterals
import RecordExpr.Proofs.PagedLookups
import RecordExpr.Proofs.Documents
import RecordExpr.Proofs.Unplaced
import RecordExpr.Proofs.UniqueReading
import RecordExpr.Proofs.TokenKinds
import RecordExpr.Proofs.LineEnds
import RecordExpr.Proofs.FirstFault
import RecordExpr.Proofs.OrderLaws
