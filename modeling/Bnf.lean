import Bnf.Main
import Bnf.Proofs.CycleSearch
import Bnf.Proofs.Faults
import Bnf.Proofs.Language
import Bnf.Proofs.Modifiers
import Bnf.Proofs.OrderedChoice
import Bnf.Proofs.Prediction
import Bnf.Proofs.RecursionGuard
import Bnf.Proofs.RoundTrip
import Bnf.Proofs.UsableRules
import Bnf.Proofs.Trial
import Bnf.Proofs.ReachableRules
import Bnf.Proofs.MissingRules
import Bnf.Proofs.RuleLine
import Bnf.Proofs.Reloading
import Bnf.Proofs.HomeCommands
import Bnf.Proofs.Live
import Bnf.Proofs.Conversation
import Bnf.Proofs.ChangeLog
import Bnf.Proofs.WellFormed
import Bnf.Proofs.Composition
import Bnf.Proofs.Positions
import Bnf.Proofs.DeadAlternatives
import Bnf.Proofs.CallTree
import Bnf.Proofs.Inlining
import Bnf.Proofs.LineFormat
import Bnf.Proofs.Merging
import Bnf.Proofs.LoadingRoutes
import Bnf.Proofs.CharacterSets
import Bnf.Proofs.Cuts
import Bnf.Proofs.Shape
