import GroupPlan.PatternGroup.Edit
import GroupPlan.PatternGroup.Attempt
import GroupPlan.PatternGroup.Planning
import GroupPlan.PatternGroup.Subtree
import GroupPlan.Plan.Outline
import GroupPlan.Proofs.Presence
import GroupPlan.Rdf.BoundVariables
import GroupPlan.Rdf.PlanAlgebra
import GroupPlan.Rdf.Text
import GroupPlan.Proofs.ListEncoding
import GroupPlan.Proofs.Attachment
import GroupPlan.Proofs.Composition
import GroupPlan.Proofs.Leaves
import GroupPlan.Proofs.FilterAccounting
import GroupPlan.Proofs.Solutions
import GroupPlan.Proofs.PlanSolutions
import GroupPlan.Proofs.GroupAnswers
import GroupPlan.Proofs.FilterPlacement
import GroupPlan.Proofs.Absence
import GroupPlan.Proofs.Extension
import GroupPlan.Proofs.FilterScope
import GroupPlan.Proofs.Attainable
import GroupPlan.Proofs.Recovery
import GroupPlan.Proofs.EqualGroups
import GroupPlan.Proofs.Rearrangement
import GroupPlan.Proofs.EqualMeaning
import GroupPlan.Proofs.PlanSize
import GroupPlan.Proofs.EventAccounting
import GroupPlan.Proofs.LeftJoinReplay
import GroupPlan.Proofs.TraceCompleteness
import GroupPlan.Proofs.AlgebraSolutions
import GroupPlan.Proofs.AlgebraRecovery
import GroupPlan.Proofs.ConditionText
import GroupPlan.Proofs.OutlineLines
import GroupPlan.Proofs.OutlineRecovery
import GroupPlan.Proofs.EditSummary
import GroupPlan.Proofs.BlankGroups
import GroupPlan.Proofs.ChildExchange
import GroupPlan.Proofs.EqualShape
import GroupPlan.Proofs.OptionalFlag
import GroupPlan.Proofs.Bracing
import GroupPlan.Proofs.FilterRestriction
import GroupPlan.Proofs.RequiredRuns
import GroupPlan.Proofs.EmptySource
import GroupPlan.Proofs.ChildRetraction
import GroupPlan.Proofs.PlanVariables
import GroupPlan.Proofs.OutlineCounts
