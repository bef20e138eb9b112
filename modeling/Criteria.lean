import Criteria.Outline.Json
import Criteria.Outline.Parse
import Criteria.Plan.FetchTree
import Criteria.Query.Build
import Criteria.Tally.Export
import Criteria.Value.Json
import Criteria.Proofs.Outline.Nesting
import Criteria.Proofs.Outline.Parts
import Criteria.Proofs.Outline.Spelling
import Criteria.Proofs.Relation.Coherence
import Criteria.Proofs.Relation.History
import Criteria.Proofs.Property.Attributes
import Criteria.Proofs.Property.Changes
import Criteria.Proofs.Property.Requests
import Criteria.Proofs.Property.Carrying
import Criteria.Proofs.Query.Reduction
import Criteria.Proofs.Query.Requirements
import Criteria.Proofs.Relation.Chains
import Criteria.Proofs.Relation.Register
import Criteria.Proofs.Outline.Leaves
import Criteria.Proofs.Prefetch.Closure
import Criteria.Proofs.Property.Inquiry
import Criteria.Proofs.Query.Builds
import Criteria.Proofs.Query.Inquiries
import Criteria.Proofs.Query.Joins
import Criteria.Proofs.Property.Answers
import Criteria.Proofs.Query.Reuse
import Criteria.Proofs.Query.Filters
import Criteria.Proofs.Query.Merging
import Criteria.Proofs.Outline.Expansion
import Criteria.Proofs.Prefetch.Grouping
import Criteria.Proofs.Prefetch.Refusals
import Criteria.Proofs.Query.Assembly
import Criteria.Proofs.Query.Refusals
import Criteria.Proofs.Query.Order
import Criteria.Proofs.Condition.Evaluation
import Criteria.Proofs.Property.Survey
import Criteria.Proofs.Property.Events
import Criteria.Proofs.Property.Lockstep
import Criteria.Proofs.Property.Texts
import Criteria.Proofs.Outline.Reads
import Criteria.Proofs.Outline.Brackets
import Criteria.Proofs.Outline.Commas
import Criteria.Proofs.Outline.Rereading
import Criteria.Proofs.Outline.Conservation
import Criteria.Proofs.Outline.Completion
import Criteria.Proofs.Property.Views
import Criteria.Proofs.Query.Prefetching
import Criteria.Proofs.Relation.Counting
import Criteria.Proofs.Property.Counting
import Criteria.Proofs.Query.Freezes
import Criteria.Proofs.Query.Accounting
import Criteria.Proofs.Relation.Creation
import Criteria.Proofs.Relation.Resumption
import Criteria.Proofs.Property.Frame
import Criteria.Proofs.Relation.Fresh
import Criteria.Proofs.Expr.Grouping
import Criteria.Proofs.Expr.Reading
import Criteria.Proofs.Expr.Conjunction
import Criteria.Proofs.Property.Entries
import Criteria.Proofs.Conjuncts.Course
import Criteria.Proofs.Conjuncts.Splitting
import Criteria.Proofs.Property.Repetition
import Criteria.Proofs.Condition.Repetition
import Criteria.Proofs.Prefetch.Sequence
import Criteria.Proofs.Query.Contradictions
import Criteria.Proofs.Plan.Telling
import Criteria.Proofs.Plan.Forest
import Criteria.Proofs.Outline.Cuts
import Criteria.Proofs.Outline.Distribution
import Criteria.Proofs.Query.Patterns
import Criteria.Proofs.Value.Rereading
