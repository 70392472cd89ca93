import PatchDynamics.Box.Attended
import PatchDynamics.Main
import PatchDynamics.Proofs.Box.Calls
import PatchDynamics.Proofs.Box.Completion
import PatchDynamics.Proofs.Box.Reopening
import PatchDynamics.Proofs.Box.Contest
import PatchDynamics.Proofs.Box.Account
import PatchDynamics.Proofs.Box.Race
import PatchDynamics.Proofs.Patch.Protocol
import PatchDynamics.Proofs.Aggregator.Delivery
import PatchDynamics.Proofs.Aggregator.Horizon
import PatchDynamics.Proofs.Patch.Course
import PatchDynamics.Proofs.Patch.Publication
import PatchDynamics.Proofs.Patch.Reduction
import PatchDynamics.Proofs.Assembly.Calls
import PatchDynamics.Proofs.Directory.Entries
import PatchDynamics.Proofs.Directory.Record
import PatchDynamics.Proofs.Directory.Words
import PatchDynamics.Proofs.Directory.Replacement
import PatchDynamics.Proofs.Directory.Migration
import PatchDynamics.Proofs.Schedule.Worker
import PatchDynamics.Proofs.Schedule.Crew
import PatchDynamics.Proofs.Schedule.Step
import PatchDynamics.Proofs.Schedule.Enrolled
import PatchDynamics.Proofs.Schedule.Round
import PatchDynamics.Proofs.Schedule.Independence
import PatchDynamics.Proofs.Directory.Residence
import PatchDynamics.Proofs.Grid.Cells
import PatchDynamics.Proofs.Schedule.Registration
import PatchDynamics.Proofs.Experiment.Migration
import PatchDynamics.Proofs.Experiment.Forces
import PatchDynamics.Proofs.Experiment.Motion
import PatchDynamics.Proofs.Experiment.Output
import PatchDynamics.Proofs.Experiment.Underway
import PatchDynamics.Proofs.Experiment.Start
import PatchDynamics.Proofs.Experiment.Conservation
import PatchDynamics.Proofs.Box.Origins
import PatchDynamics.Proofs.Grid.Neighbors
import PatchDynamics.Proofs.Experiment.Interactions
import PatchDynamics.Proofs.Aggregator.Batches
import PatchDynamics.Proofs.Aggregator.Collector
import PatchDynamics.Proofs.Schedule.Gather
import PatchDynamics.Proofs.Schedule.Reference
import PatchDynamics.Proofs.Grid.Adjacency
import PatchDynamics.Proofs.Grid.Neighborhood
import PatchDynamics.Proofs.Box.Custody
import PatchDynamics.Proofs.Box.Slots
import PatchDynamics.Proofs.Box.Acceptance
import PatchDynamics.Proofs.Patch.Beginning
import PatchDynamics.Proofs.Box.Observation
import PatchDynamics.Proofs.Patch.Rosters
import PatchDynamics.Proofs.Roster.Arrivals
import PatchDynamics.Proofs.Schedule.FailedRegistration
import PatchDynamics.Proofs.Schedule.PartialRuns
import PatchDynamics.Proofs.Grid.Numbering
import PatchDynamics.Proofs.Experiment.Endurance
import PatchDynamics.Proofs.Experiment.Validation
import PatchDynamics.Proofs.Directory.Commuting
import PatchDynamics.Proofs.Experiment.Placement
import PatchDynamics.Proofs.Box.Ledger
import PatchDynamics.Proofs.Box.Erasure
import PatchDynamics.Proofs.Patch.Ledgers
import PatchDynamics.Proofs.Assembly.Ledgers
import PatchDynamics.Proofs.Schedule.Membership
import PatchDynamics.Proofs.Rounding.Nearest
import PatchDynamics.Proofs.Rounding.Values
import PatchDynamics.Proofs.Rounding.Arithmetic
import PatchDynamics.Proofs.Rounding.Integral
import PatchDynamics.Proofs.Grid.Wrapping
import PatchDynamics.Proofs.Grid.Faces
