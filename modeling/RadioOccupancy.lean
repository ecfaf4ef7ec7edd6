import RadioOccupancy.Proofs.Accounting
import RadioOccupancy.Proofs.Clock
import RadioOccupancy.Proofs.Coherent
import RadioOccupancy.Proofs.Delivery
import RadioOccupancy.Proofs.Interruption
import RadioOccupancy.Proofs.Keys
import RadioOccupancy.Proofs.Persistence
import RadioOccupancy.Proofs.Reentrance
import RadioOccupancy.Proofs.Refinement
import RadioOccupancy.Proofs.Refusal
import RadioOccupancy.Proofs.Retelling
import RadioOccupancy.Proofs.Secondary
import RadioOccupancy.Proofs.Truth
import RadioOccupancy.Session.Run
import RadioOccupancy.Proofs.Idleness
import RadioOccupancy.Proofs.BusyEdge
import RadioOccupancy.Proofs.Quiet
import RadioOccupancy.Proofs.Transparency
import RadioOccupancy.Proofs.Observation
import RadioOccupancy.Proofs.ErrorLog
import RadioOccupancy.Proofs.Rejection
import RadioOccupancy.Proofs.Onset
import RadioOccupancy.Proofs.Attachment
import RadioOccupancy.Proofs.Disposal
import RadioOccupancy.Proofs.Membership
import RadioOccupancy.Proofs.Callbacks
import RadioOccupancy.Proofs.Channels
import RadioOccupancy.Proofs.Listing
import RadioOccupancy.Proofs.Retention
import RadioOccupancy.Proofs.Steps
import RadioOccupancy.Proofs.Durations
import RadioOccupancy.Proofs.OwnReport
