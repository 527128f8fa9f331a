import Provisioning.Filter.Match
import Provisioning.Filter.Parser
import Provisioning.Filter.Printer
import Provisioning.Json.Properties
import Provisioning.MemberPid
import Provisioning.Proofs.Agreement
import Provisioning.Proofs.Authenticity
import Provisioning.Proofs.Convergence
import Provisioning.Proofs.Deletion
import Provisioning.Proofs.Disclosure
import Provisioning.Proofs.Draining
import Provisioning.Proofs.Generations
import Provisioning.Proofs.Grammar
import Provisioning.Proofs.Holders
import Provisioning.Proofs.Indifference
import Provisioning.Proofs.Isolation
import Provisioning.Proofs.LateGreetings
import Provisioning.Proofs.Listing
import Provisioning.Proofs.Membership
import Provisioning.Proofs.Mirror
import Provisioning.Proofs.Printing
import Provisioning.Proofs.Queueing
import Provisioning.Proofs.Recipients
import Provisioning.Proofs.Refusals
import Provisioning.Proofs.Repetition
import Provisioning.Proofs.Restart
import Provisioning.Proofs.Resubmission
import Provisioning.Proofs.Watermarks
import Provisioning.Session.Step
import Provisioning.Proofs.Announcements
import Provisioning.Proofs.Abreast
import Provisioning.Proofs.Unhindered
import Provisioning.Proofs.Accord
import Provisioning.Proofs.Seclusion
import Provisioning.Proofs.Matching
import Provisioning.Proofs.Reloading
import Provisioning.Proofs.Lodgings
import Provisioning.Proofs.Homes
import Provisioning.Proofs.Faults
import Provisioning.Proofs.Histories
import Provisioning.Proofs.WriteThrough
import Provisioning.Proofs.Pipelines
import Provisioning.Proofs.Precedence
import Provisioning.Proofs.Numerals
import Provisioning.Proofs.PlainMaps
import Provisioning.Proofs.Minting
import Provisioning.Proofs.Standstill
