import Recast.Address
import Recast.Api
import Recast.Api.Context
import Recast.Api.Request
import Recast.Application
import Recast.Country
import Recast.Country.Remote
import Recast.Customer
import Recast.Decimal.Double
import Recast.Decimal.Reader
import Recast.Decimal.Shortest
import Recast.Errors
import Recast.Json
import Recast.Json.Reader
import Recast.LazyCell
import Recast.Log.Config
import Recast.Log.Line
import Recast.Log.Record
import Recast.Mapping.Builder
import Recast.Mapping.Compute
import Recast.Mapping.Mapper
import Recast.Mapping.Rule
import Recast.Phone
import Recast.Process.Machine
import Recast.Process.Program
import Recast.Process.Round
import Recast.Schema
import Recast.Schema.Validation
import Recast.Session
import Recast.Session.Formula
import Recast.Session.Recipe
import Recast.Settings
import Recast.Slot
import Recast.Slot.Setter
import Recast.Store
import Recast.Store.Attribute
import Recast.Store.Construct
import Recast.Store.Display
import Recast.Store.Operation
import Recast.Store.Written
import Recast.Text.Blank
import Recast.Text.Digit
import Recast.Text.Identifier
import Recast.Text.IdentifierTable
import Recast.Text.Octets
import Recast.Text.Points
import Recast.Text.PrintableTable
import Recast.Text.Quoted
import Recast.Text.Upper
import Recast.Url
import Recast.Value
import Recast.Value.Moment
import Recast.Value.Template
import Recast.Proofs.Path
import Recast.Proofs.Registration
import Recast.Proofs.Usage
import Recast.Proofs.Continuation
import Recast.Proofs.Move
import Recast.Proofs.Interference
import Recast.Proofs.Plan
import Recast.Proofs.Filling
import Recast.Proofs.Gathering
import Recast.Proofs.Schedule
import Recast.Proofs.InTurn
import Recast.Proofs.Appearance
import Recast.Proofs.Pattern
import Recast.Proofs.Nesting
import Recast.Proofs.Course
import Recast.Proofs.Composition
import Recast.Proofs.WholeTarget
import Recast.Proofs.Performance
import Recast.Proofs.Traffic
import Recast.Proofs.Frame
import Recast.Proofs.Ownership
import Recast.Proofs.OwnTargets
import Recast.Proofs.OneShot
import Recast.Proofs.Sharing
import Recast.Proofs.Service
import Recast.Proofs.Cancelling
import Recast.Proofs.Conduct
import Recast.Proofs.Interruption
import Recast.Proofs.Answer
import Recast.Proofs.Completion
import Recast.Proofs.Overlap
import Recast.Proofs.Verdict
import Recast.Proofs.OneByOne
import Recast.Proofs.Account
import Recast.Proofs.Transparency
import Recast.Proofs.Turn
import Recast.Proofs.Together
import Recast.Proofs.Company
import Recast.Proofs.Duration
import Recast.Proofs.Pace
import Recast.Proofs.Clash
import Recast.Proofs.Reordering
import Recast.Proofs.OnTheSpot
import Recast.Proofs.History
import Recast.Proofs.Errand
import Recast.Proofs.Dispatch
import Recast.Proofs.Fulfilment
import Recast.Proofs.Forms
import Recast.Proofs.Addresses
import Recast.Proofs.Customers
import Recast.Proofs.Keeping
import Recast.Proofs.Contents
import Recast.Proofs.CustomerCalls
import Recast.Proofs.Notation
import Recast.Proofs.Writing
import Recast.Proofs.Envelope
import Recast.Proofs.Reporting
import Recast.Proofs.ServiceLog
import Recast.Proofs.Attribution
import Recast.Proofs.Correlation
import Recast.Proofs.Containment
import Recast.Proofs.FirstUse
import Recast.Proofs.Uses
import Recast.Proofs.Classification
import Recast.Proofs.Replies
import Recast.Proofs.Rivals
import Recast.Proofs.InStep
import Recast.Proofs.Deputies
import Recast.Proofs.SideBySide
import Recast.Proofs.Thresholds
