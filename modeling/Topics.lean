import Topics.Main
import Topics.Definition.Draft
import Topics.Kind
import Topics.Proofs.Catalog.WellFormed
import Topics.Proofs.Definition.Wildcard
import Topics.Proofs.Registry.Dispatch
import Topics.Proofs.Field.Param
import Topics.Proofs.Registry.Lookup
import Topics.Proofs.Payload
import Topics.Proofs.Catalog.Front
import Topics.Proofs.Catalog.Keys
import Topics.Proofs.Registry.Tables
import Topics.Proofs.Catalog.Forest
import Topics.Proofs.Subscription
import Topics.Proofs.Registry.Order
import Topics.Proofs.Registry.Canonical
import Topics.Proofs.Kind
import Topics.Proofs.Schema
import Topics.Proofs.Pattern.Sound
import Topics.Proofs.Field.Grammar
import Topics.Proofs.Definition.ParseOutcome
import Topics.Proofs.Definition.Spelling
import Topics.Proofs.Definition.BuildOutcome
import Topics.Proofs.CommandLine.Assignment
import Topics.Proofs.CommandLine.Params
import Topics.Proofs.Decoded
import Topics.Proofs.Registry.Wildcard
import Topics.Proofs.Bytes32
import Topics.Proofs.Definition.Draft
import Topics.Proofs.Payload.Params
import Topics.Proofs.Payload.Entity
import Topics.Proofs.Field.Fault
