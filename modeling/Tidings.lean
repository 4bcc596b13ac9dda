import Tidings.Event.Wire
import Tidings.Launch
import Tidings.Listener
import Tidings.Logging
import Tidings.Settings.Codec
import Tidings.Proofs.Dict
import Tidings.Proofs.Log
import Tidings.Proofs.Representation
import Tidings.Proofs.Refinement
import Tidings.Proofs.Delivery
import Tidings.Proofs.Registration
import Tidings.Proofs.Deeds
import Tidings.Proofs.Run
import Tidings.Proofs.Groups
import Tidings.Proofs.Attempts
import Tidings.Proofs.Clients
import Tidings.Proofs.Convergence
import Tidings.Proofs.DurableNotify
import Tidings.Proofs.Dismissal
import Tidings.Proofs.Effects
import Tidings.Proofs.Seclusion
import Tidings.Proofs.Isolation
import Tidings.Proofs.Network
import Tidings.Proofs.Fanout
import Tidings.Proofs.Journal
import Tidings.Proofs.Publishing
import Tidings.Proofs.Restraint
import Tidings.Proofs.Locking
import Tidings.Proofs.Interleaving
import Tidings.Proofs.Schedule
import Tidings.Proofs.Serial
import Tidings.Proofs.Chronicle
import Tidings.Proofs.Overtaking
import Tidings.Proofs.Parsing
import Tidings.Proofs.Calendar
import Tidings.Proofs.Identifiers
import Tidings.Proofs.Timestamps
import Tidings.Proofs.RoundTrip
import Tidings.Proofs.Envelopes
import Tidings.Proofs.Survival
import Tidings.Proofs.Announcing
import Tidings.Proofs.Leaving
import Tidings.Proofs.Lifecycle
import Tidings.Proofs.Restarts
import Tidings.Proofs.Sweeping
import Tidings.Proofs.Roll
import Tidings.Proofs.Reckoning
import Tidings.Proofs.Relay
import Tidings.Proofs.Sessions
import Tidings.Proofs.Since
import Tidings.Proofs.WireBody
import Tidings.Proofs.EventSource
import Tidings.Proofs.Replay
import Tidings.Proofs.GroupDismissal
import Tidings.Proofs.Columns
import Tidings.Proofs.Connecting
import Tidings.Proofs.Variables
import Tidings.Proofs.Callers
import Tidings.Proofs.Bookkeeping
import Tidings.Proofs.Delays
import Tidings.Proofs.Listening
