import PaymentRelay.Binary64.Basic
import PaymentRelay.Binary64.Shortest
import PaymentRelay.Consumer.Delivery
import PaymentRelay.Consumer.Dispatch
import PaymentRelay.Consumer.Notification
import PaymentRelay.Decimal.Basic
import PaymentRelay.Decimal.Numeral
import PaymentRelay.Event.Envelope
import PaymentRelay.Event.PaymentSucceeded
import PaymentRelay.Http.MediaType
import PaymentRelay.Http.PayRequest
import PaymentRelay.Http.Request
import PaymentRelay.Http.Response
import PaymentRelay.Journal
import PaymentRelay.Json.Reader
import PaymentRelay.Json.Record
import PaymentRelay.Json.Value
import PaymentRelay.Json.Writer
import PaymentRelay.Order.Book
import PaymentRelay.Outbox.Poller
import PaymentRelay.Outbox.Tick
import PaymentRelay.Payment.Amount
import PaymentRelay.Payment.Command
import PaymentRelay.Payment.Error
import PaymentRelay.Payment.Identity
import PaymentRelay.Payment.Processing
import PaymentRelay.Register
import PaymentRelay.Scenario.Fault
import PaymentRelay.Scenario.Session
import PaymentRelay.Scenario.Step
import PaymentRelay.Settings
import PaymentRelay.Store.Broker
import PaymentRelay.Store.Database
import PaymentRelay.Store.KeyStore
import PaymentRelay.Store.Server
import PaymentRelay.System
import PaymentRelay.Text.Blank
import PaymentRelay.Text.Numeral
import PaymentRelay.Time.Calendar
import PaymentRelay.Time.Instant
import PaymentRelay.Time.Rfc3339
import PaymentRelay.Uuid
import PaymentRelay.Width
import PaymentRelay.Proofs.Command.Transition
import PaymentRelay.Proofs.World.Basic
import PaymentRelay.Proofs.World.Change
import PaymentRelay.Proofs.World.Touch
import PaymentRelay.Proofs.World.Lease
import PaymentRelay.Proofs.Command.Rows
import PaymentRelay.Proofs.World.Contest
import PaymentRelay.Proofs.World.Ending
import PaymentRelay.Proofs.World.OnePayment
import PaymentRelay.Proofs.World.Tally
import PaymentRelay.Proofs.World.Pairing
import PaymentRelay.Proofs.Outbox.Rows
import PaymentRelay.Proofs.World.Relay
import PaymentRelay.Proofs.Command.Completion
import PaymentRelay.Proofs.Json.Strings
import PaymentRelay.Proofs.Json.Numbers
import PaymentRelay.Proofs.Json.Records
import PaymentRelay.Proofs.Event.Wire
import PaymentRelay.Proofs.World.Feed
import PaymentRelay.Proofs.World.Reception
import PaymentRelay.Proofs.World.Pipeline
import PaymentRelay.Proofs.World.Exclusion
import PaymentRelay.Proofs.World.Acknowledgement
import PaymentRelay.Proofs.World.Compensation
import PaymentRelay.Proofs.Keys.History
import PaymentRelay.Proofs.Delivery.Transition
import PaymentRelay.Proofs.Delivery.Mailroom
import PaymentRelay.Proofs.Delivery.Redelivery
import PaymentRelay.Proofs.Outbox.Queue
import PaymentRelay.Proofs.World.Batch
import PaymentRelay.Proofs.World.Recovery
import PaymentRelay.Proofs.Event.RoundTrip
import PaymentRelay.Proofs.Outbox.PrimaryKey
import PaymentRelay.Proofs.Http.Resolution
import PaymentRelay.Proofs.Http.Exchange
import PaymentRelay.Proofs.Command.Isolation
import PaymentRelay.Proofs.World.Separation
import PaymentRelay.Proofs.Http.Service
import PaymentRelay.Proofs.Outbox.LifeCycle
import PaymentRelay.Proofs.Outbox.Custody
import PaymentRelay.Proofs.Outbox.Claims
import PaymentRelay.Proofs.Outbox.Calls
import PaymentRelay.Proofs.Outbox.OneTick
import PaymentRelay.Proofs.Outbox.Drain
import PaymentRelay.Proofs.Delivery.Selection
import PaymentRelay.Proofs.Delivery.Isolation
import PaymentRelay.Proofs.World.Sharing
import PaymentRelay.Proofs.Decimal.Numerals
import PaymentRelay.Proofs.Decimal.Exactness
import PaymentRelay.Proofs.Binary64.Rounding
import PaymentRelay.Proofs.Binary64.Shortest
import PaymentRelay.Proofs.Json.Readings
import PaymentRelay.Proofs.Json.NumberTexts
import PaymentRelay.Proofs.Json.Doubles
import PaymentRelay.Proofs.Http.ExactAmounts
import PaymentRelay.Proofs.Decimal.Cents
import PaymentRelay.Proofs.Text.Trimming
import PaymentRelay.Proofs.Json.Fields
import PaymentRelay.Proofs.Event.Lawful
import PaymentRelay.Proofs.Delivery.Orders
import PaymentRelay.Proofs.Time.Years
import PaymentRelay.Proofs.Settings.Running
import PaymentRelay.Proofs.Keys.Comparison
import PaymentRelay.Proofs.Text.Fields
import PaymentRelay.Proofs.Time.Gregorian
import PaymentRelay.Proofs.Time.Timestamps
import PaymentRelay.Proofs.Json.Texts
import PaymentRelay.Proofs.Json.Documents
import PaymentRelay.Proofs.Event.Encoding
