import PaymentRelay.Event.PaymentSucceeded
import PaymentRelay.Text.Blank

/-!
# Settings

The settings of a service, looked up by name. Only the address of the database has to be given; every
other setting has a default. A number has to be positive and to fit its range: it is read without the
blanks around it, and quoted with them when it is refused.

Settings are examined in the order of the fields of `Settings`, and the first problem is the one
reported.
-/

namespace PaymentRelay

/-- Why settings are not taken. -/
inductive SettingsError where
  /-- A setting without a default is not there. -/
  | missing (name : String)
  /-- A setting is no positive number of its range. -/
  | invalid (name value : String)
deriving DecidableEq, Repr

/-- The wording of a settings error. -/
def SettingsError.message : SettingsError → String
  | missing name => name ++ " must be set"
  | invalid name value => name ++ " is invalid: " ++ value

/-- The settings of a service. -/
structure Settings where
  databaseAddress : String
  databaseConnections : Nat
  keyStoreAddress : String
  brokerAddresses : String
  listenAddress : String
  topic : String
  pollInterval : Duration
  batch : Nat
  claimLifetime : Duration
  keyLifetime : Duration
deriving DecidableEq, Repr

namespace Settings

/-- Where settings are looked up. -/
abbrev Lookup := String → Option String

/-- A positive number below `bound`, or its default. -/
def positive (lookup : Lookup) (bound : Nat) (name : String) (default : Nat) :
    Except SettingsError Nat :=
  match lookup name with
  | none => .ok default
  | some raw =>
    match Text.unsigned? bound (Text.trimBlank raw.toList) with
    | some n => if 0 < n then .ok n else .error (.invalid name raw)
    | none => .error (.invalid name raw)

/-- The settings a look-up gives. -/
def ofLookup (lookup : Lookup) : Except SettingsError Settings := do
  let databaseAddress ← match lookup "DATABASE_URL" with
    | some address => .ok address
    | none => .error (.missing "DATABASE_URL")
  let text (name default : String) := (lookup name).getD default
  let databaseConnections ← positive lookup Width.bits32 "DB_MAX_CONNECTIONS" 20
  let pollMillis ← positive lookup Width.bits64 "OUTBOX_POLL_INTERVAL_MS" 5000
  let batch ← positive lookup Width.bits64 "OUTBOX_BATCH_SIZE" 100
  let claimSeconds ← positive lookup Width.bits64 "OUTBOX_CLAIM_TTL_SECS" 30
  let keySeconds ← positive lookup Width.bits64 "IDEMPOTENCY_TTL_SECS" (30 * 24 * 60 * 60)
  return {
    databaseAddress
    databaseConnections
    keyStoreAddress := text "REDIS_URL" "redis://127.0.0.1:6379"
    brokerAddresses := text "KAFKA_BROKERS" "127.0.0.1:9092"
    listenAddress := text "LISTEN_ADDR" "0.0.0.0:3000"
    topic := text "PAYMENTS_TOPIC" PaymentSucceeded.defaultTopic
    pollInterval := .ofMillis pollMillis
    batch
    claimLifetime := .ofSeconds claimSeconds
    keyLifetime := .ofSeconds keySeconds }

end Settings

end PaymentRelay
