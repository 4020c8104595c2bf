import PaymentRelay.Proofs.Json.Readings
import PaymentRelay.Proofs.Outbox.Drain
import PaymentRelay.Proofs.Time.Years
import PaymentRelay.Settings
import PaymentRelay.Store.Server

/-!
# Running with settings

Settings that are taken have numbers that are positive and fit 64 bits (`Settings.inRange_of_ofLookup`). Three of the
places these numbers go to have ranges of their own. The key store and the database server take numbers of 64 bits with
a sign, and refuse others before anything is sent. A claim has to end within the calendar: a lifetime that the calendar
cannot count is replaced by a day, and one of up to 7,956,864,576,000 seconds ends in time, whenever before the year
10000 it begins (`Settings.ClaimFits`).

A poller over a database whose claims last as the settings say does not break down (`accepted_settings_run`).
-/

namespace PaymentRelay

namespace Settings

/-! ## The numbers of settings -/

/-- The numbers of settings are positive and fit their ranges. -/
structure InRange (settings : Settings) : Prop where
  connections : 0 < settings.databaseConnections ∧ settings.databaseConnections < Width.bits32
  interval : ∃ millis, settings.pollInterval = .ofMillis millis ∧ 0 < millis ∧ millis < Width.bits64
  batch : 0 < settings.batch ∧ settings.batch < Width.bits64
  claim : ∃ seconds, settings.claimLifetime = .ofSeconds seconds ∧ 0 < seconds ∧ seconds < Width.bits64
  key : ∃ seconds, settings.keyLifetime = .ofSeconds seconds ∧ 0 < seconds ∧ seconds < Width.bits64

variable {lookup : Lookup} {settings : Settings} {bound default n : Nat} {name : String}

/-- A number that is taken is positive and fits its range, if its default does. -/
theorem positive_inRange (hdefault : 0 < default ∧ default < bound) (h : positive lookup bound name default = .ok n) :
    0 < n ∧ n < bound := by
  unfold positive at h
  split at h
  next => cases h; exact hdefault
  next raw hraw =>
    split at h
    next m hread =>
      split at h
      next hpos =>
        cases h
        exact ⟨hpos, of_decide_eq_true (Option.filter_eq_some_iff.mp hread).2⟩
      next => cases h
    next => cases h

/-- Settings that are taken have the numbers that were looked up. -/
theorem numbers_of_ofLookup (h : ofLookup lookup = .ok settings) : ∃ millis claim key,
    positive lookup Width.bits32 "DB_MAX_CONNECTIONS" 20 = .ok settings.databaseConnections ∧
    positive lookup Width.bits64 "OUTBOX_POLL_INTERVAL_MS" 5000 = .ok millis ∧
    positive lookup Width.bits64 "OUTBOX_BATCH_SIZE" 100 = .ok settings.batch ∧
    positive lookup Width.bits64 "OUTBOX_CLAIM_TTL_SECS" 30 = .ok claim ∧
    positive lookup Width.bits64 "IDEMPOTENCY_TTL_SECS" (30 * 24 * 60 * 60) = .ok key ∧
    settings.pollInterval = .ofMillis millis ∧ settings.claimLifetime = .ofSeconds claim ∧
    settings.keyLifetime = .ofSeconds key := by
  unfold ofLookup at h
  cases haddress : lookup "DATABASE_URL" with
  | none => rw [haddress] at h; cases h
  | some address =>
    simp only [haddress] at h
    obtain ⟨_, -, h⟩ := Json.bind_eq_ok.mp h
    obtain ⟨connections, hconnections, h⟩ := Json.bind_eq_ok.mp h
    obtain ⟨millis, hmillis, h⟩ := Json.bind_eq_ok.mp h
    obtain ⟨batch, hbatch, h⟩ := Json.bind_eq_ok.mp h
    obtain ⟨claim, hclaim, h⟩ := Json.bind_eq_ok.mp h
    obtain ⟨key, hkey, h⟩ := Json.bind_eq_ok.mp h
    cases h
    exact ⟨millis, claim, key, hconnections, hmillis, hbatch, hclaim, hkey, rfl, rfl, rfl⟩

/-- **The numbers of settings that are taken are in range.** -/
theorem inRange_of_ofLookup (h : ofLookup lookup = .ok settings) : settings.InRange := by
  obtain ⟨millis, claim, key, hconnections, hmillis, hbatch, hclaim, hkey, hinterval, hclaims, hkeys⟩ :=
    numbers_of_ofLookup h
  exact {
    connections := positive_inRange (by decide) hconnections
    interval := ⟨millis, hinterval, positive_inRange (by decide) hmillis⟩
    batch := positive_inRange (by decide) hbatch
    claim := ⟨claim, hclaims, positive_inRange (by decide) hclaim⟩
    key := ⟨key, hkeys, positive_inRange (by decide) hkey⟩ }

/-! ## Claims -/

/-- Claims last no longer than the calendar does after the year 9999, or longer than it can count. -/
def ClaimFits (settings : Settings) : Prop :=
  (settings.claimLifetime.seconds : Int) ≤ Instant.secondsAfter 9999 ∨
    Database.longestLease.seconds < settings.claimLifetime.seconds

instance (settings : Settings) : Decidable settings.ClaimFits := by
  unfold ClaimFits
  infer_instance

/-- A system whose claims last as the settings say, before the year 10000. -/
structure Hosts (settings : Settings) (s : System) : Prop where
  claim : s.database.claimLifetime = settings.claimLifetime
  year : s.now.date.year ≤ 9999

variable {s : System}

/-- A claim is given for whole seconds, as many as there are after the year 9999 or fewer. -/
theorem InRange.lease_le (hrange : settings.InRange) (hfits : settings.ClaimFits) {db : Database}
    (hdb : db.claimLifetime = settings.claimLifetime) :
    db.lease.nanos = 0 ∧ (db.lease.seconds : Int) ≤ Instant.secondsAfter 9999 := by
  obtain ⟨seconds, hclaim, -⟩ := hrange.claim
  have hday : (Duration.ofDays 1).nanos = 0 ∧ ((Duration.ofDays 1).seconds : Int) ≤ Instant.secondsAfter 9999 := by
    decide
  unfold Database.lease
  split
  next => exact hday
  next hcounted =>
    rw [hdb, hclaim]
    refine ⟨rfl, ?_⟩
    rcases hfits with hfits | hlong
    · rwa [hclaim] at hfits
    · refine absurd ?_ hcounted
      rw [hclaim] at hlong
      rw [hdb, hclaim]
      simp only [Duration.toNanos, Duration.ofSeconds, Database.longestLease, Duration.ofMillis, Width.signed64,
        Duration.nanosPerSecond] at hlong ⊢
      omega

/-- **A claim ends within the calendar.** -/
theorem Hosts.reaches (hrange : settings.InRange) (hfits : settings.ClaimFits) (hs : settings.Hosts s) :
    (s.now.add? s.database.lease).isSome = true := by
  obtain ⟨hnanos, hseconds⟩ := hrange.lease_le hfits hs.claim
  exact Instant.add?_isSome hs.year (Instant.nanos_later_lt ..) hnanos hseconds

end Settings

/-! ## Pollers -/

/-- A poller with an interval breaks down only in a fetch that the calendar does not reach. -/
theorem Poller.not_crashed {p p' : Poller} {s s' : System} {course : List Happening} {calls : List Tick.Call}
    (hinterval : p.interval ≠ 0) (hphase : p.phase = .fresh)
    (hreaches : ∀ before calls q s₁, before <+: course → p.run s before = some (calls, q, s₁) →
      (s₁.now.add? s₁.database.lease).isSome = true)
    (hrun : p.run s course = some (calls, p', s')) : p'.phase ≠ .crashed := by
  intro hcrashed
  have hbefore : ¬ p.HasEnded := by
    rintro (h | h) <;> rw [hphase] at h <;> cases h
  obtain ⟨before, m, after, q, s₁, q', s₂, hcourse, hq, ht, hm, hended, hsame⟩ :=
    exists_end hrun hbefore (.inr hcrashed)
  rcases (ht.ends hm hended).2 with ⟨_, -, -, hstopped⟩ | ⟨-, hnone⟩ | ⟨_, _, -, -, hnone⟩
  · rw [hsame, hcrashed] at hstopped
    cases hstopped
  · exact hinterval ((interval_of_run hq).symm.trans hnone)
  · have hsome := hreaches before _ _ _ ⟨_, hcourse.symm⟩ hq
    rw [hnone] at hsome
    cases hsome

/-! ## The law -/

/-- **Settings that are taken can be run with**, as far as their numbers fit where they go. For every look-up that gives
settings:

* the key store takes the lifetime of keys, in seconds, exactly if 64 bits with a sign hold it, and else it is refused;
* the database server takes the size of a batch exactly if 64 bits with a sign hold it, and else it is refused;
* if claims fit, then at every time before the year 10000 a database whose claims last as the settings say answers a
  fetch, and a poller over it that has the interval and the batch of the settings does not break down, whatever its
  store and its broker answer and others do, as long as it is before that year and claims last so. -/
theorem accepted_settings_run {lookup : Settings.Lookup} {settings : Settings}
    (h : Settings.ofLookup lookup = .ok settings) :
    (Server.expirySeconds settings.keyLifetime =
      if settings.keyLifetime.seconds ≤ Server.maxInt64 then .ok settings.keyLifetime.seconds
      else .error (.refused (.lifetimeOutOfRange settings.keyLifetime.seconds))) ∧
    (Server.claimLimit settings.batch =
      if settings.batch ≤ Server.maxInt64 then .ok settings.batch
      else .error (.refused (.batchTooLarge settings.batch))) ∧
    (settings.ClaimFits →
      (∀ s : System, settings.Hosts s → ∀ limit, (s.database.fetch limit s.now).isSome = true) ∧
      ∀ millis s course calls p s', settings.pollInterval = .ofMillis millis →
        (∀ before calls q s₁, before <+: course →
          (Poller.start settings.topic settings.batch millis).run s before = some (calls, q, s₁) → settings.Hosts s₁) →
        (Poller.start settings.topic settings.batch millis).run s course = some (calls, p, s') →
        p.phase ≠ .crashed) := by
  have hrange := Settings.inRange_of_ofLookup h
  refine ⟨?key, rfl, fun hfits => ⟨fun s hs limit => ?fetch, ?poller⟩⟩
  case key =>
    obtain ⟨seconds, hkey, hpos, -⟩ := hrange.key
    have hmax : max settings.keyLifetime.seconds 1 = settings.keyLifetime.seconds := by
      rw [hkey]
      exact Nat.max_eq_left hpos
    rw [Server.expirySeconds, hmax]
  case fetch =>
    rw [Database.fetch, Option.isSome_map]
    exact hs.reaches hrange hfits
  case poller =>
    intro millis s course calls p s' hmillis hhosts hrun
    obtain ⟨interval, hinterval, hpos, -⟩ := hrange.interval
    have hsame : millis ≠ 0 := by
      rintro rfl
      simp only [hmillis, Duration.ofMillis, Duration.mk.injEq] at hinterval
      omega
    exact Poller.not_crashed hsame rfl (fun before calls q s₁ hbefore hq =>
      (hhosts before calls q s₁ hbefore hq).reaches hrange hfits) hrun

/-- Looks up the address of a database and some numbers. -/
def Settings.given (numbers : List (String × String)) : Settings.Lookup := fun name =>
  (("DATABASE_URL", "postgres://localhost/payments") :: numbers).lookup name

/-- What is taken if no number is given. -/
def Settings.defaults : Settings where
  databaseAddress := "postgres://localhost/payments"
  databaseConnections := 20
  keyStoreAddress := "redis://127.0.0.1:6379"
  brokerAddresses := "127.0.0.1:9092"
  listenAddress := "0.0.0.0:3000"
  topic := PaymentSucceeded.defaultTopic
  pollInterval := .ofMillis 5000
  batch := 100
  claimLifetime := .ofSeconds 30
  keyLifetime := .ofSeconds 2592000

/-- Lets a poller with the defaults begin a second before the last one of the year 9999. -/
def Settings.runDefaults (course : List Poller.Happening) : Option (List Tick.Call × Poller × System) :=
  (Poller.start Settings.defaults.topic Settings.defaults.batch 5000).run
    (.fresh ⟨253402300798, 0⟩ (.ofSeconds 30) (.ofSeconds 60) (.ofSeconds 60)) course

/-- The poller waits for the last second, and fetches. -/
def lastSecondCourse : List Poller.Happening :=
  [.move (.begin 0), .move (.wake 0), .elsewhere (·.advance 1000000000), .move (.tick .fetch)]

/-- With the defaults it goes through this and does not break down. -/
theorem accepted_settings_run_of_defaults :
    Settings.ofLookup (Settings.given []) = .ok Settings.defaults ∧
    Server.expirySeconds Settings.defaults.keyLifetime = .ok 2592000 ∧
    Server.claimLimit Settings.defaults.batch = .ok 100 ∧
    ∃ calls p s', Settings.runDefaults lastSecondCourse = some (calls, p, s') ∧ s'.now.seconds = 253402300799 ∧
      p.phase ≠ .crashed := by
  have haccepted : Settings.ofLookup (Settings.given []) = .ok Settings.defaults := by decide +kernel
  obtain ⟨hkey, hbatch, hruns⟩ := accepted_settings_run haccepted
  obtain ⟨-, hpoller⟩ := hruns (by decide)
  have hlast : (Settings.runDefaults lastSecondCourse).map (fun last => last.2.2.now.seconds) = some 253402300799 := by
    decide +kernel
  have hpoints : (lastSecondCourse.inits.all fun before => (Settings.runDefaults before).all fun last =>
      last.2.2.database.claimLifetime = .ofSeconds 30 ∧ last.2.2.now.date.year ≤ 9999) = true := by
    decide +kernel
  obtain ⟨⟨calls, p, s'⟩, hrun, hlast⟩ := Option.map_eq_some_iff.mp hlast
  refine ⟨haccepted, hkey.trans (by decide), hbatch.trans (by decide), calls, p, s', hrun, hlast, ?_⟩
  refine hpoller 5000 _ _ _ _ _ rfl (fun before calls q s₁ hbefore hq => ?_) hrun
  have hpoint := List.all_eq_true.mp hpoints before ((List.mem_inits _ _).mpr hbefore)
  rw [Settings.runDefaults, hq] at hpoint
  obtain ⟨hclaim, hyear⟩ := of_decide_eq_true hpoint
  exact ⟨hclaim, hyear⟩

/-- Three numbers that fit 64 bits. -/
def Settings.largeNumbers : List (String × String) :=
  [("OUTBOX_BATCH_SIZE", "9223372036854775808"), ("OUTBOX_CLAIM_TTL_SECS", "9223372036854775"),
    ("IDEMPOTENCY_TTL_SECS", "9223372036854775808")]

/-- They are taken as settings. Two are refused where they go, and no claim of the third ends within the calendar. -/
theorem accepted_settings_refused : ∃ settings,
    Settings.ofLookup (Settings.given Settings.largeNumbers) = .ok settings ∧
    Server.expirySeconds settings.keyLifetime = .error (.refused (.lifetimeOutOfRange 9223372036854775808)) ∧
    Server.claimLimit settings.batch = .error (.refused (.batchTooLarge 9223372036854775808)) ∧
    (Database.empty settings.claimLifetime).fetch 100 ⟨0, 0⟩ = none := by
  have htaken : Settings.ofLookup (Settings.given Settings.largeNumbers) = .ok
      { Settings.defaults with
        batch := 9223372036854775808
        claimLifetime := .ofSeconds 9223372036854775
        keyLifetime := .ofSeconds 9223372036854775808 } := by
    decide +kernel
  refine ⟨_, htaken, by decide, by decide, ?_⟩
  rw [Database.fetch, Option.map_eq_none_iff]
  decide

end PaymentRelay
