import PaymentRelay.Proofs.Http.Resolution
import PaymentRelay.Proofs.Json.Doubles

/-!
# Payments are of what was written

The amount of a request is read twice here: as the decimal that is checked, and as it is written
(`PayRequest.writtenSchema`). Nothing is rounded between the decimal and the payment, so a request that is accepted
pays what was written whenever the decimal is what was written. It need not be: a numeral that a decimal has no
room for is rounded before anything is checked, and a digit that is rounded away is not seen by the check. With room
for what was written there is no such digit, and an amount with a part of a cent is turned away.
-/

namespace PaymentRelay

open Decimal

/-! ## Amounts as they are written -/

deriving instance DecidableEq for Json.NumberText

/-- An amount as it is written: the text of a string, or the parts of a number. -/
inductive AmountText where
  | text (s : String)
  | number (t : Json.NumberText)
deriving DecidableEq

namespace AmountText

/-- **What an amount denotes.** -/
def value : AmountText → ℚ
  | text s => numeralValue s.toList
  | number t => t.toRat

/-- Reading has room for what is written. -/
def HasRoom : AmountText → Prop
  | text s => Decimal.HasRoom s.toList
  | number t => t.HasRoom

/-- The decimal that is made of what is written. -/
def decimal? : AmountText → Option Decimal
  | text s => ofString? s
  | number t =>
    match t.value with
    | .ok n => n.toDecimal?
    | .error _ => none

/-- The parts of a number hold digits only. -/
def IsFormed : AmountText → Prop
  | text _ => True
  | number t => t.IsFormed

/-- A decimal is made of what is written. -/
def IsMadeOf (d : Decimal) (a : AmountText) : Prop :=
  a.decimal? = some d ∧ a.IsFormed

/-- Takes an amount off the front of a text as it is written. -/
def read : Json.Reader AmountText := fun s =>
  match Json.skipBlanks s with
  | [] => .error .malformed
  | b :: rest =>
    if b == Json.octet '"' then (Json.readString rest).map fun (t, rest) => (.text t, rest)
    else (Json.takeNumber (b :: rest)).map fun (t, rest) => (.number t, rest)

end AmountText

namespace PayRequest

/-- A request to pay with the amount as it was written. -/
structure Written where
  order : Uuid
  amount : AmountText
  key : String

/-- Such a request while it is read. -/
structure Written.Draft where
  order : Option Uuid
  amount : Option AmountText
  key : Option String

/-- The amount is left as it is. A value that has been read already has lost its text. -/
def Written.amountField : Json.Field Written.Draft where
  name := "amount"
  isFilled := fun d => d.amount.isSome
  read := fun _ s => (AmountText.read s).map fun (a, rest) => (fun d => { d with amount := some a }, rest)
  ofValue := fun _ => .error .mismatch

/-- How a request is read with the amount as it is written. -/
def writtenSchema : Json.Schema Written.Draft Written where
  blank := ⟨none, none, none⟩
  fields :=
    [.ofHead "order_reference" Written.Draft.order (fun u d => { d with order := some u }) Json.acceptUuid,
     Written.amountField,
     .ofHead "idempotency_key" Written.Draft.key (fun k d => { d with key := some k }) Json.acceptText]
  complete? := fun d => do
    return ⟨← d.order, ← d.amount, ← d.key⟩

end PayRequest

/-! ## Reading an amount as it is written -/

namespace AmountText

open Json (Head)

/-- A decimal is made of a string or a number. -/
theorem head_of_acceptDecimal {h : Head} {d : Decimal} (haccept : Json.acceptDecimal h = .ok d) :
    (∃ t, h = .text t ∧ ofString? t = some d) ∨ ∃ n, h = .number n ∧ n.toDecimal? = some d := by
  unfold Json.acceptDecimal at haccept
  dsimp only at haccept
  split at haccept
  next d' hd =>
    cases haccept
    cases h with
    | text t => exact .inl ⟨t, rfl, hd⟩
    | number n => exact .inr ⟨n, rfl, hd⟩
    | null => cases hd
    | boolean => cases hd
    | array => cases hd
    | object => cases hd
  next => cases haccept

/-- Where a decimal is read an amount is read as it is written, and the decimal is made of that. -/
theorem read_of_readHead {s rest : Json.Octets} {h : Head} {d : Decimal} (hhead : Json.readHead s = .ok (h, rest))
    (haccept : Json.acceptDecimal h = .ok d) :
    ∃ a, AmountText.read s = .ok (a, rest) ∧ IsMadeOf d a := by
  unfold Json.readHead at hhead
  unfold AmountText.read
  cases hblank : Json.skipBlanks s with
  | nil => rw [hblank] at hhead; cases hhead
  | cons b behind =>
    rw [hblank] at hhead
    dsimp only at hhead ⊢
    cases hquote : b == Json.octet '"' with
    | true =>
      rw [beq_iff_eq.mp hquote] at hhead
      obtain ⟨⟨t, rest'⟩, hstring, hfound⟩ := Json.map_eq_ok.mp hhead
      cases hfound
      rcases head_of_acceptDecimal haccept with ⟨t', ht, hd⟩ | ⟨n, hn, -⟩
      · cases ht
        exact ⟨.text t, Json.map_eq_ok.mpr ⟨_, hstring, rfl⟩, hd, trivial⟩
      · cases hn
    | false =>
      -- of what is no string only a number makes a decimal
      simp only [hquote, Bool.false_eq_true, if_false] at hhead ⊢
      split_ifs at hhead
      · obtain ⟨_, -, hfound⟩ := Json.map_eq_ok.mp hhead; cases hfound; cases haccept
      · obtain ⟨_, -, hfound⟩ := Json.map_eq_ok.mp hhead; cases hfound; cases haccept
      · obtain ⟨_, -, hfound⟩ := Json.map_eq_ok.mp hhead; cases hfound; cases haccept
      · cases hhead; cases haccept
      · cases hhead; cases haccept
      · obtain ⟨⟨t, rest'⟩, hnumber, hhead⟩ := Json.bind_eq_ok.mp hhead
        obtain ⟨n, hn, hhead⟩ := Json.bind_eq_ok.mp hhead
        cases hhead
        rcases head_of_acceptDecimal haccept with ⟨t', ht, -⟩ | ⟨n', hn', hd⟩
        · cases ht
        · cases hn'
          refine ⟨.number t, Json.map_eq_ok.mpr ⟨_, hnumber, rfl⟩, ?_, Json.takeNumber_isFormed hnumber⟩
          rw [decimal?, hn]
          exact hd

/-- **What is written is the amount that is made of it if and only if reading has room for it.** -/
theorem value_eq_iff {a : AmountText} {d : Decimal} {amount : Amount} (hmade : IsMadeOf d a)
    (hamount : Amount.ofDecimal d = .ok amount) : a.value = amount.cents / 100 ↔ a.HasRoom := by
  obtain ⟨hd, hform⟩ := hmade
  have hexact := Amount.toRat_of_ofDecimal hamount
  cases a with
  | text t =>
    rw [← hexact, eq_comm]
    exact ofChars?_exact_iff hd
  | number t =>
    unfold decimal? at hd
    dsimp only at hd
    split at hd
    next n hn => exact t.toRat_eq_iff hform hn hd hexact amount.cents_pos amount.cents_lt
    next => cases hd

end AmountText

namespace PayRequest

/-! ## The two readings go along -/

/-- Two drafts of one request: the amount of one is made of what is written in the other. -/
structure Draft.IsMadeOf (d : Draft) (w : Written.Draft) : Prop where
  order : d.order = w.order
  amount : Option.Rel AmountText.IsMadeOf d.amount w.amount
  key : d.key = w.key

/-- Two readings of one request. -/
structure IsMadeOf (r : PayRequest) (w : Written) : Prop where
  order : r.order = w.order
  amount : AmountText.IsMadeOf r.amount w.amount
  key : r.key = w.key

theorem isSome_eq_of_rel {α β : Type} {R : α → β → Prop} {x : Option α} {y : Option β} (h : Option.Rel R x y) :
    x.isSome = y.isSome := by
  cases h <;> rfl

theorem exists_of_rel {α β : Type} {R : α → β → Prop} {a : α} {y : Option β} (h : Option.Rel R (some a) y) :
    ∃ b, y = some b ∧ R a b := by
  cases h with
  | some h => exact ⟨_, rfl, h⟩

/-- The amount is the one field that is read in two ways. -/
theorem amountField_mirrors :
    Json.Field.Mirrors Draft.IsMadeOf
      (.ofHead "amount" Draft.amount (fun a d => { d with amount := some a }) Json.acceptDecimal)
      Written.amountField where
  name_eq := rfl
  isFilled_eq _ _ h := isSome_eq_of_rel h.amount
  read _ s put rest h := by
    obtain ⟨⟨head, s₁⟩, hhead, h⟩ := Json.bind_eq_ok.mp h
    obtain ⟨d, hd, h⟩ := Json.bind_eq_ok.mp h
    cases h
    obtain ⟨a, ha, hmade⟩ := AmountText.read_of_readHead hhead hd
    exact ⟨_, Json.map_eq_ok.mpr ⟨_, ha, rfl⟩, fun e w h => ⟨h.order, .some hmade, h.key⟩⟩

theorem schema_mirrors : schema.Mirrors Draft.IsMadeOf IsMadeOf writtenSchema where
  blank := ⟨rfl, .none, rfl⟩
  fields := by
    refine .cons ?order (.cons amountField_mirrors (.cons ?key .nil))
    case order => exact .ofHead Json.acceptUuid (fun d e h => h.order) fun u d e h => ⟨rfl, h.amount, h.key⟩
    case key => exact .ofHead Json.acceptText (fun d e h => h.key) fun k d e h => ⟨h.order, h.amount, rfl⟩
  complete := by
    intro d e r h hr
    obtain ⟨order, horder, hr⟩ := Option.bind_eq_some_iff.mp hr
    obtain ⟨amount, hamount, hr⟩ := Option.bind_eq_some_iff.mp hr
    obtain ⟨key, hkey, hr⟩ := Option.bind_eq_some_iff.mp hr
    cases hr
    obtain ⟨a, ha, hmade⟩ := exists_of_rel (hamount ▸ h.amount)
    refine ⟨⟨order, a, key⟩, ?_, rfl, hmade, rfl⟩
    simp only [writtenSchema, ← h.order, horder, ha, ← h.key, hkey]
    rfl

/-! ## What is paid -/

/-- A request that makes a command pays what is written if and only if there is room for it. -/
theorem IsMadeOf.value_eq_iff {r : PayRequest} {w : Written} {c : PaymentCommand} (h : r.IsMadeOf w)
    (hmakes : r.Makes c) : w.amount.value = c.amount.cents / 100 ↔ w.amount.HasRoom :=
  AmountText.value_eq_iff h.amount hmakes.amount

/-- **A request that is accepted pays what is written, exactly if reading has room for it**: a whole number of cents
from one to below 10^12, with nothing rounded away. So an amount that is written with a part of a cent, and for which
there is room, is turned away. -/
theorem pays_what_is_written (s : Json.Octets) (user : UserId) :
    (∀ r c, schema.ofOctets s = .ok r → r.toCommand user = .ok c →
      ∃ w, writtenSchema.ofOctets s = .ok w ∧ 1 ≤ c.amount.cents ∧ c.amount.cents < 10 ^ 12 ∧
        (w.amount.value = c.amount.cents / 100 ↔ w.amount.HasRoom)) ∧
    ∀ w, writtenSchema.ofOctets s = .ok w → w.amount.HasRoom → (∀ k : ℤ, w.amount.value * 100 ≠ k) →
      ∀ r, schema.ofOctets s = .ok r → ∃ why, r.toCommand user = .error (.refused why) := by
  refine ⟨?accepted, ?fine⟩
  case accepted =>
    intro r c hread hcommand
    obtain ⟨w, hw, hmade⟩ := schema_mirrors.ofOctets hread
    obtain ⟨-, hmakes⟩ := Request.toCommand_eq_ok_iff.mp hcommand
    exact ⟨w, hw, c.amount.cents_pos, c.amount.cents_lt, hmade.value_eq_iff hmakes⟩
  case fine =>
    intro w hw hroom hfine r hread
    obtain ⟨w', hw', hmade⟩ := schema_mirrors.ofOctets hread
    obtain rfl : w = w' := Except.ok.inj (hw.symm.trans hw')
    cases hcommand : r.toCommand user with
    | error e =>
      obtain ⟨why, rfl⟩ := Request.refused_of_toCommand hcommand
      exact ⟨why, rfl⟩
    | ok c =>
      obtain ⟨-, hmakes⟩ := Request.toCommand_eq_ok_iff.mp hcommand
      refine absurd ?_ (hfine c.amount.cents)
      rw [(hmade.value_eq_iff hmakes).mpr hroom, div_mul_cancel₀ _ (by norm_num), Int.cast_natCast]

/-- The document of a request for this amount. -/
def document (amount : String) : Json.Octets :=
  Json.octetsOf ("\x7b\"order_reference\":\"0190a4e6-7d1c-7b3a-9f2e-5c4d3b2a1f00\",\"amount\":" ++ amount ++
    ",\"idempotency_key\":\"K1\"\x7d")

theorem exists_ok {ε α β : Type} {x : Except ε α} {f : α → β} {b : β} (h : x.toOption.map f = some b) :
    ∃ a, x = .ok a ∧ f a = b := by
  cases x with
  | error e => cases h
  | ok a => exact ⟨a, rfl, Option.some.inj h⟩

/-- What has a denominator is no whole number. -/
theorem ne_intCast_of_den {q : ℚ} (h : q.den ≠ 1) (k : ℤ) : q ≠ k := by
  rintro rfl
  exact h (Rat.den_intCast k)

/-- Ten and a half, with more digits than a decimal has room for. -/
def tenAndAHalf : Json.Octets :=
  document "\"1_050.0000000000000000000000000000000e-2\""

/-- Ten and a half is paid however it is written, and half a cent more is turned away. -/
theorem pays_what_is_written_of_half :
    (∃ r c w, schema.ofOctets tenAndAHalf = .ok r ∧ r.toCommand ⟨1⟩ = .ok c ∧
      writtenSchema.ofOctets tenAndAHalf = .ok w ∧ c.amount.cents = 1050 ∧ w.amount.value = 21 / 2) ∧
    ∃ r why, schema.ofOctets (document "10.505") = .ok r ∧ r.toCommand ⟨1⟩ = .error (.refused why) := by
  refine ⟨?paid, ?refused⟩
  case paid =>
    have hread : (schema.ofOctets tenAndAHalf).toOption.map
        (fun r => (r.toCommand ⟨1⟩).toOption.map fun c => c.amount.cents) = some (some 1050) := by decide +kernel
    have hwritten : (writtenSchema.ofOctets tenAndAHalf).toOption.map Written.amount =
        some (.text "1_050.0000000000000000000000000000000e-2") := by decide +kernel
    obtain ⟨r, hr, hcents⟩ := exists_ok hread
    obtain ⟨c, hc, hcents⟩ := exists_ok hcents
    obtain ⟨w, hw, -, -, hexact⟩ := (pays_what_is_written _ ⟨1⟩).1 r c hr hc
    rw [hw] at hwritten
    have hroom : w.amount.HasRoom := by
      rw [Option.some.inj hwritten]
      refine ⟨⟨⟨false, 1050, 0, by decide, by decide⟩, ?_⟩, ⟨false, 105, 1, by decide, by decide⟩, ?_⟩ <;>
        decide +kernel
    refine ⟨r, c, w, hr, hc, hw, hcents, ?_⟩
    rw [hexact.mpr hroom, hcents]
    norm_num
  case refused =>
    have hread : (schema.ofOctets (document "10.505")).toOption.map (fun _ => ()) = some () := by decide +kernel
    have hwritten : (writtenSchema.ofOctets (document "10.505")).toOption.map Written.amount =
        some (.number ⟨false, [49, 48], some [53, 48, 53], none⟩) := by decide +kernel
    obtain ⟨r, hr, -⟩ := exists_ok hread
    obtain ⟨w, hw, hamount⟩ := exists_ok hwritten
    have hroom : w.amount.HasRoom := by
      rw [hamount]
      exact .inr ⟨10505, -3, by decide, by decide +kernel⟩
    have hfine : (w.amount.value * 100).den ≠ 1 := by
      rw [hamount]
      decide +kernel
    obtain ⟨why, hwhy⟩ := (pays_what_is_written _ ⟨1⟩).2 w hw hroom (ne_intCast_of_den hfine) r hr
    exact ⟨r, why, hr, hwhy⟩

/-- A request is accepted although its amount is written with a part of a cent. -/
def LosesPartOfACent (s : Json.Octets) : Prop :=
  ∃ r c w, schema.ofOctets s = .ok r ∧ r.toCommand ⟨1⟩ = .ok c ∧ writtenSchema.ofOctets s = .ok w ∧
    ∀ k : ℤ, w.amount.value * 100 ≠ k

theorem losesPartOfACent_of_read {s : Json.Octets}
    (hpaid : (schema.ofOctets s).toOption.map (fun r => (r.toCommand ⟨1⟩).toOption.map fun _ => ()) = some (some ()))
    (hfine : (writtenSchema.ofOctets s).toOption.map (fun w => decide ((w.amount.value * 100).den = 1)) =
      some false) : LosesPartOfACent s := by
  obtain ⟨r, hr, hcommand⟩ := exists_ok hpaid
  obtain ⟨c, hc, -⟩ := exists_ok hcommand
  obtain ⟨w, hw, hden⟩ := exists_ok hfine
  exact ⟨r, c, w, hr, hc, hw, ne_intCast_of_den (of_decide_eq_false hden)⟩

/-- **A part of a cent can be rounded away before it is checked**: behind the last digit that a decimal has room for,
and behind the last one that doubles tell apart. -/
theorem part_of_a_cent_lost :
    LosesPartOfACent (document "\"1.00000000000000000000000000001\"") ∧
      LosesPartOfACent (document "9999999999.9900001") :=
  ⟨losesPartOfACent_of_read (by decide +kernel) (by decide +kernel),
    losesPartOfACent_of_read (by decide +kernel) (by decide +kernel)⟩

end PayRequest

end PaymentRelay
