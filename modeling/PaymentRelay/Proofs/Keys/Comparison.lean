import PaymentRelay.Proofs.Keys.History
import PaymentRelay.Proofs.Text.Trimming

/-!
# Keys are compared by their trimmed texts

What trimming leaves of a text is told without trimming it: of all texts there is one that stands between blanks
in it and has no blank at its own ends (`Text.isCore_iff`). That text is the whole of an idempotency key. Two keys
are one, have one storage name and stand in each other's way in a key store exactly if their texts have one core
(`IdempotencyKey.compared_by_trimmed_text`).

In the key store the two directions are different facts. A reservation of a key that was neither let go nor has
expired is still there, whatever calls were answered since (`KeyStore.held?_serve_of_live`). And a reservation of
one key cannot be told by any later call about another (`KeyStore.SameFor.serve`), so a call that is turned away
for another key would have been turned away without it.
-/

namespace PaymentRelay

/-! ## What stands between the blanks -/

namespace Text

/-- A text neither begins nor ends with a blank. -/
structure IsBare (cs : List Char) : Prop where
  begins : ∀ c ∈ cs.head?, isBlank c = false
  ends : ∀ c ∈ cs.getLast?, isBlank c = false

/-- The core of a text: it stands between blanks in the text, and neither begins nor ends with one. -/
def IsCore (s core : String) : Prop :=
  IsBare core.toList ∧ ∃ front back, s.toList = front ++ core.toList ++ back ∧
    (∀ c ∈ front, isBlank c = true) ∧ ∀ c ∈ back, isBlank c = true

variable {cs front back : List Char}

/-- Blanks in front of a character that is none are taken off. -/
theorem dropWhile_blanks (hfront : ∀ c ∈ front, isBlank c = true) (hbegins : ∀ c ∈ cs.head?, isBlank c = false) :
    (front ++ cs).dropWhile isBlank = cs := by
  rw [List.dropWhile_append_of_pos hfront]
  cases cs with
  | nil => rfl
  | cons c cs => rw [List.dropWhile_cons, hbegins c rfl, if_neg Bool.false_ne_true]

/-- What is trimmed of a text with blanks around its core is the core. -/
theorem trimBlank_around (hcore : IsBare cs) (hfront : ∀ c ∈ front, isBlank c = true)
    (hback : ∀ c ∈ back, isBlank c = true) : trimBlank (front ++ cs ++ back) = cs := by
  rw [trimBlank, List.append_assoc]
  have hends : ∀ c ∈ cs.reverse.head?, isBlank c = false := by
    rw [List.head?_reverse]
    exact hcore.ends
  have hreverse : ∀ c ∈ back.reverse, isBlank c = true := fun c hc => hback c (List.mem_reverse.mp hc)
  cases cs with
  | nil =>
    -- nothing but blanks: the front takes the back with it
    have hall : ∀ c ∈ front ++ ([] ++ back), isBlank c = true := fun c hc =>
      (List.mem_append.mp hc).elim (hfront c) (hback c)
    rw [List.dropWhile_eq_nil_iff.mpr hall]
    rfl
  | cons c cs =>
    have hdrop : (front ++ (c :: cs ++ back)).dropWhile isBlank = c :: cs ++ back :=
      dropWhile_blanks hfront fun d hd => hcore.begins d hd
    rw [hdrop, List.reverse_append, dropWhile_blanks hreverse hends, List.reverse_reverse]

/-- What is left of a text that was trimmed neither begins nor ends with a blank. -/
theorem isBare_trimBlank (cs : List Char) : IsBare (trimBlank cs) where
  begins c hc := by
    have hself := List.head?_dropWhile_not isBlank (trimBlank cs)
    rw [trimBlank_eq cs, dropWhile_rdropWhile (List.dropWhile_idempotent _ _), ← trimBlank_eq] at hself
    rw [Option.mem_def.mp hc] at hself
    simpa using hself
  ends c hc := by
    obtain ⟨hne, rfl⟩ := List.mem_getLast?_eq_getLast hc
    exact Bool.eq_false_iff.mpr (List.rdropWhile_last_not isBlank _ hne)

/-- **The core of a text** is what trimming leaves of it. -/
theorem isCore_iff {s core : String} : IsCore s core ↔ core = trim s := by
  constructor
  · rintro ⟨hcore, front, back, hs, hfront, hback⟩
    rw [trim, hs, trimBlank_around hcore hfront hback, String.ofList_toList]
  · rintro rfl
    rw [IsCore, trim, String.toList_ofList]
    refine ⟨isBare_trimBlank _, s.toList.takeWhile isBlank, (s.toList.dropWhile isBlank).rtakeWhile isBlank, ?_, ?_, ?_⟩
    · rw [trimBlank_eq, List.append_assoc, List.rdropWhile_append_rtakeWhile, List.takeWhile_append_dropWhile]
    · exact fun c hc => List.mem_takeWhile_imp hc
    · exact fun c hc => List.mem_rtakeWhile_imp hc

end Text

/-! ## Reservations of one key and of another -/

namespace KeyStore

variable {s s' : KeyStore} {key : IdempotencyKey} {held : Held} {now later : Nat}

/-- A live entry stays through a call, unless the call lets it go under its own token. -/
theorem held?_answer_of_live (h : s.held? key = some held) (hlive : held.isLive now = true) {call : Call}
    (hkept : call ≠ .release key held.token) : (s.answer now call).2.held? key = some held := by
  cases call with
  | reserve other token => exact held?_reserve_of_live h hlive other token
  | release other token =>
    show (s.release other token).held? key = some held
    rw [held?_release]
    split
    next hkey =>
      subst hkey
      have htoken : held.token ≠ token := fun htoken => hkept (htoken ▸ rfl)
      exact Option.filter_eq_some_iff.mpr ⟨h, decide_eq_true htoken⟩
    next => exact h
  | contains => exact h

/-- **A reservation stays** through calls that do not let it go, until it expires. -/
theorem held?_serve_of_live (h : s.held? key = some held) {calls : List (Nat × Call)}
    (htimes : ∀ c ∈ calls, c.1 ≤ later) (hlive : held.isLive later = true)
    (hkept : ∀ c ∈ calls, c.2 ≠ .release key held.token) : (s.serve calls).2.held? key = some held := by
  induction calls generalizing s with
  | nil => exact h
  | cons c rest ih =>
    obtain ⟨time, call⟩ := c
    have htime : time ≤ later := htimes _ List.mem_cons_self
    have hnow : held.isLive time = true := decide_eq_true (Nat.lt_of_le_of_lt htime (of_decide_eq_true hlive))
    exact ih (held?_answer_of_live h hnow (hkept _ List.mem_cons_self))
      (fun c hc => htimes c (List.mem_cons_of_mem _ hc)) fun c hc => hkept c (List.mem_cons_of_mem _ hc)

/-- A reservation of another key cannot be told. -/
theorem sameFor_reserve {other : IdempotencyKey} (hne : key ≠ other) (s : KeyStore) (token : Uuid) (now : Nat) :
    SameFor key now s (s.reserve other token now).2 where
  lasts := reserve_lifetime ..
  live := live_reserve_of_ne hne s token now

/-- **Two stores that are the same for a key stay so** under the same calls. -/
theorem SameFor.serve (h : SameFor key now s s') {calls : List (Nat × Call)}
    (htimes : (now :: (calls.map (·.1) ++ [later])).Pairwise (· ≤ ·)) :
    SameFor key later (s.serve calls).2 (s'.serve calls).2 := by
  induction calls generalizing now s s' with
  | nil => exact h.mono ((List.pairwise_cons.mp htimes).1 later (List.mem_singleton_self _))
  | cons c rest ih =>
    obtain ⟨time, call⟩ := c
    obtain ⟨hfirst, hrest⟩ := List.pairwise_cons.mp htimes
    exact ih ((h.mono (hfirst time List.mem_cons_self)).answer call) hrest

/-- **What a reservation turns away.** A reservation that was granted, was not let go since and has not expired
turns away a reservation of its own key, and a reservation of another key exactly if that would have been turned
away without it. -/
theorem taken_after_granted_iff {k l : IdempotencyKey} {token : Uuid} (hgranted : (s.reserve k token now).1 = .granted)
    {calls : List (Nat × Call)} (htimes : (now :: (calls.map (·.1) ++ [later])).Pairwise (· ≤ ·))
    (hkept : ∀ c ∈ calls, c.2 ≠ .release k token) (hlive : later < now + s.lifetime.toNanos) (other : Uuid) :
    (((s.reserve k token now).2.serve calls).2.reserve l other later).1 = .taken ↔
      k = l ∨ ((s.serve calls).2.reserve l other later).1 = .taken := by
  rw [reserve_taken_iff, reserve_taken_iff]
  by_cases hkey : k = l
  · subst hkey
    simp only [true_or, iff_true]
    have hheld : (s.reserve k token now).2.held? k = some ⟨token, now + s.lifetime.toNanos⟩ := by
      rw [held?_reserve hgranted, if_pos rfl]
    have hbefore : ∀ c ∈ calls, c.1 ≤ later := fun c hc =>
      (List.pairwise_append.mp (List.pairwise_cons.mp htimes).2).2.2 c.1 (List.mem_map_of_mem hc) later
        (List.mem_singleton_self _)
    rw [contains, held?_serve_of_live hheld hbefore (decide_eq_true hlive) hkept, Option.any_some]
    exact decide_eq_true hlive
  · simp only [hkey, false_or]
    rw [((sameFor_reserve (Ne.symm hkey) s token now).serve htimes).contains]

end KeyStore

/-! ## Keys -/

namespace IdempotencyKey

/-- A key is its text. -/
theorem text_eq_iff {k l : IdempotencyKey} : k.text = l.text ↔ k = l :=
  ⟨fun h => congrArg IdempotencyKey.mk h, congrArg text⟩

/-- The storage names of two keys are one exactly if the keys are. -/
theorem storageName_eq_iff {k l : IdempotencyKey} : k.storageName = l.storageName ↔ k = l := by
  rw [storageName, storageName, String.append_right_inj, text_eq_iff]

/-- **Keys are compared by their trimmed texts.** For all texts `s` and `t`: the core of a text is what trimming
leaves of it; a text makes a key exactly if its core is not empty and has at most 255 octets; the key then has the
core for its text, which neither begins nor ends with a blank and makes the same key again. And if both make keys,
the keys are equal, and so are their storage names, exactly if the cores are; and for every key store, as long as a
reservation of the one has neither been let go nor expired, a reservation of the other is turned away exactly if
the cores are equal or it would have been turned away anyway. -/
theorem compared_by_trimmed_text (s t : String) :
    (∀ core, Text.IsCore s core ↔ core = Text.trim s) ∧
    ((∃ k, ofString s = .ok k) ↔ Text.trim s ≠ "" ∧ (Text.trim s).utf8ByteSize ≤ 255) ∧
    (∀ k, ofString s = .ok k →
      k.text = Text.trim s ∧ Text.IsBare k.text.toList ∧ ofString k.text = .ok k) ∧
    ∀ k l, ofString s = .ok k → ofString t = .ok l →
      (k = l ↔ Text.trim s = Text.trim t) ∧
      (k.storageName = l.storageName ↔ Text.trim s = Text.trim t) ∧
      ∀ (store : KeyStore) (token other : Uuid) (now later : Nat) (calls : List (Nat × KeyStore.Call)),
        (store.reserve k token now).1 = .granted →
        (now :: (calls.map (·.1) ++ [later])).Pairwise (· ≤ ·) →
        (∀ c ∈ calls, c.2 ≠ .release k token) → later < now + store.lifetime.toNanos →
        ((((store.reserve k token now).2.serve calls).2.reserve l other later).1 = .taken ↔
          Text.trim s = Text.trim t ∨ ((store.serve calls).2.reserve l other later).1 = .taken) := by
  refine ⟨fun core => Text.isCore_iff, ?_, ?_, ?_⟩
  · constructor
    · rintro ⟨k, hk⟩
      obtain ⟨htext, hne, hfits⟩ := ofString_eq_ok_iff.mp hk
      exact htext ▸ ⟨hne, hfits⟩
    · rintro ⟨hne, hfits⟩
      exact ⟨⟨Text.trim s⟩, ofString_eq_ok_iff.mpr ⟨rfl, hne, hfits⟩⟩
  · intro k hk
    obtain ⟨htext, hsize⟩ := ofString_eq_ok_iff.mp hk
    have hcore : Text.IsCore s k.text := Text.isCore_iff.mpr htext
    exact ⟨htext, hcore.1, ofString_eq_ok_iff.mpr ⟨by rw [htext, Text.trim_trim], hsize⟩⟩
  · intro k l hk hl
    obtain ⟨hktext, -⟩ := ofString_eq_ok_iff.mp hk
    obtain ⟨hltext, -⟩ := ofString_eq_ok_iff.mp hl
    have hkeys : k = l ↔ Text.trim s = Text.trim t := by
      rw [← hktext, ← hltext]
      exact text_eq_iff.symm
    refine ⟨hkeys, storageName_eq_iff.trans hkeys, ?_⟩
    intro store token other now later calls hgranted htimes hkept hlive
    rw [KeyStore.taken_after_granted_iff hgranted htimes hkept hlive, hkeys]

/-- Two texts of one key: an em space and a no-break space around it, or a tab and a line feed behind it. Between a
reservation of the one and of the other, the key is let go in vain and another one reserved. -/
theorem compared_by_trimmed_text_of_padded :
    ofString "\u2003K 1\u00a0" = .ok ⟨"K 1"⟩ ∧ ofString "K 1\t\n" = .ok ⟨"K 1"⟩ ∧
    ((KeyStore.empty ⟨10, 0⟩).reserve ⟨"K 1"⟩ (.ofNat 1) 0).1 = .granted ∧
    ((((KeyStore.empty ⟨10, 0⟩).reserve ⟨"K 1"⟩ (.ofNat 1) 0).2.serve
      [(1, .release ⟨"K 1"⟩ (.ofNat 2)), (2, .reserve ⟨"K 2"⟩ (.ofNat 3))]).2.reserve ⟨"K 1"⟩ (.ofNat 4) 5).1 =
        .taken := by
  have hleft : ofString "\u2003K 1\u00a0" = .ok ⟨"K 1"⟩ := by rfl
  have hright : ofString "K 1\t\n" = .ok ⟨"K 1"⟩ := by rfl
  have hgranted : ((KeyStore.empty ⟨10, 0⟩).reserve ⟨"K 1"⟩ (.ofNat 1) 0).1 = .granted := by decide +kernel
  obtain ⟨-, -, -, hpair⟩ := compared_by_trimmed_text "\u2003K 1\u00a0" "K 1\t\n"
  obtain ⟨hkey, -, hstore⟩ := hpair _ _ hleft hright
  refine ⟨hleft, hright, hgranted, (hstore _ _ _ _ _ _ hgranted ?_ ?_ ?_).mpr (.inl (hkey.mp rfl))⟩ <;>
    decide +kernel

end IdempotencyKey

end PaymentRelay
