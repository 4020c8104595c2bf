/-!
# Registers

A register keeps one value for a key. Its entries stand in the order in which their keys came in, and
a key whose value is replaced keeps its place.

What a register knows is `find?`: an entry is in the list exactly if it is what its key is looked up
to (`find?_eq_some_iff`). For each operation there is one statement of what it does to `find?`, and
nothing else about the list is needed.
-/

namespace PaymentRelay

/-- Values by their keys. -/
structure Register (κ ν : Type) where
  entries : List (κ × ν)
  /-- No key has two entries. -/
  distinct : (entries.map (·.1)).Nodup
deriving DecidableEq, Repr

namespace Register

variable {κ ν : Type} [DecidableEq κ]

/-- The register without an entry. -/
def empty : Register κ ν := ⟨[], .nil⟩

/-- The number of entries. -/
def size (r : Register κ ν) : Nat := r.entries.length

/-- The value of a key. -/
def find? (r : Register κ ν) (k : κ) : Option ν :=
  r.entries.lookup k

/-- The entries with a property. -/
def filter (p : κ × ν → Bool) (r : Register κ ν) : Register κ ν :=
  ⟨r.entries.filter p, (r.entries.filter_sublist.map _).nodup r.distinct⟩

/-- The register without a key. -/
def erase (r : Register κ ν) (k : κ) : Register κ ν :=
  r.filter fun e => e.1 ≠ k

/-! ## Looking up -/

/-- A key is not found exactly if no entry has it. -/
theorem lookup_eq_none_iff {es : List (κ × ν)} {k : κ} :
    es.lookup k = none ↔ k ∉ es.map (·.1) := by
  simp only [List.lookup_eq_none_iff, List.mem_map]
  grind

/-- Where keys are distinct, a value is found exactly if it stands there. -/
theorem lookup_eq_some_iff {es : List (κ × ν)} (h : (es.map (·.1)).Nodup) {k : κ} {v : ν} :
    es.lookup k = some v ↔ (k, v) ∈ es := by
  induction es with
  | nil => simp only [List.lookup_nil, List.not_mem_nil, reduceCtorEq]
  | cons e rest ih =>
    obtain ⟨k', v'⟩ := e
    obtain ⟨hnew, hrest⟩ := List.nodup_cons.mp h
    by_cases hk : k = k'
    · subst hk
      have hno : (k, v) ∉ rest := fun hmem => hnew (List.mem_map.mpr ⟨_, hmem, rfl⟩)
      simp only [List.lookup_cons_self, Option.some.injEq, List.mem_cons, Prod.mk.injEq, true_and,
        hno, or_false, eq_comm]
    · simp only [List.lookup_cons, beq_eq_false_iff_ne.mpr hk, ih hrest, List.mem_cons,
        Prod.mk.injEq, hk, false_and, false_or]

/-- A key's value is the one its entry has. -/
theorem find?_eq_some_iff (r : Register κ ν) {k : κ} {v : ν} :
    r.find? k = some v ↔ (k, v) ∈ r.entries :=
  lookup_eq_some_iff r.distinct

/-- A key keeps its value if its entry has the property. -/
theorem find?_filter (r : Register κ ν) (p : κ × ν → Bool) (k : κ) :
    (r.filter p).find? k = (r.find? k).filter fun v => p (k, v) := by
  refine Option.ext fun v => ?_
  simp only [find?_eq_some_iff, filter, List.mem_filter, Option.filter_eq_some_iff]

/-- A key that is taken out has no value, and any other key keeps its own. -/
theorem find?_erase (r : Register κ ν) (k k' : κ) :
    (r.erase k).find? k' = if k' = k then none else r.find? k' := by
  rw [erase, find?_filter]
  by_cases h : k' = k
  · simp only [h, ne_eq, not_true_eq_false, decide_false, reduceIte]
    cases r.find? k <;> rfl
  · simp only [h, ne_eq, not_false_eq_true, decide_true, reduceIte]
    cases r.find? k' <;> rfl

/-! ## Putting in -/

/-- The entries with the value of a key replaced. -/
def replaceValue (k : κ) (v : ν) (es : List (κ × ν)) : List (κ × ν) :=
  es.map fun e => if e.1 = k then (k, v) else e

/-- Replacing a value changes no key. -/
theorem replaceValue_keys (k : κ) (v : ν) (es : List (κ × ν)) :
    (replaceValue k v es).map (·.1) = es.map (·.1) := by
  simp only [replaceValue, List.map_map]
  refine List.map_congr_left fun e _ => ?_
  by_cases h : e.1 = k
  · rw [Function.comp_apply, if_pos h, h]
  · rw [Function.comp_apply, if_neg h]

/-- A new key comes last. -/
theorem nodup_append_key {es : List (κ × ν)} (h : (es.map (·.1)).Nodup) {k : κ} (v : ν)
    (hk : es.lookup k = none) : ((es ++ [(k, v)]).map (·.1)).Nodup := by
  rw [List.map_append, List.nodup_append]
  refine ⟨h, List.nodup_cons.mpr ⟨List.not_mem_nil, .nil⟩, fun a ha b hb hab => ?_⟩
  have hbk : b = k := List.mem_singleton.mp hb
  exact lookup_eq_none_iff.mp hk (hbk ▸ hab ▸ ha)

/-- Gives a key a value. -/
def put (r : Register κ ν) (k : κ) (v : ν) : Register κ ν :=
  if h : r.entries.lookup k = none then
    ⟨r.entries ++ [(k, v)], nodup_append_key r.distinct v h⟩
  else ⟨replaceValue k v r.entries, replaceValue_keys k v r.entries ▸ r.distinct⟩

/-- A key has the value it was given last, and any other key keeps its own. -/
theorem find?_put (r : Register κ ν) (k : κ) (v : ν) (k' : κ) :
    (r.put k v).find? k' = if k' = k then some v else r.find? k' := by
  by_cases h : r.entries.lookup k = none
  · simp only [put, h, reduceDIte, find?, List.lookup_append, List.lookup_cons, List.lookup_nil]
    by_cases hk : k' = k
    · subst hk
      simp only [h, beq_self_eq_true, Option.none_or, reduceIte]
    · simp only [beq_eq_false_iff_ne.mpr hk, Option.or_none, hk, reduceIte]
  · refine Option.ext fun w => ?_
    obtain ⟨old, hold⟩ := Option.ne_none_iff_exists'.mp h
    have hmem := (lookup_eq_some_iff r.distinct).mp hold
    by_cases hk : k' = k
    · subst hk
      simp only [find?_eq_some_iff, put, h, reduceDIte, replaceValue, List.mem_map, reduceIte]
      grind
    · simp only [find?_eq_some_iff, put, h, reduceDIte, replaceValue, List.mem_map, hk, reduceIte]
      grind

/-! ## Sums -/

/-- The sum of a measure over the values of entries. -/
def sumValues (f : ν → Nat) : List (κ × ν) → Nat
  | [] => 0
  | e :: es => f e.2 + sumValues f es

/-- The sum of a measure over the values. -/
def total (f : ν → Nat) (r : Register κ ν) : Nat :=
  sumValues f r.entries

/-- Nothing changes where the key is not. -/
theorem replaceValue_of_not_mem {es : List (κ × ν)} {k : κ} (h : k ∉ es.map (·.1)) (v : ν) :
    replaceValue k v es = es := by
  have hsame : replaceValue k v es = es.map id := by
    refine List.map_congr_left fun e he => if_neg fun heq => ?_
    exact h (heq ▸ List.mem_map_of_mem he)
  rw [hsame, List.map_id]

/-- A value that is replaced goes out of the sum, and the new one comes in. -/
theorem sumValues_replaceValue (f : ν → Nat) {es : List (κ × ν)} (hd : (es.map (·.1)).Nodup) {k : κ}
    {v : ν} (h : es.lookup k = some v) (v' : ν) :
    sumValues f (replaceValue k v' es) + f v = sumValues f es + f v' := by
  induction es with
  | nil => cases h
  | cons e rest ih =>
    obtain ⟨k', u⟩ := e
    obtain ⟨hnew, hrest⟩ := List.nodup_cons.mp hd
    by_cases hk : k = k'
    · subst hk
      rw [List.lookup_cons_self] at h
      cases h
      have hsame := replaceValue_of_not_mem hnew v'
      simp only [replaceValue, List.map_cons, if_true, sumValues] at hsame ⊢
      rw [hsame]
      omega
    · rw [List.lookup_cons, beq_eq_false_iff_ne.mpr hk] at h
      have hih := ih hrest h
      simp only [replaceValue, List.map_cons, if_neg (Ne.symm hk), sumValues] at hih ⊢
      omega

omit [DecidableEq κ] in
/-- An entry that comes last is counted too. -/
theorem sumValues_append (f : ν → Nat) (es : List (κ × ν)) (e : κ × ν) :
    sumValues f (es ++ [e]) = sumValues f es + f e.2 := by
  induction es with
  | nil => exact Nat.add_comm _ _
  | cons e' rest ih => rw [List.cons_append, sumValues, ih, sumValues, Nat.add_assoc]

/-- Replacing the value of a key replaces its part of the sum. -/
theorem total_put {r : Register κ ν} {k : κ} {v : ν} (h : r.find? k = some v) (f : ν → Nat) (v' : ν) :
    (r.put k v').total f + f v = r.total f + f v' := by
  have hno : r.entries.lookup k ≠ none := fun hno => by
    rw [find?, hno] at h
    cases h
  simp only [total, put, hno, reduceDIte]
  exact sumValues_replaceValue f r.distinct h v'

/-- A new key adds its value's part to the sum. -/
theorem total_put_new {r : Register κ ν} {k : κ} (h : r.find? k = none) (f : ν → Nat) (v : ν) :
    (r.put k v).total f = r.total f + f v := by
  have hno : r.entries.lookup k = none := h
  simp only [total, put, hno, reduceDIte]
  exact sumValues_append f r.entries (k, v)

end Register

end PaymentRelay
