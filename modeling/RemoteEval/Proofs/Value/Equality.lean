import RemoteEval.Value.Equality

/-!
# Equality without floating-point numbers

Two values without a floating-point number are equal exactly if nothing but what their sequences
yield tells them apart (`equal_iff_core_eq`), so equality of such values is reflexive and
transitive. A sequence is compared by its identity alone, so it does not matter what it yields.
-/

namespace RemoteEval.Value

mutual

/-- Whether there is no floating-point number in a value. -/
def isFloatFree : Value → Bool
  | float _ => false
  | array items => areFloatFree items
  | map entries => entriesFloatFree entries
  | _ => true

/-- Whether there is no floating-point number in any of some values. -/
def areFloatFree : List Value → Bool
  | [] => true
  | v :: rest => v.isFloatFree && areFloatFree rest

/-- Whether there is no floating-point number in any of some keys and values. -/
def entriesFloatFree : List (Value × Value) → Bool
  | [] => true
  | (k, v) :: rest => k.isFloatFree && v.isFloatFree && entriesFloatFree rest

end

mutual

/-- A value of whose sequences nothing is left but the identity. -/
def core : Value → Value
  | array items => array (coreItems items)
  | map entries => map (coreEntries entries)
  | seq identity _ => seq identity (.items [])
  | v => v

/-- The cores of some values. -/
def coreItems : List Value → List Value
  | [] => []
  | v :: rest => v.core :: coreItems rest

/-- The cores of some keys and values. -/
def coreEntries : List (Value × Value) → List (Value × Value)
  | [] => []
  | (k, v) :: rest => (k.core, v.core) :: coreEntries rest

end

mutual

/-- Values without a floating-point number are equal if and only if their cores are the same. -/
theorem equal_iff_core_eq : ∀ {a b : Value}, a.isFloatFree = true → b.isFloatFree = true →
    (a.equal b = true ↔ a.core = b.core)
  | .array as, b, ha, hb => by
    cases b with
    | array bs =>
      rw [equal, core, core, array.injEq]
      exact equalItems_iff_core_eq ha hb
    | _ => simp [equal, core]
  | .map as, b, ha, hb => by
    cases b with
    | map bs =>
      rw [equal, core, core, map.injEq]
      exact equalEntries_iff_core_eq ha hb
    | _ => simp [equal, core]
  | .float _, _, ha, _ => by simp [isFloatFree] at ha
  | .int _, b, _, hb => by
    cases b with
    | float => simp [isFloatFree] at hb
    | _ => simp [equal, core]
  | .null, b, _, _ | .bool _, b, _, _ | .str _, b, _, _ | .char _, b, _, _ | .seq _ _, b, _, _
  | .object _, b, _, _ => by
    cases b <;> simp [equal, core]

theorem equalItems_iff_core_eq : ∀ {as bs : List Value}, areFloatFree as = true →
    areFloatFree bs = true → (equalItems as bs = true ↔ coreItems as = coreItems bs)
  | [], [], _, _ => by simp [equalItems, coreItems]
  | [], _ :: _, _, _ | _ :: _, [], _, _ => by simp [equalItems, coreItems]
  | a :: as, b :: bs, ha, hb => by
    rw [areFloatFree, Bool.and_eq_true] at ha hb
    rw [equalItems, coreItems, coreItems, Bool.and_eq_true, List.cons.injEq,
      equal_iff_core_eq ha.1 hb.1, equalItems_iff_core_eq ha.2 hb.2]

theorem equalEntries_iff_core_eq : ∀ {as bs : List (Value × Value)}, entriesFloatFree as = true →
    entriesFloatFree bs = true → (equalEntries as bs = true ↔ coreEntries as = coreEntries bs)
  | [], [], _, _ => by simp [equalEntries, coreEntries]
  | [], _ :: _, _, _ | _ :: _, [], _, _ => by simp [equalEntries, coreEntries]
  | (j, a) :: as, (k, b) :: bs, ha, hb => by
    rw [entriesFloatFree, Bool.and_eq_true, Bool.and_eq_true] at ha hb
    rw [equalEntries, coreEntries, coreEntries, Bool.and_eq_true, Bool.and_eq_true,
      List.cons.injEq, Prod.mk.injEq, equal_iff_core_eq ha.1.1 hb.1.1,
      equal_iff_core_eq ha.1.2 hb.1.2, equalEntries_iff_core_eq ha.2 hb.2]

end

variable {a b c : Value}

theorem equal_refl_of_isFloatFree (ha : a.isFloatFree = true) : a.equal a = true :=
  (equal_iff_core_eq ha ha).2 rfl

theorem equal_congr_of_isFloatFree (ha : a.isFloatFree = true) (hb : b.isFloatFree = true)
    (hc : c.isFloatFree = true) (hab : a.equal b = true) : a.equal c = b.equal c := by
  rw [Bool.eq_iff_iff, equal_iff_core_eq ha hc, equal_iff_core_eq hb hc,
    (equal_iff_core_eq ha hb).1 hab]

end RemoteEval.Value
