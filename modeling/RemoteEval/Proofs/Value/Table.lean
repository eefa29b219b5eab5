import Mathlib.Data.List.Basic
import RemoteEval.Value.Table
import RemoteEval.Proofs.Value.Blurring
import RemoteEval.Proofs.Value.Equality

/-!
# What tables keep

An insertion replaces the value of one entry or adds one behind the others (`Table.Insertion`). As a
key is added only if no key before equals it, no key of a table that was filled by insertions equals
one behind it (`Table.Distinct`), whatever equality says of the others. Equality of keys with
floating-point numbers in them is neither reflexive nor transitive, so this is all that holds of
every table. Without such numbers a key finds its own value, and an insertion leaves the values of
all other keys as they were (`Table.insertion_ordered`).
-/

namespace RemoteEval.Table

variable {key value j k v : Value} {s t before after : Table}

/-! ## Looking up -/

theorem get?_cons_of_equal (h : k.equal key = true) : get? key ((k, v) :: t) = some v :=
  if_pos h

theorem get?_cons_of_not_equal (h : k.equal key = false) :
    get? key ((k, v) :: t) = get? key t := by
  rw [get?, h]
  rfl

/-- Entries whose keys do not equal the one that is looked up are passed over. -/
theorem get?_append_of_forall (h : ∀ e ∈ s, e.1.equal key = false) :
    get? key (s ++ t) = get? key t := by
  induction s with
  | nil => rfl
  | cons e s ih =>
    obtain ⟨he, hs⟩ := List.forall_mem_cons.1 h
    rw [List.cons_append, get?_cons_of_not_equal he, ih hs]

/-- The value of an entry does not matter where another key is looked up. -/
theorem get?_replaced (h : k.equal j = false) (old new : Value) :
    get? j (before ++ (k, new) :: after) = get? j (before ++ (k, old) :: after) := by
  induction before with
  | nil =>
    rw [List.nil_append, List.nil_append, get?_cons_of_not_equal h, get?_cons_of_not_equal h]
  | cons e before ih => rw [List.cons_append, List.cons_append, get?, get?, ih]

theorem get?_added (h : key.equal j = false) : get? j (t ++ [(key, value)]) = get? j t := by
  induction t with
  | nil => rw [List.nil_append, get?_cons_of_not_equal h]
  | cons e t ih => rw [List.cons_append, get?, get?, ih]

/-! ## Insertion -/

/-- What an insertion of a key with a value makes of a table, and what it gives back. -/
inductive Insertion (key value : Value) : Table → Option Value → Table → Prop
  /-- The first entry whose key equals the new one gets the value, and keeps its key and place. All
  other entries are as they were, and the old value is given back. -/
  | replaced {s t : Table} {k old : Value} (hs : ∀ e ∈ s, e.1.equal key = false)
      (hk : k.equal key = true) :
      Insertion key value (s ++ (k, old) :: t) (some old) (s ++ (k, value) :: t)
  /-- An entry comes behind all others, and nothing is given back. -/
  | added {t : Table} (h : ∀ e ∈ t, e.1.equal key = false) :
      Insertion key value t none (t ++ [(key, value)])

theorem Insertion.cons {old : Option Value} (hk : k.equal key = false)
    (h : Insertion key value s old t) : Insertion key value ((k, v) :: s) old ((k, v) :: t) := by
  cases h with
  | @replaced before _ _ _ hbefore hkey =>
    exact .replaced (s := (k, v) :: before) (List.forall_mem_cons.2 ⟨hk, hbefore⟩) hkey
  | added hs => exact .added (List.forall_mem_cons.2 ⟨hk, hs⟩)

theorem insertion_exchange (key value : Value) (t : Table) :
    Insertion key value t (t.exchange key value).1 (t.exchange key value).2 := by
  induction t with
  | nil => exact .added (t := []) (by simp)
  | cons e t ih =>
    obtain ⟨k, v⟩ := e
    rw [exchange]
    split
    · next hk => exact .replaced (s := []) (by simp) hk
    · next hk => exact .cons (Bool.eq_false_iff.2 hk) ih

/-- An exchange is an insertion that tells the value that was there before. -/
theorem exchange_eq (key value : Value) (t : Table) :
    t.exchange key value = (t.get? key, t.insert key value) := by
  induction t with
  | nil => rfl
  | cons e t ih =>
    rw [exchange, get?, insert, ih]
    split <;> rfl

theorem insertion_insert (key value : Value) (t : Table) :
    Insertion key value t (t.get? key) (t.insert key value) := by
  have h := insertion_exchange key value t
  rwa [exchange_eq] at h

/-- A key that equals itself has the value that was inserted last. -/
theorem get?_insert_self (hkey : key.equal key = true) :
    get? key (t.insert key value) = some value := by
  have h := insertion_insert key value t
  generalize t.get? key = old at h
  generalize t.insert key value = next at h ⊢
  cases h with
  | replaced hbefore hk => rw [get?_append_of_forall hbefore, get?_cons_of_equal hk]
  | added ht => rw [get?_append_of_forall ht, get?_cons_of_equal hkey]

/-! ## Distinct keys -/

/-- No key equals one that stands behind it. -/
def Distinct (t : Table) : Prop :=
  t.keys.Pairwise fun j k => j.equal k = false

theorem Insertion.distinct {old : Option Value} (h : Insertion key value s old t)
    (hs : s.Distinct) : t.Distinct := by
  cases h with
  | replaced _ _ =>
    unfold Distinct keys at hs ⊢
    rwa [List.map_append, List.map_cons] at hs ⊢
  | added hkey =>
    unfold Distinct keys at hs ⊢
    rw [List.map_append, List.pairwise_append]
    refine ⟨hs, List.pairwise_singleton _ _, ?_⟩
    rintro k hk _ hnew
    obtain ⟨e, he, rfl⟩ := List.mem_map.1 hk
    obtain rfl := List.mem_singleton.1 hnew
    exact hkey e he

theorem Distinct.foldl (entries : List (Value × Value)) (ht : t.Distinct) :
    Distinct (entries.foldl (fun t e => t.insert e.1 e.2) t) := by
  induction entries generalizing t with
  | nil => exact ht
  | cons e entries ih => exact ih ((insertion_insert e.1 e.2 t).distinct ht)

theorem distinct_ofEntries (entries : List (Value × Value)) : (ofEntries entries).Distinct :=
  .foldl entries List.Pairwise.nil

/-! ## Keys without floating-point numbers -/

/-- There is no floating-point number in any key. -/
def HasFloatFreeKeys (t : Table) : Prop :=
  ∀ e ∈ t, e.1.isFloatFree = true

/-- An insertion changes the value of no key but those that equal the new one. -/
theorem get?_insert_of_not_equal (hj : j.isFloatFree = true) (hkey : key.isFloatFree = true)
    (ht : t.HasFloatFreeKeys) (hne : j.equal key = false) :
    get? j (t.insert key value) = get? j t := by
  have h := insertion_insert key value t
  generalize t.get? key = old at h
  generalize t.insert key value = next at h ⊢
  cases h with
  | @replaced before after k old _ hk =>
    have hkfree : k.isFloatFree = true := ht (k, old) (List.mem_append_cons_self)
    have hkj : k.equal j = false := by
      rw [Value.equal_congr_of_isFloatFree hkfree hkey hj hk,
        Value.equal_symm key j, hne]
    exact get?_replaced hkj old value
  | added _ => exact get?_added (Value.equal_symm j key ▸ hne)

/-- Every key has the value of its own entry. -/
theorem Distinct.get?_of_mem (ht : t.Distinct) (hfree : t.HasFloatFreeKeys) {e : Value × Value}
    (he : e ∈ t) : get? e.1 t = some e.2 := by
  obtain ⟨before, after, rfl⟩ := List.append_of_mem he
  have hbefore : ∀ e' ∈ before, e'.1.equal e.1 = false := by
    unfold Distinct keys at ht
    rw [List.map_append, List.map_cons, List.pairwise_append] at ht
    exact fun e' he' => ht.2.2 e'.1 (List.mem_map_of_mem he') e.1 List.mem_cons_self
  rw [get?_append_of_forall hbefore]
  exact get?_cons_of_equal (Value.equal_refl_of_isFloatFree (hfree e he))

/-! ## Tables -/

/-- A table that was filled by any insertions has no key that equals one behind it, and every
further insertion replaces one value or adds one entry, and gives the old value back. A key that
equals itself finds the value inserted last. Where no floating-point number is in a key, the other
keys keep their values, and every key of the table finds its own. -/
theorem insertion_ordered (entries : List (Value × Value)) :
    (ofEntries entries).Distinct ∧
    (∀ key value, ∃ old, (ofEntries entries).exchange key value =
        (old, (ofEntries entries).insert key value) ∧
      Insertion key value (ofEntries entries) old ((ofEntries entries).insert key value)) ∧
    (∀ key value, key.equal key = true →
      get? key ((ofEntries entries).insert key value) = some value) ∧
    (∀ j key value, j.isFloatFree = true → key.isFloatFree = true →
      (ofEntries entries).HasFloatFreeKeys → j.equal key = false →
      get? j ((ofEntries entries).insert key value) = get? j (ofEntries entries)) ∧
    ((ofEntries entries).HasFloatFreeKeys →
      ∀ e ∈ ofEntries entries, get? e.1 (ofEntries entries) = some e.2) := by
  have hdistinct := distinct_ofEntries entries
  refine ⟨hdistinct, fun key value => ?_, fun key value => get?_insert_self,
    fun j key value => get?_insert_of_not_equal, fun hfree e => hdistinct.get?_of_mem hfree⟩
  exact ⟨_, exchange_eq key value _, insertion_insert key value _⟩

/-- Undefined numbers as keys stand side by side, and a floating-point number finds the entry of the
integer it equals. Without either, texts and arrays find what was inserted last. -/
theorem insertion_ordered_undefined :
    (Distinct [(.float (0 / 0), .int 1), (.int 1, .int 4), (.float (0 / 0), .int 3)] ∧
      get? (.float 1) (insert (.float 1) .null
        [(.float (0 / 0), .int 1), (.int 1, .int 4), (.float (0 / 0), .int 3)]) = some .null) ∧
    get? (.array [.int 2]) (insert (.str "a") .null
        [(.str "a", .int 3), (.array [.int 2], .float 2)]) =
      get? (.array [.int 2]) [(.str "a", .int 3), (.array [.int 2], .float 2)] ∧
    get? (.array [.int 2]) [(.str "a", .int 3), (.array [.int 2], .float 2)] = some (.float 2) := by
  constructor
  · have htable : ofEntries [(.float (0 / 0), .int 1), (.int 1, .int 2), (.float (0 / 0), .int 3),
        (.float 1, .int 4)] =
        [(.float (0 / 0), .int 1), (.int 1, .int 4), (.float (0 / 0), .int 3)] := rfl
    obtain ⟨hdistinct, -, hself, -⟩ := insertion_ordered [(.float (0 / 0), .int 1),
      (.int 1, .int 2), (.float (0 / 0), .int 3), (.float 1, .int 4)]
    rw [htable] at hdistinct hself
    exact ⟨hdistinct, hself (.float 1) .null (by decide)⟩
  · have htable : ofEntries [(.str "a", .int 1), (.array [.int 2], .float 2), (.str "a", .int 3)] =
        [(.str "a", .int 3), (.array [.int 2], .float 2)] := rfl
    obtain ⟨-, -, -, hothers, hown⟩ := insertion_ordered [(.str "a", .int 1),
      (.array [.int 2], .float 2), (.str "a", .int 3)]
    rw [htable] at hothers hown
    have hfree : HasFloatFreeKeys [(.str "a", .int 3), (.array [.int 2], .float 2)] := by
      simp [HasFloatFreeKeys, Value.isFloatFree, Value.areFloatFree]
    exact ⟨hothers (.array [.int 2]) (.str "a") .null (by decide) (by decide) hfree (by decide),
      hown hfree (.array [.int 2], .float 2) (by simp)⟩

end RemoteEval.Table
