import RemoteEval.Proofs.Number.Binary64
import RemoteEval.Value.Equality

/-!
# Where equality is no equivalence

Equality of values is symmetric (`equal_symm`). It is transitive but for one thing : a
floating-point number equals every integer it is nearest to, and two integers that it is nearest to
do not equal each other. That, somewhere in three values, is `Blurred`, and nothing else keeps
equality from being transitive (`equal_trans_iff`).

Integers nearer to zero than `Number.exactLimit` are floating-point numbers themselves and are not
blurred (`not_blurred`).
-/

namespace RemoteEval.Value

variable {a b c j k l : Value} {as bs cs : List Value} {es fs gs : List (Value × Value)}

/-! ## Blurred integers -/

mutual

/-- Where two values hold different integers, a value between them holds a floating-point number
that is nearest to both. -/
inductive Blurred : Value → Value → Value → Prop
  /-- The number. -/
  | number {m n : Int64} {x : Float} (hne : m ≠ n) (hm : (Number.ofInt64 m == x) = true)
    (hn : (Number.ofInt64 n == x) = true) : Blurred (.int m) (.float x) (.int n)
  /-- In an array. -/
  | array {as bs cs : List Value} (h : BlurredItems as bs cs) :
    Blurred (.array as) (.array bs) (.array cs)
  /-- In a map. -/
  | map {es fs gs : List (Value × Value)} (h : BlurredEntries es fs gs) :
    Blurred (.map es) (.map fs) (.map gs)

/-- Some items of three arrays are blurred. -/
inductive BlurredItems : List Value → List Value → List Value → Prop
  /-- The first. -/
  | head {a b c : Value} {as bs cs : List Value} (h : Blurred a b c) :
    BlurredItems (a :: as) (b :: bs) (c :: cs)
  /-- A later one. -/
  | tail {a b c : Value} {as bs cs : List Value} (h : BlurredItems as bs cs) :
    BlurredItems (a :: as) (b :: bs) (c :: cs)

/-- Some keys or values of three maps are blurred. -/
inductive BlurredEntries :
    List (Value × Value) → List (Value × Value) → List (Value × Value) → Prop
  /-- The first key. -/
  | key {j k l a b c : Value} {es fs gs : List (Value × Value)} (h : Blurred j k l) :
    BlurredEntries ((j, a) :: es) ((k, b) :: fs) ((l, c) :: gs)
  /-- The first value. -/
  | value {j k l a b c : Value} {es fs gs : List (Value × Value)} (h : Blurred a b c) :
    BlurredEntries ((j, a) :: es) ((k, b) :: fs) ((l, c) :: gs)
  /-- A later one. -/
  | tail {e f g : Value × Value} {es fs gs : List (Value × Value)} (h : BlurredEntries es fs gs) :
    BlurredEntries (e :: es) (f :: fs) (g :: gs)

end

theorem blurredItems_cons :
    BlurredItems (a :: as) (b :: bs) (c :: cs) ↔ Blurred a b c ∨ BlurredItems as bs cs := by
  constructor
  · rintro (h | h)
    · exact .inl h
    · exact .inr h
  · rintro (h | h)
    · exact .head h
    · exact .tail h

theorem blurredEntries_cons :
    BlurredEntries ((j, a) :: es) ((k, b) :: fs) ((l, c) :: gs) ↔
      Blurred j k l ∨ Blurred a b c ∨ BlurredEntries es fs gs := by
  constructor
  · rintro (h | h | h)
    · exact .inl h
    · exact .inr (.inl h)
    · exact .inr (.inr h)
  · rintro (h | h | h)
    · exact .key h
    · exact .value h
    · exact .tail h

/-! ## Symmetry -/

mutual

theorem equal_symm : ∀ a b : Value, a.equal b = b.equal a
  | .array as, b => by
    cases b with
    | array bs => exact equalItems_symm as bs
    | _ => rfl
  | .map es, b => by
    cases b with
    | map fs => exact equalEntries_symm es fs
    | _ => rfl
  | .float x, b => by
    cases b with
    | float y => exact Number.beq_symm x y
    | _ => rfl
  | .null, b | .bool _, b | .int _, b | .str _, b | .char _, b | .seq _ _, b | .object _, b => by
    cases b <;> first | rfl | exact BEq.comm

theorem equalItems_symm : ∀ as bs : List Value, equalItems as bs = equalItems bs as
  | [], [] | [], _ :: _ | _ :: _, [] => rfl
  | a :: as, b :: bs => by
    rw [equalItems, equalItems, equal_symm a b, equalItems_symm as bs]

theorem equalEntries_symm : ∀ es fs : List (Value × Value), equalEntries es fs = equalEntries fs es
  | [], [] | [], _ :: _ | _ :: _, [] => rfl
  | (j, a) :: es, (k, b) :: fs => by
    rw [equalEntries, equalEntries, equal_symm j k, equal_symm a b, equalEntries_symm es fs]

end

/-! ## Transitivity -/

mutual

theorem equal_trans_iff : ∀ {a b c : Value}, a.equal b = true → b.equal c = true →
    (a.equal c = true ↔ ¬Blurred a b c)
  | .array as, b, c, hab, hbc => by
    cases b with
    | array bs =>
      cases c with
      | array cs =>
        rw [equal, equalItems_trans_iff hab hbc, not_iff_not]
        exact ⟨.array, fun h => by cases h; assumption⟩
      | _ => simp [equal] at hbc
    | _ => simp [equal] at hab
  | .map es, b, c, hab, hbc => by
    cases b with
    | map fs =>
      cases c with
      | map gs =>
        rw [equal, equalEntries_trans_iff hab hbc, not_iff_not]
        exact ⟨.map, fun h => by cases h; assumption⟩
      | _ => simp [equal] at hbc
    | _ => simp [equal] at hab
  | .int m, b, c, hab, hbc => by
    cases b with
    | int n =>
      obtain rfl : m = n := by simpa [equal] using hab
      exact iff_of_true hbc nofun
    | float x =>
      cases c with
      | int n =>
        have hequal : (int m).equal (int n) = true ↔ m = n := by simp [equal]
        rw [hequal]
        constructor
        · rintro rfl (⟨hne, -, -⟩)
          exact hne rfl
        · intro h
          by_contra hne
          exact h (.number hne hab hbc)
      | float y => exact iff_of_true (Number.beq_trans hab hbc) nofun
      | _ => simp [equal] at hbc
    | _ => simp [equal] at hab
  | .float x, b, c, hab, hbc => by
    refine iff_of_true ?_ nofun
    cases b with
    | int n =>
      have hx : (Number.ofInt64 n == x) = true := hab
      cases c with
      | int o =>
        obtain rfl : n = o := by simpa [equal] using hbc
        exact hab
      | float y =>
        rw [Number.beq_symm] at hx
        exact Number.beq_trans hx hbc
      | _ => simp [equal] at hbc
    | float y =>
      cases c with
      | int o =>
        have hy : (Number.ofInt64 o == y) = true := hbc
        have hxy : (y == x) = true := by rwa [Number.beq_symm]
        exact Number.beq_trans hy hxy
      | float z => exact Number.beq_trans hab hbc
      | _ => simp [equal] at hbc
    | _ => simp [equal] at hab
  | .null, b, c, hab, hbc | .bool _, b, c, hab, hbc | .str _, b, c, hab, hbc
  | .char _, b, c, hab, hbc | .seq _ _, b, c, hab, hbc | .object _, b, c, hab, hbc => by
    refine iff_of_true ?_ nofun
    cases b <;> simp [equal] at hab
    cases c <;> simp [equal] at hbc
    simp [equal, hab, hbc]

theorem equalItems_trans_iff : ∀ {as bs cs : List Value}, equalItems as bs = true →
    equalItems bs cs = true → (equalItems as cs = true ↔ ¬BlurredItems as bs cs)
  | [], [], [], _, _ => iff_of_true rfl nofun
  | [], _ :: _, _, hab, _ | _ :: _, [], _, hab, _ => by simp [equalItems] at hab
  | [], [], _ :: _, _, hbc | _ :: _, _ :: _, [], _, hbc => by simp [equalItems] at hbc
  | a :: as, b :: bs, c :: cs, hab, hbc => by
    rw [equalItems, Bool.and_eq_true] at hab hbc
    rw [equalItems, Bool.and_eq_true, equal_trans_iff hab.1 hbc.1,
      equalItems_trans_iff hab.2 hbc.2, blurredItems_cons, not_or]

theorem equalEntries_trans_iff : ∀ {es fs gs : List (Value × Value)}, equalEntries es fs = true →
    equalEntries fs gs = true → (equalEntries es gs = true ↔ ¬BlurredEntries es fs gs)
  | [], [], [], _, _ => iff_of_true rfl nofun
  | [], _ :: _, _, hab, _ | _ :: _, [], _, hab, _ => by simp [equalEntries] at hab
  | [], [], _ :: _, _, hbc | _ :: _, _ :: _, [], _, hbc => by simp [equalEntries] at hbc
  | (j, a) :: es, (k, b) :: fs, (l, c) :: gs, hab, hbc => by
    rw [equalEntries, Bool.and_eq_true, Bool.and_eq_true] at hab hbc
    rw [equalEntries, Bool.and_eq_true, Bool.and_eq_true, equal_trans_iff hab.1.1 hbc.1.1,
      equal_trans_iff hab.1.2 hbc.1.2, equalEntries_trans_iff hab.2 hbc.2, blurredEntries_cons,
      not_or, not_or, and_assoc]

end

/-! ## Integers that are not blurred -/

mutual

/-- The integers in a value. -/
def integers : Value → List Int64
  | int n => [n]
  | array items => itemIntegers items
  | map entries => entryIntegers entries
  | _ => []

/-- The integers in some values. -/
def itemIntegers : List Value → List Int64
  | [] => []
  | v :: rest => v.integers ++ itemIntegers rest

/-- The integers in some keys and values. -/
def entryIntegers : List (Value × Value) → List Int64
  | [] => []
  | (k, v) :: rest => k.integers ++ v.integers ++ entryIntegers rest

end

/-- Some integer of one list and another of another list are nearest to the same number. -/
def Confused (ms ns : List Int64) : Prop :=
  ∃ m ∈ ms, ∃ n ∈ ns, m ≠ n ∧ (Number.ofInt64 m == Number.ofInt64 n) = true

theorem Confused.mono {ms ns ms' ns' : List Int64} (h : Confused ms ns) (hm : ms ⊆ ms')
    (hn : ns ⊆ ns') : Confused ms' ns' := by
  obtain ⟨m, hm', n, hn', hne⟩ := h
  exact ⟨m, hm hm', n, hn hn', hne⟩

mutual

theorem Blurred.confused : ∀ {a b c : Value}, Blurred a b c → Confused a.integers c.integers
  | _, _, _, .number hne hm hn => by
    rw [Number.beq_symm] at hn
    exact ⟨_, .head _, _, .head _, hne, Number.beq_trans hm hn⟩
  | _, _, _, .array h => h.confused
  | _, _, _, .map h => h.confused

theorem BlurredItems.confused : ∀ {as bs cs : List Value}, BlurredItems as bs cs →
    Confused (itemIntegers as) (itemIntegers cs)
  | _, _, _, .head h => h.confused.mono (List.subset_append_left ..) (List.subset_append_left ..)
  | _, _, _, .tail h => h.confused.mono (List.subset_append_right ..) (List.subset_append_right ..)

theorem BlurredEntries.confused : ∀ {es fs gs : List (Value × Value)}, BlurredEntries es fs gs →
    Confused (entryIntegers es) (entryIntegers gs)
  | _, _, _, .key h => by
    refine h.confused.mono ?_ ?_ <;> intro m hm <;> simp [entryIntegers, hm]
  | _, _, _, .value h => by
    refine h.confused.mono ?_ ?_ <;> intro m hm <;> simp [entryIntegers, hm]
  | (_, _) :: _, _, (_, _) :: _, .tail h =>
    h.confused.mono (List.subset_append_right ..) (List.subset_append_right ..)

end

/-- Integers nearer to zero than the limit are floating-point numbers, and are not blurred. -/
theorem not_blurred (ha : ∀ n ∈ a.integers, n.toInt.natAbs < Number.exactLimit)
    (hc : ∀ n ∈ c.integers, n.toInt.natAbs < Number.exactLimit) : ¬Blurred a b c := by
  intro h
  obtain ⟨m, hm, n, hn, hne, hsame⟩ := h.confused
  exact hne (Number.ofInt64_inj (ha m hm) (hc n hn) hsame)

/-! ## The laws of equality -/

/-- Equality of values is symmetric. Values that equal one between them equal each other if and only
if nothing is blurred in the three, and nothing is where all integers are nearer to zero than the
limit. -/
theorem equal_laws (a b c : Value) :
    a.equal b = b.equal a ∧
      (a.equal b = true → b.equal c = true →
        (a.equal c = true ↔ ¬Blurred a b c) ∧
          ((∀ n ∈ a.integers ++ c.integers, n.toInt.natAbs < Number.exactLimit) →
            a.equal c = true)) := by
  refine ⟨equal_symm a b, fun hab hbc => ⟨equal_trans_iff hab hbc, fun hexact => ?_⟩⟩
  rw [List.forall_mem_append] at hexact
  exact (equal_trans_iff hab hbc).2 (not_blurred hexact.1 hexact.2)

/-- One more than the limit is no floating-point number, and the limit is nearest to it. -/
theorem not_all_equal_trans : ¬∀ a b c : Value, (a.equal b = true → b.equal a = true) ∧
    (a.equal b = true → b.equal c = true → a.equal c = true) := by
  intro h
  have hab : (int 9007199254740993).equal (float 9007199254740992.0) = true := by decide +kernel
  have hbc : (float 9007199254740992.0).equal (int 9007199254740992) = true := by decide +kernel
  have hac : (int 9007199254740993).equal (int 9007199254740992) = false := by decide +kernel
  rw [(h _ _ _).2 hab hbc] at hac
  cases hac

/-- Arrays that equal each other through a floating-point number below the limit, and do not at the
limit. -/
theorem equal_laws_arrays :
    (array [str "a", int 3]).equal (array [str "a", int 3]) = true ∧
      Blurred (array [str "a", int 9007199254740993]) (array [str "a", float 9007199254740992.0])
        (array [str "a", int 9007199254740992]) := by
  have hlow : (array [str "a", int 3]).equal (array [str "a", float 3.0]) = true := by
    decide +kernel
  have hlow' : (array [str "a", float 3.0]).equal (array [str "a", int 3]) = true := by
    decide +kernel
  have hab : (array [str "a", int 9007199254740993]).equal
      (array [str "a", float 9007199254740992.0]) = true := by decide +kernel
  have hbc : (array [str "a", float 9007199254740992.0]).equal
      (array [str "a", int 9007199254740992]) = true := by decide +kernel
  have hac : ¬(array [str "a", int 9007199254740993]).equal
      (array [str "a", int 9007199254740992]) = true := by decide +kernel
  have hexact : ∀ n ∈ (array [str "a", int 3]).integers ++ (array [str "a", int 3]).integers,
      n.toInt.natAbs < Number.exactLimit := by
    intro n hn
    obtain rfl : n = 3 := by simpa [integers, itemIntegers] using hn
    have hthree : (3 : Int64).toInt.natAbs = 3 := by decide
    rw [hthree, Number.exactLimit, Nat.shiftLeft_eq]
    norm_num
  constructor
  · exact ((equal_laws _ _ _).2 hlow hlow').2 hexact
  · by_contra hclear
    exact hac (((equal_laws _ _ _).2 hab hbc).1.2 hclear)

end RemoteEval.Value
