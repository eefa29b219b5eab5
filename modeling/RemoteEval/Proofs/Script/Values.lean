import RemoteEval.Script.Evaluator
import RemoteEval.Proofs.Script.Recursion

/-!
# Values that scripts build

A script has no way to make an object but to ask for the kind of a value, and no sequence but a
range (`Value.Scripted`). Every step of an evaluation keeps to such values : what it yields is one,
and so is what the memory holds afterwards, whether or not the step succeeds (`Action.Builds`). The
lemmas follow the evaluator, one for each kind of step, up to a whole input
(`evaluate_scripted`). So all that an evaluator ever holds are such values
(`Memory.Reachable.scripted`), in whatever order it was used and stopped.
-/

namespace RemoteEval

/-- A value that a script can build. -/
inductive Value.Scripted : Value → Prop
  | null : Scripted .null
  | bool (b : Bool) : Scripted (.bool b)
  | int (i : Int64) : Scripted (.int i)
  | float (x : Float) : Scripted (.float x)
  | str (s : String) : Scripted (.str s)
  | char (c : Char) : Scripted (.char c)
  | array {items : List Value} (h : ∀ v ∈ items, Scripted v) : Scripted (.array items)
  | map {entries : Table} (hk : ∀ e ∈ entries, Scripted e.1) (hv : ∀ e ∈ entries, Scripted e.2) :
      Scripted (.map entries)
  | range (identity : Nat) (start stop : Int64) : Scripted (.seq identity (.range start stop))
  | kind (v : Value) : Scripted (.object v.kind)

/-- Keys and values that a script can build. -/
structure Table.Scripted (t : Table) : Prop where
  keys : ∀ e ∈ t, e.1.Scripted
  values : ∀ e ∈ t, e.2.Scripted

theorem Table.Scripted.nil : Table.Scripted [] :=
  ⟨by simp, by simp⟩

theorem Table.Scripted.cons {k v : Value} {t : Table} :
    Table.Scripted ((k, v) :: t) ↔ k.Scripted ∧ v.Scripted ∧ t.Scripted := by
  constructor
  · intro h
    obtain ⟨hk, hks⟩ := List.forall_mem_cons.1 h.keys
    obtain ⟨hv, hvs⟩ := List.forall_mem_cons.1 h.values
    exact ⟨hk, hv, hks, hvs⟩
  · rintro ⟨hk, hv, ht⟩
    exact ⟨List.forall_mem_cons.2 ⟨hk, ht.keys⟩, List.forall_mem_cons.2 ⟨hv, ht.values⟩⟩

theorem Table.Scripted.insert {k v : Value} {t : Table} (ht : t.Scripted) (hk : k.Scripted)
    (hv : v.Scripted) : (t.insert k v).Scripted := by
  induction t with
  | nil => exact Table.Scripted.cons.2 ⟨hk, hv, .nil⟩
  | cons e t ih =>
    obtain ⟨hj, hw, ht⟩ := Table.Scripted.cons.1 ht
    rw [Table.insert]
    split
    · exact Table.Scripted.cons.2 ⟨hj, hv, ht⟩
    · exact Table.Scripted.cons.2 ⟨hj, hw, ih ht⟩

theorem Table.Scripted.get? {k v : Value} {t : Table} (ht : t.Scripted)
    (hget : Table.get? k t = some v) : v.Scripted := by
  induction t with
  | nil => cases hget
  | cons e t ih =>
    obtain ⟨-, hw, ht⟩ := Table.Scripted.cons.1 ht
    rw [Table.get?] at hget
    split at hget
    · cases hget
      exact hw
    · exact ih ht hget

namespace Script

/-! ## Operators -/

theorem scripted_checkedInt {n : Int} {v : Value} (h : checkedInt n = .ok v) : v.Scripted := by
  unfold checkedInt at h
  split at h <;> cases h
  exact .int _

theorem scripted_dividedInt {result : Int → Int → Int} {a b : Int64} {v : Value}
    (h : dividedInt result a b = .ok v) : v.Scripted := by
  unfold dividedInt at h
  split at h
  · cases h
  · split at h
    · exact scripted_checkedInt h
    · cases h

theorem scripted_intArithmetic {op : BinaryOp} {a b : Int64} {v : Value}
    (h : intArithmetic op a b = .ok v) : v.Scripted := by
  unfold intArithmetic at h
  split at h
  · exact scripted_checkedInt h
  · exact scripted_checkedInt h
  · exact scripted_checkedInt h
  · exact scripted_dividedInt h
  · exact scripted_dividedInt h
  · cases h

theorem scripted_arithmetic {op : BinaryOp} {a b v : Value} (ha : a.Scripted) (hb : b.Scripted)
    (h : arithmetic op a b = .ok v) : v.Scripted := by
  unfold arithmetic at h
  split at h
  · cases h
    exact .str _
  · cases h
    exact .str _
  · cases h
    cases ha with | array ha =>
    cases hb with | array hb =>
    exact .array fun v hv => (List.mem_append.1 hv).elim (ha v) (hb v)
  · exact scripted_intArithmetic h
  · split at h
    · split at h <;> cases h
      exact .float _
    · cases h

theorem scripted_apply {op : BinaryOp} {a b v : Value} (ha : a.Scripted) (hb : b.Scripted)
    (h : op.apply a b = .ok v) : v.Scripted := by
  unfold BinaryOp.apply at h
  split at h
  · cases h
    exact .bool _
  · cases h
    exact .bool _
  iterate 4
    · split at h <;> cases h <;> exact .bool _
  · exact scripted_arithmetic ha hb h

theorem scripted_combine {op : BinaryOp} {a b v : Value} (ha : a.Scripted) (hb : b.Scripted)
    (h : op.combine a b = .ok v) : v.Scripted := by
  unfold BinaryOp.combine at h
  split at h
  · cases h
    exact .bool _
  · cases h
    exact .bool _
  · exact scripted_apply ha hb h

theorem scripted_prefix {op : PrefixOp} {a v : Value} (h : op.apply a = .ok v) : v.Scripted := by
  unfold PrefixOp.apply at h
  split at h
  · cases h
    exact .bool _
  · exact scripted_checkedInt h
  · cases h
    exact .float _
  · cases h

theorem mem_of_itemAt? {α : Type} {items : List α} {i : Int64} {a : α}
    (h : itemAt? items i = some a) : a ∈ items := by
  unfold itemAt? at h
  split at h
  · cases h
  · exact List.mem_of_getElem? h

theorem scripted_indexed {target index v : Value} (ht : target.Scripted)
    (h : indexed target index = .ok v) : v.Scripted := by
  unfold indexed at h
  split at h
  · split at h <;> cases h
    cases ht with | array ht => exact ht _ (mem_of_itemAt? ‹_›)
  · split at h <;> cases h
    exact .char _
  · split at h <;> cases h
    cases ht with | map hk hv => exact Table.Scripted.get? ⟨hk, hv⟩ ‹_›
  · cases h

/-! ## Steps of an evaluation -/

/-- All variables hold values that a script can build. -/
def Scope.Scripted (s : Scope) : Prop :=
  ∀ e ∈ s, e.2.Scripted

theorem Scope.Scripted.set {s : Scope} {name : String} {v : Value} (hs : s.Scripted)
    (hv : v.Scripted) : (s.set name v).Scripted := by
  induction s with
  | nil => simpa [Scope.Scripted, Scope.set] using hv
  | cons e s ih =>
    obtain ⟨he, hs⟩ := List.forall_mem_cons.1 hs
    rw [Scope.set]
    split
    · exact List.forall_mem_cons.2 ⟨hv, hs⟩
    split
    · exact List.forall_mem_cons.2 ⟨hv, List.forall_mem_cons.2 ⟨he, hs⟩⟩
    · exact List.forall_mem_cons.2 ⟨he, ih hs⟩

theorem Scope.Scripted.get? {s : Scope} {name : String} {v : Value} (hs : s.Scripted)
    (hget : s.get? name = some v) : v.Scripted := by
  induction s with
  | nil => cases hget
  | cons e s ih =>
    obtain ⟨he, hs⟩ := List.forall_mem_cons.1 hs
    rw [Scope.get?] at hget
    split at hget
    · cases hget
      exact he
    · exact ih hs hget

/-- A step leaves only values in the memory that a script can build, if it finds no others there,
and what it yields satisfies `P`. -/
def Action.Builds {α : Type} (P : α → Prop) (a : Action α) : Prop :=
  ∀ r : Run, r.memory.scope.Scripted →
    (a r).2.memory.scope.Scripted ∧ ∀ x, (a r).1 = .ok x → P x

namespace Action.Builds

variable {α β : Type} {P : α → Prop} {Q : β → Prop}

theorem pure {x : α} (hx : P x) : Action.Builds P (pure x) :=
  fun _ hr => ⟨hr, fun _ h => Except.ok.inj h ▸ hx⟩

theorem fail (f : Fault) : Action.Builds P (Action.fail f) :=
  fun _ hr => ⟨hr, fun _ h => nomatch h⟩

theorem bind {a : Action α} {f : α → Action β} (ha : a.Builds P)
    (hf : ∀ x, P x → (f x).Builds Q) : (a >>= f).Builds Q := by
  intro r hr
  obtain ⟨hmem, hval⟩ := ha r hr
  rw [bind_apply]
  split
  · next x r' heq =>
    rw [heq] at hmem hval
    exact hf x (hval x rfl) r' hmem
  · next f r' heq =>
    rw [heq] at hmem
    exact ⟨hmem, fun _ h => by cases h⟩

theorem lift {c : Context} {offset : Nat} {e : Except Failure α}
    (he : ∀ x, e = .ok x → P x) : Action.Builds P (Action.lift c offset e) := by
  cases e with
  | ok x => exact pure (he x rfl)
  | error e => exact fail _

theorem poll (w : Surroundings) : Action.Builds (fun _ => True) (Action.poll w) := by
  intro r hr
  unfold Action.poll
  split <;> exact ⟨hr, fun _ _ => trivial⟩

theorem emit (w : Surroundings) (message : String) :
    Action.Builds (fun _ => True) (Action.emit w message) :=
  fun _ hr => ⟨hr, fun _ _ => trivial⟩

theorem bindName {name : String} {v : Value} (hv : v.Scripted) :
    Action.Builds (fun _ => True) (Action.bindName name v) :=
  fun _ hr => ⟨hr.set hv, fun _ _ => trivial⟩

theorem lookUp (name : String) : Action.Builds Value.Scripted (Action.lookUp name) := by
  intro r hr
  unfold Action.lookUp
  split
  · next v heq => exact ⟨hr, fun _ h => Except.ok.inj h ▸ hr.get? heq⟩
  · exact ⟨hr, fun _ h => nomatch h⟩

theorem newSequence (start stop : Int64) :
    Action.Builds Value.Scripted (Action.newSequence (.range start stop)) :=
  fun _ hr => ⟨hr, fun _ h => Except.ok.inj h ▸ .range ..⟩

theorem render (w : Surroundings) (v : Value) :
    Action.Builds (fun _ => True) (Action.render w v) := by
  intro r hr
  unfold Action.render
  dsimp only
  split <;> exact ⟨hr, fun _ _ => trivial⟩

theorem plainText (w : Surroundings) (v : Value) :
    Action.Builds (fun _ => True) (Action.plainText w v) := by
  unfold Action.plainText
  split
  · exact pure trivial
  · exact render w _

theorem plainTexts (w : Surroundings) (vs : List Value) :
    Action.Builds (fun _ => True) (Action.plainTexts w vs) := by
  induction vs with
  | nil => exact pure trivial
  | cons v vs ih => exact (plainText w v).bind fun _ _ => ih.bind fun _ _ => pure trivial

/-! ## Functions -/

/-- What a call yields, if it yields anything. -/
abbrev Optional (o : Option Value) : Prop := ∀ v, o = some v → v.Scripted

theorem nothing : Action.Builds Optional (Pure.pure none) :=
  pure fun _ h => nomatch h

theorem something {v : Value} (hv : v.Scripted) : Action.Builds Optional (Pure.pure (some v)) :=
  pure fun _ h => Option.some.inj h ▸ hv

theorem length (c : Context) (offset : Nat) (v : Value) :
    Action.Builds (fun _ => True) (Builtin.length c offset v) := by
  unfold Builtin.length
  split
  · exact pure trivial
  · exact pure trivial
  · exact pure trivial
  · split
    · exact fail _
    · exact pure trivial
    · exact (poll _).bind fun _ _ => pure trivial
  · exact fail _

theorem run (c : Context) (offset : Nat) (b : Builtin) {args : List Value}
    (hargs : ∀ v ∈ args, v.Scripted) : Action.Builds Optional (b.run c offset args) := by
  unfold Builtin.run
  split
  · exact (plainTexts _ _).bind fun _ _ => (emit _ _).bind fun _ _ => nothing
  · exact (length c offset _).bind fun _ _ => something (.int _)
  · exact (newSequence _ _).bind fun _ hv => something hv
  · exact fail _
  · cases hargs _ List.mem_cons_self with | map hk hv =>
    refine something (.array fun v hv => ?_)
    obtain ⟨e, he, rfl⟩ := List.mem_map.1 hv
    exact hk e he
  · exact fail _
  · split
    · exact something (.char _)
    · exact fail _
  · exact (plainText _ _).bind fun _ _ => something (.str _)
  · exact something (.kind _)
  · exact (poll _).bind fun _ _ => nothing
  · exact fail _
  · exact nothing

theorem apply (c : Context) (offset : Nat) (b : Builtin) {args : List Value}
    (hargs : ∀ v ∈ args, v.Scripted) : Action.Builds Optional (b.apply c offset args) := by
  unfold Builtin.apply
  split
  · split
    · exact run c offset b hargs
    · exact fail _
  · exact run c offset b hargs

theorem callFunction (c : Context) (name : String) (offset : Nat) {args : List Value}
    (hargs : ∀ v ∈ args, v.Scripted) :
    Action.Builds Optional (Script.callFunction c name offset args) := by
  unfold Script.callFunction
  split
  · exact apply c offset _ hargs
  · exact fail _

/-! ## Expressions -/

theorem follow {links : List Link} (hlinks : ∀ link ∈ links, ∀ v, v.Scripted →
    (link v).Builds Value.Scripted) {v : Value} (hv : v.Scripted) :
    (Script.follow links v).Builds Value.Scripted := by
  induction links generalizing v with
  | nil => exact pure hv
  | cons link links ih =>
    obtain ⟨hlink, hlinks⟩ := List.forall_mem_cons.1 hlinks
    exact (hlink v hv).bind fun _ hw => ih hlinks hw

theorem binaryLink (c : Context) (op : BinaryOp) (offset : Nat) {right : Action Value}
    (hright : right.Builds Value.Scripted) {left : Value} (hleft : left.Scripted) :
    (Script.binaryLink c op offset right left).Builds Value.Scripted := by
  unfold Script.binaryLink
  split
  · exact pure (.bool _)
  · exact hright.bind fun _ hr => lift fun _ h => scripted_combine hleft hr h

theorem indexLink (c : Context) (offset : Nat) {index : Action Value}
    (hindex : index.Builds Value.Scripted) {target : Value} (htarget : target.Scripted) :
    (Script.indexLink c offset index target).Builds Value.Scripted :=
  hindex.bind fun _ _ => lift fun _ h => scripted_indexed htarget h

theorem valueOfCall (c : Context) (name : String) (offset : Nat) {o : Option Value}
    (ho : Optional o) : (Script.valueOfCall c name offset o).Builds Value.Scripted := by
  unfold Script.valueOfCall
  split
  · exact pure (ho _ rfl)
  · exact fail _

mutual

theorem walk (c : Context) : ∀ (e : Expr) {links : List Link},
    (∀ link ∈ links, ∀ v, v.Scripted → (link v).Builds Value.Scripted) →
    (Script.walk c e links).Builds Value.Scripted
  | .null, _, hlinks => by
    rw [Script.walk]
    exact follow hlinks .null
  | .bool b, _, hlinks => by
    rw [Script.walk]
    exact follow hlinks (.bool b)
  | .int i, _, hlinks => by
    rw [Script.walk]
    exact follow hlinks (.int i)
  | .float x, _, hlinks => by
    rw [Script.walk]
    exact follow hlinks (.float x)
  | .str s, _, hlinks => by
    rw [Script.walk]
    exact follow hlinks (.str s)
  | .char ch, _, hlinks => by
    rw [Script.walk]
    exact follow hlinks (.char ch)
  | .var name, _, hlinks => by
    rw [Script.walk]
    exact (lookUp name).bind fun _ hv => follow hlinks hv
  | .array items, _, hlinks => by
    rw [Script.walk]
    exact (walkItems c items).bind fun _ hvs => follow hlinks (.array hvs)
  | .map entries, _, hlinks => by
    rw [Script.walk]
    exact (walkEntries c entries .nil).bind fun _ ht => follow hlinks (.map ht.keys ht.values)
  | .call name args offset, _, hlinks => by
    rw [Script.walk]
    exact (walkItems c args).bind fun _ hvs => (callFunction c name offset hvs).bind fun _ ho =>
      (valueOfCall c name offset ho).bind fun _ hv => follow hlinks hv
  | .unary op operand offset, _, hlinks => by
    rw [Script.walk]
    exact (walk c operand (by simp)).bind fun _ _ =>
      (lift fun _ h => scripted_prefix h).bind fun _ hv => follow hlinks hv
  | .index target index offset, _, hlinks => by
    rw [Script.walk]
    have hindex : (Script.walk c index []).Builds Value.Scripted := walk c index (by simp)
    exact walk c target
      (List.forall_mem_cons.2 ⟨fun _ hv => indexLink c offset hindex hv, hlinks⟩)
  | .binary op left right offset, _, hlinks => by
    rw [Script.walk]
    have hright : (Script.walk c right []).Builds Value.Scripted := walk c right (by simp)
    exact walk c left
      (List.forall_mem_cons.2 ⟨fun _ hv => binaryLink c op offset hright hv, hlinks⟩)

theorem walkItems (c : Context) : ∀ es : List Expr,
    (Script.walkItems c es).Builds fun vs => ∀ v ∈ vs, v.Scripted
  | [] => by
    rw [Script.walkItems]
    exact pure (by simp)
  | e :: rest => by
    rw [Script.walkItems]
    exact (walk c e (by simp)).bind fun _ hv => (walkItems c rest).bind fun _ hvs =>
      pure (List.forall_mem_cons.2 ⟨hv, hvs⟩)

theorem walkEntries (c : Context) : ∀ (es : List (Expr × Expr)) {t : Table}, t.Scripted →
    (Script.walkEntries c es t).Builds Table.Scripted
  | [], _, ht => by
    rw [Script.walkEntries]
    exact pure ht
  | (key, value) :: rest, _, ht => by
    rw [Script.walkEntries]
    exact (walk c key (by simp)).bind fun _ hk => (walk c value (by simp)).bind fun _ hv =>
      walkEntries c rest (ht.insert hk hv)

end

/-! ## Programs -/

theorem exec (c : Context) (s : Statement) : (s.exec c).Builds Optional := by
  unfold Statement.exec
  split
  · exact (walk c _ (by simp)).bind fun _ hv => (bindName hv).bind fun _ _ => nothing
  · exact (walkItems c _).bind fun _ hvs => callFunction c _ _ hvs
  · exact (walk c _ (by simp)).bind fun _ hv => something hv

theorem execute (c : Context) (p : Program) {o : Option Value} (ho : Optional o) :
    (Script.execute c p o).Builds Optional := by
  induction p generalizing o with
  | nil => exact pure ho
  | cons s rest ih => exact (poll _).bind fun _ _ => (exec c s).bind fun _ ho => ih ho

end Action.Builds

/-! ## Inputs -/

/-- An input yields a value that a script can build, if any, and leaves no others behind. -/
theorem evaluate_scripted (w : Surroundings) (input : String) {m : Memory}
    (hm : m.scope.Scripted) :
    (evaluate w input m).2.memory.scope.Scripted ∧
      ∀ o v, (evaluate w input m).1 = .ok o → o.value = some v → v.Scripted := by
  unfold evaluate
  split
  · refine ⟨hm, fun o v ho hv => ?_⟩
    cases ho
    cases hv
  · exact ⟨hm, fun o v ho => nomatch ho⟩
  · next program _ =>
    have hprogram := Action.Builds.execute ⟨input.toList, w⟩ program (o := none) nofun
    obtain ⟨hmem, hval⟩ := hprogram (.start { m with interrupted := false }) hm
    split
    · next v r heq =>
      rw [heq] at hmem hval
      refine ⟨hmem, fun o u ho hu => ?_⟩
      cases ho
      exact hval v rfl u hu
    · next f r heq =>
      rw [heq] at hmem
      exact ⟨hmem, fun o v ho => nomatch ho⟩

/-- The memory of an evaluator that has evaluated some inputs, and that others asked to stop in
between. -/
inductive Memory.Reachable : Memory → Prop
  | empty : Reachable .empty
  | evaluate {m : Memory} (w : Surroundings) (input : String) :
      Reachable m → Reachable (evaluate w input m).2.memory
  | interrupt {m : Memory} : Reachable m → Reachable m.interrupt

theorem Memory.Reachable.scripted {m : Memory} (hm : m.Reachable) : m.scope.Scripted := by
  induction hm with
  | empty => simp [Scope.Scripted, Memory.empty]
  | evaluate w input _ ih => exact (evaluate_scripted w input ih).1
  | interrupt _ ih => exact ih

end Script

end RemoteEval
