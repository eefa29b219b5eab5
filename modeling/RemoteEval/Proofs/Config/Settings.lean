import RemoteEval.Config.Settings
import RemoteEval.Proofs.Config.Address
import RemoteEval.Proofs.Config.Json
import RemoteEval.Proofs.Text.Utf8

/-!
# Settings that are read as they were written

Fields with different names are found again by their names (`fieldValues?_ofFields`), and what is
written of a number, a text, a list of texts or an address is read as the same. So all settings are
read back from their text, those of a host also from a file (`settings_read_back`).
-/

namespace RemoteEval.Config

/-! ## Fields -/

section Fields

variable {names : List String} {name : String} {fields : List (String × Json)} {v : Json}

theorem mapM_congr {α β : Type} {f g : α → Option β} {xs : List α} (h : ∀ x ∈ xs, f x = g x) :
    xs.mapM f = xs.mapM g := by
  induction xs with
  | nil => rfl
  | cons x xs ih =>
    obtain ⟨hx, hxs⟩ := List.forall_mem_cons.1 h
    rw [List.mapM_cons, List.mapM_cons, hx, ih hxs]

/-- Items that are read as they were written one by one are so all together. -/
theorem mapM_map_eq_some {α β : Type} {write : α → β} {read : β → Option α}
    (h : ∀ x, read (write x) = some x) (xs : List α) : (xs.map write).mapM read = some xs := by
  induction xs with
  | nil => rfl
  | cons x xs ih =>
    rw [List.map_cons, List.mapM_cons, h, ih]
    rfl

theorem member?_self (h : ∀ f ∈ fields, f.1 ≠ name) :
    member? ((name, v) :: fields) name = some (some v) := by
  have hnone : fields.filter (fun f => f.1 = name) = [] := by
    simpa [List.filter_eq_nil_iff] using h
  simp [member?, hnone]

theorem member?_of_ne {other : String} (h : name ≠ other) :
    member? ((name, v) :: fields) other = member? fields other := by
  simp [member?, h]

theorem mapM_member?_zip {vs : List Json} (hnames : names.Nodup)
    (hlength : names.length = vs.length) :
    names.mapM (member? (names.zip vs)) = some (vs.map some) := by
  induction names generalizing vs with
  | nil =>
    obtain rfl := List.eq_nil_of_length_eq_zero hlength.symm
    rfl
  | cons name names ih =>
    cases vs with
    | nil => cases hlength
    | cons v vs =>
      obtain ⟨hname, hnames⟩ := List.nodup_cons.1 hnames
      have hself : member? ((name, v) :: names.zip vs) name = some (some v) := by
        refine member?_self fun f hf hfname => hname ?_
        rw [← hfname]
        exact (List.of_mem_zip hf).1
      have hothers : names.mapM (member? ((name, v) :: names.zip vs)) = some (vs.map some) := by
        rw [← ih hnames (Nat.succ.inj hlength)]
        refine mapM_congr fun other hother => member?_of_ne ?_
        rintro rfl
        exact hname hother
      rw [List.zip_cons_cons, List.mapM_cons, hself, hothers]
      rfl

/-- Fields with different names are found by their names. -/
theorem fieldValues?_ofFields {vs : List Json} (hnames : names.Nodup)
    (hlength : names.length = vs.length) :
    fieldValues? names (.ofFields (names.zip vs)) = some (vs.map some) := by
  have hnamed : ∀ f : String × Json, named? (.text f.1, f.2) = some f := fun _ => rfl
  simp only [fieldValues?, Json.ofFields, mapM_map_eq_some hnamed]
  exact mapM_member?_zip hnames hlength

end Fields

/-! ## Values of fields -/

theorem toWord16?_natural (n : UInt16) : toWord16? (.natural n.toNat) = some n := by
  simp [toWord16?, n.toNat_lt_size]

theorem toWord64?_natural (n : UInt64) : toWord64? (.natural n.toNat) = some n := by
  simp [toWord64?, n.toNat_lt_size]

theorem toTexts?_ofTexts (ss : List String) : toTexts? (ofTexts ss) = some ss := by
  have htext : ∀ s, toText? (.text s) = some s := fun _ => rfl
  exact mapM_map_eq_some htext ss

theorem toAddress?_text (a : Address) : toAddress? (.text a.text) = some a :=
  a.ofText?_text

theorem itemsArePlain_texts (ss : List String) : Json.ItemsArePlain (ss.map .text) := by
  induction ss with
  | nil => trivial
  | cons s ss ih => exact ⟨trivial, ih⟩

/-! ## Settings -/

namespace ShellSettings

theorem isPlain_toJson (c : ShellSettings) : c.toJson.IsPlain :=
  ⟨trivial, trivial, trivial, trivial, itemsArePlain_texts _, trivial⟩

theorem read?_write (c : ShellSettings) : read? c.write = some c := by
  rw [read?, write, Json.read?_write c.isPlain_toJson]
  simp only [Option.bind_eq_bind, Option.bind_some, toJson]
  rw [fieldValues?_ofFields (by decide) rfl]
  simp [ofGiven?, orDefault, toWord16?_natural, toWord64?_natural, toTexts?_ofTexts]

end ShellSettings

namespace HostSettings

theorem isPlain_toJson (c : HostSettings) : c.toJson.IsPlain :=
  ⟨trivial, itemsArePlain_texts _, trivial, trivial, trivial⟩

theorem read?_write (c : HostSettings) : read? c.write = some c := by
  rw [read?, write, Json.read?_write c.isPlain_toJson]
  simp only [Option.bind_eq_bind, Option.bind_some, toJson]
  rw [fieldValues?_ofFields (by decide) rfl]
  simp [ofGiven?, orDefault, toAddress?_text, toWord64?_natural, toTexts?_ofTexts]

theorem ofFile_write (c : HostSettings) : ofFile (some (Text.encode c.write)) = .ok c := by
  simp [ofFile, Text.decode?, Text.decode_encode, read?_write]

end HostSettings

/-- Any settings of a shell or of a host, whatever they were read from, are read back from the text
that is written of them. A host also finds them in a file of that text. -/
theorem settings_read_back :
    (∀ c : ShellSettings, ShellSettings.read? c.write = some c) ∧
      ∀ c : HostSettings, HostSettings.read? c.write = some c ∧
        HostSettings.ofFile (some (Text.encode c.write)) = .ok c :=
  ⟨ShellSettings.read?_write, fun c => ⟨c.read?_write, c.ofFile_write⟩⟩

end RemoteEval.Config
