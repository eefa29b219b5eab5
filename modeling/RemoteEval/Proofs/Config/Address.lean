import RemoteEval.Config.Address
import RemoteEval.Proofs.Text.Digits

/-!
# Addresses that are read as they were written

The digits of a number are read as the number up to the first character that is no digit
(`number?_toDigits`), so that octets, ports and zones are read back. Of eight groups any run of
zeros may be left out : what is written on the two sides of the gap is read back, and the gap is as
long as there are groups missing (`groups?_gap`). It does not matter which run of zeros is chosen
(`exists_longestZeros`), and the last two groups may be written as octets (`groups?_mapped`). So
every address is read back from its text (`Address.ofText?_text`).
-/

namespace RemoteEval.Config

open Text (digits_induction exists_leading_digit)

variable {b n limit : Nat} {c : Char} {cs rest : List Char}

/-! ## Digits -/

theorem digit?_digitChar : ∀ b ≤ 16, ∀ n < b, digit? b n.digitChar = some n := by
  decide

/-- No number in a base goes on with the characters. -/
def EndsDigits (b : Nat) (rest : List Char) : Prop := ∀ c ∈ rest.head?, digit? b c = none

theorem EndsDigits.nil (b : Nat) : EndsDigits b [] := by simp [EndsDigits]

theorem EndsDigits.cons (h : digit? b c = none) (cs : List Char) : EndsDigits b (c :: cs) := by
  simpa [EndsDigits] using h

/-- What is no hexadecimal digit is no decimal digit. -/
theorem EndsDigits.ten (h : EndsDigits 16 rest) : EndsDigits 10 rest := by
  intro c hc
  have hsixteen := h c hc
  grind [digit?]

theorem digitRun_nil (b : Nat) : digitRun b [] = ([], []) := rfl

theorem digitRun_of_ends (h : EndsDigits b rest) : digitRun b rest = ([], rest) := by
  cases rest with
  | nil => rfl
  | cons c rest => rw [digitRun, h c rfl]

/-- The values of the digits of a number. -/
def digitValues (b n : Nat) : List Nat := (digitRun b (Nat.toDigits b n)).1

theorem digitRun_cons_digitChar {d : Nat} (hb : b ≤ 16) (hd : d < b) (cs : List Char) :
    digitRun b (d.digitChar :: cs) = (d :: (digitRun b cs).1, (digitRun b cs).2) := by
  rw [digitRun, digit?_digitChar b hb d hd]

theorem digitRun_toDigits_append (hb : 1 < b) (hb' : b ≤ 16) (n : Nat) (rest : List Char) :
    digitRun b (Nat.toDigits b n ++ rest) =
      (digitValues b n ++ (digitRun b rest).1, (digitRun b rest).2) := by
  induction n using digits_induction hb generalizing rest with
  | single n h =>
    simp [digitValues, Nat.toDigits_of_lt_base h, digitRun_cons_digitChar hb' h,
      digitRun_nil]
  | more n h ih =>
    have hlast : n % b < b := Nat.mod_lt _ (by omega)
    simp [digitValues, Nat.toDigits_of_base_le hb h, ih, digitRun_cons_digitChar hb' hlast,
      digitRun_nil]

theorem digitValues_of_lt (hb : b ≤ 16) (h : n < b) : digitValues b n = [n] := by
  simp [digitValues, Nat.toDigits_of_lt_base h, digitRun_cons_digitChar hb h,
    digitRun_nil]

theorem digitValues_of_le (hb : 1 < b) (hb' : b ≤ 16) (h : b ≤ n) :
    digitValues b n = digitValues b (n / b) ++ [n % b] := by
  have hlast : n % b < b := Nat.mod_lt _ (by omega)
  rw [digitValues, Nat.toDigits_of_base_le hb h, digitRun_toDigits_append hb hb',
    digitRun_cons_digitChar hb' hlast]
  rfl

theorem foldl_digitValues (hb : 1 < b) (hb' : b ≤ 16) (n : Nat) :
    (digitValues b n).foldl (fun n d => b * n + d) 0 = n := by
  induction n using digits_induction hb with
  | single n h => simp [digitValues_of_lt hb' h]
  | more n h ih => simp [digitValues_of_le hb hb' h, ih, Nat.div_add_mod]

theorem length_digitValues (hb : 1 < b) (hb' : b ≤ 16) (n : Nat) :
    (digitValues b n).length = (Nat.toDigits b n).length := by
  induction n using digits_induction hb with
  | single n h => simp [digitValues_of_lt hb' h, Nat.toDigits_of_lt_base h]
  | more n h ih => simp [digitValues_of_le hb hb' h, ih, Nat.toDigits_of_base_le hb h]

theorem digitRun_toDigits (hb : 1 < b) (hb' : b ≤ 16) (n : Nat) (h : EndsDigits b rest) :
    digitRun b (Nat.toDigits b n ++ rest) = (digitValues b n, rest) := by
  rw [digitRun_toDigits_append hb hb', digitRun_of_ends h, List.append_nil]

theorem digitValues_ne_nil (hb : 1 < b) (hb' : b ≤ 16) (n : Nat) : digitValues b n ≠ [] := by
  rw [← List.length_pos_iff, length_digitValues hb hb']
  exact Nat.length_toDigits_pos

/-- A number below the limit is read from its digits. -/
theorem number?_toDigits (hb : 1 < b) (hb' : b ≤ 16) (hn : n < limit) (h : EndsDigits b rest) :
    number? b limit (Nat.toDigits b n ++ rest) = some (n, rest) := by
  simp only [number?, digitRun_toDigits hb hb' n h, foldl_digitValues hb hb']
  simp [digitValues_ne_nil hb hb', hn]

/-- No digit of a number is a character that is no digit. -/
theorem notMem_toDigits (hb : 1 < b) (hb' : b ≤ 16) (hc : digit? b c = none) (n : Nat) :
    c ∉ Nat.toDigits b n := by
  have hne : ∀ d < b, c ≠ d.digitChar := by
    rintro d hd rfl
    rw [digit?_digitChar b hb' d hd] at hc
    cases hc
  induction n using digits_induction hb with
  | single n h => simpa [Nat.toDigits_of_lt_base h] using hne n h
  | more n h ih =>
    simpa [Nat.toDigits_of_base_le hb h, ih] using hne _ (Nat.mod_lt _ (by omega))

theorem number?_of_ends (h : EndsDigits b cs) : number? b limit cs = none := by
  simp [number?, digitRun_of_ends h]

theorem head?_digitValues_ne_zero (hb : 1 < b) (hb' : b ≤ 16) (hn : 0 < n) :
    (digitValues b n).head? ≠ some 0 := by
  obtain ⟨d, ds, hd, hdb, hdigits⟩ := exists_leading_digit hb hn
  rw [digitValues, hdigits, digitRun_cons_digitChar hb' hdb]
  simpa using Nat.ne_of_gt hd

/-! ## Octets -/

theorem octet?_decimal (o : UInt8) (h : EndsDigits 10 rest) :
    octet? (decimal o.toNat ++ rest) = some (o, rest) := by
  have hlt : o.toNat < 256 := o.toNat_lt
  have hrun := digitRun_toDigits (b := 10) (by decide) (by decide) o.toNat h
  have hnumber := number?_toDigits (b := 10) (by decide) (by decide) hlt h
  have hlength : (digitValues 10 o.toNat).length ≤ 3 := by
    rw [length_digitValues (by decide) (by decide)]
    exact (Nat.length_toDigits_le_iff (by decide) (by decide)).2 (by omega)
  have hzero : 1 < (digitValues 10 o.toNat).length → (digitValues 10 o.toNat).head? ≠ some 0 := by
    intro hlong
    refine head?_digitValues_ne_zero (by decide) (by decide) (Nat.pos_of_ne_zero fun hz => ?_)
    rw [hz] at hlong
    exact absurd hlong (by decide)
  simp only [octet?, decimal, hrun, hnumber]
  rw [if_neg]
  · simp
  · simp only [Bool.or_eq_true, Bool.and_eq_true, decide_eq_true_eq, not_or, not_and]
    exact ⟨by omega, hzero⟩

theorem octet?_of_ends (h : EndsDigits 10 cs) : octet? cs = none := by
  simp [octet?, number?_of_ends h]

theorem given?_cons (c : Char) (cs : List Char) : given? c (c :: cs) = some ((), cs) := by
  simp [given?]

theorem given?_of_ne {d : Char} (h : ∀ c ∈ cs.head?, c ≠ d) : given? d cs = none := by
  cases cs with
  | nil => rfl
  | cons c cs => simp [given?, h c rfl]

theorem octets?_chars (o : Octets) (h : EndsDigits 10 rest) :
    octets? (o.chars ++ rest) = some (o, rest) := by
  have hdot : ∀ cs, EndsDigits 10 ('.' :: cs) := EndsDigits.cons rfl
  simp [octets?, Octets.chars, octet?_decimal _ (hdot _), given?_cons, octet?_decimal _ h]

/-- Behind its digits an octet is followed by a dot, or there are no four of them. -/
theorem octets?_of_noDot (h : ∀ c ∈ (digitRun 10 cs).2.head?, c ≠ '.') : octets? cs = none := by
  unfold octets?
  cases ho : octet? cs with
  | none => rfl
  | some o =>
    have hrest : o.2 = (digitRun 10 cs).2 := by
      simp only [octet?, number?] at ho
      split at ho
      · cases ho
      · obtain ⟨⟨n, rest⟩, hn, rfl⟩ := Option.map_eq_some_iff.1 ho
        split at hn
        · cases hn
        · cases hn
          rfl
    have hdot : given? '.' o.2 = none := given?_of_ne (hrest ▸ h)
    simp [hdot]

/-! ## Groups -/

theorem group?_toDigits (g : UInt16) (h : EndsDigits 16 rest) :
    group? (Nat.toDigits 16 g.toNat ++ rest) = some (g, rest) := by
  have hlt : g.toNat < 65536 := g.toNat_lt
  have hrun := digitRun_toDigits (b := 16) (by decide) (by decide) g.toNat h
  have hnumber := number?_toDigits (b := 16) (by decide) (by decide) hlt h
  have hlength : (digitValues 16 g.toNat).length ≤ 4 := by
    rw [length_digitValues (by decide) (by decide)]
    exact (Nat.length_toDigits_le_iff (by decide) (by decide)).2 (by omega)
  simp only [group?, hrun, hnumber]
  rw [if_neg (by omega)]
  simp

theorem group?_of_ends (h : EndsDigits 16 cs) : group? cs = none := by
  simp [group?, number?_of_ends h]

theorem octets?_of_ends (h : EndsDigits 10 cs) : octets? cs = none := by
  simp [octets?, octet?_of_ends h]

/-- Groups that follow another one. -/
def followers (gs : List UInt16) : List Char := gs.flatMap fun g => ':' :: Nat.toDigits 16 g.toNat

theorem groupChars_cons (g : UInt16) (gs : List UInt16) :
    groupChars (g :: gs) = Nat.toDigits 16 g.toNat ++ followers gs := by
  induction gs generalizing g with
  | nil => simp [groupChars, followers]
  | cons h gs ih => simp [groupChars, followers, ih h]

/-- No further group follows. -/
structure EndsGroups (rest : List Char) : Prop where
  /-- The digits of the group before end. -/
  digits : EndsDigits 16 rest
  /-- They are no octet of four. -/
  noDot : ∀ c ∈ rest.head?, c ≠ '.'
  /-- Four octets do not follow. -/
  noOctets : separated? false octets? rest = none
  /-- A group does not follow. -/
  noGroup : separated? false group? rest = none

theorem EndsGroups.gap (more : List Char) : EndsGroups (':' :: ':' :: more) where
  digits := .cons rfl _
  noDot := by simp
  noOctets := octets?_of_ends (EndsDigits.cons rfl more : EndsDigits 10 (':' :: more))
  noGroup := group?_of_ends (EndsDigits.cons rfl more : EndsDigits 16 (':' :: more))

theorem EndsGroups.of_ne (hdigit : digit? 16 c = none) (hdot : c ≠ '.') (hcolon : c ≠ ':')
    (more : List Char) : EndsGroups (c :: more) where
  digits := .cons hdigit _
  noDot := by simpa
  noOctets := by simp [separated?, given?, hcolon]
  noGroup := by simp [separated?, given?, hcolon]

theorem endsDigits_followers (h : EndsGroups rest) (gs : List UInt16) :
    EndsDigits 16 (followers gs ++ rest) := by
  cases gs with
  | nil => exact h.digits
  | cons g gs => exact .cons rfl _

theorem noDot_digitRun {us : List Char} (hus : '.' ∉ us)
    (hrest : ∀ c ∈ (digitRun 10 rest).2.head?, c ≠ '.') :
    ∀ c ∈ (digitRun 10 (us ++ rest)).2.head?, c ≠ '.' := by
  induction us with
  | nil => exact hrest
  | cons u us ih =>
    rw [List.mem_cons, not_or] at hus
    rw [List.cons_append, digitRun]
    split
    · exact ih hus.2
    · simpa using fun h => hus.1 h.symm

/-- A group is no four octets. -/
theorem octets?_group (g : UInt16) (h : EndsGroups rest) (gs : List UInt16) :
    octets? (Nat.toDigits 16 g.toNat ++ (followers gs ++ rest)) = none := by
  refine octets?_of_noDot (noDot_digitRun (notMem_toDigits (by decide) (by decide) rfl _) ?_)
  rw [digitRun_of_ends (endsDigits_followers h gs).ten]
  cases gs with
  | nil => exact h.noDot
  | cons g gs => simp [followers]

theorem groups_succ {first : Bool} {cs' : List Char} {g : UInt16}
    (hsep : ∀ (α : Type) (item : Reader α), separated? first item cs = item cs')
    (hoctets : octets? cs' = none) (hgroup : group? cs' = some (g, rest)) (limit : Nat) :
    groups first (limit + 1) cs =
      (g :: (groups false limit rest).1, (groups false limit rest).2) := by
  rw [groups]
  simp [hsep, hoctets, hgroup]

theorem groups_followers {gs : List UInt16} (h : EndsGroups rest) (hlimit : gs.length ≤ limit) :
    groups false limit (followers gs ++ rest) = (gs, false, rest) := by
  induction gs generalizing limit with
  | nil =>
    cases limit with
    | zero => rfl
    | succ limit => simp [groups, followers, h.noOctets, h.noGroup]
  | cons g gs ih =>
    obtain ⟨limit, rfl⟩ : ∃ n, limit = n + 1 := ⟨limit - 1, by simp at hlimit; omega⟩
    have hsep : ∀ (α : Type) (item : Reader α),
        separated? false item (followers (g :: gs) ++ rest) =
          item (Nat.toDigits 16 g.toNat ++ (followers gs ++ rest)) := by
      intro α item
      simp [separated?, followers, given?_cons]
    rw [groups_succ hsep (octets?_group g h gs) (group?_toDigits g (endsDigits_followers h gs)),
      ih (by simpa using hlimit)]

/-- Groups with colons between them are read as they were written. -/
theorem groups_groupChars {gs : List UInt16} (h : EndsGroups rest) (hgs : gs ≠ [])
    (hlimit : gs.length ≤ limit) :
    groups true limit (groupChars gs ++ rest) = (gs, false, rest) := by
  obtain ⟨g, gs, rfl⟩ := List.exists_cons_of_ne_nil hgs
  obtain ⟨limit, rfl⟩ : ∃ n, limit = n + 1 := ⟨limit - 1, by simp at hlimit; omega⟩
  rw [groupChars_cons, List.append_assoc, groups_succ (fun _ _ => rfl) (octets?_group g h gs)
    (group?_toDigits g (endsDigits_followers h gs)), groups_followers h (by simpa using hlimit)]

theorem groups_of_ends (h : EndsDigits 16 cs) : groups true limit cs = ([], false, cs) := by
  cases limit with
  | zero => rfl
  | succ limit =>
    simp [groups, separated?, octets?_of_ends h.ten, group?_of_ends h]

/-! ## Eight groups -/

/-- The groups are some, a run of zeros, and some more. -/
theorem exists_longestZeros (i : Nat) (gs : List UInt16) :
    ∃ us vs, gs = us ++ List.replicate (longestZeros i gs).2 0 ++ vs ∧
      (longestZeros i gs).1 = i + us.length := by
  induction gs generalizing i with
  | nil => exact ⟨[], [], rfl, rfl⟩
  | cons g gs ih =>
    simp only [longestZeros]
    split
    · refine ⟨[], (g :: gs).dropWhile (· = 0), ?_, rfl⟩
      have hzeros : List.replicate (leadingZeros (g :: gs)) 0 = (g :: gs).takeWhile (· = 0) := by
        refine (List.eq_replicate_iff.2 ⟨rfl, fun z hz => ?_⟩).symm
        have hall : ((g :: gs).takeWhile (· = 0)).all (· = 0) := List.all_takeWhile
        simpa using List.all_eq_true.1 hall z hz
      rw [List.nil_append, hzeros, List.takeWhile_append_dropWhile]
    · obtain ⟨us, vs, hgs, hi⟩ := ih (i + 1)
      refine ⟨g :: us, vs, ?_, ?_⟩
      · rw [List.cons_append, List.cons_append, ← hgs]
      · rw [hi, List.length_cons]
        omega

/-- A group is its two octets. -/
theorem groupOfOctets_eq (x : UInt16) : groupOfOctets (x >>> 8).toUInt8 x.toUInt8 = x := by
  have hx := x.toNat_lt
  rw [← UInt16.toNat_inj, groupOfOctets]
  simp [Nat.shiftRight_eq_div_pow]
  omega

theorem items_of_mapped? {g : Groups} {o : Octets} (h : g.mapped? = some o) :
    g.items = [0, 0, 0, 0, 0, 0xFFFF, groupOfOctets o.a o.b, groupOfOctets o.c o.d] := by
  unfold Groups.mapped? at h
  split at h
  · next x y hitems =>
    cases h
    rw [hitems, groupOfOctets_eq, groupOfOctets_eq]
  · cases h

theorem Groups.ext {g h : Groups} (hitems : g.items = h.items) : g = h := by
  cases g
  cases h
  cases hitems
  rfl

/-- Groups are read if what stands on the two sides of a gap is. -/
theorem groups?_gap {g : Groups} {us vs : List UInt16} {back : List Char} {embedded : Bool}
    (hitems : g.items = us ++ List.replicate n 0 ++ vs) (hn : 0 < n)
    (hfront : groups true 8 cs = (us, false, ':' :: ':' :: back))
    (hback : groups true (7 - us.length) back = (vs, embedded, rest)) :
    groups? cs = some (g, rest) := by
  have hcount : us.length + n + vs.length = 8 := by
    rw [← g.count, hitems, List.length_append, List.length_append, List.length_replicate]
  have hfew : us.length ≠ 8 := by omega
  have hzeros : 8 - us.length - vs.length = n := by omega
  have hlength : us.length + (n + vs.length) = 8 := by omega
  simp only [groups?, hfront]
  simp [hfew, given?_cons, hback, hzeros, hlength]
  exact Groups.ext (hitems.trans (List.append_assoc _ _ _)).symm

theorem groups_front (us : List UInt16) (hus : us.length ≤ 8) (back : List Char) :
    groups true 8 (groupChars us ++ ':' :: ':' :: back) = (us, false, ':' :: ':' :: back) := by
  cases us with
  | nil => exact groups_of_ends (.cons rfl _)
  | cons u us => exact groups_groupChars (.gap back) (by simp) hus

theorem groups_back (h : EndsGroups rest) {vs : List UInt16} (hvs : vs.length ≤ limit) :
    groups true limit (groupChars vs ++ rest) = (vs, false, rest) := by
  cases vs with
  | nil => exact groups_of_ends h.digits
  | cons v vs => exact groups_groupChars h (by simp) hvs

/-- Four octets behind a gap and a group of ones are read as the last two groups. -/
theorem groups?_mapped {g : Groups} {o : Octets}
    (hitems : g.items = [0, 0, 0, 0, 0, 0xFFFF, groupOfOctets o.a o.b, groupOfOctets o.c o.d])
    (h : EndsGroups rest) : groups? ("::ffff:".toList ++ o.chars ++ rest) = some (g, rest) := by
  have hcolon : EndsDigits 16 (':' :: (o.chars ++ rest)) := .cons rfl _
  have hones : group? ("ffff".toList ++ ':' :: (o.chars ++ rest)) =
      some (0xFFFF, ':' :: (o.chars ++ rest)) := group?_toDigits 0xFFFF hcolon
  have hletter : octets? ("ffff".toList ++ ':' :: (o.chars ++ rest)) = none :=
    octets?_of_ends (EndsDigits.cons rfl _ : EndsDigits 10 ('f' :: _))
  have hoctets : separated? false octets? (':' :: (o.chars ++ rest)) = some (o, rest) :=
    octets?_chars o h.digits.ten
  have hback : groups true 7 ("ffff".toList ++ ':' :: (o.chars ++ rest)) =
      ([0xFFFF, groupOfOctets o.a o.b, groupOfOctets o.c o.d], true, rest) := by
    rw [groups_succ (fun _ _ => rfl) hletter hones, groups, hoctets]
    rfl
  have hfront := groups_front [] (by decide) ("ffff".toList ++ ':' :: (o.chars ++ rest))
  exact groups?_gap (n := 5) hitems (by decide) hfront hback

/-- Eight groups are read as they were written. -/
theorem groups?_chars (g : Groups) (h : EndsGroups rest) :
    groups? (g.chars ++ rest) = some (g, rest) := by
  unfold Groups.chars
  split
  · next o ho => exact groups?_mapped (items_of_mapped? ho) h
  · simp only
    obtain ⟨us, vs, hitems, hi⟩ := exists_longestZeros 0 g.items
    generalize longestZeros 0 g.items = run at *
    rw [Nat.zero_add] at hi
    have hcount := g.count
    split
    · next hn =>
      have hfront : g.items.take run.1 = us := by
        rw [hi, hitems, List.append_assoc, List.take_left']
        rfl
      have hback : g.items.drop (run.1 + run.2) = vs := by
        rw [hi, hitems, List.drop_left']
        simp
      rw [hitems, List.length_append, List.length_append, List.length_replicate] at hcount
      rw [hfront, hback, List.append_assoc, List.cons_append, List.cons_append]
      exact groups?_gap hitems (by omega) (groups_front us (by omega) _)
        (groups_back h (by omega))
    · have hgroups : groups true 8 (groupChars g.items ++ rest) = (g.items, false, rest) :=
        groups_back h (Nat.le_of_eq hcount)
      simp [groups?, hgroups, hcount]

/-! ## Addresses -/

theorem port?_decimal (port : UInt16) (h : EndsDigits 10 rest) :
    port? (':' :: (decimal port.toNat ++ rest)) = some (port, rest) := by
  have hnumber := number?_toDigits (b := 10) (by decide) (by decide) port.toNat_lt h
  change number? 10 65536 (decimal port.toNat ++ rest) = _ at hnumber
  simp [port?, given?_cons, hnumber]

/-- A zone is read, or none if there is none. -/
theorem zone?_chars (zone : UInt32) (cs : List Char) :
    zone? ((if zone = 0 then [] else '%' :: decimal zone.toNat) ++ ']' :: cs) =
      some (zone, ']' :: cs) := by
  split
  · next hz =>
    subst hz
    rfl
  · have hend : EndsDigits 10 (']' :: cs) := .cons rfl cs
    have hnumber := number?_toDigits (b := 10) (by decide) (by decide) zone.toNat_lt hend
    change number? 10 4294967296 (decimal zone.toNat ++ ']' :: cs) = _ at hnumber
    simp [zone?, given?_cons, hnumber]

/-- What follows eight groups is a zone or the closing bracket. -/
theorem endsGroups_zone (zone : UInt32) (cs : List Char) :
    EndsGroups ((if zone = 0 then [] else '%' :: decimal zone.toNat) ++ ']' :: cs) := by
  split
  · exact .of_ne rfl (by decide) (by decide) _
  · exact .of_ne rfl (by decide) (by decide) _

namespace Address

theorem readV4?_chars (host : Octets) (port : UInt16) :
    readV4? (v4 host port).chars = some (v4 host port, []) := by
  have hcolon : EndsDigits 10 (':' :: decimal port.toNat) := .cons rfl _
  have hport := port?_decimal port (.nil 10)
  rw [List.append_nil] at hport
  simp [readV4?, chars, octets?_chars host hcolon, hport]

theorem readV6?_chars (host : Groups) (zone : UInt32) (port : UInt16) :
    readV6? (v6 host zone port).chars = some (v6 host zone port, []) := by
  have hhost := groups?_chars host (endsGroups_zone zone (':' :: decimal port.toNat))
  have hzone := zone?_chars zone (':' :: decimal port.toNat)
  have hport := port?_decimal port (.nil 10)
  rw [List.append_nil] at hport
  simp [readV6?, chars, given?_cons, hhost, hzone, hport]

/-- An address is read back from its text. -/
theorem ofText?_text (a : Address) : ofText? a.text = some a := by
  rw [text, ofText?, String.toList_ofList]
  cases a with
  | v4 host port =>
    rw [readV4?_chars]
    rfl
  | v6 host zone port =>
    have hv4 : readV4? (v6 host zone port).chars = none := by
      have hbracket : ∀ cs, octets? ('[' :: cs) = none := fun cs =>
        octets?_of_ends (EndsDigits.cons rfl cs : EndsDigits 10 ('[' :: cs))
      simp [readV4?, chars, hbracket]
    rw [hv4, Option.orElse_none, readV6?_chars]

end Address

end RemoteEval.Config
