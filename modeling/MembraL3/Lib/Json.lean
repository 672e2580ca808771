/-
Flat JSON objects.

`readObject` reads an object of strings, integers and booleans as JSON defines it, without
blanks between the tokens; `writeObject` puts an object together from its members and
copies the strings as they are, with no escapes.  What becomes of `\uXXXX` is a parameter.

* `scan_iff`, `readMember_iff` — a string that is copied is read back exactly if it is
  `Plain`;
* `readObject_writeObject_iff` — and so is an object;
* `writeObject_inj` — so plain objects have different texts.
-/
import MembraL3.Lib.Printed
import Mathlib.Data.List.Count

namespace Json

inductive Value where
  | text (s : List Char)
  | integer (n : ℤ)
  | flag (b : Bool)
  deriving DecidableEq

structure Member where
  key : List Char
  value : Value
  deriving DecidableEq

/-- The quotation mark. -/
def quote : Char := '\x22'

/-- A character that stands for itself in a string. -/
def PlainChar (c : Char) : Prop := c ≠ quote ∧ c ≠ '\x5c' ∧ 32 ≤ c.toNat

/-- No character needs an escape. -/
def Plain (s : List Char) : Prop := ∀ c ∈ s, PlainChar c

instance : DecidablePred PlainChar := fun c =>
  inferInstanceAs (Decidable (c ≠ quote ∧ c ≠ '\x5c' ∧ 32 ≤ c.toNat))

instance : DecidablePred Plain := fun s => List.decidableBAll PlainChar s

theorem plain_append {s t : List Char} : Plain (s ++ t) ↔ Plain s ∧ Plain t :=
  List.forall_mem_append

/-- A printed number is plain. -/
theorem plain_toString (n : ℕ) : Plain (toString n).toList := by
  intro c hc
  have hdigit := Printed.isDigit_of_mem_toString hc
  refine ⟨?_, ?_, ?_⟩
  · rintro rfl
    cases hdigit
  · rintro rfl
    cases hdigit
  · rw [Char.isDigit, Bool.and_eq_true, decide_eq_true_eq, decide_eq_true_eq] at hdigit
    have hlow : '0'.toNat ≤ c.toNat := hdigit.1
    exact le_trans (by decide) hlow

def Value.Plain : Value → Prop
  | .text s => Json.Plain s
  | _ => True

def Member.Plain (m : Member) : Prop := Json.Plain m.key ∧ m.value.Plain

instance : DecidablePred Value.Plain
  | .text s => inferInstanceAs (Decidable (Json.Plain s))
  | .integer _ => instDecidableTrue
  | .flag _ => instDecidableTrue

instance : DecidablePred Member.Plain := fun m =>
  inferInstanceAs (Decidable (Json.Plain m.key ∧ m.value.Plain))

/-! ### Writing -/

def Value.write : Value → List Char
  | .text s => quote :: (s ++ [quote])
  | .integer n => (toString n).toList
  | .flag b => (toString b).toList

def Member.write (m : Member) : List Char := quote :: (m.key ++ quote :: ':' :: m.value.write)

def writeMembers : List Member → List Char
  | [] => []
  | [m] => m.write
  | m :: ms => m.write ++ ',' :: writeMembers ms

def writeObject (ms : List Member) : List Char := '\x7b' :: (writeMembers ms ++ ['\x7d'])

/-! ### Reading -/

/-- Where the scanner of a string is: after a backslash, or inside of `\uXXXX`. -/
inductive Mode where
  | plain
  | escape
  | hex (digits : List Char)

/-- The character that a backslash and a letter stand for. -/
def unescape (c : Char) : Option Char :=
  if c = quote ∨ c = '\x5c' ∨ c = '/' then some c
  else if c = 'b' then some '\x08'
  else if c = 'f' then some '\x0c'
  else if c = 'n' then some '\x0a'
  else if c = 'r' then some '\x0d'
  else if c = 't' then some '\x09'
  else none

def isHexDigit (c : Char) : Bool := c.isDigit || 'a' ≤ c && c ≤ 'f' || 'A' ≤ c && c ≤ 'F'

/-- Reads a string up to its closing quotation mark. -/
def scan (unicode : List Char → Option Char) : Mode → List Char → Option (List Char × List Char)
  | _, [] => none
  | .plain, c :: cs =>
    if c = quote then some ([], cs)
    else if c = '\x5c' then scan unicode .escape cs
    else if c.toNat < 32 then none
    else (scan unicode .plain cs).map fun p => (c :: p.1, p.2)
  | .escape, c :: cs =>
    if c = 'u' then scan unicode (.hex []) cs
    else (unescape c).bind fun d => (scan unicode .plain cs).map fun p => (d :: p.1, p.2)
  | .hex digits, c :: cs =>
    if !isHexDigit c then none
    else if digits.length < 3 then scan unicode (.hex (digits ++ [c])) cs
    else (unicode (digits ++ [c])).bind fun d =>
      (scan unicode .plain cs).map fun p => (d :: p.1, p.2)

/-- Reads a number, which has no leading zeros. -/
def readNat (cs : List Char) : Option (ℕ × List Char) :=
  let digits := cs.takeWhile Char.isDigit
  let n := Nat.ofDigitChars 10 digits 0
  if Nat.toDigits 10 n = digits then some (n, cs.dropWhile Char.isDigit) else none

def readInt : List Char → Option (ℤ × List Char)
  | [] => none
  | c :: cs =>
    if c = '-' then (readNat cs).map fun p => (-p.1, p.2)
    else (readNat (c :: cs)).map fun p => (p.1, p.2)

def readValue (unicode : List Char → Option Char) : List Char → Option (Value × List Char)
  | [] => none
  | c :: cs =>
    if c = quote then (scan unicode .plain cs).map fun p => (.text p.1, p.2)
    else if c = 't' then if "rue".toList <+: cs then some (.flag true, cs.drop 3) else none
    else if c = 'f' then if "alse".toList <+: cs then some (.flag false, cs.drop 4) else none
    else (readInt (c :: cs)).map fun p => (.integer p.1, p.2)

def readMember (unicode : List Char → Option Char) : List Char → Option (Member × List Char)
  | [] => none
  | c :: cs =>
    if c = quote then
      match scan unicode .plain cs with
      | some (key, ':' :: rest) => (readValue unicode rest).map fun p => (⟨key, p.1⟩, p.2)
      | _ => none
    else none

/-- Reads members up to the brace that ends the text. -/
def readMembers (unicode : List Char → Option Char) : ℕ → List Char → Option (List Member)
  | 0, _ => none
  | fuel + 1, cs =>
    match readMember unicode cs with
    | some (m, ['\x7d']) => some [m]
    | some (m, ',' :: rest) => (readMembers unicode fuel rest).map fun ms => m :: ms
    | _ => none

/-- The members of an object. -/
def readObject (unicode : List Char → Option Char) : List Char → Option (List Member)
  | [] => none
  | c :: cs =>
    if c ≠ '\x7b' then none
    else if cs = ['\x7d'] then some []
    else readMembers unicode cs.length cs

variable {unicode : List Char → Option Char}

/-! ### Strings -/

theorem unescape_quote : unescape quote = some quote := rfl

theorem isHexDigit_quote : isHexDigit quote = false := rfl

/-- What is read of a string has been written there, longer where there is an escape, and
every quotation mark is read. -/
theorem scan_spec {mode : Mode} {cs v rest : List Char}
    (h : scan unicode mode cs = some (v, rest)) :
    ∃ used, cs = used ++ quote :: rest ∧ used.count quote ≤ v.count quote ∧
      v.length ≤ used.length ∧ (mode = .plain → used.length ≤ v.length → used = v ∧ Plain v) := by
  induction cs generalizing mode v with
  | nil => cases mode <;> cases h
  | cons c cs ih =>
    -- a character that is read as `d`
    have hone : ∀ {d w}, (c = quote → d = quote) → scan unicode .plain cs = some (w, rest) →
        ∃ used, cs = used ++ quote :: rest ∧
          (c :: used).count quote ≤ (d :: w).count quote ∧ w.length ≤ used.length ∧
          (used.length ≤ w.length → used = w ∧ Plain w) := by
      intro d w hd hw
      obtain ⟨used, hsplit, hcount, hlength, hplain⟩ := ih hw
      refine ⟨used, hsplit, ?_, hlength, hplain rfl⟩
      rw [List.count_cons, List.count_cons]
      by_cases hc : c = quote
      · simp [hc, hd hc, hcount]
      · simp only [beq_iff_eq, hc, if_false]
        omega
    -- a character that only changes the mode
    have hmode : ∀ {m}, c ≠ quote → scan unicode m cs = some (v, rest) →
        ∃ used, c :: cs = used ++ quote :: rest ∧ used.count quote ≤ v.count quote ∧
          v.length < used.length := by
      intro m hc hm
      obtain ⟨used, rfl, hcount, hlength, -⟩ := ih hm
      refine ⟨c :: used, rfl, ?_, Nat.lt_succ_of_le hlength⟩
      rwa [List.count_cons_of_ne hc]
    cases mode with
    | plain =>
      rw [scan] at h
      by_cases hquote : c = quote
      · rw [if_pos hquote] at h
        obtain ⟨rfl, rfl⟩ := Prod.mk.inj (Option.some.inj h)
        exact ⟨[], by rw [hquote]; rfl, le_rfl, le_rfl,
          fun _ _ => ⟨rfl, fun d hd => absurd hd List.not_mem_nil⟩⟩
      · rw [if_neg hquote] at h
        by_cases hslash : c = '\x5c'
        · rw [if_pos hslash] at h
          obtain ⟨used, hsplit, hcount, hlength⟩ := hmode hquote h
          exact ⟨used, hsplit, hcount, hlength.le, fun _ hle => absurd hle (not_le.mpr hlength)⟩
        · rw [if_neg hslash] at h
          by_cases hcontrol : c.toNat < 32
          · rw [if_pos hcontrol] at h
            cases h
          · rw [if_neg hcontrol] at h
            obtain ⟨⟨w, rest'⟩, hw, heq⟩ := Option.map_eq_some_iff.mp h
            obtain ⟨rfl, rfl⟩ := Prod.mk.inj heq
            obtain ⟨used, rfl, hcount, hlength, hplain⟩ := hone id hw
            refine ⟨c :: used, rfl, hcount, Nat.succ_le_succ hlength, fun _ hle => ?_⟩
            obtain ⟨rfl, hrest⟩ := hplain (Nat.le_of_succ_le_succ hle)
            refine ⟨rfl, List.forall_mem_cons.mpr ⟨⟨hquote, hslash, not_lt.mp hcontrol⟩, hrest⟩⟩
    | escape =>
      rw [scan] at h
      by_cases hu : c = 'u'
      · rw [if_pos hu] at h
        obtain ⟨used, hsplit, hcount, hlength⟩ := hmode (by rw [hu]; decide) h
        exact ⟨used, hsplit, hcount, hlength.le, nofun⟩
      · rw [if_neg hu] at h
        obtain ⟨d, hd, hscan⟩ := Option.bind_eq_some_iff.mp h
        obtain ⟨⟨w, rest'⟩, hw, heq⟩ := Option.map_eq_some_iff.mp hscan
        obtain ⟨rfl, rfl⟩ := Prod.mk.inj heq
        have hquote : c = quote → d = quote := by
          rintro rfl
          exact (Option.some.inj (unescape_quote.symm.trans hd)).symm
        obtain ⟨used, rfl, hcount, hlength, -⟩ := hone hquote hw
        exact ⟨c :: used, rfl, hcount, Nat.succ_le_succ hlength, nofun⟩
    | hex digits =>
      rw [scan] at h
      cases hhex : isHexDigit c with
      | false => simp [hhex] at h
      | true =>
        have hquote : c ≠ quote := by
          rintro rfl
          cases isHexDigit_quote.symm.trans hhex
        simp only [hhex, Bool.not_true, Bool.false_eq_true, if_false] at h
        by_cases hfew : digits.length < 3
        · rw [if_pos hfew] at h
          obtain ⟨used, hsplit, hcount, hlength⟩ := hmode hquote h
          exact ⟨used, hsplit, hcount, hlength.le, nofun⟩
        · rw [if_neg hfew] at h
          obtain ⟨d, hd, hscan⟩ := Option.bind_eq_some_iff.mp h
          obtain ⟨⟨w, rest'⟩, hw, heq⟩ := Option.map_eq_some_iff.mp hscan
          obtain ⟨rfl, rfl⟩ := Prod.mk.inj heq
          obtain ⟨used, rfl, hcount, hlength, -⟩ := hone (fun hc => absurd hc hquote) hw
          exact ⟨c :: used, rfl, hcount, Nat.succ_le_succ hlength, nofun⟩

theorem scan_append {s : List Char} (hs : Plain s) (rest : List Char) :
    scan unicode .plain (s ++ quote :: rest) = some (s, rest) := by
  induction s with
  | nil => simp [scan]
  | cons c s ih =>
    obtain ⟨hquote, hslash, hcontrol⟩ := hs c (List.mem_cons_self ..)
    have hrest := ih fun d hd => hs d (List.mem_cons_of_mem _ hd)
    rw [List.cons_append, scan, if_neg hquote, if_neg hslash, if_neg (not_lt.mpr hcontrol), hrest]
    rfl

/-- A string that is copied is read back if it is plain, and only then: a quotation mark
that is read over has been escaped, so it is one of those that are read back. -/
theorem scan_iff {s cs rest : List Char} :
    scan unicode .plain (s ++ quote :: cs) = some (s, rest) ↔ Plain s ∧ rest = cs := by
  constructor
  · intro h
    obtain ⟨used, hsplit, hcount, hlength, hplain⟩ := scan_spec h
    rcases List.append_eq_append_iff.mp hsplit with ⟨ws, rfl, hws⟩ | ⟨ws, rfl, hws⟩
    · cases ws with
      | nil =>
        obtain ⟨-, hplain⟩ := hplain rfl (by simp)
        exact ⟨hplain, (List.cons.inj hws).2.symm⟩
      | cons w ws =>
        obtain ⟨rfl, -⟩ := List.cons.inj hws
        simp at hcount
    · cases ws with
      | nil =>
        obtain ⟨-, hplain⟩ := hplain rfl (by simp)
        exact ⟨by simpa using hplain, (List.cons.inj hws).2⟩
      | cons w ws => simp at hlength
  · rintro ⟨hs, rfl⟩
    exact scan_append hs rest

/-! ### Values -/

/-- No digit follows. -/
def Stops (cs : List Char) : Prop := ∀ c ∈ cs.head?, c.isDigit = false

theorem readNat_toDigits (n : ℕ) {cs : List Char} (hcs : Stops cs) :
    readNat (Nat.toDigits 10 n ++ cs) = some (n, cs) := by
  have hdigits : ∀ c ∈ Nat.toDigits 10 n, c.isDigit = true := fun c hc =>
    Nat.isDigit_of_mem_toDigits (by decide) (by decide) hc
  have htake : (Nat.toDigits 10 n ++ cs).takeWhile Char.isDigit = Nat.toDigits 10 n := by
    rw [List.takeWhile_append_of_pos hdigits]
    cases cs with
    | nil => simp
    | cons c cs =>
      rw [List.takeWhile_cons_of_neg (by simp [hcs c rfl]), List.append_nil]
  have hdrop : (Nat.toDigits 10 n ++ cs).dropWhile Char.isDigit = cs := by
    rw [List.dropWhile_append_of_pos hdigits]
    cases cs with
    | nil => rfl
    | cons c cs => rw [List.dropWhile_cons_of_neg (by simp [hcs c rfl])]
  rw [readNat, htake, hdrop, Nat.ofDigitChars_ten_toDigits]
  simp only [if_true]

/-- A printed number starts with a digit or a sign. -/
theorem exists_head_toString (n : ℤ) :
    ∃ c cs, (toString n).toList = c :: cs ∧ (c = '-' ∨ c.isDigit = true) := by
  cases n with
  | ofNat n =>
    have hprint : (toString (Int.ofNat n)).toList = Nat.toDigits 10 n :=
      Printed.toList_toString_nat n
    obtain ⟨c, cs, hdigits⟩ := List.exists_cons_of_ne_nil (Nat.toDigits_ne_nil (n := n) (b := 10))
    refine ⟨c, cs, hprint.trans hdigits, .inr ?_⟩
    exact Nat.isDigit_of_mem_toDigits (b := 10) (n := n) (by decide) (by decide)
      (hdigits ▸ List.mem_cons_self ..)
  | negSucc n => exact ⟨'-', (toString (n + 1)).toList, String.toList_append, .inl rfl⟩

theorem readInt_toString (n : ℤ) {cs : List Char} (hcs : Stops cs) :
    readInt ((toString n).toList ++ cs) = some (n, cs) := by
  cases n with
  | ofNat n =>
    have hprint : (toString (Int.ofNat n)).toList = Nat.toDigits 10 n :=
      Printed.toList_toString_nat n
    obtain ⟨c, ds, hdigits⟩ := List.exists_cons_of_ne_nil (Nat.toDigits_ne_nil (n := n) (b := 10))
    have hdigit : c.isDigit = true :=
      Nat.isDigit_of_mem_toDigits (b := 10) (n := n) (by decide) (by decide)
        (hdigits ▸ List.mem_cons_self ..)
    have hne : c ≠ '-' := by
      rintro rfl
      cases hdigit
    have hread := readNat_toDigits n hcs
    rw [hprint]
    rw [hdigits, List.cons_append] at hread ⊢
    rw [readInt, if_neg hne, hread]
    rfl
  | negSucc n =>
    have hprint : (toString (Int.negSucc n)).toList = '-' :: Nat.toDigits 10 (n + 1) := by
      show ("-" ++ toString (n + 1)).toList = _
      rw [String.toList_append, Printed.toList_toString_nat]
      rfl
    rw [hprint, List.cons_append, readInt, if_pos rfl, readNat_toDigits _ hcs]
    rfl

theorem readValue_iff {v : Value} {cs rest : List Char} (hcs : Stops cs) :
    readValue unicode (v.write ++ cs) = some (v, rest) ↔ v.Plain ∧ rest = cs := by
  cases v with
  | text s =>
    rw [Value.write, List.cons_append, List.append_assoc, readValue, if_pos rfl,
      Option.map_eq_some_iff, Value.Plain, ← @scan_iff unicode]
    constructor
    · rintro ⟨⟨s', rest'⟩, hscan, heq⟩
      obtain ⟨hvalue, rfl⟩ := Prod.mk.inj heq
      obtain rfl := Value.text.inj hvalue
      exact hscan
    · intro hscan
      exact ⟨(s, rest), hscan, rfl⟩
  | integer n =>
    obtain ⟨c, ds, hprint, hhead⟩ := exists_head_toString n
    have hread := readInt_toString n hcs
    have hne : ∀ d, d ≠ '-' → d.isDigit = false → c ≠ d := by
      rintro d hminus hdigit rfl
      rcases hhead with rfl | hd
      · exact hminus rfl
      · exact absurd (hd.symm.trans hdigit) (by decide)
    rw [Value.write]
    rw [hprint, List.cons_append] at hread ⊢
    rw [readValue, if_neg (hne quote (by decide) rfl), if_neg (hne 't' (by decide) rfl),
      if_neg (hne 'f' (by decide) rfl), hread]
    simp [Value.Plain, eq_comm]
  | flag b =>
    cases b with
    | false =>
      show (some (Value.flag false, cs) = some (Value.flag false, rest)) ↔ _
      simp [Value.Plain, eq_comm]
    | true =>
      show (some (Value.flag true, cs) = some (Value.flag true, rest)) ↔ _
      simp [Value.Plain, eq_comm]

/-! ### Objects -/

theorem readMember_iff {m : Member} {cs rest : List Char} (hcs : Stops cs) :
    readMember unicode (m.write ++ cs) = some (m, rest) ↔ m.Plain ∧ rest = cs := by
  have hread : readMember unicode (m.write ++ cs)
      = match scan unicode .plain (m.key ++ quote :: ':' :: (m.value.write ++ cs)) with
        | some (key, ':' :: rest) => (readValue unicode rest).map fun p => (⟨key, p.1⟩, p.2)
        | _ => none := by
    rw [Member.write, List.cons_append, List.append_assoc, readMember, if_pos rfl]
    rfl
  rw [hread]
  constructor
  · intro h
    split at h
    · rename_i key rest' hscan
      obtain ⟨⟨value, rest''⟩, hvalue, heq⟩ := Option.map_eq_some_iff.mp h
      obtain ⟨rfl, rfl⟩ := Prod.mk.inj heq
      obtain ⟨hkey, hrest⟩ := scan_iff.mp hscan
      obtain rfl := (List.cons.inj hrest).2
      obtain ⟨hvalue, hrest⟩ := (readValue_iff hcs).mp hvalue
      exact ⟨⟨hkey, hvalue⟩, hrest⟩
    · cases h
  · rintro ⟨⟨hkey, hvalue⟩, rfl⟩
    rw [scan_append hkey]
    simp only [(readValue_iff hcs).mpr ⟨hvalue, rfl⟩]
    rfl

theorem exists_of_readMembers {fuel : ℕ} {cs : List Char} {m : Member} {ms : List Member}
    (h : readMembers unicode (fuel + 1) cs = some (m :: ms)) :
    ∃ rest, readMember unicode cs = some (m, rest) ∧
      ∀ rest', rest = ',' :: rest' → readMembers unicode fuel rest' = some ms := by
  rw [readMembers] at h
  split at h
  · rename_i m' hread
    obtain ⟨rfl, -⟩ := List.cons.inj (Option.some.inj h)
    exact ⟨_, hread, nofun⟩
  · rename_i m' rest hread
    obtain ⟨ms', hms, heq⟩ := Option.map_eq_some_iff.mp h
    obtain ⟨rfl, rfl⟩ := List.cons.inj heq
    refine ⟨_, hread, ?_⟩
    rintro rest' heq
    obtain ⟨-, rfl⟩ := List.cons.inj heq
    exact hms
  · cases h

theorem stops_of_isDigit {c : Char} (hc : c.isDigit = false) (cs : List Char) :
    Stops (c :: cs) := by
  intro d hd
  obtain rfl := Option.some.inj hd
  exact hc

theorem readMembers_iff {m : Member} {ms : List Member} {fuel : ℕ} (hfuel : ms.length < fuel) :
    readMembers unicode fuel (writeMembers (m :: ms) ++ ['\x7d']) = some (m :: ms) ↔
      ∀ m' ∈ m :: ms, m'.Plain := by
  induction ms generalizing m fuel with
  | nil =>
    obtain ⟨fuel, rfl⟩ := Nat.exists_eq_add_one_of_ne_zero (Nat.pos_iff_ne_zero.mp hfuel)
    have hstops : Stops ['\x7d'] := stops_of_isDigit rfl _
    rw [writeMembers, List.forall_mem_singleton]
    constructor
    · intro h
      obtain ⟨rest, hread, -⟩ := exists_of_readMembers h
      exact ((readMember_iff hstops).mp hread).1
    · intro hm
      rw [readMembers, (readMember_iff hstops).mpr ⟨hm, rfl⟩]
      rfl
  | cons m' ms ih =>
    obtain ⟨fuel, rfl⟩ := Nat.exists_eq_add_one_of_ne_zero (Nat.ne_of_gt (Nat.zero_lt_of_lt hfuel))
    have htext : writeMembers (m :: m' :: ms) ++ ['\x7d']
        = m.write ++ ',' :: (writeMembers (m' :: ms) ++ ['\x7d']) := by
      rw [writeMembers, List.append_assoc, List.cons_append]
      exact nofun
    have hstops : Stops (',' :: (writeMembers (m' :: ms) ++ ['\x7d'])) := stops_of_isDigit rfl _
    have hrest := ih (m := m') (Nat.lt_of_succ_lt_succ hfuel)
    rw [htext, List.forall_mem_cons]
    constructor
    · intro h
      obtain ⟨rest, hread, hms⟩ := exists_of_readMembers h
      obtain ⟨hm, rfl⟩ := (readMember_iff hstops).mp hread
      exact ⟨hm, hrest.mp (hms _ rfl)⟩
    · rintro ⟨hm, hms⟩
      rw [readMembers, (readMember_iff hstops).mpr ⟨hm, rfl⟩]
      simp only [hrest.mpr hms]
      rfl

theorem length_le_writeMembers (ms : List Member) : ms.length ≤ (writeMembers ms).length := by
  induction ms with
  | nil => exact le_rfl
  | cons m ms ih =>
    cases ms with
    | nil => simp [writeMembers, Member.write]
    | cons m' ms =>
      rw [writeMembers]
      · simp only [List.length_append, List.length_cons] at ih ⊢
        omega
      · exact nofun

/-- An object is read back exactly if all its strings are plain. -/
theorem readObject_writeObject_iff {ms : List Member} :
    readObject unicode (writeObject ms) = some ms ↔ ∀ m ∈ ms, m.Plain := by
  cases ms with
  | nil => exact iff_of_true rfl fun m hm => absurd hm List.not_mem_nil
  | cons m ms =>
    have hlength := length_le_writeMembers (m :: ms)
    have hne : writeMembers (m :: ms) ++ ['\x7d'] ≠ ['\x7d'] := by
      intro heq
      have hlen := congrArg List.length heq
      simp only [List.length_append, List.length_cons, List.length_nil] at hlen hlength
      omega
    rw [writeObject, readObject, if_neg (not_not.mpr rfl), if_neg hne, readMembers_iff]
    simp only [List.length_append, List.length_cons, List.length_nil] at hlength ⊢
    omega

/-- Plain objects with the same text are the same. -/
theorem writeObject_inj {ms ns : List Member} (hms : ∀ m ∈ ms, m.Plain) (hns : ∀ m ∈ ns, m.Plain) :
    writeObject ms = writeObject ns ↔ ms = ns := by
  refine ⟨fun h => ?_, congrArg writeObject⟩
  have hread := (@readObject_writeObject_iff (fun _ => none) ms).mpr hms
  rw [h, readObject_writeObject_iff.mpr hns] at hread
  exact (Option.some.inj hread).symm

end Json
