import StakeOracle.Json.Document
import StakeOracle.Proofs.Bytes.KeyText
import StakeOracle.Proofs.Numeric.EtherText
import StakeOracle.Proofs.Text.Reading

/-!
# Blanks, strings and numbers in JSON

A string is a row of units between two quotes. A unit is a character that stands for itself, an escape
for one of eight characters, or a code unit of four hexadecimal digits; two code units that form a
surrogate pair denote one character. A number has no needless zero in front, and may have digits behind
a point and an exponent. What is told of them here is what their readers read.
-/

namespace StakeOracle.Json

open Reader

variable {text rest taken : List Char}

/-! ## Blanks -/

/-- A blank. -/
def isBlank (c : Char) : Bool := c = ' ' || c = '\n' || c = '\t' || c = '\r'

/-- A text of blanks. -/
def Blank (taken : List Char) : Prop := ∀ c ∈ taken, isBlank c = true

/-- All blanks up to something else are taken. -/
theorem reads_blanks : Reads blanks (fun taken _ => Blank taken) (Halts isBlank) := by
  constructor
  · intro text _ rest htaken
    obtain ⟨taken, _, hrun, hpure⟩ := takes_bind_iff.mp htaken
    obtain ⟨rfl, hblank, -⟩ := takes_run_iff.mp hrun
    obtain ⟨-, rfl⟩ := takes_pure_iff.mp hpure
    exact ⟨taken, rfl, hblank⟩
  · intro taken _ rest hblank hrest
    exact .bind (takes_run_iff.mpr ⟨rfl, hblank, hrest⟩) takes_pure

/-! ## Hexadecimal code units -/

/-- Only characters below 128 are hexadecimal digits. -/
theorem toNat_lt_of_hexValue? {c : Char} {v : Nat} (h : hexValue? c = some v) : c.toNat < 128 := by
  have hle {last : Char} (hlast : c ≤ last) : c.toNat ≤ last.toNat := UInt32.le_iff_toNat_le.mp hlast
  unfold hexValue? at h
  split at h
  · rename_i hdigit
    exact Nat.lt_of_le_of_lt (Char.isDigit_iff_toNat.mp hdigit).2 (by decide)
  · split at h
    · rename_i hlower
      exact Nat.lt_of_le_of_lt (hle hlower.2) (by decide)
    · split at h
      · rename_i hupper
        exact Nat.lt_of_le_of_lt (hle hupper.2) (by decide)
      · cases h

/-- A character has a value exactly when its lowercase form is the digit of that value. -/
theorem hexValue?_eq_some_iff {c : Char} {v : Nat} :
    hexValue? c = some v ↔ v < 16 ∧ c.toLower = Hex.digit v := by
  -- Both sides hold of characters with one octet only, so the octets are all there is to check.
  have hvalue : ∀ b, ∀ v ∈ hexValue? (charOf b), v < 16 := Hex.octet_forall (by decide +kernel)
  have hoctet : ∀ b, ∀ v : Fin 16, hexValue? (charOf b) = some v.val ↔ Hex.lowered b = Hex.digit v :=
    Hex.octet_forall (by decide +kernel)
  have hchar (hsmall : c.toNat < 128) (hv : v < 16) :
      hexValue? c = some v ↔ c.toLower = Hex.digit v := by
    have h := hoctet (octet c) ⟨v, hv⟩
    rwa [Hex.lowered, charOf_octet hsmall] at h
  constructor
  · intro h
    have hsmall := toNat_lt_of_hexValue? h
    have hv : v < 16 := hvalue (octet c) v (by rwa [charOf_octet hsmall])
    exact ⟨hv, (hchar hsmall hv).mp h⟩
  · rintro ⟨hv, hlower⟩
    have hsmall : c.toNat < 128 := toNat_lt_of_toLower (hlower ▸ Hex.toNat_digit_lt hv)
    exact (hchar hsmall hv).mpr hlower

/-- Four hexadecimal digits of either case, and the code unit that they denote. -/
def CodeText (digits : List Char) (unit : Nat) : Prop :=
  unit < 16 ^ 4 ∧ digits.map Char.toLower =
    [unit / 16 ^ 3, unit / 16 ^ 2 % 16, unit / 16 % 16, unit % 16].map Hex.digit

/-- Four digits have values, which make up the code unit. -/
theorem codeText_iff {digits : List Char} {unit : Nat} : CodeText digits unit ↔
    digits.length = 4 ∧ (∀ c ∈ digits, (hexValue? c).isSome = true) ∧
      digits.foldl (fun n c => 16 * n + (hexValue? c).getD 0) 0 = unit := by
  constructor
  · rintro ⟨hunit, hdigits⟩
    have hlength : digits.length = 4 := by simpa using congrArg List.length hdigits
    match digits, hlength with
    | [a, b, c, d], _ =>
      simp only [List.map_cons, List.map_nil, List.cons.injEq, and_true] at hdigits
      obtain ⟨ha, hb, hc, hd⟩ := hdigits
      have ha := hexValue?_eq_some_iff.mpr ⟨by omega, ha⟩
      have hb := hexValue?_eq_some_iff.mpr ⟨by omega, hb⟩
      have hc := hexValue?_eq_some_iff.mpr ⟨by omega, hc⟩
      have hd := hexValue?_eq_some_iff.mpr ⟨by omega, hd⟩
      refine ⟨rfl, by simp [ha, hb, hc, hd], ?_⟩
      simp only [List.foldl_cons, List.foldl_nil, ha, hb, hc, hd, Option.getD_some]
      omega
  · rintro ⟨hlength, hdigits, rfl⟩
    match digits, hlength with
    | [a, b, c, d], _ =>
      simp only [List.forall_mem_cons, Option.isSome_iff_exists] at hdigits
      obtain ⟨⟨v, ha⟩, ⟨w, hb⟩, ⟨x, hc⟩, ⟨y, hd⟩, -⟩ := hdigits
      simp only [List.foldl_cons, List.foldl_nil, ha, hb, hc, hd, Option.getD_some]
      obtain ⟨hv, ha⟩ := hexValue?_eq_some_iff.mp ha
      obtain ⟨hw, hb⟩ := hexValue?_eq_some_iff.mp hb
      obtain ⟨hx, hc⟩ := hexValue?_eq_some_iff.mp hc
      obtain ⟨hy, hd⟩ := hexValue?_eq_some_iff.mp hd
      refine ⟨by omega, ?_⟩
      simp only [List.map_cons, List.map_nil, ha, hb, hc, hd, List.cons.injEq, and_true]
      exact ⟨congrArg _ (by omega), congrArg _ (by omega), congrArg _ (by omega),
        congrArg _ (by omega)⟩

/-- Four digits are read as the code unit that they denote. -/
theorem reads_codeUnit : Reads codeUnit CodeText fun _ => True := by
  constructor
  · intro text unit rest htaken
    obtain ⟨digits, _, htimes, hpure⟩ := takes_bind_iff.mp htaken
    obtain ⟨rfl, hlength, hdigits⟩ := takes_times_iff.mp htimes
    obtain ⟨hunit, rfl⟩ := takes_pure_iff.mp hpure
    exact ⟨digits, rfl, codeText_iff.mpr ⟨hlength, hdigits, hunit⟩⟩
  · intro digits unit rest hdigits _
    obtain ⟨hlength, hsome, hunit⟩ := codeText_iff.mp hdigits
    exact .bind (takes_times_iff.mpr ⟨rfl, hlength, hsome⟩) (takes_pure_iff.mpr ⟨hunit, rfl⟩)

/-! ## Strings -/

/-- The characters that have an escape of one letter. -/
def escapes : List (Char × Char) :=
  [('"', '"'), ('\\', '\\'), ('/', '/'), ('b', '\x08'), ('f', '\x0c'), ('n', '\n'), ('r', '\r'),
   ('t', '\t')]

/-- How a unit is written. -/
inductive UnitText : List Char → StringUnit → Prop
  | plain {c : Char} (hprintable : 0x20 ≤ c.toNat) (hquote : c ≠ '"') (hescape : c ≠ '\\') :
    UnitText [c] (.char c)
  | escape {letter c : Char} (h : (letter, c) ∈ escapes) : UnitText ['\\', letter] (.char c)
  | code {digits : List Char} {unit : Nat} (h : CodeText digits unit) :
    UnitText ('\\' :: 'u' :: digits) (.code unit)

/-- An escape is read as its unit. -/
theorem takes_escape_iff {unit : StringUnit} : Takes escape text unit rest ↔
    ∃ taken, text = '\\' :: (taken ++ rest) ∧ UnitText ('\\' :: taken) unit := by
  constructor
  · intro htaken
    obtain ⟨_, _, hmark, htaken⟩ := takes_bind_iff.mp htaken
    obtain ⟨letter, middle, hletter, hunit⟩ := takes_bind_iff.mp htaken
    obtain rfl := takes_char_iff.mp hmark
    obtain ⟨rfl, -⟩ := takes_one_iff.mp hletter
    split at hunit
    case h_9 =>
      obtain ⟨code, _, hcode, hpure⟩ := takes_bind_iff.mp hunit
      obtain ⟨rfl, rfl⟩ := takes_pure_iff.mp hpure
      obtain ⟨digits, rfl, hdigits⟩ := reads_codeUnit.sound hcode
      exact ⟨'u' :: digits, rfl, .code hdigits⟩
    case h_10 => cases hunit
    -- Each of the other letters is in the list of escapes.
    all_goals
      obtain ⟨rfl, rfl⟩ := takes_pure_iff.mp hunit
      exact ⟨[_], rfl, .escape (by decide)⟩
  · rintro ⟨taken, rfl, hunit⟩
    cases hunit with
    | plain _ _ hescape => exact absurd rfl hescape
    | escape h =>
      simp only [escapes, List.mem_cons, Prod.mk.injEq, List.not_mem_nil, or_false] at h
      rcases h with ⟨rfl, rfl⟩ | ⟨rfl, rfl⟩ | ⟨rfl, rfl⟩ | ⟨rfl, rfl⟩ | ⟨rfl, rfl⟩ | ⟨rfl, rfl⟩ |
        ⟨rfl, rfl⟩ | ⟨rfl, rfl⟩
      all_goals rfl
    | code h =>
      exact .bind (takes_char _ _) (.bind (takes_one_iff.mpr ⟨rfl, rfl⟩)
        (.bind (reads_codeUnit.complete h trivial) takes_pure))

/-- A unit is read as it is written. -/
theorem reads_unit : Reads (plain <|> escape) UnitText fun _ => True := by
  have hplain {text rest : List Char} {unit : StringUnit} : Takes plain text unit rest ↔
      ∃ c, text = c :: rest ∧ (0x20 ≤ c.toNat ∧ c ≠ '"' ∧ c ≠ '\\') ∧ unit = .char c := by
    simp only [plain, takes_bind_iff, takes_one_iff, takes_pure_iff, Bool.and_eq_true,
      decide_eq_true_eq]
    constructor
    · rintro ⟨c, _, ⟨rfl, ⟨hprintable, hquote⟩, hescape⟩, rfl, rfl⟩
      exact ⟨c, rfl, ⟨hprintable, hquote, hescape⟩, rfl⟩
    · rintro ⟨c, rfl, ⟨hprintable, hquote, hescape⟩, rfl⟩
      exact ⟨c, _, ⟨rfl, ⟨hprintable, hquote⟩, hescape⟩, rfl, rfl⟩
  have hrefuses (text : List Char) : Refuses plain ('\\' :: text) := by
    refine refuses_iff.mpr fun unit rest htaken => ?_
    obtain ⟨c, hc, ⟨-, -, hescape⟩, -⟩ := hplain.mp htaken
    exact hescape (List.cons.inj hc).1.symm
  constructor
  · intro text unit rest htaken
    rcases takes_orElse_iff.mp htaken with hchar | ⟨-, hescape⟩
    · obtain ⟨c, rfl, ⟨hprintable, hquote, hescape⟩, rfl⟩ := hplain.mp hchar
      exact ⟨[c], rfl, .plain hprintable hquote hescape⟩
    · obtain ⟨taken, rfl, hunit⟩ := takes_escape_iff.mp hescape
      exact ⟨'\\' :: taken, rfl, hunit⟩
  · intro taken unit rest hunit _
    refine takes_orElse_iff.mpr ?_
    cases hunit with
    | plain hprintable hquote hescape =>
      exact .inl (hplain.mpr ⟨_, rfl, ⟨hprintable, hquote, hescape⟩, rfl⟩)
    | escape h => exact .inr ⟨hrefuses _, takes_escape_iff.mpr ⟨_, rfl, .escape h⟩⟩
    | code h => exact .inr ⟨hrefuses _, takes_escape_iff.mpr ⟨_, rfl, .code h⟩⟩

/-- The characters that units denote. -/
inductive Denotes : List StringUnit → List Char → Prop
  | nil : Denotes [] []
  | char {c : Char} {units : List StringUnit} {cs : List Char} (h : Denotes units cs) :
    Denotes (.char c :: units) (c :: cs)
  | code {unit : Nat} {units : List StringUnit} {cs : List Char} (hvalid : unit.isValidChar)
    (h : Denotes units cs) : Denotes (.code unit :: units) (Char.ofNat unit :: cs)
  /-- The two halves of a surrogate pair. -/
  | pair {high low : Nat} {units : List StringUnit} {cs : List Char}
    (hhigh : 0xd800 ≤ high ∧ high < 0xdc00) (hlow : 0xdc00 ≤ low ∧ low < 0xe000)
    (h : Denotes units cs) : Denotes (.code high :: .code low :: units)
      (Char.ofNat (0x10000 + (high - 0xd800) * 0x400 + (low - 0xdc00)) :: cs)

/-- Units are read as the characters that they denote. -/
theorem textOf_eq_some_iff {units : List StringUnit} {cs : List Char} :
    textOf units = some cs ↔ Denotes units cs := by
  constructor
  · intro h
    fun_induction textOf units generalizing cs with
    | case1 =>
      cases h
      exact .nil
    | case2 c rest ih =>
      obtain ⟨cs', hrest, rfl⟩ := Option.map_eq_some_iff.mp h
      exact .char (ih hrest)
    | case3 high rest hvalid ih =>
      obtain ⟨cs', hrest, rfl⟩ := Option.map_eq_some_iff.mp h
      exact .code hvalid (ih hrest)
    | case4 high hvalid low rest hpair ih =>
      obtain ⟨cs', hrest, rfl⟩ := Option.map_eq_some_iff.mp h
      refine .pair ⟨?_, hpair.1⟩ hpair.2 (ih hrest)
      exact Nat.le_of_not_lt fun hlow => hvalid (.inl hlow)
    | case5 => cases h
    | case6 => cases h
  · intro h
    induction h with
    | nil => rfl
    | char _ ih => simp [textOf, ih]
    | code hvalid _ ih =>
      unfold textOf
      rw [if_pos hvalid, ih]
      rfl
    | @pair high low units cs hhigh hlow _ ih =>
      have hinvalid : ¬ high.isValidChar := by
        unfold Nat.isValidChar
        omega
      unfold textOf
      rw [if_neg hinvalid]
      dsimp only
      rw [if_pos ⟨hhigh.2, hlow⟩, ih]
      rfl

/-- How a string is written. -/
def StringText (taken : List Char) (t : Text) : Prop :=
  ∃ inner units, taken = '"' :: (inner ++ ['"']) ∧ Repeated UnitText inner units ∧
    ∀ s, t = some s ↔ Denotes units s.toList

/-- No unit is written with a quote in front. -/
theorem begins_of_unitText {unit : StringUnit} (h : UnitText taken unit) :
    Begins (· != '"') taken := by
  cases h with
  | plain _ hquote _ => exact ⟨_, _, rfl, bne_iff_ne.mpr hquote⟩
  | escape _ => exact ⟨_, _, rfl, rfl⟩
  | code _ => exact ⟨_, _, rfl, rfl⟩

/-- A string begins with its quote. -/
theorem StringText.begins {t : Text} (h : StringText taken t) : Begins (· == '"') taken := by
  obtain ⟨inner, units, rfl, -⟩ := h
  exact ⟨'"', _, rfl, rfl⟩

/-- A string is read as it is written. -/
theorem reads_string : Reads string StringText fun _ => True := by
  have hne (taken : List Char) (unit : StringUnit) (h : UnitText taken unit) : taken ≠ [] := by
    obtain ⟨c, behind, rfl, -⟩ := begins_of_unitText h
    exact List.cons_ne_nil _ _
  have hunits := reads_unit.many hne fun _ _ _ _ => trivial
  have htext {t : Text} {units : List StringUnit} : (textOf units).map String.ofList = t ↔
      ∀ s, t = some s ↔ Denotes units s.toList := by
    simp only [← textOf_eq_some_iff]
    cases textOf units with
    | none =>
      constructor
      · rintro rfl
        simp
      · intro h
        exact (Option.eq_none_iff_forall_ne_some.mpr fun s hs => by simp [h s] at hs).symm
    | some cs =>
      constructor
      · rintro rfl s
        simp [String.ext_iff, eq_comm]
      · intro h
        exact ((h (String.ofList cs)).mpr (by simp)).symm
  constructor
  · intro text t rest htaken
    obtain ⟨_, _, hopening, htaken⟩ := takes_bind_iff.mp htaken
    obtain ⟨units, _, hmany, htaken⟩ := takes_bind_iff.mp htaken
    obtain ⟨_, _, hclosing, hpure⟩ := takes_bind_iff.mp htaken
    obtain ⟨ht, rfl⟩ := takes_pure_iff.mp hpure
    obtain rfl := takes_char_iff.mp hopening
    obtain rfl := takes_char_iff.mp hclosing
    obtain ⟨inner, rfl, hinner⟩ := hunits.sound hmany
    exact ⟨'"' :: (inner ++ ['"']), by simp, inner, units, rfl, hinner, htext.mp ht⟩
  · rintro _ t rest ⟨inner, units, rfl, hinner, ht⟩ -
    have hrefuses : Refuses (plain <|> escape) ('"' :: rest) :=
      reads_unit.refuses_of_halts (fun _ _ => begins_of_unitText) (halts_cons.mpr rfl)
    have hinner := hunits.complete hinner ⟨trivial, hrefuses⟩
    simp only [List.cons_append, List.append_assoc, List.nil_append]
    exact .bind (takes_char _ _) (.bind hinner (.bind (takes_char _ _)
      (takes_pure_iff.mpr ⟨htext.mpr ht, rfl⟩)))

/-! ## Numbers -/

/-- Decimal digits, at least one. -/
def IsDigits (taken : List Char) : Prop := taken ≠ [] ∧ ∀ c ∈ taken, c.isDigit = true

/-- Digits behind a point. -/
def IsFraction (taken : List Char) : Prop := ∃ digits, taken = '.' :: digits ∧ IsDigits digits

/-- Digits behind the mark of an exponent, with a sign or without. -/
def IsExponent (taken : List Char) : Prop :=
  ∃ mark sign digits, taken = mark :: (sign ++ digits) ∧ (mark = 'e' ∨ mark = 'E') ∧
    (sign = [] ∨ sign = ['+'] ∨ sign = ['-']) ∧ IsDigits digits

/-- How a number is written. -/
def IsNumber (taken : List Char) : Prop :=
  ∃ sign whole fraction exponent, taken = sign ++ (whole ++ (fraction ++ exponent)) ∧
    (sign = [] ∨ sign = ['-']) ∧ Decimal.IsNumeral whole ∧
    (fraction = [] ∨ IsFraction fraction) ∧ (exponent = [] ∨ IsExponent exponent)

/-- A character that may carry a number on. -/
def carriesOn (c : Char) : Bool := c.isDigit || c = '.' || c = 'e' || c = 'E'

/-- Digits are read up to the first other character. -/
theorem reads_digits : Reads (do let _ ← run1 Char.isDigit) (fun taken _ => IsDigits taken)
    (Halts Char.isDigit) := by
  have hrun : Reads (run1 Char.isDigit) (fun taken digits => taken = digits ∧ IsDigits digits)
      (Halts Char.isDigit) := by
    constructor
    · intro text digits rest htaken
      obtain ⟨rfl, hne, hdigits, -⟩ := takes_run1_iff.mp htaken
      exact ⟨digits, rfl, rfl, hne, hdigits⟩
    · rintro _ digits rest ⟨rfl, hne, hdigits⟩ hrest
      exact takes_run1_iff.mpr ⟨rfl, hne, hdigits, hrest⟩
  exact (hrun.map fun _ => ()).of (by simp) id

/-- The digits in front of the point are a numeral. -/
theorem reads_whole : Reads whole (fun taken _ => Decimal.IsNumeral taken) (Halts Char.isDigit) := by
  have hnext {text rest : List Char} {next : Option Char} :
      Takes next? text next rest ↔ text.head? = next ∧ text = rest := by
    have key : StateT.run next? text = some (text.head?, text) := rfl
    rw [Takes, key, Option.some_inj, Prod.mk.injEq]
  constructor
  · intro text _ rest htaken
    obtain ⟨_, _, hhead, hdigits⟩ := takes_bind_iff.mp htaken
    obtain ⟨rfl, rfl⟩ := hnext.mp hhead
    split at hdigits
    · obtain rfl := takes_char_iff.mp hdigits
      exact ⟨['0'], rfl, List.cons_ne_nil _ _, List.forall_mem_singleton.mpr rfl, fun _ => rfl⟩
    · rename_i hzero
      obtain ⟨digits, rfl, hne, hdigits⟩ := reads_digits.sound hdigits
      refine ⟨digits, rfl, hne, hdigits, fun h => absurd ?_ hzero⟩
      rw [List.head?_append_of_ne_nil _ hne, h]
  · intro digits _ rest hnumeral hrest
    refine .bind (hnext.mpr ⟨rfl, rfl⟩) ?_
    rw [List.head?_append_of_ne_nil _ hnumeral.ne_nil]
    split
    · rename_i hzero
      rw [hnumeral.eq_zero hzero]
      exact takes_char _ _
    · exact reads_digits.complete ⟨hnumeral.ne_nil, hnumeral.isDigit⟩ hrest

/-- A fraction is read as it is written. -/
theorem reads_fraction : Reads fraction (fun taken _ => IsFraction taken) (Halts Char.isDigit) :=
  reads_digits.after '.'

/-- Digits begin with a digit. -/
theorem IsDigits.begins (h : IsDigits taken) : Begins Char.isDigit taken := by
  obtain ⟨hne, hdigits⟩ := h
  obtain ⟨c, behind, rfl⟩ := List.exists_cons_of_ne_nil hne
  exact ⟨c, behind, rfl, hdigits c List.mem_cons_self⟩

/-- A sign of an exponent. -/
def isSign (c : Char) : Bool := c = '+' || c = '-'

/-- The mark of an exponent. -/
def isMark (c : Char) : Bool := c = 'e' || c = 'E'

/-- A character that does not pass a test is not a digit, if digits do. -/
theorem test_eq_false_of_isDigit {test : Char → Bool} (h : ∀ c, test c = true → c.isDigit = false)
    (c : Char) (hc : c.isDigit = true) : test c = false := by
  rw [← Bool.not_eq_true]
  intro htest
  rw [h c htest] at hc
  cases hc

/-- An exponent is read as it is written. -/
theorem reads_exponent :
    Reads exponent (fun taken _ => IsExponent taken) (Halts Char.isDigit) := by
  have hmark := reads_one isMark
  have hsign : Reads (optional (one isSign)) _ (Halts isSign) :=
    (reads_one isSign).perhaps_of_begins (fun _ _ => trivial) fun _ c h => ⟨c, [], h⟩
  refine (hmark.seq (hsign.seq reads_digits ?_) fun _ _ _ _ _ => trivial).of ?_ id
  · intro digits _ rest hdigits _
    refine hdigits.begins.halts (test_eq_false_of_isDigit fun c hc => ?_) rest
    simp only [isSign, Bool.or_eq_true, decide_eq_true_eq] at hc
    rcases hc with rfl | rfl <;> rfl
  · intro taken _
    simp only [exists_perhaps_iff, IsExponent, isMark, isSign, Bool.or_eq_true,
      decide_eq_true_eq]
    constructor
    · rintro ⟨_, _, rfl, ⟨mark, rfl, hmark⟩, sign, digits, rfl, hsign, hdigits⟩
      refine ⟨mark, sign, digits, rfl, hmark, ?_, hdigits⟩
      rcases hsign with rfl | ⟨_, rfl, rfl | rfl⟩
      · exact .inl rfl
      · exact .inr (.inl rfl)
      · exact .inr (.inr rfl)
    · rintro ⟨mark, sign, digits, rfl, hmark, hsign, hdigits⟩
      refine ⟨[mark], _, rfl, ⟨mark, rfl, hmark⟩, sign, digits, rfl, ?_, hdigits⟩
      rcases hsign with rfl | rfl | rfl
      · exact .inl rfl
      · exact .inr ⟨_, rfl, .inl rfl⟩
      · exact .inr ⟨_, rfl, .inr rfl⟩

/-- A fraction begins with its point. -/
theorem IsFraction.begins (h : IsFraction taken) : Begins (· == '.') taken := by
  obtain ⟨digits, rfl, -⟩ := h
  exact ⟨'.', digits, rfl, rfl⟩

/-- An exponent begins with its mark. -/
theorem IsExponent.begins (h : IsExponent taken) : Begins isMark taken := by
  obtain ⟨mark, sign, digits, rfl, rfl | rfl, -⟩ := h
  · exact ⟨'e', _, rfl, rfl⟩
  · exact ⟨'E', _, rfl, rfl⟩

/-- The mark of an exponent carries on neither digits nor a fraction. -/
theorem eq_false_of_isMark {c : Char} (h : isMark c = true) : (c.isDigit || c == '.') = false := by
  simp only [isMark, Bool.or_eq_true, decide_eq_true_eq] at h
  rcases h with rfl | rfl <;> rfl

/-- A fraction may be left out. -/
theorem reads_optional_fraction : Reads (optional fraction) (Perhaps fun taken _ => IsFraction taken)
    (Halts fun c => c.isDigit || c == '.') := by
  refine reads_fraction.perhaps_of_begins (fun _ h => h.mono ?_) fun _ _ h => h.begins.mono ?_
  · simp +contextual
  · simp +contextual

/-- An exponent may be left out. -/
theorem reads_optional_exponent : Reads (optional exponent) (Perhaps fun taken _ => IsExponent taken)
    (Halts carriesOn) := by
  refine reads_exponent.perhaps_of_begins (fun _ h => h.mono ?_) fun _ _ h => h.begins.mono ?_
  · simp +contextual [carriesOn]
  · intro c hc
    simp only [isMark, Bool.or_eq_true, decide_eq_true_eq] at hc
    rcases hc with rfl | rfl <;> rfl

/-- Neither digits nor a fraction are carried on by an exponent or by what is behind it. -/
theorem halts_exponent {found : Option Unit} (h : Perhaps (fun taken _ => IsExponent taken) taken found)
    (hrest : Halts carriesOn rest) : Halts (fun c => c.isDigit || c == '.') (taken ++ rest) := by
  refine h.halts (fun _ _ h => h.begins.halts (fun _ => eq_false_of_isMark) rest) (hrest.mono ?_)
  simp +contextual [carriesOn]

/-- A number is read as it is written. -/
theorem reads_number : Reads number (fun taken _ => IsNumber taken) (Halts carriesOn) := by
  have hminus : Reads (optional (char '-')) _ (Halts (· == '-')) :=
    (reads_char '-').perhaps_of_begins (fun _ _ => trivial) fun _ _ h => ⟨'-', [], h, rfl⟩
  have hbehind := reads_optional_exponent.map fun _ => ()
  refine (hminus.seq (reads_whole.seq (reads_optional_fraction.seq hbehind ?_) ?_) ?_).of ?_ id
  · rintro exponent _ rest ⟨_, hexponent, -⟩ hrest
    exact halts_exponent hexponent hrest
  · rintro _ _ rest ⟨fraction, exponent, rfl, ⟨_, hfraction⟩, _, hexponent, -⟩ hrest
    rw [List.append_assoc]
    refine hfraction.halts (fun _ _ h => h.begins.halts ?_ _) ((halts_exponent hexponent hrest).mono ?_)
    · simp +contextual
    · simp +contextual
  · rintro _ _ rest ⟨whole, behind, rfl, ⟨_, hwhole⟩, -⟩ -
    rw [List.append_assoc]
    refine IsDigits.begins ⟨hwhole.ne_nil, hwhole.isDigit⟩ |>.halts (test_eq_false_of_isDigit ?_) _
    simp +contextual
  · intro taken _
    simp only [and_true, exists_perhaps_iff, exists_const, IsNumber]
    constructor
    · rintro ⟨sign, _, rfl, hsign, whole, _, rfl, hwhole, fraction, exponent, rfl, hfraction, hexponent⟩
      exact ⟨sign, whole, fraction, exponent, rfl, hsign, hwhole, hfraction, hexponent⟩
    · rintro ⟨sign, whole, fraction, exponent, rfl, hsign, hwhole, hfraction, hexponent⟩
      exact ⟨sign, _, rfl, hsign, whole, _, rfl, hwhole, fraction, exponent, rfl, hfraction, hexponent⟩

/-! ## Values without brackets -/

/-- How a value without brackets is written. -/
inductive ScalarText : List Char → Value → Prop
  | null : ScalarText "null".toList .null
  | true : ScalarText "true".toList (.boolean true)
  | false : ScalarText "false".toList (.boolean false)
  | number {taken : List Char} (h : IsNumber taken) : ScalarText taken .number
  | text {taken : List Char} {t : Text} (h : StringText taken t) : ScalarText taken (.text t)

/-- A number begins with a minus sign or a digit. -/
theorem IsNumber.begins (h : IsNumber taken) : Begins (fun c => c.isDigit || c == '-') taken := by
  obtain ⟨_, whole, fraction, exponent, rfl, rfl | rfl, hwhole, -⟩ := h
  · obtain ⟨c, behind, rfl, hc⟩ := IsDigits.begins ⟨hwhole.ne_nil, hwhole.isDigit⟩
    exact ⟨c, _, rfl, by simp [hc]⟩
  · exact ⟨'-', _, rfl, rfl⟩

/-- A value without brackets is read as it is written. -/
theorem reads_scalar : Reads scalar ScalarText (Halts carriesOn) := by
  have hnumber : Reads (do number; return Value.number) (fun taken v => IsNumber taken ∧ .number = v)
      (Halts carriesOn) := (reads_number.map fun _ => Value.number).of (exists_const _) id
  have hstring := reads_string.map Value.text
  have hnull := reads_word "null" Value.null
  have htrue := reads_word "true" (Value.boolean true)
  have hfalse := reads_word "false" (Value.boolean false)
  have hother {c : Char} {taken rest : List Char} {v : Value} (hc : (c.isDigit || c == '-') = false)
      (hquote : (c == '"') = false) (h : IsNumber taken ∧ .number = v ∨
        ∃ t, StringText taken t ∧ .text t = v) : Halts (· == c) (taken ++ rest) := by
    rcases h with ⟨h, -⟩ | ⟨_, h, -⟩
    · exact h.begins.halts_char hc rest
    · exact h.begins.halts_char hquote rest
  refine (hnull.orElse (htrue.orElse (hfalse.orElse (hnumber.orElse hstring ?_) ?_) ?_) ?_).of ?_ ?_
  · rintro taken _ rest ⟨t, ⟨inner, units, rfl, -⟩, -⟩
    exact hnumber.refuses_of_halts (fun _ _ h => h.1.begins) (halts_cons.mpr rfl)
  · intro taken _ rest h
    exact refuses_word (c := 'f') rfl (hother rfl rfl h)
  · rintro taken _ rest (⟨rfl, -⟩ | h)
    · exact refuses_word (c := 't') rfl (halts_cons.mpr rfl)
    · exact refuses_word (c := 't') rfl (hother rfl rfl h)
  · rintro taken _ rest (⟨rfl, -⟩ | ⟨rfl, -⟩ | h)
    · exact refuses_word (c := 'n') rfl (halts_cons.mpr rfl)
    · exact refuses_word (c := 'n') rfl (halts_cons.mpr rfl)
    · exact refuses_word (c := 'n') rfl (hother rfl rfl h)
  · intro taken v
    constructor
    · rintro (⟨rfl, rfl⟩ | ⟨rfl, rfl⟩ | ⟨rfl, rfl⟩ | ⟨h, rfl⟩ | ⟨t, h, rfl⟩)
      · exact .null
      · exact .true
      · exact .false
      · exact .number h
      · exact .text h
    · intro h
      cases h with
      | null => exact .inl ⟨rfl, rfl⟩
      | true => exact .inr (.inl ⟨rfl, rfl⟩)
      | false => exact .inr (.inr (.inl ⟨rfl, rfl⟩))
      | number h => exact .inr (.inr (.inr (.inl ⟨h, rfl⟩)))
      | text h => exact .inr (.inr (.inr (.inr ⟨_, h, rfl⟩)))
  · exact fun hrest => ⟨trivial, trivial, trivial, hrest, trivial⟩

end StakeOracle.Json
