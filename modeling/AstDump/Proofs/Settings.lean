import AstDump.Config
import Mathlib.Data.List.Basic
import Mathlib.Data.List.Induction
import Mathlib.Data.List.TakeWhile
import Mathlib.Data.Nat.Digits.Defs

/-!
# What variables make of the settings

Which texts a variable may hold, told without the functions that read them: what a text is without the
white space around it, which texts are numerals of a word, and what is wrong first with any other. The
settings that are read, and the warnings beside them, are then exactly what these rules say.

Results:
* `Text.stripped_iff`: a text loses the white space at its ends and nothing else.
* `Text.readDigits_eq_ok_iff`, `Text.readDigits_eq_error_iff`: digits are read up to the first fault.
* `Text.readWord_eq_ok_iff`, `Text.readWord_eq_error_iff`: the same with an optional sign.
* `Config.ofLookup_exact`: the settings and the warnings.
-/

namespace AstDump

namespace Text

/-! ## White space -/

/-- The characters with the Unicode property White_Space. -/
def whiteSpace : List Char :=
  ['\t', '\n', '\x0B', '\x0C', '\r', ' ', '\u0085', '\u00A0', '\u1680', '\u2000', '\u2001', '\u2002',
   '\u2003', '\u2004', '\u2005', '\u2006', '\u2007', '\u2008', '\u2009', '\u200A', '\u2028', '\u2029',
   '\u202F', '\u205F', '\u3000']

/-- What is left of a text without the white space at its two ends. -/
structure Stripped (cs core : List Char) : Prop where
  split : ∃ before after, cs = before ++ core ++ after ∧
    (∀ c ∈ before, c ∈ whiteSpace) ∧ ∀ c ∈ after, c ∈ whiteSpace
  head : ∀ c ∈ core.head?, c ∉ whiteSpace
  last : ∀ c ∈ core.getLast?, c ∉ whiteSpace

/-- The ranges of blank characters, written out. -/
theorem map_toNat_whiteSpace :
    whiteSpace.map Char.toNat = blankRanges.flatMap fun (lo, hi) => List.range' lo (hi + 1 - lo) := by
  decide

theorem isBlank_iff {c : Char} : isBlank c ↔ c ∈ whiteSpace := by
  have hinj : Function.Injective Char.toNat := fun _ _ h => Char.toNat_inj.1 h
  rw [← List.mem_map_of_injective hinj, map_toNat_whiteSpace]
  simp only [isBlank, List.any_eq_true, List.mem_flatMap, List.mem_range'_1, Bool.and_eq_true,
    decide_eq_true_eq, Prod.exists]
  constructor
  · rintro ⟨lo, hi, hmem, hlo, hhi⟩
    exact ⟨lo, hi, hmem, hlo, by omega⟩
  · rintro ⟨lo, hi, hmem, hlo, hhi⟩
    exact ⟨lo, hi, hmem, hlo, by omega⟩

/-- Blank characters are taken off up to the first that is not blank. -/
theorem dropWhile_isBlank_append {blanks rest : List Char} (hblanks : ∀ c ∈ blanks, c ∈ whiteSpace)
    (hrest : ∀ c ∈ rest.head?, c ∉ whiteSpace) : (blanks ++ rest).dropWhile isBlank = rest := by
  rw [List.dropWhile_append_of_pos fun c hc => isBlank_iff.2 (hblanks c hc)]
  cases rest with
  | nil => rfl
  | cons c rest =>
    refine List.dropWhile_cons_of_neg ?_
    rw [isBlank_iff]
    exact hrest c rfl

theorem trimStart_spec (cs : List Char) :
    (∃ before, cs = before ++ trimStart cs ∧ ∀ c ∈ before, c ∈ whiteSpace) ∧
      ∀ c ∈ (trimStart cs).head?, c ∉ whiteSpace := by
  refine ⟨⟨cs.takeWhile isBlank, List.takeWhile_append_dropWhile.symm, ?_⟩, ?_⟩
  · intro c hc
    exact isBlank_iff.1 (List.mem_takeWhile_imp hc)
  · intro c hc
    have hnot := List.head?_dropWhile_not isBlank cs
    rw [Option.mem_def, trimStart] at hc
    simp only [hc] at hnot
    rw [← isBlank_iff, hnot]
    decide

theorem trimEnd_spec (cs : List Char) :
    (∃ after, cs = trimEnd cs ++ after ∧ ∀ c ∈ after, c ∈ whiteSpace) ∧
      ∀ c ∈ (trimEnd cs).getLast?, c ∉ whiteSpace := by
  obtain ⟨⟨before, hsplit, hbefore⟩, hhead⟩ := trimStart_spec cs.reverse
  refine ⟨⟨before.reverse, ?_, ?_⟩, ?_⟩
  · exact List.reverse_eq_iff.1 hsplit |>.trans List.reverse_append
  · simpa using hbefore
  · rw [trimEnd, List.getLast?_reverse]
    exact hhead

theorem stripped_trim (cs : List Char) : Stripped cs (trim cs) := by
  obtain ⟨⟨before, hbefore, hblank⟩, hhead⟩ := trimStart_spec cs
  obtain ⟨⟨after, hafter, hblank'⟩, hlast⟩ := trimEnd_spec (trimStart cs)
  refine ⟨⟨before, after, ?_, hblank, hblank'⟩, ?_, hlast⟩
  · rw [List.append_assoc]
    exact hbefore.trans (congrArg (before ++ ·) hafter)
  · -- What stands first after both steps stood first after one.
    intro c hc
    apply hhead
    rw [hafter, List.head?_append]
    exact Option.or_eq_some_iff.2 (.inl hc)

/-- A text loses the white space at its ends, and nothing else. -/
theorem stripped_iff {cs core : List Char} : Stripped cs core ↔ trim cs = core := by
  constructor
  · rintro ⟨⟨before, after, rfl, hbefore, hafter⟩, hhead, hlast⟩
    cases core with
    | nil =>
      have hall : ∀ c ∈ before ++ [] ++ after, c ∈ whiteSpace := by
        simpa [or_imp, forall_and] using ⟨hbefore, hafter⟩
      have hstart : trimStart (before ++ [] ++ after) = [] :=
        List.dropWhile_eq_nil_iff.2 fun c hc => isBlank_iff.2 (hall c hc)
      rw [trim, hstart]
      rfl
    | cons c core =>
      have hstart : trimStart (before ++ c :: core ++ after) = c :: core ++ after := by
        rw [List.append_assoc]
        exact dropWhile_isBlank_append hbefore hhead
      have hend : ((c :: core ++ after).reverse).dropWhile isBlank = (c :: core).reverse := by
        rw [List.reverse_append]
        refine dropWhile_isBlank_append (by simpa using hafter) ?_
        rw [List.head?_reverse]
        exact hlast
      rw [trim, hstart, trimEnd, hend, List.reverse_reverse]
  · rintro rfl
    exact stripped_trim cs

/-! ## Digits -/

/-- The value of digits in base ten. -/
def decimal (cs : List Char) : Nat := Nat.ofDigits 10 (cs.reverse.map (·.toNat - '0'.toNat))

/-- Digits whose value is that of a word. -/
structure FitsWord (cs : List Char) : Prop where
  digits : ∀ c ∈ cs, c.isDigit
  lt : decimal cs < UInt32.size

/-- What is wrong first with a text that should consist of digits, read from left to right: a character
    is no digit, whatever the value before it, or with a digit the value exceeds all words. All before
    it are digits whose value is that of a word. -/
inductive FirstFault : List Char → NumeralError → Prop
  | noDigit {ds rest : List Char} {c : Char} : FitsWord ds → ¬ c.isDigit →
    FirstFault (ds ++ c :: rest) .invalidDigit
  | tooLarge {ds rest : List Char} {c : Char} : FitsWord ds → c.isDigit →
    UInt32.size ≤ decimal (ds ++ [c]) → FirstFault (ds ++ c :: rest) .tooLarge

theorem decimal_append (cs ds : List Char) :
    decimal (cs ++ ds) = decimal ds + 10 ^ ds.length * decimal cs := by
  simp [decimal, Nat.ofDigits_append]

theorem decimal_concat (cs : List Char) (c : Char) :
    decimal (cs ++ [c]) = 10 * decimal cs + (c.toNat - '0'.toNat) := by
  rw [decimal_append]
  simp [decimal, Nat.add_comm]

theorem fitsWord_nil : FitsWord [] where
  digits := by simp
  lt := by decide

theorem FitsWord.of_append {cs ds : List Char} (h : FitsWord (cs ++ ds)) : FitsWord cs where
  digits c hc := h.digits c (List.mem_append_left _ hc)
  lt := by
    have hlt := h.lt
    have hle : decimal cs ≤ 10 ^ ds.length * decimal cs := Nat.le_mul_of_pos_left _ (by positivity)
    rw [decimal_append] at hlt
    omega

theorem FitsWord.concat_iff {cs : List Char} {c : Char} (h : FitsWord cs) :
    FitsWord (cs ++ [c]) ↔ c.isDigit ∧ decimal (cs ++ [c]) < UInt32.size := by
  constructor
  · intro h'
    exact ⟨h'.digits c (by simp), h'.lt⟩
  · rintro ⟨hc, hlt⟩
    refine ⟨?_, hlt⟩
    intro d hd
    rw [List.mem_append, List.mem_singleton] at hd
    obtain hd | rfl := hd
    · exact h.digits d hd
    · exact hc

/-- A text is the digits of a word, or something is wrong with it. -/
theorem fitsWord_or_firstFault (cs : List Char) : FitsWord cs ∨ ∃ e, FirstFault cs e := by
  induction cs using List.reverseRecOn with
  | nil => exact .inl fitsWord_nil
  | append_singleton cs c ih =>
    obtain h | ⟨e, h⟩ := ih
    · by_cases hc : c.isDigit
      · by_cases hlt : decimal (cs ++ [c]) < UInt32.size
        · exact .inl (h.concat_iff.2 ⟨hc, hlt⟩)
        · exact .inr ⟨_, .tooLarge h hc (Nat.le_of_not_lt hlt)⟩
      · exact .inr ⟨_, .noDigit h hc⟩
    · refine .inr ⟨e, ?_⟩
      cases h with
      | noDigit hds hc =>
        rw [List.append_assoc]
        exact .noDigit hds hc
      | tooLarge hds hc hle =>
        rw [List.append_assoc]
        exact .tooLarge hds hc hle

theorem readDigits_cons_of_isDigit (cs rest : List Char) {c : Char} (hc : c.isDigit) :
    readDigits (decimal cs) (c :: rest) =
      if decimal (cs ++ [c]) < UInt32.size then readDigits (decimal (cs ++ [c])) rest
      else .error .tooLarge := by
  rw [readDigits, digitValue?, if_pos hc, decimal_concat]

/-- Digits whose value fits are read, and the rest after them. -/
theorem readDigits_append (cs ds rest : List Char) (h : FitsWord (cs ++ ds)) :
    readDigits (decimal cs) (ds ++ rest) = readDigits (decimal (cs ++ ds)) rest := by
  induction ds generalizing cs with
  | nil => rw [List.append_nil, List.nil_append]
  | cons d ds ih =>
    have hsplit : cs ++ d :: ds = cs ++ [d] ++ ds := by simp
    rw [hsplit] at h ⊢
    obtain ⟨hd, hlt⟩ := h.of_append.of_append.concat_iff.1 h.of_append
    rw [List.cons_append, readDigits_cons_of_isDigit cs _ hd, if_pos hlt, ih _ h]

theorem readDigits_of_fitsWord {cs : List Char} (h : FitsWord cs) :
    readDigits 0 cs = .ok (decimal cs) := by
  have hread := readDigits_append [] cs [] h
  rwa [List.append_nil] at hread

/-- Reading stops at the first fault. -/
theorem readDigits_of_firstFault {cs : List Char} {e : NumeralError} (h : FirstFault cs e) :
    readDigits 0 cs = .error e := by
  cases h with
  | @noDigit ds rest c hds hc =>
    refine (readDigits_append [] ds (c :: rest) hds).trans ?_
    rw [readDigits, digitValue?, if_neg hc]
  | @tooLarge ds rest c hds hc hle =>
    refine (readDigits_append [] ds (c :: rest) hds).trans ?_
    rw [List.nil_append, readDigits_cons_of_isDigit ds rest hc, if_neg (Nat.not_lt.2 hle)]

theorem readDigits_eq_ok_iff {cs : List Char} {n : Nat} :
    readDigits 0 cs = .ok n ↔ FitsWord cs ∧ decimal cs = n := by
  constructor
  · intro h
    obtain hfits | ⟨e, hfault⟩ := fitsWord_or_firstFault cs
    · rw [readDigits_of_fitsWord hfits] at h
      exact ⟨hfits, Except.ok.inj h⟩
    · rw [readDigits_of_firstFault hfault] at h
      cases h
  · rintro ⟨hfits, rfl⟩
    exact readDigits_of_fitsWord hfits

theorem readDigits_eq_error_iff {cs : List Char} {e : NumeralError} :
    readDigits 0 cs = .error e ↔ FirstFault cs e := by
  refine ⟨fun h => ?_, readDigits_of_firstFault⟩
  obtain hfits | ⟨e', hfault⟩ := fitsWord_or_firstFault cs
  · rw [readDigits_of_fitsWord hfits] at h
    cases h
  · rw [readDigits_of_firstFault hfault] at h
    cases h
    exact hfault

/-! ## Numerals -/

/-- The numerals of `n`: an optional plus sign and one or more digits, any number of leading zeros among
    them. -/
def IsNumeral (cs : List Char) (n : Nat) : Prop :=
  ∃ sign ds, (sign = [] ∨ sign = ['+']) ∧ cs = sign ++ ds ∧ ds ≠ [] ∧ (∀ c ∈ ds, c.isDigit) ∧
    decimal ds = n

/-- What is wrong with a text that is no numeral of a word: there is no text or nothing but a sign, or
    else the first fault of what follows the plus sign, or of the whole text if it has none. -/
inductive NoNumeral : List Char → NumeralError → Prop
  | empty : NoNumeral [] .empty
  | loneSign {sign : Char} : sign = '+' ∨ sign = '-' → NoNumeral [sign] .invalidDigit
  | unsigned {c : Char} {cs : List Char} {e : NumeralError} : c ≠ '+' → FirstFault (c :: cs) e →
    NoNumeral (c :: cs) e
  | signed {cs : List Char} {e : NumeralError} : cs ≠ [] → FirstFault cs e → NoNumeral ('+' :: cs) e

theorem readWord_signed {cs : List Char} (h : cs ≠ []) :
    readWord ('+' :: cs) = (readDigits 0 cs).map UInt32.ofNat := by
  cases cs with
  | nil => exact absurd rfl h
  | cons c cs => rfl

theorem readWord_unsigned {c : Char} (h : c ≠ '+') (cs : List Char) :
    readWord (c :: cs) = (readDigits 0 (c :: cs)).map UInt32.ofNat := by
  rw [readWord]
  · exact List.cons_ne_nil c cs
  · exact fun heq => h (List.cons.inj heq).1
  · exact fun ds heq => h (List.cons.inj heq).1

theorem map_readDigits_eq_ok_iff {cs : List Char} {w : UInt32} :
    (readDigits 0 cs).map UInt32.ofNat = .ok w ↔ (∀ c ∈ cs, c.isDigit) ∧ decimal cs = w.toNat := by
  constructor
  · intro h
    cases hread : readDigits 0 cs with
    | error e =>
      rw [hread] at h
      cases h
    | ok n =>
      rw [hread] at h
      obtain ⟨hfits, rfl⟩ := readDigits_eq_ok_iff.1 hread
      obtain rfl : UInt32.ofNat (decimal cs) = w := Except.ok.inj h
      exact ⟨hfits.digits, (UInt32.toNat_ofNat_of_lt' hfits.lt).symm⟩
  · rintro ⟨hdigits, hvalue⟩
    have hfits : FitsWord cs := ⟨hdigits, hvalue ▸ w.toNat_lt_size⟩
    rw [readDigits_of_fitsWord hfits, hvalue, Except.map, UInt32.ofNat_toNat]

theorem map_readDigits_eq_error_iff {cs : List Char} {e : NumeralError} :
    (readDigits 0 cs).map UInt32.ofNat = .error e ↔ FirstFault cs e := by
  rw [← readDigits_eq_error_iff]
  cases readDigits 0 cs <;> simp [Except.map]

/-- The numerals of words are read, and nothing else. -/
theorem readWord_eq_ok_iff {cs : List Char} {w : UInt32} :
    readWord cs = .ok w ↔ IsNumeral cs w.toNat := by
  constructor
  · intro h
    cases cs with
    | nil => cases h
    | cons c cs =>
      by_cases hc : c = '+'
      · subst hc
        by_cases hcs : cs = []
        · subst hcs
          cases h
        · rw [readWord_signed hcs, map_readDigits_eq_ok_iff] at h
          exact ⟨['+'], cs, .inr rfl, rfl, hcs, h.1, h.2⟩
      · rw [readWord_unsigned hc, map_readDigits_eq_ok_iff] at h
        exact ⟨[], c :: cs, .inl rfl, rfl, List.cons_ne_nil _ _, h.1, h.2⟩
  · rintro ⟨sign, ds, hsign, rfl, hne, hdigits, hvalue⟩
    obtain rfl | rfl := hsign
    · obtain ⟨d, ds, rfl⟩ := List.exists_cons_of_ne_nil hne
      have hd : d ≠ '+' := by
        rintro rfl
        exact absurd (hdigits '+' List.mem_cons_self) (by decide)
      rw [List.nil_append, readWord_unsigned hd, map_readDigits_eq_ok_iff]
      exact ⟨hdigits, hvalue⟩
    · rw [List.singleton_append, readWord_signed hne, map_readDigits_eq_ok_iff]
      exact ⟨hdigits, hvalue⟩

/-- Any other text is refused for what is wrong with it first. -/
theorem readWord_eq_error_iff {cs : List Char} {e : NumeralError} :
    readWord cs = .error e ↔ NoNumeral cs e := by
  constructor
  · intro h
    cases cs with
    | nil =>
      cases h
      exact .empty
    | cons c cs =>
      by_cases hc : c = '+'
      · subst hc
        by_cases hcs : cs = []
        · subst hcs
          cases h
          exact .loneSign (.inl rfl)
        · rw [readWord_signed hcs, map_readDigits_eq_error_iff] at h
          exact .signed hcs h
      · rw [readWord_unsigned hc, map_readDigits_eq_error_iff] at h
        exact .unsigned hc h
  · intro h
    cases h with
    | empty => rfl
    | loneSign hsign =>
      obtain rfl | rfl := hsign
      · rfl
      · rfl
    | unsigned hc hfault => rw [readWord_unsigned hc, map_readDigits_eq_error_iff.2 hfault]
    | signed hcs hfault => rw [readWord_signed hcs, map_readDigits_eq_error_iff.2 hfault]

end Text

/-! ## Variables -/

namespace Config

open Text

/-- A variable is set, and its value is `core` with white space around it or without. -/
def Provides (value? : Option String) (core : List Char) : Prop :=
  ∃ value, value? = some value ∧ Stripped value.toList core

/-- A variable provides a numeral of `n`. -/
def ProvidesNumeral (value? : Option String) (n : Nat) : Prop :=
  ∃ core, Provides value? core ∧ IsNumeral core n

/-- What is reported about the variable of the run number. -/
inductive RunIdReport : Option String → List Warning → Prop
  | unset : RunIdReport none []
  | read {value : String} {n : UInt32} : ProvidesNumeral (some value) n.toNat →
    RunIdReport (some value) []
  | ignored {value : String} {core : List Char} {e : NumeralError} : Stripped value.toList core →
    NoNumeral core e → RunIdReport (some value) [⟨"CDUMP_RUN_ID", value, e.message⟩]

/-- What is reported about the variable of the id scheme. -/
inductive SchemeReport : Option String → List Warning → Prop
  | unset : SchemeReport none []
  | read {value : String} {s : IdScheme} : Provides (some value) s.name.toList →
    SchemeReport (some value) []
  | ignored {value : String} {core : List Char} : Stripped value.toList core →
    (∀ s : IdScheme, core ≠ s.name.toList) →
    SchemeReport (some value)
      [⟨"CDUMP_ID_SCHEME", value, UnknownScheme.message ⟨String.ofList core⟩⟩]

variable {value : String} {value? : Option String}

theorem provides_some_iff {core : List Char} :
    Provides (some value) core ↔ Stripped value.toList core := by
  simp [Provides]

theorem readRunId_eq_ok_iff {n : UInt32} :
    readRunId value = .ok n ↔ ProvidesNumeral (some value) n.toNat := by
  rw [readRunId, readWord_eq_ok_iff]
  simp [ProvidesNumeral, provides_some_iff, stripped_iff]

theorem readRunId_eq_error_iff {e : NumeralError} :
    readRunId value = .error e ↔ ∃ core, Stripped value.toList core ∧ NoNumeral core e := by
  rw [readRunId, readWord_eq_error_iff]
  simp [stripped_iff]

theorem readIdScheme_eq_ok_iff {s : IdScheme} :
    readIdScheme value = .ok s ↔ Provides (some value) s.name.toList := by
  rw [readIdScheme, IdScheme.parse_eq_ok_iff, provides_some_iff, stripped_iff,
    ← String.toList_inj, String.toList_ofList]

theorem readIdScheme_eq_error_iff {e : UnknownScheme} :
    readIdScheme value = .error e ↔ ∃ core, Stripped value.toList core ∧
      (∀ s : IdScheme, core ≠ s.name.toList) ∧ e = ⟨String.ofList core⟩ := by
  rw [readIdScheme, IdScheme.parse_eq_error_iff]
  simp [stripped_iff, ← String.toList_inj]

/-! ## Reading one variable -/

/-- The run number is the one provided, or stays if none is. -/
theorem runId_applyRunId_eq_iff (c : Config) {n : UInt32} :
    (c.applyRunId value?).1.runId = n ↔ ProvidesNumeral value? n.toNat ∨
      n = c.runId ∧ ∀ m : UInt32, ¬ ProvidesNumeral value? m.toNat := by
  cases value? with
  | none => simp [applyRunId, ProvidesNumeral, Provides, eq_comm]
  | some value =>
    simp only [← readRunId_eq_ok_iff, applyRunId]
    cases readRunId value with
    | ok m => simp
    | error e => simp [eq_comm]

/-- The id scheme is the one provided, or stays if none is. -/
theorem idScheme_applyIdScheme_eq_iff (c : Config) {s : IdScheme} :
    (c.applyIdScheme value?).1.idScheme = s ↔ Provides value? s.name.toList ∨
      s = c.idScheme ∧ ∀ s' : IdScheme, ¬ Provides value? s'.name.toList := by
  cases value? with
  | none => simp [applyIdScheme, Provides, eq_comm]
  | some value =>
    simp only [← readIdScheme_eq_ok_iff, applyIdScheme]
    cases readIdScheme value with
    | ok s' => simp
    | error e => simp [eq_comm]

theorem runIdReport_iff (c : Config) {ws : List Warning} :
    RunIdReport value? ws ↔ (c.applyRunId value?).2 = ws := by
  constructor
  · intro h
    cases h with
    | unset => rfl
    | read h => rw [applyRunId, readRunId_eq_ok_iff.2 h]
    | ignored h h' =>
      rw [applyRunId, readRunId_eq_error_iff.2 ⟨_, h, h'⟩]
      rfl
  · rintro rfl
    cases value? with
    | none => exact .unset
    | some value =>
      rw [applyRunId]
      cases hread : readRunId value with
      | ok n => exact .read (readRunId_eq_ok_iff.1 hread)
      | error e =>
        obtain ⟨core, hcore, hfault⟩ := readRunId_eq_error_iff.1 hread
        exact .ignored hcore hfault

theorem schemeReport_iff (c : Config) {ws : List Warning} :
    SchemeReport value? ws ↔ (c.applyIdScheme value?).2 = ws := by
  constructor
  · intro h
    cases h with
    | unset => rfl
    | read h => rw [applyIdScheme, readIdScheme_eq_ok_iff.2 h]
    | ignored h h' =>
      rw [applyIdScheme, readIdScheme_eq_error_iff.2 ⟨_, h, h', rfl⟩]
      rfl
  · rintro rfl
    cases value? with
    | none => exact .unset
    | some value =>
      rw [applyIdScheme]
      cases hread : readIdScheme value with
      | ok s => exact .read (readIdScheme_eq_ok_iff.1 hread)
      | error e =>
        obtain ⟨core, hcore, hfault, rfl⟩ := readIdScheme_eq_error_iff.1 hread
        exact .ignored hcore hfault

/-- Reading the run number leaves the other settings. -/
theorem applyRunId_frame (c : Config) (value? : Option String) :
    (c.applyRunId value?).1 = { c with runId := (c.applyRunId value?).1.runId } := by
  unfold applyRunId
  split
  · rfl
  · split <;> rfl

/-- Reading the id scheme leaves the other settings. -/
theorem applyIdScheme_frame (c : Config) (value? : Option String) :
    (c.applyIdScheme value?).1 = { c with idScheme := (c.applyIdScheme value?).1.idScheme } := by
  unfold applyIdScheme
  split
  · rfl
  · split <;> rfl

/-! ## Reading both -/

variable (lookup : String → Option String)

/-- The run number is read first, and then the id scheme. -/
theorem ofLookup_eq :
    let run := default.applyRunId (lookup "CDUMP_RUN_ID")
    let both := run.1.applyIdScheme (lookup "CDUMP_ID_SCHEME")
    ofLookup lookup = (both.1, run.2 ++ both.2) := by
  simp only [ofLookup, runIdVariable, idSchemeVariable]

theorem runId_ofLookup :
    (ofLookup lookup).1.runId = (default.applyRunId (lookup "CDUMP_RUN_ID")).1.runId := by
  rw [ofLookup_eq, applyIdScheme_frame]

theorem growStack_ofLookup : (ofLookup lookup).1.growStack = true := by
  rw [ofLookup_eq, applyIdScheme_frame, applyRunId_frame]
  rfl

theorem idScheme_ofLookup_eq_iff {s : IdScheme} :
    (ofLookup lookup).1.idScheme = s ↔ Provides (lookup "CDUMP_ID_SCHEME") s.name.toList ∨
      s = .sequential ∧ ∀ s' : IdScheme, ¬ Provides (lookup "CDUMP_ID_SCHEME") s'.name.toList := by
  rw [ofLookup_eq, idScheme_applyIdScheme_eq_iff, applyRunId_frame]
  rfl

theorem idScheme_ofLookup_eq_nodeIndex_iff :
    (ofLookup lookup).1.idScheme = .nodeIndex ↔
      Provides (lookup "CDUMP_ID_SCHEME") "node-index".toList := by
  rw [idScheme_ofLookup_eq_iff]
  simp [IdScheme.name]

/-- **Main result.** The settings that variables ask for. The run number is the one that its variable
    provides a numeral of, and 0 if there is none. Nodes are numbered by their positions exactly if the
    variable of the id scheme says so, and in sequence otherwise. The stack may grow, and neither variable
    has a say in what the other settles. The warnings are those about the run number and then those about
    the id scheme, and each variable leaves no choice of them. -/
theorem ofLookup_exact :
    (∀ n, (ofLookup lookup).1.runId = n ↔
      ProvidesNumeral (lookup "CDUMP_RUN_ID") n.toNat ∨
        n = 0 ∧ ∀ m : UInt32, ¬ ProvidesNumeral (lookup "CDUMP_RUN_ID") m.toNat) ∧
    ((ofLookup lookup).1.idScheme = .nodeIndex ↔
      Provides (lookup "CDUMP_ID_SCHEME") "node-index".toList) ∧
    ((ofLookup lookup).1.idScheme = .sequential ↔
      ¬ Provides (lookup "CDUMP_ID_SCHEME") "node-index".toList) ∧
    (ofLookup lookup).1.growStack = true ∧
    (∀ other : String → Option String,
      (other "CDUMP_RUN_ID" = lookup "CDUMP_RUN_ID" →
        (ofLookup other).1.runId = (ofLookup lookup).1.runId) ∧
      (other "CDUMP_ID_SCHEME" = lookup "CDUMP_ID_SCHEME" →
        (ofLookup other).1.idScheme = (ofLookup lookup).1.idScheme)) ∧
    ∃ ws ws', (ofLookup lookup).2 = ws ++ ws' ∧
      (∀ report, RunIdReport (lookup "CDUMP_RUN_ID") report ↔ ws = report) ∧
      ∀ report, SchemeReport (lookup "CDUMP_ID_SCHEME") report ↔ ws' = report := by
  refine ⟨?_, idScheme_ofLookup_eq_nodeIndex_iff lookup, ?_, growStack_ofLookup lookup, ?_, ?_⟩
  · intro n
    rw [runId_ofLookup]
    exact runId_applyRunId_eq_iff default
  · rw [← idScheme_ofLookup_eq_nodeIndex_iff]
    cases (ofLookup lookup).1.idScheme <;> simp
  · intro other
    refine ⟨?_, ?_⟩
    · intro heq
      rw [runId_ofLookup, runId_ofLookup, heq]
    · intro heq
      rw [idScheme_ofLookup_eq_iff, heq, ← idScheme_ofLookup_eq_iff]
  · rw [ofLookup_eq]
    exact ⟨_, _, rfl, fun _ => runIdReport_iff default, fun _ => schemeReport_iff _⟩

/-- The greatest word with a sign, zeros and white space around it; a digit too many before a character
    that is no digit; and such a character right after the greatest word. -/
theorem ofLookup_exact_greatestWord :
    let lookup (run : String) (name : String) : Option String :=
      if name = "CDUMP_RUN_ID" then some run else some " node-index\n"
    (ofLookup (lookup "\u3000+004294967295\t")).1 = ⟨.nodeIndex, 4294967295, true⟩ ∧
      (ofLookup (lookup "42949672950x")).2 =
        [⟨"CDUMP_RUN_ID", "42949672950x", "number too large to fit in target type"⟩] ∧
      (ofLookup (lookup "4294967295x")).2 =
        [⟨"CDUMP_RUN_ID", "4294967295x", "invalid digit found in string"⟩] := by
  intro lookup
  have hscheme (run : String) : Provides (lookup run "CDUMP_ID_SCHEME") "node-index".toList :=
    ⟨_, rfl, stripped_iff.2 (by decide)⟩
  have hwarning (run : String) (e : NumeralError) (h : NoNumeral (trim run.toList) e) :
      (ofLookup (lookup run)).2 = [⟨"CDUMP_RUN_ID", run, e.message⟩] := by
    obtain ⟨-, -, -, -, -, ws, ws', heq, hws, hws'⟩ := ofLookup_exact (lookup run)
    rw [heq, (hws _).1 (.ignored (stripped_trim _) h),
      (hws' _).1 (.read (s := .nodeIndex) (hscheme run))]
    rfl
  have hfits : FitsWord "4294967295".toList := ⟨List.all_eq_true.1 (by decide), by decide⟩
  refine ⟨?_, ?_, ?_⟩
  · obtain ⟨hrun, hnode, -, hgrow, -⟩ := ofLookup_exact (lookup "\u3000+004294967295\t")
    have hnumeral : ProvidesNumeral (some "\u3000+004294967295\t") (4294967295 : UInt32).toNat :=
      ⟨"+004294967295".toList, ⟨_, rfl, stripped_iff.2 (by decide)⟩, ['+'], "004294967295".toList,
        .inr rfl, by decide, by decide, List.all_eq_true.1 (by decide), by decide⟩
    rw [Config.mk.injEq]
    exact ⟨hnode.2 (hscheme _), (hrun _).2 (.inl hnumeral), hgrow⟩
  · exact hwarning "42949672950x" .tooLarge
      (.unsigned (by decide) (.tooLarge hfits (by decide) (by decide)))
  · exact hwarning "4294967295x" .invalidDigit
      (.unsigned (by decide) (.noDigit hfits (by decide)))

end Config

end AstDump
