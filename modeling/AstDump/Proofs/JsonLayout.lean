import AstDump.Json.Token
import Mathlib.Data.List.Chain

/-!
# Tokens in a text

The same tokens can be laid out in many ways, since blanks may stand before, between and after them. The
tokens are read back from every layout if no two numbers come one right after the other and every number
and string is spelled plainly: a number by its decimal digits, a string without escapes.

Results:
* `numberLength?_toDigits`: a numeral is a number up to what ends it.
* `stringLength?_append`: a string without escapes ends at its quote.
* `tokenizeFrom_spell`: one token read off the front of a text.
* `Legible.tokenize`: all tokens read back from any layout.
-/

namespace AstDump.Json

/-! ## Layouts -/

/-- The text holds the tokens in order, with any blanks before, between and after them. -/
inductive Layout : List Token → List Char → Prop
  | nil {blanks : List Char} (h : ∀ c ∈ blanks, isSpace c) : Layout [] blanks
  | cons {blanks : List Char} {t : Token} {ts : List Token} {cs : List Char}
      (h : ∀ c ∈ blanks, isSpace c) (rest : Layout ts cs) :
    Layout (t :: ts) (blanks ++ (t.spell ++ cs))

/-- The text without blanks is a layout. -/
theorem layout_flatMap_spell (ts : List Token) : Layout ts (ts.flatMap Token.spell) := by
  induction ts with
  | nil => exact .nil nofun
  | cons t ts ih =>
    have hblanks : ∀ c ∈ ([] : List Char), isSpace c := nofun
    exact .cons hblanks ih

/-! ## Numbers -/

/-- What follows does not go on a number: no digit, fraction or exponent. -/
def EndsNumber (cs : List Char) : Prop :=
  ∀ c ∈ cs.head?, c.isDigit = false ∧ c ≠ '.' ∧ c ≠ 'e' ∧ c ≠ 'E'

theorem endsNumber_of_isSpace {c : Char} (hc : isSpace c) (cs : List Char) :
    EndsNumber (c :: cs) := by
  rintro _ ⟨⟩
  simp only [isSpace, Bool.or_eq_true, beq_iff_eq] at hc
  obtain ((rfl | rfl) | rfl) | rfl := hc <;> decide

theorem digitsLength?_append {ds rest : List Char} (hds : ∀ c ∈ ds, c.isDigit) (hne : ds ≠ [])
    (hrest : EndsNumber rest) : digitsLength? (ds ++ rest) = some ds.length := by
  have hstop : rest.takeWhile Char.isDigit = [] := by
    cases rest with
    | nil => rfl
    | cons c rest =>
      obtain ⟨hc, -⟩ := hrest c rfl
      rw [List.takeWhile_cons, hc]
      rfl
  unfold digitsLength?
  rw [List.takeWhile_append_of_pos hds, hstop, List.append_nil]
  cases ds with
  | nil => exact absurd rfl hne
  | cons d ds => rfl

theorem fractionLength?_of_endsNumber {rest : List Char} (h : EndsNumber rest) :
    fractionLength? rest = some 0 := by
  unfold fractionLength?
  split
  · exact absurd rfl (h '.' rfl).2.1
  · rfl

theorem exponentLength?_of_endsNumber {rest : List Char} (h : EndsNumber rest) :
    exponentLength? rest = some 0 := by
  unfold exponentLength?
  split
  · exact absurd rfl (h 'e' rfl).2.2.1
  · exact absurd rfl (h 'E' rfl).2.2.2
  · rfl

/-- A numeral starts with a zero only if it is the numeral of zero. -/
theorem toDigits_eq_zero_or (n : Nat) :
    Nat.toDigits 10 n = ['0'] ∨ ∃ c cs, Nat.toDigits 10 n = c :: cs ∧ c ≠ '0' := by
  induction n using Nat.strongRecOn with
  | ind n ih =>
    rw [Nat.toDigits_eq_if (by decide)]
    split
    · rename_i hlt
      by_cases hn : n = 0
      · subst hn
        exact .inl rfl
      · refine .inr ⟨n.digitChar, [], rfl, ?_⟩
        intro hzero
        exact hn ((Nat.digitChar_eq_zero).1 hzero)
    · rename_i hge
      obtain hzero | ⟨c, cs, hcs, hc⟩ := ih (n / 10) (by omega)
      · have hdiv := Nat.ofDigitChars_toDigits (b := 10) (n := n / 10) (by decide) (by decide)
        rw [hzero] at hdiv
        have : n / 10 = 0 := hdiv.symm
        omega
      · exact .inr ⟨c, cs ++ [(n % 10).digitChar], by rw [hcs, List.cons_append], hc⟩

theorem wholeLength?_toDigits (n : Nat) {rest : List Char} (hrest : EndsNumber rest) :
    wholeLength? (Nat.toDigits 10 n ++ rest) = some (Nat.toDigits 10 n).length := by
  have hdigits : ∀ c ∈ Nat.toDigits 10 n, c.isDigit := fun c hc =>
    Nat.isDigit_of_mem_toDigits (by decide) (by decide) hc
  obtain hzero | ⟨c, cs, hcs, hc⟩ := toDigits_eq_zero_or n
  · rw [hzero]
    cases rest with
    | nil => rfl
    | cons c rest =>
      obtain ⟨hc, -⟩ := hrest c rfl
      simp [wholeLength?, hc]
  · rw [hcs] at hdigits ⊢
    have hlength := digitsLength?_append hdigits (List.cons_ne_nil _ _) hrest
    rw [List.cons_append] at hlength ⊢
    unfold wholeLength?
    split
    · rename_i heq
      exact absurd (List.cons.inj heq).1 hc
    · exact hlength

/-- A numeral is a number up to what ends it. -/
theorem numberLength?_toDigits (n : Nat) {rest : List Char} (hrest : EndsNumber rest) :
    numberLength? (Nat.toDigits 10 n ++ rest) = some (Nat.toDigits 10 n).length := by
  have hunsigned : unsignedLength? (Nat.toDigits 10 n ++ rest) =
      some (Nat.toDigits 10 n).length := by
    rw [unsignedLength?, wholeLength?_toDigits n hrest]
    simp only [List.drop_left, Nat.add_zero, fractionLength?_of_endsNumber hrest,
      exponentLength?_of_endsNumber hrest, Option.map_some]
  unfold numberLength?
  split
  · rename_i cs heq
    have hmem : '-' ∈ Nat.toDigits 10 n := by
      cases hcs : Nat.toDigits 10 n with
      | nil => exact absurd hcs Nat.toDigits_ne_nil
      | cons c cs =>
        rw [hcs, List.cons_append] at heq
        rw [(List.cons.inj heq).1]
        exact List.mem_cons_self
    have hdigit := Nat.isDigit_of_mem_toDigits (by decide) (by decide) hmem
    exact absurd hdigit (by decide)
  · exact hunsigned

/-! ## Strings -/

/-- Whether a character stands for itself in a string. -/
def isPlain (c : Char) : Bool := c != '"' && c != '\\' && decide (0x20 ≤ c.toNat)

theorem isPlain_iff {c : Char} : isPlain c ↔ c ≠ '"' ∧ c ≠ '\\' ∧ ¬ c.toNat < 0x20 := by
  simp [isPlain, and_assoc]

theorem stringLength?_cons {c : Char} (hc : isPlain c) (cs : List Char) :
    stringLength? (c :: cs) = (stringLength? cs).map (· + 1) := by
  obtain ⟨hquote, hslash, hcontrol⟩ := isPlain_iff.1 hc
  rw [stringLength?.eq_def]
  split
  · rename_i heq
    cases heq
  · rename_i heq
    exact absurd (List.cons.inj heq).1 hquote
  · rename_i heq
    exact absurd (List.cons.inj heq).1 hslash
  · rename_i heq
    exact absurd (List.cons.inj heq).1 hslash
  · rename_i heq
    cases heq
    rw [if_neg hcontrol]

/-- A string without escapes ends at its quote. -/
theorem stringLength?_append {s : List Char} (hs : ∀ c ∈ s, isPlain c) (rest : List Char) :
    stringLength? (s ++ '"' :: rest) = some s.length := by
  induction s with
  | nil => rw [List.nil_append, stringLength?, List.length_nil]
  | cons c s ih =>
    rw [List.cons_append, stringLength?_cons (hs c List.mem_cons_self),
      ih fun c' hc' => hs c' (List.mem_cons_of_mem _ hc')]
    rfl

theorem unescape?_cons {c : Char} (hc : isPlain c) (cs : List Char) :
    unescape? (c :: cs) = (unescape? cs).map (c :: ·) := by
  obtain ⟨-, hslash, -⟩ := isPlain_iff.1 hc
  rw [unescape?.eq_def]
  split
  · rename_i heq
    cases heq
  · rename_i heq
    exact absurd (List.cons.inj heq).1 hslash
  · rename_i heq
    exact absurd (List.cons.inj heq).1 hslash
  · rename_i heq
    cases heq
    rfl

/-- A string without escapes stands for itself. -/
theorem unescape?_of_plain {s : List Char} (hs : ∀ c ∈ s, isPlain c) : unescape? s = some s := by
  induction s with
  | nil => rw [unescape?]
  | cons c s ih =>
    rw [unescape?_cons (hs c List.mem_cons_self),
      ih fun c' hc' => hs c' (List.mem_cons_of_mem _ hc')]
    rfl

/-! ## One token -/

namespace Token

/-- A token that is spelled plainly: a number by its decimal digits, a string without escapes. -/
def Plain : Token → Prop
  | .number s => ∃ n, s = Nat.toDigits 10 n
  | .string s => ∀ c ∈ s, isPlain c
  | _ => True

/-- Whether a token is a number. -/
def isNumber : Token → Bool
  | .number _ => true
  | _ => false

end Token

theorem scan?_of_isDigit {c : Char} (hc : c.isDigit) (cs : List Char) :
    scan? c cs = (numberLength? (c :: cs)).map fun n => (.number ((c :: cs).take n), n - 1) := by
  unfold scan?
  split
  all_goals try exact absurd hc (by decide)
  rfl

/-- A plain token is scanned in full, if nothing that follows goes on a number. -/
theorem exists_scan?_spell {t : Token} (ht : t.Plain) {rest : List Char}
    (hrest : t.isNumber → EndsNumber rest) :
    ∃ c cs, t.spell = c :: cs ∧ isSpace c = false ∧ scan? c (cs ++ rest) = some (t, cs.length) := by
  cases t with
  | number s =>
    obtain ⟨n, rfl⟩ := ht
    cases hcs : Nat.toDigits 10 n with
    | nil => exact absurd hcs Nat.toDigits_ne_nil
    | cons c cs =>
      have hc : c.isDigit := Nat.isDigit_of_mem_toDigits (b := 10) (n := n) (by decide) (by decide)
        (hcs ▸ List.mem_cons_self)
      have hlength := numberLength?_toDigits n (hrest rfl)
      rw [hcs, List.cons_append] at hlength
      refine ⟨c, cs, rfl, ?_, ?_⟩
      · rw [Bool.eq_false_iff]
        intro hspace
        obtain ⟨hdigit, -⟩ := endsNumber_of_isSpace hspace cs c rfl
        rw [hc] at hdigit
        cases hdigit
      · rw [scan?_of_isDigit hc, hlength]
        simp
  | string s =>
    refine ⟨'"', s ++ ['"'], rfl, by decide, ?_⟩
    have hlength := stringLength?_append ht rest
    rw [List.append_assoc, List.singleton_append]
    simp [scan?, hlength]
  | bool b => cases b <;> exact ⟨_, _, rfl, by decide, rfl⟩
  | _ => exact ⟨_, _, rfl, by decide, rfl⟩

theorem tokenizeFrom_append (cs rest : List Char) :
    tokenizeFrom cs.length (cs ++ rest) = tokenizeFrom 0 rest := by
  induction cs with
  | nil => rfl
  | cons c cs ih => exact ih

theorem tokenizeFrom_blanks {blanks : List Char} (h : ∀ c ∈ blanks, isSpace c) (rest : List Char) :
    tokenizeFrom 0 (blanks ++ rest) = tokenizeFrom 0 rest := by
  induction blanks with
  | nil => rfl
  | cons c blanks ih =>
    rw [List.cons_append, tokenizeFrom, if_pos (h c List.mem_cons_self)]
    exact ih fun c' hc' => h c' (List.mem_cons_of_mem _ hc')

/-- One token is read off the front of a text. -/
theorem tokenizeFrom_spell {t : Token} (ht : t.Plain) {rest : List Char}
    (hrest : t.isNumber → EndsNumber rest) :
    tokenizeFrom 0 (t.spell ++ rest) = (tokenizeFrom 0 rest).map (t :: ·) := by
  obtain ⟨c, cs, hspell, hspace, hscan⟩ := exists_scan?_spell ht hrest
  rw [hspell, List.cons_append, tokenizeFrom, hspace, hscan]
  simp only [Bool.false_eq_true, if_false, tokenizeFrom_append]

/-! ## All tokens -/

/-- Tokens that can be told apart in every layout. -/
structure Legible (ts : List Token) : Prop where
  plain : ∀ t ∈ ts, t.Plain
  separated : ts.IsChain fun t t' => ¬ (t.isNumber ∧ t'.isNumber)

theorem legible_nil : Legible [] := ⟨nofun, .nil⟩

theorem Legible.cons {t : Token} {ts : List Token} (h : Legible ts) (ht : t.Plain)
    (hnumber : t.isNumber = false) : Legible (t :: ts) where
  plain := List.forall_mem_cons.2 ⟨ht, h.plain⟩
  separated := List.isChain_cons.2 ⟨fun _ _ => by simp [hnumber], h.separated⟩

/-- A token that is no number keeps apart what stands at its sides. -/
theorem Legible.append_cons {ts ts' : List Token} {t : Token} (h : Legible ts) (h' : Legible ts')
    (ht : t.Plain) (hnumber : t.isNumber = false) : Legible (ts ++ t :: ts') where
  plain := by
    intro t' ht'
    obtain ht' | ht' := List.mem_append.1 ht'
    · exact h.plain t' ht'
    · exact (h'.cons ht hnumber).plain t' ht'
  separated := by
    refine List.isChain_append.2 ⟨h.separated, (h'.cons ht hnumber).separated, ?_⟩
    rintro x - y hy
    cases hy
    simp [hnumber]

/-- Tokens between two marks. -/
theorem Legible.enclose {ts : List Token} {t t' : Token} (h : Legible ts) (ht : t.Plain)
    (hnumber : t.isNumber = false) (ht' : t'.Plain) (hnumber' : t'.isNumber = false) :
    Legible (t :: ts ++ [t']) :=
  (h.append_cons legible_nil ht' hnumber').cons ht hnumber

/-- The text of tokens that start with no number ends a number before it. -/
theorem Layout.endsNumber {ts : List Token} {cs : List Char} (h : Layout ts cs)
    (hhead : ∀ t ∈ ts.head?, t.isNumber = false) : EndsNumber cs := by
  cases h with
  | nil hblanks =>
    cases cs with
    | nil => exact nofun
    | cons b blanks => exact endsNumber_of_isSpace (hblanks b List.mem_cons_self) blanks
  | @cons blanks t ts cs hblanks rest =>
    cases blanks with
    | cons b blanks => exact endsNumber_of_isSpace (hblanks b List.mem_cons_self) _
    | nil =>
      have hnumber := hhead t rfl
      intro c hc
      cases t with
      | number s => cases hnumber
      | bool b => cases b <;> cases hc <;> decide
      | _ => cases hc; decide

/-- **Main result.** Legible tokens are read back from every layout. -/
theorem Legible.tokenize {ts : List Token} (h : Legible ts) {cs : List Char} (hcs : Layout ts cs) :
    tokenize cs = some ts := by
  unfold Json.tokenize
  induction hcs with
  | @nil blanks hblanks =>
    have hread := tokenizeFrom_blanks hblanks []
    rw [List.append_nil] at hread
    rw [hread, tokenizeFrom]
  | @cons blanks t ts cs hblanks rest ih =>
    obtain ⟨hhead, htail⟩ := List.isChain_cons.1 h.separated
    obtain ⟨ht, hts⟩ := List.forall_mem_cons.1 h.plain
    have hends : t.isNumber → EndsNumber cs := by
      intro hnumber
      refine rest.endsNumber fun t' ht' => ?_
      simpa [hnumber] using hhead t' ht'
    rw [tokenizeFrom_blanks hblanks, tokenizeFrom_spell ht hends, ih ⟨hts, htail⟩]
    rfl

end AstDump.Json
