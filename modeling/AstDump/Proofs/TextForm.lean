import AstDump.Json.Token
import AstDump.Sink.Text
import Mathlib.Data.List.Infix

/-!
# Blocks read back

A text stream is a sequence of blocks, each a record with the run that it belongs to. A block says how
many lines it has before they come, and its tokens name its run, so that the blocks can be read off the
stream one after the other.

Results:
* `Text.numeral?_toDigits`: digits read back, in decimal and hexadecimal.
* `DumpId.ofToken?_token`, `DumpId.token_inj`: tokens read back, and tell ids and runs apart.
* `Text.lines_flatMap_append`: lines read back.
* `Block.read?_lines_append`: a block read off the front of a stream.
* `Block.decode?_encode`: a whole stream read back.
* `Block.encode_prefix_iff`: a stream begins another only as their blocks do.
-/

namespace AstDump

/-! ## Numerals -/

namespace Text

/-- The value of a numeral in base `b` with one more digit. -/
def addDigit? (b value : Nat) (c : Char) : Option Nat :=
  ((Json.hexDigit? c).filter (· < b)).map (b * value + ·)

/-- The value of a numeral in base `b`. -/
def numeral? (b : Nat) (cs : List Char) : Option Nat := cs.foldlM (addDigit? b) 0

/-- The word that a numeral in base `b` stands for. -/
def word? (b : Nat) (cs : List Char) : Option UInt32 :=
  ((numeral? b cs).filter (· < UInt32.size)).map UInt32.ofNat

/-- The characters of a numeral in base `b`. -/
theorem exists_digitChar_of_mem_toDigits {b n : Nat} (hb : 1 < b) {c : Char}
    (hc : c ∈ Nat.toDigits b n) : ∃ d < b, c = Nat.digitChar d := by
  induction n using Nat.strongRecOn with
  | ind n ih =>
    rw [Nat.toDigits_eq_if hb] at hc
    split at hc
    · rename_i hlt
      exact ⟨n, hlt, List.mem_singleton.1 hc⟩
    · rename_i hge
      rw [List.mem_append, List.mem_singleton] at hc
      obtain hc | rfl := hc
      · exact ih (n / b) (Nat.div_lt_self (by omega) hb) hc
      · exact ⟨n % b, Nat.mod_lt _ (by omega), rfl⟩

theorem hexDigit?_digitChar {d : Nat} (hd : d < 16) : Json.hexDigit? (Nat.digitChar d) = some d := by
  revert d
  decide

theorem addDigit?_digitChar {b d : Nat} (hb : b ≤ 16) (hd : d < b) (value : Nat) :
    addDigit? b value (Nat.digitChar d) = some (b * value + d) := by
  simp [addDigit?, hexDigit?_digitChar (Nat.lt_of_lt_of_le hd hb), Option.filter_some, hd]

/-- Digits in a base up to sixteen read back. -/
theorem numeral?_toDigits {b : Nat} (hb : 1 < b) (hb' : b ≤ 16) (n : Nat) :
    numeral? b (Nat.toDigits b n) = some n := by
  induction n using Nat.strongRecOn with
  | ind n ih =>
    unfold numeral? at ih ⊢
    rw [Nat.toDigits_eq_if hb]
    split
    · rename_i hlt
      simp [addDigit?_digitChar hb' hlt]
    · rename_i hge
      have hdigit : n % b < b := Nat.mod_lt _ (by omega)
      rw [List.foldlM_append, ih (n / b) (Nat.div_lt_self (by omega) hb)]
      simp [addDigit?_digitChar hb' hdigit, Nat.div_add_mod]

theorem word?_toDigits {b : Nat} (hb : 1 < b) (hb' : b ≤ 16) (w : UInt32) :
    word? b (Nat.toDigits b w.toNat) = some w := by
  have hlt : w.toNat < UInt32.size := w.toNat_lt_size
  simp [word?, numeral?_toDigits hb hb', Option.filter_some, hlt]

/-! ## Printable characters -/

/-- Whether a character is a printable one of ASCII. No line end is. -/
def isPrintable (c : Char) : Bool := 0x20 ≤ c.toNat && c.toNat < 0x7F

/-- A line of printable characters. -/
def Printable (cs : List Char) : Prop := ∀ c ∈ cs, isPrintable c

instance (cs : List Char) : Decidable (Printable cs) :=
  List.decidableBAll (isPrintable ·) cs

theorem Printable.not_mem_newline {cs : List Char} (h : Printable cs) : '\n' ∉ cs := by
  intro hmem
  exact absurd (h _ hmem) (by decide)

theorem Printable.append {cs cs' : List Char} (h : Printable cs) (h' : Printable cs') :
    Printable (cs ++ cs') := by
  intro c hc
  obtain hc | hc := List.mem_append.1 hc
  · exact h c hc
  · exact h' c hc

theorem isPrintable_digitChar {d : Nat} (hd : d < 16) : isPrintable (Nat.digitChar d) := by
  revert d
  decide

theorem printable_toDigits {b : Nat} (hb : 1 < b) (hb' : b ≤ 16) (n : Nat) :
    Printable (Nat.toDigits b n) := by
  intro c hc
  obtain ⟨d, hd, rfl⟩ := exists_digitChar_of_mem_toDigits hb hc
  exact isPrintable_digitChar (Nat.lt_of_lt_of_le hd hb')

/-! ## Lines -/

/-- The lines of a text: what stands before each line end. -/
def lines (cs : List Char) : List (List Char) := (cs.splitOn '\n').dropLast

theorem lines_nil : lines [] = [] := rfl

/-- Lines with their line ends read back, whatever follows them. -/
theorem lines_flatMap_append {ls : List (List Char)} (h : ∀ l ∈ ls, Printable l) (rest : List Char) :
    lines (ls.flatMap (· ++ ['\n']) ++ rest) = ls ++ lines rest := by
  induction ls with
  | nil => rfl
  | cons l ls ih =>
    have hl : '\n' ∉ l := (h l List.mem_cons_self).not_mem_newline
    have hrest := ih fun l' hl' => h l' (List.mem_cons_of_mem _ hl')
    unfold lines at hrest ⊢
    rw [List.flatMap_cons, List.append_assoc, List.append_assoc, List.singleton_append,
      List.splitOn_append_cons_self, List.splitOn_eq_singleton hl,
      List.dropLast_append_of_ne_nil (List.splitOn_ne_nil _ _), hrest]
    rfl

/-! ## Bytes -/

/-- The bytes of a text in UTF-8. -/
def utf8 (cs : List Char) : List UInt8 := cs.flatMap String.utf8EncodeChar

theorem utf8_append (cs cs' : List Char) : utf8 (cs ++ cs') = utf8 cs ++ utf8 cs' :=
  List.flatMap_append

/-- A character of ASCII is one byte. -/
theorem map_ofUInt8_utf8EncodeChar {c : Char} (h : c.toNat < 0x80) :
    (String.utf8EncodeChar c).map Char.ofUInt8 = [c] := by
  have hle : c.val.toNat ≤ 127 := Nat.le_of_lt_succ h
  have hbyte : (UInt8.ofNat c.val.toNat).toUInt32 = c.val := by
    apply UInt32.toNat_inj.1
    rw [UInt8.toNat_toUInt32, UInt8.toNat_ofNat']
    omega
  rw [String.utf8EncodeChar]
  simp only [hle, if_true, List.map_cons, List.map_nil, List.cons.injEq, and_true]
  exact Char.ext hbyte

theorem map_ofUInt8_utf8 {cs : List Char} (h : ∀ c ∈ cs, c.toNat < 0x80) :
    (utf8 cs).map Char.ofUInt8 = cs := by
  induction cs with
  | nil => rfl
  | cons c cs ih =>
    have hc := map_ofUInt8_utf8EncodeChar (h c List.mem_cons_self)
    have hcs := ih fun c' hc' => h c' (List.mem_cons_of_mem _ hc')
    rw [utf8, List.flatMap_cons, List.map_append, hc]
    exact congrArg (c :: ·) hcs

end Text

/-! ## Tokens -/

namespace DumpId

/-- The id and the run that a token names. -/
def ofToken? (cs : List Char) : Option (DumpId × UInt32) :=
  match cs.splitOn '_' with
  | ['0' :: 'x' :: id, run] =>
    match Text.word? 16 id, Text.word? 10 run with
    | some id, some run => some (⟨id⟩, run)
    | _, _ => none
  | _ => none

/-- The id that a token of run `run` names. -/
def ofTokenIn? (run : UInt32) (cs : List Char) : Option DumpId :=
  match ofToken? cs with
  | some (d, run') => if run' = run then some d else none
  | none => none

theorem not_mem_underscore_toDigits {b : Nat} (hb : 1 < b) (n : Nat) : '_' ∉ Nat.toDigits b n := by
  intro hmem
  obtain ⟨d, -, heq⟩ := Text.exists_digitChar_of_mem_toDigits hb hmem
  exact Nat.digitChar_ne '_' (by decide) heq.symm

theorem splitOn_token (d : DumpId) (run : UInt32) :
    (d.token run).splitOn '_' =
      ['0' :: 'x' :: Nat.toDigits 16 d.raw.toNat, Nat.toDigits 10 run.toNat] := by
  have hid : '_' ∉ '0' :: 'x' :: Nat.toDigits 16 d.raw.toNat := by
    have := not_mem_underscore_toDigits (b := 16) (by decide) d.raw.toNat
    simp [this]
  have hrun := not_mem_underscore_toDigits (b := 10) (by decide) run.toNat
  rw [token, List.splitOn_append_cons_self, List.splitOn_eq_singleton hid,
    List.splitOn_eq_singleton hrun]
  rfl

/-- A token names its id and its run. -/
theorem ofToken?_token (d : DumpId) (run : UInt32) : ofToken? (d.token run) = some (d, run) := by
  unfold ofToken?
  rw [splitOn_token]
  simp only [Text.word?_toDigits (b := 16) (by decide) (by decide),
    Text.word?_toDigits (b := 10) (by decide) (by decide)]

theorem ofTokenIn?_token (d : DumpId) (run : UInt32) : ofTokenIn? run (d.token run) = some d := by
  unfold ofTokenIn?
  rw [ofToken?_token]
  exact if_pos rfl

/-- Tokens tell ids and runs apart. -/
theorem token_inj {d d' : DumpId} {run run' : UInt32} :
    d.token run = d'.token run' ↔ d = d' ∧ run = run' := by
  constructor
  · intro h
    have hread := ofToken?_token d run
    rw [h, ofToken?_token] at hread
    cases hread
    exact ⟨rfl, rfl⟩
  · rintro ⟨rfl, rfl⟩
    rfl

theorem printable_token (d : DumpId) (run : UInt32) : Text.Printable (d.token run) := by
  have hmark : Text.Printable ['0', 'x'] := by decide
  have hbetween : Text.Printable ['_'] := by decide
  have hid := Text.printable_toDigits (b := 16) (by decide) (by decide) d.raw.toNat
  have hrun := Text.printable_toDigits (b := 10) (by decide) (by decide) run.toNat
  exact (hmark.append hid).append (hbetween.append hrun)

end DumpId

/-! ## Blocks -/

/-- One block of a text stream: a record and the number of the run that it belongs to. -/
structure Block where
  run : UInt32
  record : Record
  deriving DecidableEq, Repr

namespace Block

/-- The token that stands at the head of a block. -/
def header (b : Block) : List Char := b.record.id.token b.run

/-- The tokens of the children, in order. -/
def childTokens (b : Block) : List (List Char) := b.record.children.map (·.token b.run)

/-- The lines of a block. -/
def lines (b : Block) : List (List Char) := b.record.lines b.run

/-- The text of a block. -/
def text (b : Block) : List Char := b.record.block b.run

/-- The bytes of blocks, one after the other. -/
def encode (bs : List Block) : List UInt8 := Text.utf8 (bs.flatMap text)

/-- Reads the tokens of so many children of run `run`, and gives the lines after them. -/
def readChildren? (run : UInt32) :
    Nat → List (List Char) → Option (List DumpId × List (List Char))
  | 0, ls => some ([], ls)
  | _ + 1, [] => none
  | n + 1, l :: ls =>
    match DumpId.ofTokenIn? run l, readChildren? run n ls with
    | some d, some (ds, rest) => some (d :: ds, rest)
    | _, _ => none

/-- Reads one block, and gives the lines after it. -/
def read? : List (List Char) → Option (Block × List (List Char))
  | title :: token :: kind :: count :: ls =>
    if title = blockHeader.toList then
      match DumpId.ofToken? token, RecordKind.ofName? (String.ofList kind), Text.numeral? 10 count with
      | some (id, run), some kind, some n =>
        match readChildren? run n ls with
        | some (children, rest) => some (⟨run, ⟨id, kind, children⟩⟩, rest)
        | none => none
      | _, _, _ => none
    else none
  | _ => none

theorem length_le_of_readChildren? {run : UInt32} {n : Nat} {ls rest : List (List Char)}
    {ds : List DumpId} (h : readChildren? run n ls = some (ds, rest)) : rest.length ≤ ls.length := by
  induction n generalizing ls ds with
  | zero =>
    cases h
    exact Nat.le_refl _
  | succ n ih =>
    cases ls with
    | nil => cases h
    | cons l ls =>
      rw [readChildren?] at h
      split at h
      · rename_i d ds' rest' hd hrest
        cases h
        exact Nat.le_succ_of_le (ih hrest)
      · cases h

/-- A block has lines of its own. -/
theorem length_lt_of_read? {ls rest : List (List Char)} {b : Block}
    (h : read? ls = some (b, rest)) : rest.length < ls.length := by
  unfold read? at h
  split at h
  · split at h
    · split at h
      · split at h
        · rename_i hrest
          cases h
          have := length_le_of_readChildren? hrest
          simp only [List.length_cons]
          omega
        · cases h
      · cases h
    · cases h
  · cases h

/-- Reads blocks up to the end of the lines. -/
def readAll? (ls : List (List Char)) : Option (List Block) :=
  if ls = [] then some []
  else
    match _ : read? ls with
    | none => none
    | some (b, rest) => (readAll? rest).map (b :: ·)
termination_by ls.length
decreasing_by
  rename_i h
  exact length_lt_of_read? h

/-- Reads the blocks of a stream. -/
def decode? (bytes : List UInt8) : Option (List Block) :=
  readAll? (Text.lines (bytes.map Char.ofUInt8))

/-! ## Reading blocks back -/

theorem readChildren?_append (run : UInt32) (ds : List DumpId) (rest : List (List Char)) :
    readChildren? run ds.length (ds.map (·.token run) ++ rest) = some (ds, rest) := by
  induction ds with
  | nil => rfl
  | cons d ds ih =>
    rw [List.map_cons, List.cons_append, List.length_cons, readChildren?, DumpId.ofTokenIn?_token, ih]

/-- A block is read off the lines in front, whatever follows it. -/
theorem read?_lines_append (b : Block) (rest : List (List Char)) :
    read? (b.lines ++ rest) = some (b, rest) := by
  obtain ⟨run, id, kind, children⟩ := b
  have hcount := Text.numeral?_toDigits (b := 10) (by decide) (by decide) children.length
  have hkind : RecordKind.ofName? (String.ofList kind.name.toList) = some kind := by
    rw [String.ofList_toList, RecordKind.ofName?_name]
  simp only [lines, Record.lines, List.cons_append, read?, if_true, DumpId.ofToken?_token, hkind,
    hcount, readChildren?_append]

/-- Blocks are read back from their lines. -/
theorem readAll?_flatMap_lines (bs : List Block) : readAll? (bs.flatMap lines) = some bs := by
  induction bs with
  | nil =>
    rw [readAll?]
    rfl
  | cons b bs ih =>
    rw [List.flatMap_cons, readAll?]
    have hne : b.lines ++ bs.flatMap lines ≠ [] := by simp [lines, Record.lines]
    rw [if_neg hne]
    split
    · rename_i hnone
      rw [read?_lines_append] at hnone
      cases hnone
    · rename_i hsome
      rw [read?_lines_append] at hsome
      cases hsome
      rw [ih]
      rfl

/-- Lines of blocks begin those of others only as the blocks do. -/
theorem prefix_of_flatMap_lines_append_eq {bs bs' : List Block} {rest : List (List Char)}
    (h : bs.flatMap lines ++ rest = bs'.flatMap lines) : bs <+: bs' := by
  induction bs generalizing bs' with
  | nil => exact List.nil_prefix
  | cons b bs ih =>
    have hread := read?_lines_append b (bs.flatMap lines ++ rest)
    rw [← List.append_assoc, ← List.flatMap_cons, h] at hread
    cases bs' with
    | nil => cases hread
    | cons b' bs' =>
      rw [List.flatMap_cons, read?_lines_append] at hread
      obtain ⟨rfl, hrest⟩ := Prod.mk.inj (Option.some.inj hread)
      exact (List.prefix_cons_inj _).2 (ih hrest.symm)

/-! ## Text and bytes of blocks -/

theorem flatMap_text_eq (bs : List Block) :
    bs.flatMap text = (bs.flatMap lines).flatMap (· ++ ['\n']) := by
  rw [List.flatMap_assoc]
  rfl

theorem printable_of_mem_lines {b : Block} {l : List Char} (h : l ∈ b.lines) : Text.Printable l := by
  obtain ⟨run, id, kind, children⟩ := b
  simp only [lines, Record.lines, List.mem_cons, List.mem_map] at h
  obtain rfl | rfl | rfl | rfl | ⟨d, -, rfl⟩ := h
  · decide
  · exact DumpId.printable_token id run
  · cases kind with
    | type k => cases k <;> decide
    | _ => decide
  · exact Text.printable_toDigits (by decide) (by decide) _
  · exact DumpId.printable_token d run

theorem printable_of_mem_flatMap_lines {bs : List Block} {l : List Char} (h : l ∈ bs.flatMap lines) :
    Text.Printable l := by
  obtain ⟨b, -, hl⟩ := List.mem_flatMap.1 h
  exact printable_of_mem_lines hl

theorem toNat_lt_of_mem_text {bs : List Block} {c : Char} (h : c ∈ bs.flatMap text) :
    c.toNat < 0x80 := by
  rw [flatMap_text_eq] at h
  obtain ⟨l, hl, hc⟩ := List.mem_flatMap.1 h
  obtain hc | hc := List.mem_append.1 hc
  · have hprint := printable_of_mem_flatMap_lines hl c hc
    simp only [Text.isPrintable, Bool.and_eq_true, decide_eq_true_eq] at hprint
    omega
  · rw [List.mem_singleton.1 hc]
    decide

/-- The lines of a stream of blocks that goes on with other bytes. -/
theorem lines_encode_append (bs : List Block) (rest : List UInt8) :
    Text.lines ((encode bs ++ rest).map Char.ofUInt8) =
      bs.flatMap lines ++ Text.lines (rest.map Char.ofUInt8) := by
  rw [List.map_append, encode, Text.map_ofUInt8_utf8 fun c hc => toNat_lt_of_mem_text hc,
    flatMap_text_eq, Text.lines_flatMap_append fun l hl => printable_of_mem_flatMap_lines hl]

theorem lines_encode (bs : List Block) :
    Text.lines ((encode bs).map Char.ofUInt8) = bs.flatMap lines := by
  have hlines := lines_encode_append bs []
  rwa [List.append_nil, List.map_nil, Text.lines_nil, List.append_nil] at hlines

/-- Blocks are read back from their bytes. -/
theorem decode?_encode (bs : List Block) : decode? (encode bs) = some bs := by
  rw [decode?, lines_encode, readAll?_flatMap_lines]

theorem encode_append (bs bs' : List Block) : encode (bs ++ bs') = encode bs ++ encode bs' := by
  rw [encode, List.flatMap_append, Text.utf8_append]
  rfl

/-- A stream begins another exactly if its blocks do. -/
theorem encode_prefix_iff {bs bs' : List Block} : encode bs <+: encode bs' ↔ bs <+: bs' := by
  constructor
  · rintro ⟨rest, hrest⟩
    have hlines := lines_encode_append bs rest
    rw [hrest, lines_encode] at hlines
    exact prefix_of_flatMap_lines_append_eq hlines.symm
  · rintro ⟨more, rfl⟩
    rw [encode_append]
    exact List.prefix_append _ _

theorem encode_inj {bs bs' : List Block} : encode bs = encode bs' ↔ bs = bs' := by
  constructor
  · intro h
    have hread := decode?_encode bs
    rw [h, decode?_encode] at hread
    exact (Option.some.inj hread).symm
  · rintro rfl
    rfl

end Block

end AstDump
