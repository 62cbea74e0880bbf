import AstDump.Binary
import Mathlib.Algebra.Group.Nat.Defs
import Mathlib.Data.List.Infix

/-!
# The binary form is exact

Bytes are read one part after another, and each part says by itself where it ends: a number has a fixed
width, a choice a fixed place among its alternatives, and a list its length in front. So a value is read
back from its bytes whatever follows them, bytes that stop before the end of a value are found too short
and nothing else, and bytes that can be read at all begin with those of the value that was read.

Results:
* `Reads.bind`: two parts one after the other.
* `exact_littleEndian`, `exact_variant`, `Exact.list`, `exact_record`: the forms of the parts.
* `read_encode_exact`: records and lists of records.
-/

namespace AstDump.Binary

variable {α β : Type}

/-! ## Reading part by part -/

/-- Reads a value, and goes on as it says. -/
def Decoder.bind (d : Decoder α) (f : α → Decoder β) : Decoder β := fun bytes =>
  match d bytes with
  | .error e => .error e
  | .ok (a, rest) => f a rest

/-- Reads nothing and gives a value. -/
def Decoder.pure (a : α) : Decoder α := fun bytes => .ok (a, bytes)

theorem Decoder.map_eq_bind (f : α → β) (d : Decoder α) :
    d.map f = d.bind fun a => Decoder.pure (f a) := rfl

theorem Decoder.bind_eq_ok_iff {d : Decoder α} {f : α → Decoder β} {bytes rest : List UInt8} {b : β} :
    d.bind f bytes = .ok (b, rest) ↔
      ∃ a middle, d bytes = .ok (a, middle) ∧ f a middle = .ok (b, rest) := by
  unfold Decoder.bind
  cases d bytes with
  | error e => simp
  | ok x =>
    obtain ⟨a, middle⟩ := x
    simp

/-- The decoder reads the value off the bytes, whatever follows them, and finds anything that is cut
    off before their end too short. -/
structure Reads (d : Decoder α) (bytes : List UInt8) (a : α) : Prop where
  whole : ∀ rest, d (bytes ++ rest) = .ok (a, rest)
  short : ∀ cut, cut <+: bytes → cut ≠ bytes → d cut = .error .outOfBytes

theorem reads_pure (a : α) : Reads (Decoder.pure a) [] a where
  whole _ := rfl
  short _ hcut hne := absurd (List.prefix_nil.1 hcut) hne

/-- Two parts one after the other. What is cut off ends within the first part, or after it and within
    the second. -/
theorem Reads.bind {d : Decoder α} {f : α → Decoder β} {bytes bytes' : List UInt8} {a : α} {b : β}
    (h : Reads d bytes a) (h' : Reads (f a) bytes' b) : Reads (d.bind f) (bytes ++ bytes') b where
  whole rest := by
    rw [List.append_assoc, Decoder.bind, h.whole]
    exact h'.whole rest
  short cut hcut hne := by
    by_cases hlong : bytes <+: cut
    · obtain ⟨cut', rfl⟩ := hlong
      have hsecond : cut' <+: bytes' := (List.prefix_append_right_inj bytes).1 hcut
      have hne' : cut' ≠ bytes' := by
        rintro rfl
        exact hne rfl
      rw [Decoder.bind, h.whole]
      exact h'.short cut' hsecond hne'
    · have hfirst : cut <+: bytes :=
        (List.prefix_or_prefix_of_prefix hcut (List.prefix_append _ _)).resolve_right hlong
      have hne' : cut ≠ bytes := by
        rintro rfl
        exact hlong (List.prefix_refl _)
      rw [Decoder.bind, h.short cut hfirst hne']

theorem Reads.map {d : Decoder α} {bytes : List UInt8} {a : α} (h : Reads d bytes a) (f : α → β) :
    Reads (d.map f) bytes (f a) := by
  have hmap := h.bind (f := fun a => Decoder.pure (f a)) (reads_pure (f a))
  rwa [List.append_nil] at hmap

/-- The decoder undoes the encoder on the values that fit, and reads nothing that was not written so. -/
structure Exact (encode : α → List UInt8) (d : Decoder α) (Fits : α → Prop) : Prop where
  reads : ∀ {a}, Fits a → Reads d (encode a) a
  written : ∀ {bytes rest a}, d bytes = .ok (a, rest) → Fits a ∧ bytes = encode a ++ rest

/-- A value of one type held in one of another. -/
theorem Exact.map {encode : α → List UInt8} {d : Decoder α} {Fits : α → Prop} (h : Exact encode d Fits)
    {f : α → β} {g : β → α} (hfg : ∀ b, f (g b) = b) (hgf : ∀ a, Fits a → g (f a) = a) :
    Exact (fun b => encode (g b)) (d.map f) (fun b => Fits (g b)) where
  reads {b} hb := by
    have hreads := (h.reads hb).map f
    rwa [hfg] at hreads
  written {bytes rest b} hb := by
    rw [Decoder.map_eq_bind, Decoder.bind_eq_ok_iff] at hb
    obtain ⟨a, middle, ha, hpure⟩ := hb
    cases hpure
    obtain ⟨hfits, hbytes⟩ := h.written ha
    rw [hgf a hfits]
    exact ⟨hfits, hbytes⟩

theorem Exact.of_iff {encode : α → List UInt8} {d : Decoder α} {Fits Fits' : α → Prop}
    (h : Exact encode d Fits) (hiff : ∀ a, Fits a ↔ Fits' a) : Exact encode d Fits' := by
  obtain rfl : Fits = Fits' := funext fun a => propext (hiff a)
  exact h

/-! ## Numbers -/

theorem readLittleEndian_append (count : Nat) {value : Nat} (h : value < 256 ^ count)
    (rest : List UInt8) :
    readLittleEndian count (littleEndian count value ++ rest) = .ok (value, rest) := by
  induction count generalizing value with
  | zero =>
    obtain rfl : value = 0 := by simpa using h
    rfl
  | succ count ih =>
    have hhigh : value / 256 < 256 ^ count := by
      rw [Nat.pow_succ] at h
      exact Nat.div_lt_of_lt_mul (by omega)
    rw [littleEndian, List.cons_append, readLittleEndian, ih hhigh]
    have hvalue : (UInt8.ofNat value).toNat + 256 * (value / 256) = value := by
      rw [UInt8.toNat_ofNat']
      omega
    simp only [hvalue]

theorem readLittleEndian_short (count value : Nat) {cut : List UInt8}
    (hcut : cut <+: littleEndian count value) (hne : cut ≠ littleEndian count value) :
    readLittleEndian count cut = .error .outOfBytes := by
  induction count generalizing value cut with
  | zero => exact absurd (List.prefix_nil.1 hcut) hne
  | succ count ih =>
    obtain rfl | ⟨cut', rfl, hcut'⟩ := List.prefix_cons_iff.1 hcut
    · rfl
    · have hne' : cut' ≠ littleEndian count (value / 256) := by
        rintro rfl
        exact hne rfl
      rw [readLittleEndian, ih (value / 256) hcut' hne']

theorem of_readLittleEndian_eq_ok (count : Nat) {bytes rest : List UInt8} {value : Nat}
    (h : readLittleEndian count bytes = .ok (value, rest)) :
    value < 256 ^ count ∧ bytes = littleEndian count value ++ rest := by
  induction count generalizing bytes value with
  | zero =>
    cases h
    exact ⟨by decide, rfl⟩
  | succ count ih =>
    cases bytes with
    | nil => cases h
    | cons byte bytes =>
      rw [readLittleEndian] at h
      split at h
      · cases h
      · rename_i high rest' hhigh
        cases h
        obtain ⟨hlt, rfl⟩ := ih hhigh
        have hbyte : byte.toNat < 256 := byte.toNat_lt
        have hlow : UInt8.ofNat (byte.toNat + 256 * high) = byte := by
          apply UInt8.toNat_inj.1
          rw [UInt8.toNat_ofNat']
          omega
        have hdiv : (byte.toNat + 256 * high) / 256 = high := by omega
        refine ⟨?_, ?_⟩
        · rw [Nat.pow_succ]
          omega
        · rw [littleEndian, hlow, hdiv]
          rfl

theorem exact_littleEndian (count : Nat) :
    Exact (littleEndian count) (readLittleEndian count) (· < 256 ^ count) where
  reads {value} h := ⟨readLittleEndian_append count h, fun _ => readLittleEndian_short count value⟩
  written h := of_readLittleEndian_eq_ok count h

theorem exact_word : Exact (encode : UInt32 → List UInt8) decode fun _ => True :=
  ((exact_littleEndian 4).map (f := UInt32.ofNat) (g := UInt32.toNat)
    (fun _ => UInt32.ofNat_toNat)
    (fun _ h => UInt32.toNat_ofNat_of_lt' h)).of_iff fun w => iff_true_intro w.toNat_lt

theorem exact_dumpId : Exact (encode : DumpId → List UInt8) decode fun _ => True :=
  exact_word.map (g := DumpId.raw) (fun _ => rfl) (fun _ _ => rfl)

/-! ## Alternatives -/

/-- What stands after the position of an alternative. -/
def variantAt (all : List α) (i : Nat) : Decoder α := fun rest =>
  match all[i]? with
  | none => .error .badVariant
  | some a => .ok (a, rest)

theorem decodeVariant_eq_bind (all : List α) :
    decodeVariant all = (readLittleEndian 4).bind (variantAt all) := by
  funext bytes
  unfold decodeVariant Decoder.bind
  cases readLittleEndian 4 bytes <;> rfl

/-- Alternatives that are all different and fit in a word. -/
theorem exact_variant [BEq α] [LawfulBEq α] {all : List α} (hmem : ∀ a, a ∈ all)
    (hnodup : all.Nodup) (hlength : all.length ≤ 256 ^ 4) :
    Exact (encodeVariant all) (decodeVariant all) fun _ => True where
  reads {a} _ := by
    have hlt : all.idxOf a < all.length := List.idxOf_lt_length_of_mem (hmem a)
    have hat : variantAt all (all.idxOf a) = Decoder.pure a := by
      funext rest
      rw [variantAt, List.getElem?_idxOf (hmem a)]
      rfl
    have hreads := ((exact_littleEndian 4).reads (Nat.lt_of_lt_of_le hlt hlength)).bind
      (f := variantAt all) (hat ▸ reads_pure a)
    rwa [List.append_nil, ← decodeVariant_eq_bind] at hreads
  written {bytes rest a} h := by
    rw [decodeVariant_eq_bind, Decoder.bind_eq_ok_iff] at h
    obtain ⟨i, middle, hi, hat⟩ := h
    obtain ⟨-, rfl⟩ := (exact_littleEndian 4).written hi
    unfold variantAt at hat
    split at hat
    · cases hat
    · rename_i a' hget
      cases hat
      obtain ⟨hlt, rfl⟩ := List.getElem?_eq_some_iff.1 hget
      rw [encodeVariant, hnodup.idxOf_getElem i hlt]
      exact ⟨trivial, rfl⟩

theorem exact_typeKind : Exact (encode : TypeKind → List UInt8) decode fun _ => True :=
  exact_variant TypeKind.mem_all (by decide) (by decide)

/-- What stands after the position of a record's kind. -/
def recordKindAt : Nat → Decoder RecordKind
  | 0 => Decoder.map RecordKind.type decode
  | 1 => Decoder.pure .qualType
  | 2 => Decoder.pure .stmt
  | 3 => Decoder.pure .decl
  | _ => fun _ => .error .badVariant

theorem decodeRecordKind_eq_bind :
    decodeRecordKind = (readLittleEndian 4).bind recordKindAt := by
  funext bytes
  unfold decodeRecordKind Decoder.bind
  cases readLittleEndian 4 bytes with
  | error e => rfl
  | ok x =>
    obtain ⟨i, rest⟩ := x
    match i with
    | 0 | 1 | 2 | 3 | _ + 4 => rfl

theorem exact_recordKind : Exact (encode : RecordKind → List UInt8) decode fun _ => True where
  reads {k} _ := by
    show Reads decodeRecordKind (encodeRecordKind k) k
    rw [decodeRecordKind_eq_bind]
    have hposition : ∀ i < 4, Reads (readLittleEndian 4) (littleEndian 4 i) i := fun i hi =>
      (exact_littleEndian 4).reads (Nat.lt_of_lt_of_le hi (by decide))
    cases k with
    | type k =>
      exact (hposition 0 (by decide)).bind (f := recordKindAt) ((exact_typeKind.reads trivial).map _)
    | qualType => exact (hposition 1 (by decide)).bind (f := recordKindAt) (reads_pure _)
    | stmt => exact (hposition 2 (by decide)).bind (f := recordKindAt) (reads_pure _)
    | decl => exact (hposition 3 (by decide)).bind (f := recordKindAt) (reads_pure _)
  written {bytes rest k} h := by
    change decodeRecordKind bytes = _ at h
    rw [decodeRecordKind_eq_bind, Decoder.bind_eq_ok_iff] at h
    obtain ⟨i, middle, hi, hat⟩ := h
    obtain ⟨-, rfl⟩ := (exact_littleEndian 4).written hi
    refine ⟨trivial, ?_⟩
    match i with
    | 0 =>
      rw [recordKindAt, Decoder.map_eq_bind, Decoder.bind_eq_ok_iff] at hat
      obtain ⟨k', rest', hk', hpure⟩ := hat
      cases hpure
      obtain ⟨-, rfl⟩ := exact_typeKind.written hk'
      exact (List.append_assoc _ _ _).symm
    | 1 | 2 | 3 =>
      cases hat
      rfl
    | _ + 4 => cases hat

/-! ## Lists and records -/

theorem decodeMany_succ_eq_bind (d : Decoder α) (count : Nat) :
    decodeMany d (count + 1) =
      d.bind fun a => (decodeMany d count).map (a :: ·) := by
  funext bytes
  unfold decodeMany Decoder.bind
  cases d bytes with
  | error e => rfl
  | ok x =>
    obtain ⟨a, rest⟩ := x
    simp only [Decoder.map]
    cases decodeMany d count rest <;> rfl

section List

variable {encode' : α → List UInt8} {d : Decoder α} {Fits : α → Prop} (h : Exact encode' d Fits)

include h

theorem Exact.reads_many {as : List α} (has : ∀ a ∈ as, Fits a) :
    Reads (decodeMany d as.length) (as.flatMap encode') as := by
  induction as with
  | nil => exact reads_pure []
  | cons a as ih =>
    rw [List.length_cons, decodeMany_succ_eq_bind, List.flatMap_cons]
    have hrest := ih fun a' ha' => has a' (List.mem_cons_of_mem _ ha')
    exact (h.reads (has a List.mem_cons_self)).bind (hrest.map (a :: ·))

theorem Exact.written_many {count : Nat} {bytes rest : List UInt8} {as : List α}
    (hread : decodeMany d count bytes = .ok (as, rest)) :
    as.length = count ∧ (∀ a ∈ as, Fits a) ∧ bytes = as.flatMap encode' ++ rest := by
  induction count generalizing bytes as with
  | zero =>
    cases hread
    exact ⟨rfl, nofun, rfl⟩
  | succ count ih =>
    rw [decodeMany_succ_eq_bind, Decoder.bind_eq_ok_iff] at hread
    obtain ⟨a, middle, ha, hmap⟩ := hread
    rw [Decoder.map_eq_bind, Decoder.bind_eq_ok_iff] at hmap
    obtain ⟨as', rest', has', hpure⟩ := hmap
    cases hpure
    obtain ⟨hfits, rfl⟩ := h.written ha
    obtain ⟨rfl, hall, rfl⟩ := ih has'
    refine ⟨rfl, List.forall_mem_cons.2 ⟨hfits, hall⟩, ?_⟩
    rw [List.flatMap_cons, List.append_assoc]

end List

theorem decode_list_eq_bind [Form α] :
    (decode : Decoder (List α)) = (readLittleEndian 8).bind (decodeMany decode) := by
  funext bytes
  unfold Decoder.bind
  simp only [decode]
  cases readLittleEndian 8 bytes <;> rfl

/-- A list fits if its length fits in eight bytes and all its items fit. -/
theorem Exact.list [Form α] {Fits : α → Prop} (h : Exact (encode : α → List UInt8) decode Fits) :
    Exact (encode : List α → List UInt8) decode
      fun as => as.length < 2 ^ 64 ∧ ∀ a ∈ as, Fits a where
  reads {as} has := by
    rw [decode_list_eq_bind]
    exact ((exact_littleEndian 8).reads has.1).bind (h.reads_many has.2)
  written {bytes rest as} hread := by
    rw [decode_list_eq_bind] at hread
    obtain ⟨count, middle, hcount, hmany⟩ := Decoder.bind_eq_ok_iff.1 hread
    obtain ⟨hlt, rfl⟩ := (exact_littleEndian 8).written hcount
    obtain ⟨rfl, hfits, rfl⟩ := h.written_many hmany
    exact ⟨⟨hlt, hfits⟩, (List.append_assoc _ _ _).symm⟩

theorem exact_children : Exact (encode : List DumpId → List UInt8) decode (·.length < 2 ^ 64) :=
  exact_dumpId.list.of_iff fun ds => by simp

theorem decode_record_eq_bind :
    (decode : Decoder Record) = Decoder.bind decode fun id =>
      Decoder.bind decode fun kind => Decoder.map (Record.mk id kind) decode := by
  funext bytes
  show decodeRecord bytes = _
  unfold decodeRecord Decoder.bind
  cases (decode bytes : Except DecodeError (DumpId × List UInt8)) with
  | error e => rfl
  | ok x =>
    obtain ⟨id, rest⟩ := x
    simp only
    cases (decode rest : Except DecodeError (RecordKind × List UInt8)) <;> rfl

theorem exact_record : Exact (encode : Record → List UInt8) decode (·.children.length < 2 ^ 64) where
  reads {r} hr := by
    have hchildren := (exact_children.reads hr).map (Record.mk r.id r.kind)
    have hkind := (exact_recordKind.reads (a := r.kind) trivial).bind
      (f := fun kind => Decoder.map (Record.mk r.id kind) decode) hchildren
    have hid := (exact_dumpId.reads (a := r.id) trivial).bind
      (f := fun id => Decoder.bind decode fun kind => Decoder.map (Record.mk id kind) decode) hkind
    rwa [← decode_record_eq_bind, ← List.append_assoc] at hid
  written {bytes rest r} hread := by
    rw [decode_record_eq_bind] at hread
    obtain ⟨id, middle, hid, hread⟩ := Decoder.bind_eq_ok_iff.1 hread
    obtain ⟨kind, middle', hkind, hread⟩ := Decoder.bind_eq_ok_iff.1 hread
    rw [Decoder.map_eq_bind] at hread
    obtain ⟨children, rest', hchildren, hpure⟩ := Decoder.bind_eq_ok_iff.1 hread
    cases hpure
    obtain ⟨-, rfl⟩ := exact_dumpId.written hid
    obtain ⟨-, rfl⟩ := exact_recordKind.written hkind
    obtain ⟨hlength, rfl⟩ := exact_children.written hchildren
    refine ⟨hlength, ?_⟩
    rw [← List.append_assoc, ← List.append_assoc]
    rfl

/-! ## Values read from bytes -/

/-- The value is read back from its bytes, whatever follows them, and bytes that end before the last
    of its own are too few. -/
def ReadsBack [Form α] (a : α) : Prop :=
  (∀ more, read (encode a ++ more) = .ok a) ∧
    ∀ cut, cut <+: encode a → cut ≠ encode a → (read cut : Except DecodeError α) = .error .outOfBytes

section Read

variable [Form α] {Fits : α → Prop} (h : Exact (encode : α → List UInt8) decode Fits)

include h

theorem Exact.readsBack {a : α} (ha : Fits a) : ReadsBack a := by
  refine ⟨fun more => ?_, fun cut hcut hne => ?_⟩
  · rw [read, (h.reads ha).whole more]
  · rw [read, (h.reads ha).short cut hcut hne]

theorem Exact.encode_prefix_of_read {bytes : List UInt8} {a : α} (hread : read bytes = .ok a) :
    encode a <+: bytes := by
  unfold read at hread
  split at hread
  · cases hread
  · rename_i a' rest hdecode
    cases hread
    obtain ⟨-, rfl⟩ := h.written hdecode
    exact List.prefix_append _ _

end Read

/-- **Main result.** Lists of records, and single records, with lengths below `2 ^ 64` are read back from
    their bytes, whatever follows, and from no fewer. Bytes from which any can be read begin with its
    own. -/
theorem read_encode_exact :
    (∀ rs : List Record, rs.length < 2 ^ 64 → (∀ r ∈ rs, r.children.length < 2 ^ 64) →
      ReadsBack rs) ∧
    (∀ r : Record, r.children.length < 2 ^ 64 → ReadsBack r) ∧
    (∀ (bytes : List UInt8) (rs : List Record), read bytes = .ok rs → encode rs <+: bytes) ∧
    ∀ (bytes : List UInt8) (r : Record), read bytes = .ok r → encode r <+: bytes :=
  ⟨fun _ hlength hchildren => exact_record.list.readsBack ⟨hlength, hchildren⟩,
    fun _ hchildren => exact_record.readsBack hchildren,
    fun _ _ => exact_record.list.encode_prefix_of_read,
    fun _ _ => exact_record.encode_prefix_of_read⟩

/-- The words of the kinds of types. -/
example : [TypeKind.generic, .function, .functionProto, .array, .variableArray, .pointer, .tag].map
    encode = [[0, 0, 0, 0], [1, 0, 0, 0], [2, 0, 0, 0], [3, 0, 0, 0], [4, 0, 0, 0], [5, 0, 0, 0],
      [6, 0, 0, 0]] := by
  decide

/-- A pointer and a statement with the greatest id among its children. -/
theorem read_encode_exact_two :
    ReadsBack [(⟨⟨2⟩, .type .pointer, [⟨1⟩]⟩ : Record), ⟨.invalid, .stmt, [.invalid, ⟨2⟩]⟩] :=
  read_encode_exact.1 _ (by decide) (by decide)

end AstDump.Binary
