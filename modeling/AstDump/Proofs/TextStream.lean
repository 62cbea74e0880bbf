import AstDump.Proofs.Sink
import AstDump.Proofs.TextForm

/-!
# Blocks written to a stream

What arrives at a writer that never fails when records are written as text: the bytes of their blocks,
one after the other, each block in the run that was current when its record came.

Results:
* `Writer.Reliable.exists_writeAll_eq_ok`: short writes lose nothing.
* `TextSink.exists_writeBlocks_eq_ok`: what blocks leave with the writer.
* `TextSink.takeAll_eq_writeBlocks`: records of one run are blocks of that run.
* `TextSink.exists_writeBlocks_decode?`: the stream tells the blocks, and begins another only if they do.
-/

namespace AstDump

/-! ## Writers that never fail -/

/-- Writers of one kind that never fail, with what each has taken so far. Of the bytes offered, the
    first or more of the first are taken, and the writer stays good. -/
structure Writer.Reliable (ω : Type) [Writer ω] where
  Good : ω → Prop
  taken : ω → List UInt8
  exists_write : ∀ {w : ω}, Good w → ∀ (byte : UInt8) (bytes : List UInt8),
    ∃ n w', Writer.write (byte :: bytes) w = .ok (n + 1) w' ∧ Good w' ∧
      taken w' = taken w ++ byte :: bytes.take n

/-- Buffers without a limit never fail. -/
def ByteBuffer.unlimited : Writer.Reliable ByteBuffer where
  Good b := b.room? = none
  taken b := b.bytes.toList
  exists_write := by
    rintro ⟨bytes, room?⟩ rfl byte more
    refine ⟨more.length, ⟨(byte :: more).foldl Array.push bytes, none⟩, rfl, rfl, ?_⟩
    rw [List.take_length]
    simp

namespace Writer.Reliable

variable {ω : Type} [Writer ω] (W : Reliable ω) {w : ω}

/-- What is left of an offer is offered again until all is taken. -/
theorem exists_writeFrom_eq_ok (n : Nat) (bytes : List UInt8) (hw : W.Good w) :
    ∃ w', writeFrom n bytes w = .ok () w' ∧ W.Good w' ∧ W.taken w' = W.taken w ++ bytes.drop n := by
  induction bytes generalizing n w with
  | nil => exact ⟨w, by cases n <;> rfl, hw, by simp⟩
  | cons byte bytes ih =>
    cases n with
    | succ n => exact ih n hw
    | zero =>
      obtain ⟨n, w', hwrite, hw', htaken⟩ := W.exists_write hw byte bytes
      obtain ⟨w'', hrest, hw'', htaken'⟩ := ih n hw'
      refine ⟨w'', ?_, hw'', ?_⟩
      · rw [writeFrom, hwrite]
        exact hrest
      · rw [htaken', htaken, List.append_assoc, List.cons_append, List.take_append_drop,
          List.drop_zero]

theorem exists_writeAll_eq_ok (bytes : List UInt8) (hw : W.Good w) :
    ∃ w', writeAll bytes w = .ok () w' ∧ W.Good w' ∧ W.taken w' = W.taken w ++ bytes :=
  W.exists_writeFrom_eq_ok 0 bytes hw

end Writer.Reliable

/-! ## Records as text -/

namespace TextSink

variable {ω : Type} [Writer ω] (W : Writer.Reliable ω) {s : TextSink ω}

/-- However a text is cut up, all of it arrives. -/
theorem exists_writePieces_eq_ok {w : ω} (ps : List (List Char)) (hw : W.Good w) :
    ∃ w', writePieces ps w = .ok () w' ∧ W.Good w' ∧
      W.taken w' = W.taken w ++ Text.utf8 ps.flatten := by
  induction ps generalizing w with
  | nil => exact ⟨w, rfl, hw, (List.append_nil _).symm⟩
  | cons p ps ih =>
    obtain ⟨w', hwrite, hw', htaken⟩ := W.exists_writeAll_eq_ok (Text.utf8 p) hw
    obtain ⟨w'', hrest, hw'', htaken'⟩ := ih hw'
    refine ⟨w'', ?_, hw'', ?_⟩
    · rw [Text.utf8] at hwrite
      rw [writePieces, hwrite]
      exact hrest
    · rw [htaken', htaken, List.append_assoc, List.flatten_cons, Text.utf8_append]

/-- A record leaves its block with the writer, in the current run. -/
theorem exists_record_eq_ok (hs : W.Good s.out) (r : Record) :
    ∃ w, Sink.record r s = .ok () ⟨w, s.run⟩ ∧ W.Good w ∧
      W.taken w = W.taken s.out ++ Block.encode [⟨s.run, r⟩] := by
  obtain ⟨w, hwrite, hw, htaken⟩ := exists_writePieces_eq_ok W (r.pieces s.run) hs
  refine ⟨w, ?_, hw, ?_⟩
  · show TextSink.record s r = _
    rw [TextSink.record, hwrite]
  · rw [htaken, r.flatten_pieces, Block.encode, List.flatMap_singleton]
    rfl

/-! ## Blocks of several runs -/

/-- The sink with `run` as its run, which is begun unless it is the current one. -/
def switchTo (run : UInt32) (s : TextSink ω) : TextSink ω :=
  if s.run = run then s else Sink.beginRun run s

/-- Writes the record of each block in its run. -/
def writeBlocks : List Block → TextSink ω → EStateM.Result SinkError (TextSink ω) Unit
  | [], s => .ok () s
  | b :: bs, s =>
    match Sink.record b.record (s.switchTo b.run) with
    | .error e s => .error e s
    | .ok () s => writeBlocks bs s

theorem switchTo_eq (run : UInt32) (s : TextSink ω) : s.switchTo run = ⟨s.out, run⟩ := by
  unfold switchTo
  split
  · rename_i hrun
    rw [← hrun]
  · rfl

/-- Blocks arrive in full and in order. -/
theorem exists_writeBlocks_eq_ok (bs : List Block) (hs : W.Good s.out) :
    ∃ s', writeBlocks bs s = .ok () s' ∧ W.Good s'.out ∧
      W.taken s'.out = W.taken s.out ++ Block.encode bs := by
  induction bs generalizing s with
  | nil => exact ⟨s, rfl, hs, (List.append_nil _).symm⟩
  | cons b bs ih =>
    obtain ⟨w, hrecord, hw, htaken⟩ :=
      exists_record_eq_ok W (s := ⟨s.out, b.run⟩) hs b.record
    obtain ⟨s', hrest, hs', htaken'⟩ := ih (s := ⟨w, b.run⟩) hw
    refine ⟨s', ?_, hs', ?_⟩
    · rw [writeBlocks, switchTo_eq, hrecord]
      exact hrest
    · rw [htaken', htaken, List.append_assoc, ← Block.encode_append]
      rfl

theorem run_eq_of_record_eq_ok {s' : TextSink ω} {r : Record} (h : Sink.record r s = .ok () s') :
    s'.run = s.run := by
  obtain ⟨out, run⟩ := s
  simp only [Sink.record, TextSink.record] at h
  split at h
  · cases h
    rfl
  · cases h

/-- Records that come one after the other are blocks of the current run. -/
theorem takeAll_eq_writeBlocks (rs : List Record) (s : TextSink ω) :
    Sink.takeAll rs s = writeBlocks (rs.map (⟨s.run, ·⟩)) s := by
  induction rs generalizing s with
  | nil => rfl
  | cons r rs ih =>
    have hswitch : s.switchTo s.run = s := if_pos rfl
    rw [Sink.takeAll, List.map_cons, writeBlocks, hswitch]
    cases hrecord : Sink.record r s with
    | error e s' => rfl
    | ok u s' =>
      simp only
      rw [ih, run_eq_of_record_eq_ok hrecord]

/-- **Main result.** Any blocks can be written to a sink over a writer that never fails and holds
    nothing yet. They are read back from what the writer then holds, so that different blocks leave
    different bytes, and the bytes of some blocks begin those of others exactly if the blocks do. -/
theorem exists_writeBlocks_decode? (hs : W.Good s.out) (hnew : W.taken s.out = [])
    (bs : List Block) :
    ∃ s', writeBlocks bs s = .ok () s' ∧ Block.decode? (W.taken s'.out) = some bs ∧
      ∀ bs' s'', writeBlocks bs' s = .ok () s'' →
        (W.taken s'.out = W.taken s''.out ↔ bs = bs') ∧
        (W.taken s'.out <+: W.taken s''.out ↔ bs <+: bs') := by
  have hbytes : ∀ bs, ∃ s', writeBlocks bs s = .ok () s' ∧ W.taken s'.out = Block.encode bs := by
    intro bs
    obtain ⟨s', hwrite, -, htaken⟩ := exists_writeBlocks_eq_ok W bs hs
    rw [hnew, List.nil_append] at htaken
    exact ⟨s', hwrite, htaken⟩
  obtain ⟨s', hwrite, htaken⟩ := hbytes bs
  refine ⟨s', hwrite, by rw [htaken, Block.decode?_encode], ?_⟩
  intro bs' s'' hwrite'
  obtain ⟨t, ht, htaken'⟩ := hbytes bs'
  rw [hwrite'] at ht
  cases ht
  rw [htaken, htaken']
  exact ⟨Block.encode_inj, Block.encode_prefix_iff⟩

/-- Two blocks of run 9 around one of run 10, with the greatest id among the children. -/
theorem exists_writeBlocks_decode?_buffer :
    ∃ s', writeBlocks [⟨9, ⟨⟨2⟩, .type .pointer, [⟨1⟩]⟩⟩, ⟨10, ⟨⟨17⟩, .stmt, []⟩⟩,
        ⟨9, ⟨⟨0⟩, .decl, [.invalid, ⟨2⟩]⟩⟩] ({ out := {} } : TextSink ByteBuffer) = .ok () s' ∧
      Block.decode? s'.out.bytes.toList = some [⟨9, ⟨⟨2⟩, .type .pointer, [⟨1⟩]⟩⟩,
        ⟨10, ⟨⟨17⟩, .stmt, []⟩⟩, ⟨9, ⟨⟨0⟩, .decl, [.invalid, ⟨2⟩]⟩⟩] := by
  obtain ⟨s', hwrite, hdecode, -⟩ := exists_writeBlocks_decode? ByteBuffer.unlimited
    (s := { out := {} }) rfl rfl [⟨9, ⟨⟨2⟩, .type .pointer, [⟨1⟩]⟩⟩, ⟨10, ⟨⟨17⟩, .stmt, []⟩⟩,
      ⟨9, ⟨⟨0⟩, .decl, [.invalid, ⟨2⟩]⟩⟩]
  exact ⟨s', hwrite, hdecode⟩

end TextSink

end AstDump
