import AstDump.Proofs.SharedMemory

/-!
# Text written to a writer that may fail

A writer may take less than it is offered, and may fail at any time. What it has taken when a dump ends is
then the beginning of the text that a writer gets which never fails, and the dump succeeds exactly if it is
the whole text.

What a writer has taken is told from the calls made of it: `Watched` keeps them and changes nothing else.
It does not matter how the text is cut up: `Watched.delivers_writePieces` is about any pieces, and a call
may take any part of the one that it is offered.

Results:
* `Job.Fits.exists_dumpInto_eq`: a dump hands over its records and does nothing else to the sink.
* `Watched.writeFrom_inner`, `TextSink.takeAll_unwatch`: a writer goes the same way when it is watched.
* `Delivers.append`, `Delivers.stop`: texts one after the other.
* `Watched.delivers_writePieces`, `TextSink.delivers_takeAll`: what a writer has taken of a text.
* `Job.Fits.concludes`: how a dump ends.
* `dumpInto_prefix_text`: what it has taken when a dump ends.
-/

namespace AstDump

open Move

/-! ## A dump as records handed over -/

namespace Job

/-- The bytes that the dump leaves with a buffer without limit. -/
def text (j : Job) : List UInt8 :=
  (j.dumpInto ({ out := {} } : TextSink ByteBuffer)).sink.out.bytes.toList

/-- The text is that of the blocks of the dump. -/
theorem Fits.text_eq {j : Job} (h : j.Fits) : j.text = Block.encode j.blocks := by
  obtain ⟨summary, d, hdump, -, htaken⟩ :=
    Job.exists_dumpRoots_text ByteBuffer.unlimited (s := { out := {} }) h rfl
  rw [text, dumpInto, hdump]
  exact htaken

/-- A dump hands its records to the sink, up to the first that is refused. The summary, if it comes to
    one, is the same for all sinks. -/
theorem Fits.exists_dumpInto_eq {j : Job} (h : j.Fits) :
    ∃ summary, ∀ {σ : Type} [Sink σ] (s : σ),
      match Sink.takeAll j.records (Sink.beginRun j.config.runId s) with
      | .ok () s' => (j.dumpInto s).result = .ok summary ∧ (j.dumpInto s).sink = s'
      | .error e s' => (j.dumpInto s).result = .error (.sink e) ∧ (j.dumpInto s).sink = s' := by
  obtain ⟨ms, tour, hoffered⟩ := h.exists_offeredBy_eq
  have hinside : j.roots.find? (!j.arena.contains ·) = none := by
    rw [List.find?_eq_none]
    intro n hn
    simp [h.contains n hn]
  refine ⟨⟨j.roots.map (j.config.idScheme.idIn (entered ms)), (left ms).length⟩, fun {σ} _ s => ?_⟩
  cases htake : Sink.takeAll j.records (Sink.beginRun j.config.runId s) with
  | ok u s' =>
    rw [← hoffered] at htake
    obtain ⟨-, -, hsink, hresult⟩ := dumpRoots_offers_of_taken h.finished.sound tour htake
    rw [hinside] at hresult
    exact ⟨hresult, hsink⟩
  | error e s' =>
    obtain ⟨taken, r, rest, s₁, hsplit, htaken, hrefuse⟩ := Sink.exists_of_takeAll_eq_error htake
    obtain ⟨hresult, -, -, hsink⟩ :=
      dumpRoots_of_refused h.finished.sound tour (hoffered.trans hsplit) htaken hrefuse
    exact ⟨hresult, hsink⟩

end Job

/-! ## Writers that are watched -/

/-- One call of a writer: the bytes that it was offered, and how many of the first ones it took, or why
    it failed. -/
structure WriteCall where
  offered : List UInt8
  answer : Except String Nat
  deriving DecidableEq, Repr

/-- The bytes that a call took; a call that failed took none. -/
def WriteCall.taken (c : WriteCall) : List UInt8 :=
  match c.answer with
  | .ok n => c.offered.take n
  | .error _ => []

/-- The call did not fail. -/
def WriteCall.Succeeded (c : WriteCall) : Prop := ∃ n, c.answer = .ok n

/-- A writer with the calls that were made of it, in order. -/
structure Watched (ω : Type) where
  inner : ω
  calls : List WriteCall := []

/-- Each writer of the kind takes at least one byte of an offer and no more than it is offered, unless it
    fails. -/
def Writer.TakesSome (ω : Type) [Writer ω] : Prop :=
  ∀ (w w' : ω) (offered : List UInt8) (n : Nat), offered ≠ [] →
    Writer.write offered w = .ok n w' → 0 < n ∧ n ≤ offered.length

namespace Watched

variable {ω : Type} [Writer ω]

instance : Writer (Watched ω) where
  write offered w :=
    match Writer.write offered w.inner with
    | .ok n inner => .ok n ⟨inner, w.calls ++ [⟨offered, .ok n⟩]⟩
    | .error e inner => .error e ⟨inner, w.calls ++ [⟨offered, .error e⟩]⟩

/-- The bytes that the writer has taken. -/
def taken (w : Watched ω) : List UInt8 := w.calls.flatMap WriteCall.taken

end Watched

/-! ## Watching changes nothing -/

/-- Applies a function to the state that a result leaves. -/
def mapState {ε σ τ α : Type} (f : σ → τ) : EStateM.Result ε σ α → EStateM.Result ε τ α
  | .ok a s => .ok a (f s)
  | .error e s => .error e (f s)

namespace Watched

variable {ω : Type} [Writer ω]

theorem write_inner (offered : List UInt8) (w : Watched ω) :
    Writer.write offered w.inner = mapState inner (Writer.write offered w) := by
  cases hwrite : Writer.write offered w.inner with
  | ok n inner =>
    simp only [Writer.write, hwrite]
    rfl
  | error e inner =>
    simp only [Writer.write, hwrite]
    rfl

theorem writeFrom_inner (n : Nat) (bytes : List UInt8) (w : Watched ω) :
    Writer.writeFrom n bytes w.inner = mapState inner (Writer.writeFrom n bytes w) := by
  induction bytes generalizing n w with
  | nil =>
    cases n with
    | zero => rfl
    | succ n => rfl
  | cons byte bytes ih =>
    cases n with
    | succ n => exact ih n w
    | zero =>
      rw [Writer.writeFrom, Writer.writeFrom, write_inner]
      cases Writer.write (byte :: bytes) w with
      | error e w' => rfl
      | ok n w' =>
        cases n with
        | zero => rfl
        | succ n => exact ih n w'

end Watched

namespace TextSink

variable {ω : Type}

/-- The sink over the writer that is watched. -/
def unwatch (s : TextSink (Watched ω)) : TextSink ω := ⟨s.out.inner, s.run⟩

variable [Writer ω]

theorem writePieces_inner (ps : List (List Char)) (w : Watched ω) :
    writePieces ps w.inner = mapState Watched.inner (writePieces ps w) := by
  induction ps generalizing w with
  | nil => rfl
  | cons p ps ih =>
    have hpiece := Watched.writeFrom_inner 0 (p.flatMap String.utf8EncodeChar) w
    rw [writePieces, writePieces, Writer.writeAll, Writer.writeAll, hpiece]
    cases Writer.writeFrom 0 (p.flatMap String.utf8EncodeChar) w with
    | error e w' => rfl
    | ok u w' => exact ih w'

theorem record_unwatch (r : Record) (s : TextSink (Watched ω)) :
    Sink.record r s.unwatch = mapState unwatch (Sink.record r s) := by
  change TextSink.record s.unwatch r = mapState unwatch (TextSink.record s r)
  simp only [TextSink.record, unwatch, writePieces_inner]
  cases writePieces (r.pieces s.run) s.out with
  | ok u out => rfl
  | error e out => rfl

theorem takeAll_unwatch (rs : List Record) (s : TextSink (Watched ω)) :
    Sink.takeAll rs s.unwatch = mapState unwatch (Sink.takeAll rs s) := by
  induction rs generalizing s with
  | nil => rfl
  | cons r rs ih =>
    rw [Sink.takeAll, Sink.takeAll, record_unwatch]
    cases Sink.record r s with
    | error e s' => rfl
    | ok u s' => exact ih s'

end TextSink

/-! ## What becomes of a text -/

/-- What a watched writer makes of a text: it takes it all, or fails after it has taken a part. The call
    that fails is the last one. -/
inductive Delivers {ω : Type} (w : Watched ω) (bytes : List UInt8) :
    EStateM.Result String (Watched ω) Unit → Prop
  | all {inner : ω} {calls : List WriteCall} : (∀ c ∈ calls, c.Succeeded) →
    calls.flatMap WriteCall.taken = bytes → Delivers w bytes (.ok () ⟨inner, w.calls ++ calls⟩)
  | part {inner : ω} {calls : List WriteCall} {offered rest : List UInt8} {e : String} :
    (∀ c ∈ calls, c.Succeeded) → rest ≠ [] → calls.flatMap WriteCall.taken ++ rest = bytes →
    Delivers w bytes (.error e ⟨inner, w.calls ++ calls ++ [⟨offered, .error e⟩]⟩)

namespace Delivers

variable {ω : Type} {w w' : Watched ω} {bytes bytes' : List UInt8}
  {o : EStateM.Result String (Watched ω) Unit}

theorem nil (w : Watched ω) : Delivers w [] (.ok () w) := by
  have h : Delivers w [] (.ok () ⟨w.inner, w.calls ++ []⟩) := .all (by simp) rfl
  rwa [List.append_nil] at h

/-- A text that goes on after another was taken. -/
theorem append (h : Delivers w bytes (.ok () w')) (h' : Delivers w' bytes' o) :
    Delivers w (bytes ++ bytes') o := by
  obtain ⟨hcalls, rfl⟩ := h
  have hboth {calls calls' : List WriteCall} (hc : ∀ c ∈ calls, c.Succeeded)
      (hc' : ∀ c ∈ calls', c.Succeeded) : ∀ c ∈ calls ++ calls', c.Succeeded := by
    intro c hmem
    obtain hmem | hmem := List.mem_append.1 hmem
    · exact hc c hmem
    · exact hc' c hmem
  cases h' with
  | all hcalls' hbytes' =>
    rw [List.append_assoc]
    exact .all (hboth hcalls hcalls') (by rw [List.flatMap_append, hbytes'])
  | part hcalls' hrest hbytes' =>
    rw [List.append_assoc w.calls]
    exact .part (hboth hcalls hcalls') hrest
      (by rw [List.flatMap_append, List.append_assoc, hbytes'])

/-- A text that was cut short stays so when there is more to come. -/
theorem stop {e : String} (h : Delivers w bytes (.error e w')) (bytes' : List UInt8) :
    Delivers w (bytes ++ bytes') (.error e w') := by
  cases h with
  | @part _ calls _ rest _ hcalls hrest hbytes =>
    have hmore : calls.flatMap WriteCall.taken ++ (rest ++ bytes') = bytes ++ bytes' := by
      rw [← List.append_assoc, hbytes]
    exact .part hcalls (List.append_ne_nil_of_left_ne_nil hrest bytes') hmore

end Delivers

namespace Watched

variable {ω : Type} [Writer ω]

/-- One offer to a watched writer that takes some of it or fails. -/
theorem write_cases (hω : Writer.TakesSome ω) (w : Watched ω) (byte : UInt8) (bytes : List UInt8) :
    (∃ n inner, Writer.write (byte :: bytes) w =
        .ok (n + 1) ⟨inner, w.calls ++ [⟨byte :: bytes, .ok (n + 1)⟩]⟩) ∨
      ∃ e inner, Writer.write (byte :: bytes) w =
        .error e ⟨inner, w.calls ++ [⟨byte :: bytes, .error e⟩]⟩ := by
  cases hwrite : Writer.write (byte :: bytes) w.inner with
  | error e inner =>
    refine .inr ⟨e, inner, ?_⟩
    simp only [Writer.write, hwrite]
  | ok n inner =>
    obtain ⟨hpos, -⟩ := hω _ _ _ _ (List.cons_ne_nil byte bytes) hwrite
    obtain ⟨n, rfl⟩ := Nat.exists_eq_succ_of_ne_zero (Nat.ne_of_gt hpos)
    refine .inl ⟨n, inner, ?_⟩
    simp only [Writer.write, hwrite]

/-- What is left of an offer is offered again until all is taken or the writer fails. -/
theorem delivers_writeFrom (hω : Writer.TakesSome ω) (n : Nat) (bytes : List UInt8) (w : Watched ω) :
    Delivers w (bytes.drop n) (Writer.writeFrom n bytes w) := by
  induction bytes generalizing n w with
  | nil =>
    cases n with
    | zero => exact .nil w
    | succ n => exact .nil w
  | cons byte bytes ih =>
    cases n with
    | succ n => exact ih n w
    | zero =>
      rw [Writer.writeFrom]
      obtain ⟨n, inner, hwrite⟩ | ⟨e, inner, hwrite⟩ := write_cases hω w byte bytes
      · have hfirst : Delivers w (byte :: bytes.take n)
            (.ok () ⟨inner, w.calls ++ [⟨byte :: bytes, .ok (n + 1)⟩]⟩) :=
          .all (by simp [WriteCall.Succeeded]) (by simp [WriteCall.taken])
        have hall := hfirst.append (ih n _)
        rw [List.cons_append, List.take_append_drop] at hall
        simp only [hwrite]
        exact hall
      · have hnone : Delivers w (byte :: bytes)
            (.error e ⟨inner, w.calls ++ [] ++ [⟨byte :: bytes, .error e⟩]⟩) :=
          .part (by simp) (List.cons_ne_nil byte bytes) rfl
        simp only [hwrite]
        rwa [List.append_nil] at hnone

/-- However a text is cut up, it is taken whole or in part. -/
theorem delivers_writePieces (hω : Writer.TakesSome ω) (ps : List (List Char)) (w : Watched ω) :
    Delivers w (Text.utf8 ps.flatten) (TextSink.writePieces ps w) := by
  induction ps generalizing w with
  | nil => exact .nil w
  | cons p ps ih =>
    have hpiece : Delivers w (Text.utf8 p) (Writer.writeAll (p.flatMap String.utf8EncodeChar) w) :=
      delivers_writeFrom hω 0 _ w
    rw [List.flatten_cons, Text.utf8_append, TextSink.writePieces]
    cases hwrite : Writer.writeAll (p.flatMap String.utf8EncodeChar) w with
    | error e w' =>
      rw [hwrite] at hpiece
      exact hpiece.stop _
    | ok u w' =>
      rw [hwrite] at hpiece
      exact hpiece.append (ih w')

end Watched

/-! ## Records as text -/

namespace TextSink

variable {ω : Type}

/-- What a sink over a watched writer makes of a text: what the writer makes of it, in the same run. -/
inductive Delivers (s : TextSink (Watched ω)) (bytes : List UInt8) :
    EStateM.Result SinkError (TextSink (Watched ω)) Unit → Prop
  | all {out : Watched ω} : AstDump.Delivers s.out bytes (.ok () out) →
    Delivers s bytes (.ok () ⟨out, s.run⟩)
  | part {out : Watched ω} {e : String} : AstDump.Delivers s.out bytes (.error e out) →
    Delivers s bytes (.error (.io e) ⟨out, s.run⟩)

variable [Writer ω]

theorem delivers_record (hω : Writer.TakesSome ω) (r : Record) (s : TextSink (Watched ω)) :
    Delivers s (Block.encode [⟨s.run, r⟩]) (Sink.record r s) := by
  have hblock := Watched.delivers_writePieces hω (r.pieces s.run) s.out
  have hencode : Block.encode [⟨s.run, r⟩] = Text.utf8 (r.pieces s.run).flatten := by
    rw [r.flatten_pieces, Block.encode, List.flatMap_singleton]
    rfl
  rw [hencode]
  change Delivers s _ (TextSink.record s r)
  rw [TextSink.record]
  cases hwrite : writePieces (r.pieces s.run) s.out with
  | ok u out =>
    rw [hwrite] at hblock
    exact .all hblock
  | error e out =>
    rw [hwrite] at hblock
    exact .part hblock

/-- Records one after the other are the text of their blocks. -/
theorem delivers_takeAll (hω : Writer.TakesSome ω) (rs : List Record) (s : TextSink (Watched ω)) :
    Delivers s (Block.encode (rs.map (⟨s.run, ·⟩))) (Sink.takeAll rs s) := by
  induction rs generalizing s with
  | nil => exact .all (.nil s.out)
  | cons r rs ih =>
    have hrecord := delivers_record hω r s
    have hsplit : Block.encode ((r :: rs).map (⟨s.run, ·⟩)) =
        Block.encode [⟨s.run, r⟩] ++ Block.encode (rs.map (⟨s.run, ·⟩)) := by
      rw [← Block.encode_append]
      rfl
    rw [hsplit, Sink.takeAll]
    generalize Sink.record r s = o at hrecord
    cases hrecord with
    | part hpart => exact .part (hpart.stop _)
    | @all out hall =>
      have hrest := ih ⟨out, s.run⟩
      dsimp only
      generalize Sink.takeAll rs (⟨out, s.run⟩ : TextSink (Watched ω)) = o at hrest
      cases hrest with
      | all hall' => exact .all (hall.append hall')
      | part hpart => exact .part (hall.append hpart)

end TextSink

/-! ## A dump as text -/

/-- How a dump whose text is `text` ends over a watched writer, by its result and the writer: all calls
    succeeded and took the text, or the last one failed when a part of it was missing. -/
inductive Concludes {ω : Type} (text : List UInt8) : Except DumpError Summary → Watched ω → Prop
  | whole {inner : ω} {calls : List WriteCall} {summary : Summary} : (∀ c ∈ calls, c.Succeeded) →
    calls.flatMap WriteCall.taken = text → Concludes text (.ok summary) ⟨inner, calls⟩
  | part {inner : ω} {calls : List WriteCall} {offered rest : List UInt8} {e : String} :
    (∀ c ∈ calls, c.Succeeded) → rest ≠ [] → calls.flatMap WriteCall.taken ++ rest = text →
    Concludes text (.error (.sink (.io e))) ⟨inner, calls ++ [⟨offered, .error e⟩]⟩

namespace Concludes

variable {ω : Type} {text : List UInt8} {result : Except DumpError Summary} {out : Watched ω}

/-- What was taken begins the text, and something is missing exactly if the dump failed. -/
theorem exists_taken_append (h : Concludes text result out) :
    ∃ rest, out.taken ++ rest = text ∧ (rest = [] ↔ ∃ summary, result = .ok summary) := by
  cases h with
  | whole hcalls htaken => exact ⟨[], by rw [List.append_nil]; exact htaken, by simp⟩
  | @part inner calls offered rest e hcalls hrest htaken =>
    refine ⟨rest, ?_, by simp [hrest]⟩
    rw [Watched.taken, List.flatMap_append, ← htaken]
    simp [WriteCall.taken]

/-- A dump succeeds exactly if no call fails. -/
theorem succeeds_iff (h : Concludes text result out) :
    (∃ summary, result = .ok summary) ↔ ∀ c ∈ out.calls, c.Succeeded := by
  cases h with
  | whole hcalls htaken => exact iff_of_true ⟨_, rfl⟩ hcalls
  | part hcalls hrest htaken => simp [WriteCall.Succeeded]

/-- A dump that fails ends with the error of the last call, the only one to fail. -/
theorem exists_of_error (h : Concludes text result out) {error : DumpError}
    (herror : result = .error error) :
    ∃ e calls offered, error = .sink (.io e) ∧ out.calls = calls ++ [⟨offered, .error e⟩] ∧
      ∀ c ∈ calls, c.Succeeded := by
  cases h with
  | whole hcalls htaken => cases herror
  | part hcalls hrest htaken =>
    cases herror
    exact ⟨_, _, _, rfl, rfl, hcalls⟩

end Concludes

namespace Job

variable {ω : Type} [Writer ω] {j : Job}

/-- A dump goes the same way when its writer is watched. -/
theorem Fits.dumpInto_unwatch (h : j.Fits) (s : TextSink (Watched ω)) :
    (j.dumpInto s.unwatch).result = (j.dumpInto s).result ∧
      (j.dumpInto s.unwatch).sink = (j.dumpInto s).sink.unwatch := by
  obtain ⟨summary, hdump⟩ := h.exists_dumpInto_eq
  have hwatched := hdump s
  have hplain := hdump s.unwatch
  have htake : Sink.takeAll j.records (Sink.beginRun j.config.runId s.unwatch) = _ :=
    TextSink.takeAll_unwatch j.records (Sink.beginRun j.config.runId s)
  rw [htake] at hplain
  generalize Sink.takeAll j.records (Sink.beginRun j.config.runId s) = o at hwatched hplain
  cases o with
  | ok u s' =>
    obtain ⟨hresult, rfl⟩ := hwatched
    exact ⟨hplain.1.trans hresult.symm, hplain.2⟩
  | error e s' =>
    obtain ⟨hresult, rfl⟩ := hwatched
    exact ⟨hplain.1.trans hresult.symm, hplain.2⟩

theorem Fits.concludes (h : j.Fits) (hω : Writer.TakesSome ω) (w : ω) :
    Concludes j.text (j.dumpInto ({ out := { inner := w } } : TextSink (Watched ω))).result
      (j.dumpInto ({ out := { inner := w } } : TextSink (Watched ω))).sink.out := by
  obtain ⟨summary, hdump⟩ := h.exists_dumpInto_eq
  have hrun := hdump ({ out := { inner := w } } : TextSink (Watched ω))
  have hdeliver : TextSink.Delivers _ (Block.encode j.blocks) _ :=
    TextSink.delivers_takeAll hω j.records (Sink.beginRun j.config.runId { out := { inner := w } })
  rw [← h.text_eq] at hdeliver
  generalize Sink.takeAll j.records (Sink.beginRun j.config.runId
    ({ out := { inner := w } } : TextSink (Watched ω))) = o at hrun hdeliver
  cases hdeliver with
  | all hall =>
    obtain ⟨hresult, hsink⟩ := hrun
    obtain ⟨hcalls, htaken⟩ := hall
    rw [hresult, hsink]
    exact .whole hcalls htaken
  | part hpart =>
    obtain ⟨hresult, hsink⟩ := hrun
    obtain _ | ⟨hcalls, hrest, htaken⟩ := hpart
    rw [hresult, hsink]
    exact .part hcalls hrest htaken

end Job

/-- **Main result.** A dump of roots of an arena that `finish` returned, as text to a writer that takes
    some of every offer or fails. The dump goes as it does without the watch. What the writer has taken is
    the beginning of the text of the dump, and is all of it exactly if the dump succeeds, which it does
    exactly if no call fails. A dump that fails ends with the error of the writer, whose call was the only
    one to fail and the last. -/
theorem dumpInto_prefix_text {ω : Type} [Writer ω] (hω : Writer.TakesSome ω) (w : ω) {j : Job}
    (hj : j.Fits) :
    let run := j.dumpInto ({ out := { inner := w } } : TextSink (Watched ω))
    ((j.dumpInto ({ out := w } : TextSink ω)).result = run.result ∧
      (j.dumpInto ({ out := w } : TextSink ω)).sink.out = run.sink.out.inner) ∧
    run.sink.out.taken <+: j.text ∧
    (run.sink.out.taken = j.text ↔ ∃ summary, run.result = .ok summary) ∧
    ((∃ summary, run.result = .ok summary) ↔ ∀ c ∈ run.sink.out.calls, c.Succeeded) ∧
    ∀ error, run.result = .error error → ∃ e calls offered, error = .sink (.io e) ∧
      run.sink.out.calls = calls ++ [⟨offered, .error e⟩] ∧ ∀ c ∈ calls, c.Succeeded := by
  intro run
  have hconcludes : Concludes j.text run.result run.sink.out := hj.concludes hω w
  obtain ⟨hresult, hsink⟩ := hj.dumpInto_unwatch ({ out := { inner := w } } : TextSink (Watched ω))
  obtain ⟨rest, htaken, hrest⟩ := hconcludes.exists_taken_append
  refine ⟨⟨hresult, congrArg TextSink.out hsink⟩, ⟨rest, htaken⟩, ?_, hconcludes.succeeds_iff,
    fun _ => hconcludes.exists_of_error⟩
  rw [← hrest, ← htaken]
  exact ⟨fun h => List.append_right_eq_self.1 h.symm, fun h => by rw [h, List.append_nil]⟩

/-- A buffer takes what fits. -/
theorem ByteBuffer.takesSome : Writer.TakesSome ByteBuffer := by
  rintro ⟨bytes, room?⟩ w' offered n hne hwrite
  have hpos : 0 < offered.length := List.length_pos_iff.2 hne
  cases room? with
  | none =>
    obtain ⟨rfl, -⟩ := EStateM.Result.ok.inj hwrite
    exact ⟨hpos, Nat.le_refl _⟩
  | some room =>
    cases room with
    | zero => cases hwrite
    | succ room =>
      obtain ⟨rfl, -⟩ := EStateM.Result.ok.inj hwrite
      rw [List.length_take]
      omega

/-- The text of the linked record to a buffer that is full in the middle of the second block. -/
theorem dumpInto_prefix_text_linkedRecord :
    let j : Job := ⟨Arena.linkedRecord, [⟨0⟩], { runId := 3 }⟩
    let run := j.dumpInto ({ out := { inner := { room? := some 60 } } } : TextSink (Watched ByteBuffer))
    run.result = .error (.sink (.io ByteBuffer.full)) ∧ run.sink.out.taken <+: j.text ∧
      run.sink.out.taken ≠ j.text := by
  intro j run
  have hj : j.Fits := ⟨Arena.finished_linkedRecord, by decide⟩
  have hfull : run.result = .error (.sink (.io ByteBuffer.full)) := by decide +kernel
  obtain ⟨-, htaken, hall, -⟩ := dumpInto_prefix_text ByteBuffer.takesSome { room? := some 60 } hj
  refine ⟨hfull, htaken, fun heq => ?_⟩
  obtain ⟨summary, hok⟩ := hall.1 heq
  cases hfull.symm.trans hok

end AstDump
