import Mathlib
import Mjlib.Multiplex.FdcanusbFrameStream

/-!
# `FdcanusbFrameStream` and the lines it has

`parseFrame_of_hasLine` and `parseFrame_of_not_hasLine` say what `ParseFrame` does to a buffer with a
line in it, and to one without.  A completion of the stream leaves no line behind a pending read, a
new read looks at one line only: `prompt_iff` says in which runs no frame is withheld.
-/

namespace Mjlib.Multiplex.FdcanusbFrameStream

variable {beyond : Bytes} {s s' t : State}

/-- The buffer holds a complete line. -/
def HasLine (buf : Bytes) : Prop := ∃ c ∈ buf, isNewline c = true

instance (buf : Bytes) : Decidable (HasLine buf) := inferInstanceAs (Decidable (∃ _ ∈ buf, _))

/-- What follows the first line. -/
def afterLine (buf : Bytes) : Bytes := buf.drop ((firstLine buf).length + 1)

/-- A line with a frame in it. -/
def delivers (line : Bytes) : Bool :=
  line ≠ okLine && rcvStart.isPrefixOf line && (rcvFields line).isSome

/-- No read is pending, or none of the stream is outstanding, or there is no line. -/
def Prompt (s : State) : Prop :=
  s.currentFrame.isSome → s.readOutstanding = true → ¬HasLine s.streambuf

instance (s : State) : Decidable (Prompt s) := inferInstanceAs (Decidable (_ → _ → _))

/-! ### One line -/

theorem length_firstLine_eq_iff {buf : Bytes} :
    (firstLine buf).length = buf.length ↔ ¬HasLine buf := by
  unfold firstLine HasLine
  constructor
  · rintro h ⟨c, hc, hnew⟩
    have heq : buf.takeWhile (!isNewline ·) = buf := (List.takeWhile_prefix _).eq_of_length h
    have := List.mem_takeWhile_imp (heq.symm ▸ hc)
    rw [hnew] at this
    cases this
  · intro h
    rw [List.takeWhile_eq_self_iff.mpr]
    intro c hc
    rw [Bool.not_eq_true']
    exact Bool.eq_false_iff.mpr fun hnew => h ⟨c, hc, hnew⟩

theorem length_afterLine_lt {buf : Bytes} (h : HasLine buf) :
    (afterLine buf).length < buf.length := by
  obtain ⟨c, hc, _⟩ := h
  have := List.length_pos_of_mem hc
  unfold afterLine
  rw [List.length_drop]
  omega

/-- The length of a field of text that is there. -/
theorem rcvFrame_isSome (beyond buf line : Bytes) :
    (rcvFrame beyond buf line).isSome = (rcvFields line).isSome := by
  unfold rcvFrame
  cases rcvFields line <;> rfl

/-- What `ParseLine` does to the pending read. -/
theorem parseLine_spec (line : Bytes) :
    (parseLine beyond line s).readOutstanding = s.readOutstanding ∧
      (parseLine beyond line s).currentFrame =
        if delivers line then none else s.currentFrame := by
  unfold parseLine delivers
  split_ifs with hempty hd hok hd hrcv hd hd
  · rw [List.length_eq_zero_iff.mp hempty] at hd
    exact absurd hd (by decide)
  · exact ⟨rfl, rfl⟩
  · rw [hok] at hd
    exact absurd hd (by decide)
  · exact ⟨rfl, rfl⟩
  · have hfields : (rcvFields line).isSome := (Bool.and_eq_true_iff.mp hd).2
    rw [← rcvFrame_isSome beyond s.streambuf] at hfields
    obtain ⟨frame, hframe⟩ := Option.isSome_iff_exists.mp hfields
    rw [hframe]
    exact ⟨rfl, rfl⟩
  · have hfields : (rcvFields line).isSome = false := by
      rw [Bool.eq_false_iff]
      intro hsome
      exact hd (by simp [hok, hrcv, hsome])
    rw [← rcvFrame_isSome beyond s.streambuf, Option.isSome_eq_false_iff,
      Option.isNone_iff_eq_none] at hfields
    rw [hfields]
    exact ⟨rfl, rfl⟩
  · exact absurd (Bool.and_eq_true_iff.mp (Bool.and_eq_true_iff.mp hd).1).2 hrcv
  · exact ⟨rfl, rfl⟩

/-- **`ParseFrame` without a line** leaves none, and the read pending. -/
theorem parseFrame_of_not_hasLine (beyond : Bytes) (hcurrent : s.currentFrame.isSome)
    (h : ¬HasLine s.streambuf) :
    ∃ s', parseFrame beyond s = some (false, s') ∧ ¬HasLine s'.streambuf ∧
      s'.readOutstanding = s.readOutstanding ∧ s'.currentFrame = s.currentFrame := by
  unfold parseFrame
  rw [if_pos hcurrent]
  dsimp only
  rw [if_pos (length_firstLine_eq_iff.mpr h)]
  refine ⟨_, rfl, ?_⟩
  split_ifs
  · exact ⟨fun ⟨c, hc, _⟩ => absurd hc List.not_mem_nil, rfl, rfl⟩
  · exact ⟨h, rfl, rfl⟩

/-- **`ParseFrame` with a line** takes it off the buffer. -/
theorem parseFrame_of_hasLine (beyond : Bytes) (hcurrent : s.currentFrame.isSome)
    (h : HasLine s.streambuf) :
    ∃ s', parseFrame beyond s = some (true, s') ∧ s'.streambuf = afterLine s.streambuf ∧
      s'.readOutstanding = s.readOutstanding ∧
      s'.currentFrame = if delivers (firstLine s.streambuf) then none else s.currentFrame := by
  unfold parseFrame
  rw [if_pos hcurrent]
  dsimp only
  rw [if_neg (fun hlen => length_firstLine_eq_iff.mp hlen h)]
  exact ⟨_, rfl, rfl, parseLine_spec _⟩

/-! ### Starting to read -/

/-- The stream is not read while there is a line. -/
def Scanned (s : State) : Prop := s.readOutstanding = true → ¬HasLine s.streambuf

theorem Scanned.prompt (h : Scanned s) : Prompt s := fun _ => h

/-- `MaybeStartRead` when there is no line. -/
theorem maybeStartRead_of_not_hasLine (h : s.currentFrame.isSome → ¬HasLine s.streambuf)
    (hs : Scanned s) (hstart : maybeStartRead beyond s = some s') : Scanned s' := by
  unfold maybeStartRead at hstart
  split_ifs at hstart with hread hcurrent
  · cases hstart
    exact hs
  · obtain ⟨s₁, hparse, hline, _⟩ := parseFrame_of_not_hasLine beyond hcurrent
      (h hcurrent)
    rw [hparse] at hstart
    cases hstart
    dsimp only
    split_ifs
    · exact fun _ => hline
    · exact fun _ => hline
  · cases hstart
    exact hs

/-- The loop of `HandleRead` goes on to the end of the lines, or of the read. -/
theorem parseLoop_spec {n : ℕ} : ∀ {s s' : State}, s.streambuf.length < n →
    s.readOutstanding = false → parseLoop beyond n s = some s' →
    s'.readOutstanding = false ∧ (s'.currentFrame.isSome → ¬HasLine s'.streambuf) := by
  induction n with
  | zero => exact fun h => absurd h (Nat.not_lt_zero _)
  | succ n ih =>
    intro s s' hlen hread hloop
    rw [parseLoop] at hloop
    split_ifs at hloop with hcurrent
    · by_cases hline : HasLine s.streambuf
      · obtain ⟨s₁, hparse, hbuf, hread₁, _⟩ :=
          parseFrame_of_hasLine beyond hcurrent hline
        rw [hparse] at hloop
        refine ih ?_ (hread₁.trans hread) hloop
        have := length_afterLine_lt hline
        rw [hbuf]
        omega
      · obtain ⟨s₁, hparse, hline₁, hread₁, _⟩ :=
          parseFrame_of_not_hasLine beyond hcurrent hline
        rw [hparse] at hloop
        obtain rfl : s₁ = s' := Option.some.inj hloop
        exact ⟨hread₁.trans hread, fun _ => hline₁⟩
    · cases hloop
      exact ⟨hread, fun h => absurd h hcurrent⟩

/-! ### Runs -/

/-- The first line of a buffer, if there is one, delivers a frame or is the only one. -/
def FirstLineSuffices (buf : Bytes) : Prop :=
  HasLine buf → delivers (firstLine buf) = true ∨ ¬HasLine (afterLine buf)

instance (buf : Bytes) : Decidable (FirstLineSuffices buf) :=
  inferInstanceAs (Decidable (_ → _))

/-- A new read that starts to read the stream finds the first line enough. -/
def Suffices (s : State) : Action → Prop
  | .asyncRead _ => s.readOutstanding = false → FirstLineSuffices s.streambuf
  | .asyncWrite _ => True
  | .readSome _ => True
  | .handleTimer => True

instance (s : State) (a : Action) : Decidable (Suffices s a) :=
  match a with
  | .asyncRead _ => inferInstanceAs (Decidable (_ → FirstLineSuffices _))
  | .asyncWrite _ => inferInstanceAs (Decidable True)
  | .readSome _ => inferInstanceAs (Decidable True)
  | .handleTimer => inferInstanceAs (Decidable True)

/-- **A step that finds the first line enough withholds nothing.** -/
theorem Scanned.step {a : Action} (h : Scanned s) (ha : Suffices s a)
    (hstep : step beyond s a = some s') : Scanned s' := by
  cases a with
  | asyncRead frame =>
    unfold FdcanusbFrameStream.step maybeStartRead at hstep
    dsimp only at hstep
    split_ifs at hstep with hcurrent hread hsome
    · cases hstep
      exact h
    · let s₁ : State := { s with currentFrame := some frame }
      have hread : s.readOutstanding = false := Bool.eq_false_iff.mpr hread
      by_cases hline : HasLine s.streambuf
      · obtain ⟨s₂, hparse, hbuf, hread₂, hcurrent₂⟩ :=
          parseFrame_of_hasLine beyond (s := s₁) rfl hline
        rw [hparse] at hstep
        cases hstep
        dsimp only
        split_ifs with hpending
        · have hdelivers : ¬delivers (firstLine s.streambuf) = true := by
            intro hd
            rw [hcurrent₂, if_pos hd] at hpending
            cases hpending
          show true = true → ¬HasLine s₂.streambuf
          rw [hbuf]
          exact fun _ => (ha hread hline).resolve_left hdelivers
        · intro hread'
          rw [hread₂] at hread'
          exact absurd (hread.symm.trans hread') nofun
      · obtain ⟨s₂, hparse, hline₂, _⟩ :=
          parseFrame_of_not_hasLine beyond (s := s₁) rfl hline
        rw [hparse] at hstep
        cases hstep
        dsimp only
        split_ifs
        · exact fun _ => hline₂
        · exact fun _ => hline₂
    · exact absurd rfl hsome
  | asyncWrite n =>
    cases hstep
    exact h
  | readSome bytes =>
    unfold FdcanusbFrameStream.step handleRead at hstep
    dsimp only at hstep
    split_ifs at hstep
    obtain ⟨s₁, hloop, hstart⟩ := Option.bind_eq_some_iff.mp hstep
    obtain ⟨hread, hline⟩ := parseLoop_spec (Nat.lt_succ_self _) rfl hloop
    exact maybeStartRead_of_not_hasLine hline (fun h => absurd (hread.symm.trans h) nofun) hstart
  | handleTimer =>
    cases hstep
    exact h

/-- **Any other step withholds a line.** -/
theorem not_prompt_of_step {a : Action} (ha : ¬Suffices s a) (hstep : step beyond s a = some s') :
    ¬Prompt s' := by
  cases a with
  | asyncWrite | readSome | handleTimer => exact absurd trivial ha
  | asyncRead frame =>
    unfold Suffices FirstLineSuffices at ha
    push Not at ha
    obtain ⟨hread, hline, hdelivers, hafter⟩ := ha
    unfold FdcanusbFrameStream.step maybeStartRead at hstep
    dsimp only at hstep
    split_ifs at hstep with hcurrent hread' hsome
    · exact absurd (hread.symm.trans hread') nofun
    · obtain ⟨s₂, hparse, hbuf, _, hcurrent₂⟩ :=
        parseFrame_of_hasLine beyond (s := { s with currentFrame := some frame }) rfl hline
      rw [hparse] at hstep
      rw [if_neg hdelivers] at hcurrent₂
      cases hstep
      dsimp only
      rw [if_pos (hcurrent₂ ▸ rfl)]
      intro hprompt
      refine hprompt (hcurrent₂ ▸ rfl) rfl ?_
      show HasLine s₂.streambuf
      rw [hbuf]
      exact hafter
    · exact absurd rfl hsome

/-- **When no frame is withheld**: in every state of a run there is no line behind a pending read of
the stream, exactly if every new read finds the first line enough. -/
theorem prompt_iff {as : List Action} (hrun : Run.run (step beyond) {} as = some t) :
    Run.Always (step beyond) Prompt {} as ↔ Run.Guarded (step beyond) Suffices {} as :=
  Run.always_iff_guarded (fun _ => Scanned.prompt) (fun _ _ _ => Scanned.step)
    (fun _ _ _ _ => not_prompt_of_step) (fun h => absurd h nofun) hrun

/-- A frame and an answer in one read of the stream. -/
theorem prompt_iff_one : Run.Always (step []) Prompt {}
    [.asyncRead ⟨0, false, 0, []⟩,
      .readSome (rcvStart ++ [0x31, 0x20, 0x30, 0x30, 0x0a] ++ okLine ++ [0x0a]),
      .asyncRead ⟨0, false, 0, []⟩] := by
  obtain ⟨t, hrun⟩ := Option.isSome_iff_exists.mp (by decide +kernel : (Run.run (step []) {}
    [.asyncRead ⟨0, false, 0, []⟩,
      .readSome (rcvStart ++ [0x31, 0x20, 0x30, 0x30, 0x0a] ++ okLine ++ [0x0a]),
      .asyncRead ⟨0, false, 0, []⟩]).isSome)
  exact (prompt_iff hrun).mpr (by decide +kernel)

/-- An answer before a frame: the second read waits for more input. -/
theorem not_prompt : ¬∀ (beyond : Bytes) (as : List Action) (t : State),
    Run.run (step beyond) {} as = some t → Run.Always (step beyond) Prompt {} as := by
  intro h
  let as : List Action := [.asyncRead ⟨0, false, 0, []⟩,
    .readSome (rcvStart ++ [0x31, 0x20, 0x30, 0x30, 0x0a] ++ okLine ++ [0x0a] ++ rcvStart ++
      [0x31, 0x20, 0x30, 0x30, 0x0a]), .asyncRead ⟨0, false, 0, []⟩]
  have hfinal : (Run.run (step []) {} as).map (fun t => decide (Prompt t)) = some false := by
    decide +kernel
  obtain ⟨t, hrun, ht⟩ := Option.map_eq_some_iff.mp hfinal
  exact of_decide_eq_false ht ((h [] as t hrun).last hrun)

end Mjlib.Multiplex.FdcanusbFrameStream
