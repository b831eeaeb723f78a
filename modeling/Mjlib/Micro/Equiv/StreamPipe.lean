import Mjlib.Micro.Equiv.StreamPipe.Inv

/-!
# The pipe is a FIFO

Each step keeps `Inv`, and `fifo` reads off what it means: in each direction what is read is what was
written, every callback is invoked once or is still held, and a read and a write that could meet have
met.  Events may run in any order, and inside of each other; `EventQueue` runs them in the order in
which they were posted.
-/

namespace Mjlib.Micro.StreamPipe

open Run Status

variable {σ : Port → Status} {s s' : State} {x : SideId} {p q : Port} {c d : Callback} {n : ℕ}

/-! ### Steps -/

theorem Op.eq_read_of_port {op : Op} (h : op.port = .reader x) : ∃ size, op = .read x size := by
  cases op <;> cases h
  exact ⟨_, rfl⟩

theorem Op.eq_write_of_port {op : Op} (h : op.port = .writer x) : ∃ data, op = .write x data := by
  cases op <;> cases h
  exact ⟨_, rfl⟩

/-- What is opposite an idle port is waiting, or nothing is stored as outstanding. -/
theorem Inv.opposite_cases (h : Inv σ s) (hp : σ p = idle) :
    (∃ d, σ p.opposite = waiting d) ∨
      (σ p.opposite).outstanding = none ∧ ∀ d, σ p.opposite ≠ waiting d := by
  have hlinked := h.linked p
  rw [hp] at hlinked
  cases hopp : σ p.opposite with
  | waiting d => exact .inl ⟨d, rfl⟩
  | second d n =>
    rw [hopp] at hlinked
    cases hlinked with
    | unmatched _ hq => exact absurd trivial hq
  | _ => exact .inr ⟨rfl, nofun⟩

/-- What meets nothing. -/
theorem Inv.linked_of_idle (h : Inv σ s) (hp : σ p = idle) {memory : ℕ → Bytes} {status : Status}
    (hstatus : ¬ status.Matched) (hopp : ∀ d, σ p.opposite ≠ waiting d) :
    Linked memory status (σ p.opposite) := by
  have hlinked := h.linked p
  rw [hp] at hlinked
  cases hlinked with
  | unmatched _ hq => exact .unmatched hstatus hq fun _ d _ => hopp d

theorem bytes_of_write {data : Bytes} (hd : d.op = .write x data) (memory : ℕ → Bytes) :
    d.bytes memory n = data.take n := by
  unfold Callback.bytes
  rw [hd]

/-- What is copied to the buffer of a read is what was written. -/
theorem bytes_memcpy {y : SideId} {size : ℕ} {data : Bytes} (hc : c.op = .read x size)
    (hd : d.op = .write y data) (hn : n ≤ data.length) (s : State) :
    c.bytes (s.memcpy c.number (data.take n)).memory n =
      d.bytes (s.memcpy c.number (data.take n)).memory n := by
  have hlength : (data.take n).length = n := List.length_take_of_le hn
  rw [bytes_of_write hd]
  unfold Callback.bytes
  rw [hc]
  dsimp only [State.memcpy]
  rw [Function.update_self, List.take_left' hlength]

theorem length_memcpy {m buffer : ℕ} {data : Bytes} {s : State}
    (h : data.length ≤ (s.memory buffer).length) :
    ((s.memcpy buffer data).memory m).length = (s.memory m).length := by
  dsimp only [State.memcpy]
  rw [Function.update_apply]
  split_ifs with hm
  · rw [List.length_append, List.length_drop, hm]
    omega
  · rfl

theorem Inv.asyncReadSome (h : Inv σ s) (hp : σ (.reader x) = idle) (contents : Bytes) :
    ∃ σ', Inv σ' (asyncReadSome x ⟨s.started.length, contents.length⟩
      ⟨s.started.length, .read x contents.length⟩ { s with
        memory := Function.update s.memory s.started.length contents
        started := s.started ++ [⟨s.started.length, .read x contents.length⟩] }) := by
  set c : Callback := ⟨s.started.length, .read x contents.length⟩ with hc
  have hown : (s.side x).outstandingReadBuffer.size = 0 := by
    rw [h.side, sides, hp]
    rfl
  have hother : (s.side x.other).outstandingWriteBuffer = (σ (.writer x.other)).data := by
    rw [h.side]
    rfl
  unfold StreamPipe.asyncReadSome
  dsimp only
  rcases h.opposite_cases hp with ⟨d, hd⟩ | ⟨hnone, hopp⟩
  -- The data of the write is copied.
  · have hd' : σ (.writer x.other) = waiting d := hd
    obtain ⟨data, hdata⟩ : ∃ data, d.op = .write x.other data :=
      Op.eq_write_of_port (h.books.port (by rw [hd']; rfl))
    have hsize : data.length ≠ 0 := by
      have := h.size (.writer x.other) d (by rw [hd']; rfl)
      rwa [hdata] at this
    have hbuffer : (s.side x.other).outstandingWriteBuffer = data := by
      rw [hother, hd', Status.data]
      obtain ⟨number, op⟩ := d
      subst hdata
      rfl
    rw [hbuffer, if_pos hsize]
    set toCopy := min contents.length data.length with htoCopy
    have hbound : (second d toCopy).Bounded := by
      rw [Bounded, hdata]
      exact Nat.min_le_right _ _
    refine ⟨_, h.start (c := c) (first c toCopy) hp rfl rfl rfl (fun h => by cases h)
      (hd ▸ alike_second d toCopy) (Nat.min_le_left _ _) hbound (.first ?_) (fun m hm _ => ?_)
      (fun m hm => ?_) (fun _ _ hc => ?_)
      (sides_reader_pending x (first c toCopy) h.side (by rw [hp]; rfl) rfl) rfl⟩
    · exact bytes_memcpy (c := c) rfl hdata (Nat.min_le_right _ _) _
    · exact (Function.update_of_ne hm _ _).trans (Function.update_of_ne hm _ _)
    · exact congrArg List.length
        ((Function.update_of_ne hm _ _).trans (Function.update_of_ne hm _ _))
    · cases hc
      have hlength : (Function.update s.memory s.started.length contents s.started.length).length =
          contents.length := congrArg List.length (Function.update_self ..)
      refine (length_memcpy ?_).trans hlength
      exact Nat.le_trans (List.length_take_le _ _)
        (Nat.le_trans (Nat.min_le_left _ _) (Nat.le_of_eq hlength.symm))
  · have hbuffer : (s.side x.other).outstandingWriteBuffer = [] := by
      rw [hother, Status.data, show (σ (.writer x.other)).outstanding = none from hnone]
    rw [hbuffer, if_neg (not_not.mpr List.length_nil), if_neg (not_not.mpr hown)]
    have hmem : ∀ m, m ≠ c.number →
        Function.update s.memory s.started.length contents m = s.memory m :=
      fun m hm => Function.update_of_ne hm _ _
    have hnew : ∀ y size, c.op = .read y size →
        (Function.update s.memory s.started.length contents c.number).length = size := by
      intro y size hread
      cases hread
      exact congrArg List.length (Function.update_self ..)
    split_ifs with hsize
    · exact ⟨_, h.start (c := c) (zero c) hp rfl rfl rfl (fun h => by cases h) (Alike.refl _) hsize
        (h.bound _) (h.linked_of_idle hp id hopp) (fun m hm _ => hmem m hm)
        (fun m hm => congrArg List.length (hmem m hm)) hnew
        (sides_reader_pending x (zero c) h.side (by rw [hp]; rfl) rfl) rfl⟩
    · refine ⟨_, h.start (c := c) (waiting c) hp rfl rfl rfl (fun _ => hsize)
        (Alike.refl _) trivial (h.bound _) (h.linked_of_idle hp id hopp) (fun m hm _ => hmem m hm)
        (fun m hm => congrArg List.length (hmem m hm)) hnew
        (sides_reader_outstanding x (waiting c) h.side (by rw [hp]; rfl)) ?_⟩
      rw [show (waiting c).event c.op.port = none from rfl, Option.toList_none, List.append_nil]
      rfl

theorem Inv.asyncWriteSome (h : Inv σ s) (hp : σ (.writer x) = idle) (data : Bytes) :
    ∃ σ', Inv σ' (asyncWriteSome x data ⟨s.started.length, .write x data⟩ { s with
      started := s.started ++ [⟨s.started.length, .write x data⟩] }) := by
  set c : Callback := ⟨s.started.length, .write x data⟩ with hc
  have hown : (s.side x).outstandingWriteBuffer.length = 0 := by
    rw [h.side, sides, hp]
    rfl
  have hother : (s.side x.other).outstandingReadBuffer = (σ (.reader x.other)).buffer := by
    rw [h.side]
    rfl
  unfold StreamPipe.asyncWriteSome
  dsimp only
  rcases h.opposite_cases hp with ⟨d, hd⟩ | ⟨hnone, hopp⟩
  -- The data is copied to the buffer of the read.
  · have hd' : σ (.reader x.other) = waiting d := hd
    obtain ⟨size, hread⟩ : ∃ size, d.op = .read x.other size :=
      Op.eq_read_of_port (h.books.port (by rw [hd']; rfl))
    have hsize : size ≠ 0 := by
      have := h.size (.reader x.other) d (by rw [hd']; rfl)
      rwa [hread] at this
    have hbuffer : (s.side x.other).outstandingReadBuffer = ⟨d.number, size⟩ := by
      rw [hother, hd', Status.buffer]
      obtain ⟨number, op⟩ := d
      subst hread
      rfl
    rw [hbuffer, if_pos hsize]
    set toCopy := min data.length size with htoCopy
    have hbound : (second d toCopy).Bounded := by
      rw [Bounded, hread]
      exact Nat.min_le_right _ _
    have hlength : (s.memory d.number).length = size :=
      h.buffers d (h.books.mem_started (show (σ (.reader x.other)).callback = some d by
        rw [hd']; rfl)) _ _ hread
    refine ⟨_, h.start (c := c) (first c toCopy) hp rfl rfl rfl (fun h => by cases h)
      (hd ▸ alike_second d toCopy) (Nat.min_le_left _ _) hbound (.first ?_) (fun m _ hm => ?_)
      (fun m _ => length_memcpy ?_) (fun _ _ h => by cases h)
      (sides_writer_pending x (first c toCopy) h.side (by rw [hp]; rfl) rfl) rfl⟩
    · exact (bytes_memcpy (c := d) (d := c) hread rfl (Nat.min_le_left _ _) _).symm
    · exact Function.update_of_ne (hm d toCopy rfl) _ _
    · exact Nat.le_trans (List.length_take_le _ _)
        (Nat.le_trans (Nat.min_le_right _ _) (Nat.le_of_eq hlength.symm))
  · have hbuffer : (s.side x.other).outstandingReadBuffer = {} := by
      rw [hother, Status.buffer, show (σ (.reader x.other)).outstanding = none from hnone]
    rw [hbuffer, if_neg (not_not.mpr rfl), if_neg (not_not.mpr hown)]
    split_ifs with hsize
    · exact ⟨_, h.start (c := c) (zero c) hp rfl rfl rfl (fun h => by cases h) (Alike.refl _) hsize
        (h.bound _) (h.linked_of_idle hp id hopp) (fun _ _ _ => rfl) (fun _ _ => rfl)
        (fun _ _ h => by cases h)
        (sides_writer_pending x (zero c) h.side (by rw [hp]; rfl) rfl) rfl⟩
    · refine ⟨_, h.start (c := c) (waiting c) hp rfl rfl rfl (fun _ => hsize)
        (Alike.refl _) trivial (h.bound _) (h.linked_of_idle hp id hopp) (fun _ _ _ => rfl)
        (fun _ _ => rfl) (fun _ _ h => by cases h)
        (sides_writer_outstanding x (waiting c) h.side (by rw [hp]; rfl)) ?_⟩
      rw [show (waiting c).event c.op.port = none from rfl, Option.toList_none, List.append_nil]
      rfl

/-- The operation that posted an event, and the one that it met. -/
theorem Inv.first_cases (h : Inv σ s) (hp : σ p = first c n) :
    ∃ d, σ p.opposite = second d n := by
  have hlinked := h.linked p
  rw [hp] at hlinked
  generalize σ p.opposite = status at hlinked
  cases hlinked with
  | first => exact ⟨_, rfl⟩
  | unmatched hp => exact absurd trivial hp

theorem Inv.runEvent (h : Inv σ s) {k : ℕ} {e : Event} (hk : s.events[k]? = some e) :
    ∃ σ', Inv σ' (runEvent { s with events := s.events.eraseIdx k } e) := by
  obtain ⟨p, hp⟩ := (h.events.mem_iff e).mp (List.mem_of_getElem? hk)
  cases hstatus : σ p with
  | zero c =>
    rw [hstatus] at hp
    cases p with
    | reader x =>
      obtain rfl : Event.readZero x = e := Option.some.inj hp
      have hpending : (s.side x).pendingReadCallback = some c := by
        rw [h.side, sides, hstatus]
        rfl
      refine ⟨_, h.runZero hk hstatus rfl (sides_reader_pending x (calling c 0) h.side ?_ rfl) ?_⟩
      · rw [hstatus]
        rfl
      · rw [StreamPipe.runEvent, hpending]
        rfl
    | writer x =>
      obtain rfl : Event.writeZero x = e := Option.some.inj hp
      have hpending : (s.side x).pendingWriteCallback = some c := by
        rw [h.side, sides, hstatus]
        rfl
      refine ⟨_, h.runZero hk hstatus rfl (sides_writer_pending x (calling c 0) h.side ?_ rfl) ?_⟩
      · rw [hstatus]
        rfl
      · rw [StreamPipe.runEvent, hpending]
        rfl
  | first c n =>
    obtain ⟨d, hd⟩ := h.first_cases hstatus
    rw [hstatus] at hp
    cases p with
    | reader x =>
      obtain rfl : Event.read x n = e := Option.some.inj hp
      have hpending : (s.side x).pendingReadCallback = some c := by
        rw [h.side, sides, hstatus]
        rfl
      have hside := sides_reader_pending x (calling c n) h.side (by rw [hstatus]; rfl) rfl
      have hd' : σ (.writer x.other) = second d n := hd
      have hmet : ∀ side, (Function.update s.side x side x.other).outstandingWriteCallback =
          some d := by
        intro side
        rw [Function.update_of_ne (SideId.other_ne x), h.side, sides, hd']
        rfl
      refine ⟨_, h.runFirst hk hstatus hd rfl
        (sides_writer_outstanding (s := s.setSide x _) x.other (calling d n) hside ?_) ?_⟩
      · have hport : Port.writer x.other ≠ .reader x := fun h => by cases h
        rw [Function.update_of_ne hport, hd']
        rfl
      · rw [StreamPipe.runEvent, hpending]
        dsimp only [State.setSide]
        rw [hmet]
    | writer x =>
      obtain rfl : Event.write x n = e := Option.some.inj hp
      have hpending : (s.side x).pendingWriteCallback = some c := by
        rw [h.side, sides, hstatus]
        rfl
      have hside := sides_writer_pending x (calling c n) h.side (by rw [hstatus]; rfl) rfl
      have hd' : σ (.reader x.other) = second d n := hd
      have hmet : ∀ side, (Function.update s.side x side x.other).outstandingReadCallback =
          some d := by
        intro side
        rw [Function.update_of_ne (SideId.other_ne x), h.side, sides, hd']
        rfl
      refine ⟨_, h.runFirst hk hstatus hd rfl
        (sides_reader_outstanding (s := s.setSide x _) x.other (calling d n) hside ?_) ?_⟩
      · have hport : Port.reader x.other ≠ .writer x := fun h => by cases h
        rw [Function.update_of_ne hport, hd']
        rfl
      · rw [StreamPipe.runEvent, hpending]
        dsimp only [State.setSide]
        rw [hmet]
  | _ =>
    rw [hstatus] at hp
    cases p <;> cases hp

theorem Inv.eq_idle (h : Inv σ s) (hp : s.Idle p) : σ p = idle := by
  cases hcallback : (σ p).callback with
  | none =>
    generalize σ p = status at hcallback
    cases status <;> cases hcallback
    rfl
  | some c =>
    have hmem : c ∈ s.invokedCallbacks :=
      hp c (h.books.mem_started hcallback) (h.books.port hcallback)
    exact absurd hmem (h.books.disjoint hcallback)

theorem Inv.step (h : Inv σ s) {action : Action} (hs : step s action = some s') :
    ∃ σ', Inv σ' s' := by
  cases action with
  | asyncReadSome x contents =>
    simp only [StreamPipe.step, Option.ite_none_right_eq_some, Option.some.injEq] at hs
    obtain ⟨hidle, rfl⟩ := hs
    exact h.asyncReadSome (h.eq_idle hidle) contents
  | asyncWriteSome x data =>
    simp only [StreamPipe.step, Option.ite_none_right_eq_some, Option.some.injEq] at hs
    obtain ⟨hidle, rfl⟩ := hs
    exact h.asyncWriteSome (h.eq_idle hidle) data
  | runEvent index =>
    obtain ⟨e, he, rfl⟩ := Option.map_eq_some_iff.mp hs
    exact h.runEvent he
  | invoke =>
    cases hcalls : s.calls with
    | nil =>
      rw [StreamPipe.step, hcalls] at hs
      cases hs
    | cons call calls =>
      rw [StreamPipe.step, hcalls] at hs
      obtain rfl := Option.some.inj hs
      exact h.invoke hcalls

theorem inv_start : Inv (fun _ => idle) {} where
  asserts := rfl
  side := rfl
  events := by
    rw [show (fun p => idle.event p) = fun _ => none from funext event_idle]
    exact Listed.nil
  calls := Listed.nil
  books := ⟨rfl, nofun, fun c => by simp [callback, State.invokedCallbacks], nofun, List.nodup_nil⟩
  size := nofun
  bound := fun _ => trivial
  buffers := nofun
  told := nofun
  linked := fun _ => .unmatched id id nofun
  account := fun _ => rfl

/-! ### Results -/

/-- The pipe, or an event that is running, has the callback still to invoke. -/
def State.Pending (s : State) (c : Callback) : Prop :=
  (∃ x, (s.side x).outstandingReadCallback = some c ∨ (s.side x).pendingReadCallback = some c ∨
    (s.side x).outstandingWriteCallback = some c ∨ (s.side x).pendingWriteCallback = some c) ∨
  ∃ n, (some c, n) ∈ s.calls

theorem Status.callback_of_pending {status : Status} (h : status.pending = some c) :
    status.callback = some c := by
  cases status <;> cases h <;> rfl

theorem Inv.pending_iff (h : Inv σ s) (c : Callback) :
    s.Pending c ↔ (σ c.op.port).callback = some c := by
  have hport : ∀ p, (σ p).callback = some c → (σ c.op.port).callback = some c := by
    intro p hp
    rwa [h.books.port hp]
  unfold State.Pending
  rw [h.side]
  constructor
  · rintro (⟨x, hc | hc | hc | hc⟩ | ⟨n, hn⟩)
    · exact hport _ (callback_of_outstanding hc)
    · exact hport _ (callback_of_pending hc)
    · exact hport _ (callback_of_outstanding hc)
    · exact hport _ (callback_of_pending hc)
    · obtain ⟨p, hp⟩ := (h.calls.mem_iff _).mp hn
      obtain ⟨d, hdp, hd⟩ := call_eq_some hp
      obtain rfl : c = d := Option.some.inj hd
      exact hport p (by rw [hdp]; rfl)
  · intro hc
    -- An operation is stored as outstanding or as pending, or its callback is a call to be made.
    have hstored : (σ c.op.port).outstanding = some c ∨ (σ c.op.port).pending = some c ∨
        ∃ n, (σ c.op.port).call = some (some c, n) := by
      cases hstatus : σ c.op.port <;> rw [hstatus] at hc <;> cases hc
      · exact .inl rfl
      · exact .inr (.inl rfl)
      · exact .inr (.inl rfl)
      · exact .inl rfl
      · exact .inr (.inr ⟨_, rfl⟩)
    rcases hstored with ho | hp | ⟨n, hn⟩
    · left
      cases hport : c.op.port with
      | reader x =>
        rw [hport] at ho
        exact ⟨x, .inl ho⟩
      | writer x =>
        rw [hport] at ho
        exact ⟨x, .inr (.inr (.inl ho))⟩
    · left
      cases hport : c.op.port with
      | reader x =>
        rw [hport] at hp
        exact ⟨x, .inr (.inl hp)⟩
      | writer x =>
        rw [hport] at hp
        exact ⟨x, .inr (.inr (.inr hp))⟩
    · exact .inr ⟨n, h.calls.mem hn⟩

/-- What a FIFO does. -/
structure Fifo (s : State) : Prop where
  asserts : s.failed = false
  /-- A callback is told of no more than its buffer. -/
  told : ∀ k ∈ s.invoked, k.size ≤ k.callback.op.size ∧ k.bytes.length = k.size
  /-- What was read is what was written, with what the running events have still to tell. -/
  account : ∀ x, s.bytes (.reader x) ++ s.callBytes (.reader x) =
    s.bytes (.writer x.other) ++ s.callBytes (.writer x.other)
  /-- While no event is running, it is the same. -/
  delivered : s.calls = [] → ∀ x, s.bytes (.reader x) = s.bytes (.writer x.other)
  once : s.invokedCallbacks.Nodup
  completes : ∀ c, c ∈ s.started ↔ c ∈ s.invokedCallbacks ∨ s.Pending c
  pending : ∀ c, s.Pending c → c ∉ s.invokedCallbacks
  /-- A read and a write that could meet have met. -/
  posted : ∀ x c d, s.Pending c → s.Pending d → c.op.port = .reader x → d.op.port = .writer x.other →
    c.op.size ≠ 0 → d.op.size ≠ 0 →
    ∃ n, Event.read x n ∈ s.events ∨ Event.write x.other n ∈ s.events ∨
      (some c, n) ∈ s.calls ∨ (some d, n) ∈ s.calls

theorem Inv.posted (h : Inv σ s) (hp : (σ (.reader x)).callback = some c)
    (hq : (σ (.writer x.other)).callback = some d) (hc : c.op.size ≠ 0) (hd : d.op.size ≠ 0) :
    ∃ n, Event.read x n ∈ s.events ∨ Event.write x.other n ∈ s.events ∨
      (some c, n) ∈ s.calls ∨ (some d, n) ∈ s.calls := by
  have hlinked : Linked s.memory (σ (.reader x)) (σ (.writer x.other)) := h.linked (.reader x)
  have hbound := h.bound (.reader x)
  have hbound' := h.bound (.writer x.other)
  cases hreader : σ (.reader x) <;> rw [hreader] at hp hlinked hbound <;> cases hp
  case zero => exact absurd hbound hc
  case first n => exact ⟨n, .inl (h.events.mem (i := .reader x) (by rw [hreader]; rfl))⟩
  case second n =>
    refine ⟨n, .inr (.inl (h.events.mem (i := .writer x.other) ?_))⟩
    generalize σ (.writer x.other) = status at hlinked ⊢
    cases hlinked with
    | second => rfl
    | unmatched hp => exact absurd trivial hp
  case calling n =>
    exact ⟨n, .inr (.inr (.inl (h.calls.mem (i := .reader x) (by rw [hreader]; rfl))))⟩
  case waiting =>
    cases hwriter : σ (.writer x.other) <;> rw [hwriter] at hq hlinked hbound' <;> cases hq
    case zero => exact absurd hbound' hd
    case calling n =>
      exact ⟨n, .inr (.inr (.inr (h.calls.mem (i := .writer x.other) (by rw [hwriter]; rfl))))⟩
    all_goals
      cases hlinked with
      | unmatched _ hq hw => first | exact absurd trivial hq | exact absurd rfl (hw _ _ rfl)

theorem Inv.isFifo (h : Inv σ s) : Fifo s where
  asserts := h.asserts
  told := h.told
  account := fun x => h.account (.reader x)
  delivered := by
    intro hcalls x
    have haccount := h.account (.reader x)
    rw [State.callBytes, State.callBytes, hcalls, List.flatMap_nil, List.flatMap_nil,
      List.append_nil, List.append_nil] at haccount
    exact haccount
  once := h.books.nodup
  completes := by
    intro c
    rw [h.pending_iff]
    exact h.books.started_iff c
  pending := by
    intro c hc
    exact h.books.disjoint ((h.pending_iff c).mp hc)
  posted := by
    intro x c d hc hd hcx hdx hcs hds
    rw [h.pending_iff, hcx] at hc
    rw [h.pending_iff, hdx] at hd
    exact h.posted hc hd hcs hds

/-- **The pipe is a FIFO**, whatever is started and whichever events run, in any order. -/
theorem fifo {actions : List Action} {s : State} (h : run step {} actions = some s) : Fifo s := by
  have hinv : ∃ σ, Inv σ s :=
    run_induction (I := fun s => ∃ σ, Inv σ s) (fun _ _ _ ⟨_, hσ⟩ hs => hσ.step hs)
      ⟨_, inv_start⟩ h
  obtain ⟨σ, hσ⟩ := hinv
  exact hσ.isFifo

theorem fifo_inside : ∃ s, run step {} [.asyncWriteSome .a [1, 2, 3], .asyncReadSome .b [0, 0],
    .runEvent 0, .invoke, .asyncReadSome .b [0, 0, 0, 0], .invoke, .asyncWriteSome .a [3]] =
      some s ∧ Fifo s := by
  refine Exists.imp (fun s (h : _ = some s) => ⟨h, fifo h⟩) (Option.isSome_iff_exists.mp ?_)
  rfl

end Mjlib.Micro.StreamPipe
