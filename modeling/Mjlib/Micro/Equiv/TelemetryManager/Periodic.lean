import Mjlib.Micro.Equiv.TelemetryManager

/-!
# `TelemetryManager` flags periodically

`Element.next` counts the polls down.  Commands set it when they set the rate, and `stop` leaves it
behind; nothing reads it while the rate is not above 1.

- `Clock` counts the polls since an element's rate was last set, and `Ticks` says what the countdown
  is then; a step keeps `Ticks` for every element (`ticks_step`).
- `flags_periodically`: in every run an element with a rate above 1 is flagged at the polls whose
  numbers are multiples of the rate.
-/

namespace Mjlib.Micro.TelemetryManager

open Base

/-! ### Rates -/

/-- The rate that an element has when it is given a number. -/
def effectiveRate (rate : ℤ) : ℤ :=
  if rate = 0 then 0 else if rate < kMinRateMs then 1 else toInt rate

/-- The number that a command gives to the element of this index, if it gives it one. -/
def given (names : List Bytes) (i : ℕ) (bytes : Bytes) : Option ℤ :=
  if subcommand bytes = rateName then
    let (name, tokenizer) :=
      (Tokenizer.mk [0x20] (Tokenizer.mk [0x20] bytes).next.2.remaining).next
    if names.findIdx? (fun name' => name' = name.getD []) = some i then
      some (strtol 0 (tokenizer.next.1.getD [])).1
    else none
  else if subcommand bytes = stopName then some 0
  else none

/-- The number that an element was last given, and the polls since. -/
structure Clock where
  rate : ℤ := 0
  polls : ℕ := 0

namespace Clock

/-- What an event does to the clock of the element of this index. -/
def step (names : List Bytes) (i : ℕ) (clock : Clock) : Event → Clock
  | .pollMillisecond => { clock with polls := clock.polls + 1 }
  | .command bytes =>
    match given names i bytes with
    | some rate => { rate := rate }
    | none => clock
  | _ => clock

/-- The clock after a run. -/
def after (names : List Bytes) (i : ℕ) (events : List Event) : Clock :=
  events.foldl (step names i) {}

end Clock

/-- The countdown of an element with this clock. -/
structure Ticks (clock : Clock) (element : Element) : Prop where
  rate : element.rate = effectiveRate clock.rate
  next : 1 < element.rate → element.next = element.rate - clock.polls % element.rate

variable {maxLockers i : ℕ} {s s' : State} {event : Event} {clock : Clock}
  {element : Element}

/-- The flag and the format play no part. -/
theorem Ticks.congr {element' : Element} (h : Ticks clock element)
    (hrate : element'.rate = element.rate) (hnext : element'.next = element.next) :
    Ticks clock element' :=
  ⟨hrate.trans h.rate, by rw [hrate, hnext]; exact h.next⟩

theorem Ticks.bounds (h : Ticks clock element) (hrate : 1 < element.rate) :
    1 ≤ element.next ∧ element.next ≤ element.rate := by
  have hnonneg := Int.emod_nonneg clock.polls (show element.rate ≠ 0 by omega)
  have hlt := Int.emod_lt_of_pos clock.polls (show 0 < element.rate by omega)
  have hnext := h.next hrate
  omega

/-- The next poll brings the countdown to zero when its number is a multiple of the rate. -/
theorem Ticks.next_eq_one_iff (h : Ticks clock element) (hrate : 1 < element.rate) :
    element.next = 1 ↔ element.rate ∣ (clock.polls + 1 : ℕ) := by
  have hnonneg := Int.emod_nonneg clock.polls (show element.rate ≠ 0 by omega)
  have hlt := Int.emod_lt_of_pos clock.polls (show 0 < element.rate by omega)
  rw [h.next hrate, Int.natCast_add, Int.natCast_one, Int.dvd_iff_emod_eq_zero, Int.add_emod,
    Int.emod_eq_of_lt (show (0 : ℤ) ≤ 1 by decide) hrate]
  constructor
  · intro heq
    rw [show (clock.polls : ℤ) % element.rate + 1 = element.rate by omega]
    exact Int.emod_self
  · intro heq
    by_contra hne
    rw [Int.emod_eq_of_lt (by omega) (by omega)] at heq
    omega

theorem Element.poll_of_not (h : ¬ 1 < element.rate) : element.poll = element := by
  rw [Element.poll, if_neg (fun h' => h h'.1)]

/-- What a poll does to an element whose countdown has not run out. -/
theorem Element.poll_of_pos (hrate : 1 < element.rate) (hnext : 0 < element.next) :
    element.poll = if element.next = 1 then
        { element with toSend := true, next := element.rate }
      else { element with next := element.next - 1 } := by
  rw [Element.poll, if_pos ⟨hrate, hnext⟩]
  dsimp only
  by_cases h1 : element.next = 1
  · rw [if_pos (by omega), if_pos h1]
  · rw [if_neg (by omega), if_neg h1]

theorem Ticks.poll (h : Ticks clock element) :
    Ticks { clock with polls := clock.polls + 1 } element.poll := by
  by_cases hrate : 1 < element.rate
  · have hbounds := h.bounds hrate
    have hone := h.next_eq_one_iff hrate
    rw [Element.poll_of_pos hrate (by omega)]
    split_ifs with hnext
    · refine ⟨h.rate, fun _ => ?_⟩
      show element.rate = element.rate - ((clock.polls + 1 : ℕ) : ℤ) % element.rate
      rw [Int.emod_eq_zero_of_dvd (hone.mp hnext), Int.sub_zero]
    · refine ⟨h.rate, fun _ => ?_⟩
      show element.next - 1 = element.rate - ((clock.polls + 1 : ℕ) : ℤ) % element.rate
      have hnonneg := Int.emod_nonneg clock.polls (show element.rate ≠ 0 by omega)
      have heq := h.next hrate
      rw [Int.natCast_add, Int.natCast_one, Int.add_emod,
        Int.emod_eq_of_lt (show (0 : ℤ) ≤ 1 by decide) hrate,
        Int.emod_eq_of_lt (by omega) (by omega)]
      omega
  · rw [Element.poll_of_not hrate]
    exact ⟨h.rate, fun h' => absurd h' hrate⟩

theorem ticks_setRate (rate : ℤ) (element : Element) :
    Ticks { rate := rate } (element.setRate rate) := by
  rw [Element.setRate]
  dsimp only
  split_ifs with hzero hmin
  · subst hzero
    exact ⟨rfl, fun h => absurd h (show ¬ (1 : ℤ) < 0 by decide)⟩
  · refine ⟨by rw [effectiveRate, if_neg hzero, if_pos hmin], fun h => ?_⟩
    exact absurd h (show ¬ (1 : ℤ) < 1 by decide)
  · refine ⟨by rw [effectiveRate, if_neg hzero, if_neg hmin], fun _ => ?_⟩
    show toInt rate = toInt rate - ((0 : ℕ) : ℤ) % toInt rate
    rw [Int.natCast_zero, Int.zero_emod, Int.sub_zero]

theorem ticks_stop (element : Element) : Ticks { rate := 0 } element.stop :=
  ⟨rfl, fun h => absurd h (show ¬ (1 : ℤ) < 0 by decide)⟩

/-! ### What an event does to the elements -/

/-- Every element has its clock. -/
def AllTick (clocks : ℕ → Clock) (elements : List Element) : Prop :=
  ∀ i element, elements[i]? = some element → Ticks (clocks i) element

/-- The elements before a flag is cleared to send one. -/
def prepare (event : Event) (elements : List Element) : Option (List Element) :=
  match event with
  | .update i => some (elements.modify i fun element =>
      if element.rate = 1 then { element with toSend := true } else element)
  | .pollMillisecond => some (elements.map Element.poll)
  | .command bytes => command bytes elements
  | _ => some elements

/-- The elements after an event: as prepared, but for the flag of the one that is asked for. -/
inductive Leaves (s s' : State) (elements : List Element) : Prop
  | quiet (helements : s'.elements = elements) (hasked : s'.asked = s.asked)
  | ask (i : ℕ) (hflagged : flagged elements i = true)
      (helements : s'.elements = elements.modify i fun element => { element with toSend := false })
      (hasked : s'.asked = s.asked ++ [i])

theorem leaves_maybeStartSend (hs : Inv maxLockers s) (hreturning : s.returning = none)
    {elements : List Element} (h : State.maybeStartSend { s with elements := elements } = some s') :
    Leaves s s' elements := by
  simp only [State.maybeStartSend] at h
  split at h
  · cases h
    exact .quiet rfl rfl
  · rename_i hwrite
    split at h
    · cases h
      exact .quiet rfl rfl
    · rename_i i hcheck
      obtain ⟨t, ht, rfl⟩ := Option.map_eq_some_iff.mp h
      obtain ⟨-, helements, hasked, -⟩ := inv_ask hs (by simpa using hwrite) hreturning _ ht
      refine .ask i (List.find?_some hcheck) ?_ ?_
      · split
        · exact helements
        · exact helements
      · split
        · exact hasked
        · exact hasked

theorem leaves_release (hs : AsyncExclusive.Inv maxLockers s.writeStream) {number : ℕ}
    (h : s.useStream (.release number) = some s') : Leaves s s' s.elements := by
  obtain ⟨writeStream, -, haccepted, -, -, -, hcases⟩ := useStream_release hs h
  have hasked : sends writeStream.accepted = s.asked := by rw [haccepted]; rfl
  obtain ⟨-, -, -, -, rfl⟩ | ⟨⟨number, operation⟩, -, -, -, rfl⟩ := hcases
  · exact .quiet rfl hasked
  · cases operation with
    | send i => exact .quiet rfl hasked
    | other => exact .quiet rfl hasked

/-- A list is as it is modified where the function changes the element in the same way. -/
theorem modify_congr {elements : List Element} (he : elements[i]? = some element)
    {f g : Element → Element} (h : f element = g element) :
    elements.modify i f = elements.modify i g := by
  ext1 j
  rw [List.getElem?_modify, List.getElem?_modify]
  by_cases hij : i = j
  · subst hij
    rw [he]
    simp [h]
  · simp [hij]

theorem leaves_of_step (hs : Inv maxLockers s) (h : step s event = some s') :
    ∃ elements, prepare event s.elements = some elements ∧ Leaves s s' elements := by
  cases event with
  | update i =>
    simp only [step] at h
    split at h
    · cases h
    rename_i hreturning
    obtain ⟨element, helement, h⟩ := Option.bind_eq_some_iff.mp h
    refine ⟨_, rfl, ?_⟩
    split at h
    · rename_i hrate
      have hmodify := modify_congr helement (g := fun element => { element with toSend := true })
        (f := fun element => if element.rate = 1 then { element with toSend := true } else element)
        (if_pos hrate)
      rw [hmodify]
      exact leaves_maybeStartSend hs (by simpa using hreturning) h
    · rename_i hrate
      cases h
      have hmodify := modify_congr helement (g := id)
        (f := fun element => if element.rate = 1 then { element with toSend := true } else element)
        (if_neg hrate)
      rw [hmodify, List.modify_id]
      exact .quiet rfl rfl
  | pollMillisecond =>
    simp only [step] at h
    split at h
    · cases h
    rename_i hreturning
    exact ⟨_, rfl, leaves_maybeStartSend hs (by simpa using hreturning) h⟩
  | command bytes =>
    obtain ⟨elements, helements, rfl⟩ := Option.map_eq_some_iff.mp h
    exact ⟨elements, helements, .quiet rfl rfl⟩
  | sent =>
    obtain ⟨number, -, h⟩ := Option.bind_eq_some_iff.mp h
    obtain hleaves := leaves_release
      (s := { s with outstandingWrite := false, writeRelease := none }) hs.stream h
    refine ⟨_, rfl, ?_⟩
    cases hleaves with
    | quiet helements hasked => exact .quiet helements hasked
    | ask i hflagged helements hasked => exact .ask i hflagged helements hasked
  | «return» =>
    obtain ⟨i, hi, rfl⟩ := Option.map_eq_some_iff.mp h
    exact ⟨_, rfl, .quiet rfl rfl⟩
  | lock =>
    obtain ⟨-, helements, hasked, -⟩ := useStream_other hs h
    exact ⟨_, rfl, .quiet helements hasked⟩
  | unlock number =>
    simp only [step] at h
    split at h
    · exact ⟨_, rfl, leaves_release hs.stream h⟩
    · cases h

/-! ### Commands -/

/-- What a command does to an element: it gives it a rate, stops it, or leaves its rate, its
countdown and its flag. -/
inductive Commanded (names : List Bytes) (bytes : Bytes) (i : ℕ) (element : Element) :
    Element → Prop
  | given {rate : ℤ} (hgiven : given names i bytes = some rate)
      (hstop : subcommand bytes ≠ stopName) : Commanded names bytes i element (element.setRate rate)
  | stop (hgiven : given names i bytes = some 0) (hstop : subcommand bytes = stopName) :
      Commanded names bytes i element element.stop
  | other (text : Bool) (hgiven : given names i bytes = none)
      (hstop : subcommand bytes ≠ stopName) :
      Commanded names bytes i element { element with text := text }

theorem find_eq (name : Bytes) (elements : List Element) :
    find name elements
      = (elements.map Element.name).findIdx? (fun name' => name' = name) := by
  rw [find, List.findIdx?_map]
  rfl

theorem commanded {bytes : Bytes} {elements elements' : List Element}
    (h : command bytes elements = some elements') (he : elements[i]? = some element) :
    ∃ element', elements'[i]? = some element' ∧
      Commanded (elements.map Element.name) bytes i element element' := by
  have hsame : ({ element with text := element.text } : Element) = element := rfl
  simp only [command] at h
  split_ifs at h with hrate hfmt hstop htext
  · have hne : subcommand bytes ≠ stopName := by rw [hrate]; decide
    simp only [rate, find_eq] at h
    split at h
    · rename_i hfind
      cases h
      refine ⟨element, he, hsame ▸ .other element.text ?_ hne⟩
      simp only [given, if_pos hrate, hfind]
      rfl
    · rename_i j hfind
      split_ifs at h with hlen
      cases h
      rw [List.getElem?_modify, he]
      by_cases hij : j = i
      · subst hij
        refine ⟨_, by simp; rfl, .given ?_ hne⟩
        simp only [given, if_pos hrate, hfind]
        rfl
      · refine ⟨element, by simp [hij], hsame ▸ .other element.text ?_ hne⟩
        simp only [given, if_pos hrate, hfind]
        exact if_neg (fun h => hij (Option.some.inj h))
  · have hne : subcommand bytes ≠ stopName := by rw [hfmt]; decide
    have hgiven : given (elements.map Element.name) i bytes = none := by
      rw [given, if_neg hrate, if_neg hne]
    simp only [format] at h
    split at h
    · cases h
      exact ⟨element, he, hsame ▸ .other element.text hgiven hne⟩
    · rename_i j hfind
      split_ifs at h with hlen
      cases h
      rw [List.getElem?_modify, he]
      by_cases hij : j = i
      · exact ⟨_, congrArg some (if_pos hij), .other _ hgiven hne⟩
      · exact ⟨element, by simp [hij], hsame ▸ .other element.text hgiven hne⟩
  · cases h
    refine ⟨_, by rw [stop, List.getElem?_map, he]; rfl, .stop ?_ hstop⟩
    rw [given, if_neg hrate, if_pos hstop]
  · cases h
    refine ⟨_, by rw [text, List.getElem?_map, he]; rfl, .other true ?_ hstop⟩
    rw [given, if_neg hrate, if_neg hstop]
  · cases h
    refine ⟨element, he, hsame ▸ .other element.text ?_ hstop⟩
    rw [given, if_neg hrate, if_neg hstop]

/-! ### One step -/

/-- What an event does to the element of an index, before a flag is cleared. -/
inductive Prepared (names : List Bytes) (i : ℕ) (element : Element) : Event → Element → Prop
  | poll : Prepared names i element .pollMillisecond element.poll
  | update (h : element.rate = 1) :
      Prepared names i element (.update i) { element with toSend := true }
  | command {bytes : Bytes} {element' : Element} (h : Commanded names bytes i element element') :
      Prepared names i element (.command bytes) element'
  | other {event : Event} (hpoll : event ≠ .pollMillisecond)
      (hupdate : ¬ (event = .update i ∧ element.rate = 1))
      (hcommand : ∀ bytes, event ≠ .command bytes) :
      Prepared names i element event element

theorem prepared {elements elements' : List Element} (h : prepare event elements = some elements')
    (he : elements[i]? = some element) : ∃ element', elements'[i]? = some element' ∧
      Prepared (elements.map Element.name) i element event element' := by
  have hsame : ∀ {event : Event}, event ≠ .pollMillisecond →
      ¬ (event = .update i ∧ element.rate = 1) → (∀ bytes, event ≠ .command bytes) →
      ∃ element', elements[i]? = some element' ∧
        Prepared (elements.map Element.name) i element event element' :=
    fun h1 h2 h3 => ⟨element, he, .other h1 h2 h3⟩
  cases event with
  | update j =>
    cases h
    rw [List.getElem?_modify, he]
    by_cases hij : j = i
    · subst hij
      by_cases hrate : element.rate = 1
      · exact ⟨_, by simp [hrate], .update hrate⟩
      · exact ⟨element, by simp [hrate], .other nofun (fun h => hrate h.2) nofun⟩
    · exact ⟨element, by simp [hij], .other nofun (fun h => hij (Event.update.inj h.1)) nofun⟩
  | pollMillisecond =>
    cases h
    exact ⟨_, by rw [List.getElem?_map, he]; rfl, .poll⟩
  | command bytes =>
    obtain ⟨element', he', hcommanded⟩ := commanded h he
    exact ⟨element', he', .command hcommanded⟩
  | sent =>
    cases h
    exact hsame nofun (fun h => nomatch h.1) nofun
  | «return» =>
    cases h
    exact hsame nofun (fun h => nomatch h.1) nofun
  | lock =>
    cases h
    exact hsame nofun (fun h => nomatch h.1) nofun
  | unlock number =>
    cases h
    exact hsame nofun (fun h => nomatch h.1) nofun

/-- The clock keeps pace with the element. -/
theorem Prepared.ticks {names : List Bytes} {element' : Element}
    (hp : Prepared names i element event element') (h : Ticks clock element) :
    Ticks (clock.step names i event) element' := by
  cases hp with
  | poll => exact h.poll
  | update hrate => exact h.congr rfl rfl
  | command hcommand =>
    cases hcommand with
    | given hgiven hstop =>
      rw [Clock.step, hgiven]
      exact ticks_setRate _ element
    | stop hgiven hstop =>
      rw [Clock.step, hgiven]
      exact ticks_stop element
    | other text hgiven hstop =>
      rw [Clock.step, hgiven]
      exact h.congr rfl rfl
  | other hpoll hupdate hcommand =>
    have hclock : clock.step names i event = clock := by
      cases event with
      | pollMillisecond => exact absurd rfl hpoll
      | command bytes => exact absurd rfl (hcommand bytes)
      | update j => rfl
      | sent => rfl
      | «return» => rfl
      | lock => rfl
      | unlock number => rfl
    rw [hclock]
    exact h

theorem Prepared.name_eq {names : List Bytes} {element' : Element}
    (hp : Prepared names i element event element') : element'.name = element.name := by
  cases hp with
  | poll =>
    rw [Element.poll]
    dsimp only
    split_ifs <;> rfl
  | update hrate => rfl
  | command hcommand =>
    cases hcommand with
    | given hgiven hstop =>
      rw [Element.setRate]
      dsimp only
      split_ifs <;> rfl
    | stop hgiven hstop => rfl
    | other text hgiven hstop => rfl
  | other hpoll hupdate hcommand => rfl

/-- A poll flags an element with a rate above 1 when the number of the poll is a multiple of it. -/
theorem toSend_poll_iff (h : Ticks clock element) : element.poll.toSend = true ↔
    element.toSend = true ∨ 1 < element.rate ∧ element.rate ∣ (clock.polls + 1 : ℕ) := by
  by_cases hrate : 1 < element.rate
  · have hbounds := h.bounds hrate
    rw [Element.poll_of_pos hrate (by omega), ← h.next_eq_one_iff hrate]
    by_cases hnext : element.next = 1
    · simp [hnext, hrate]
    · simp [hnext]
  · rw [Element.poll_of_not hrate]
    simp [hrate]

/-- Whether an element is flagged when it is prepared. -/
theorem Prepared.toSend_iff {names : List Bytes} {element' : Element}
    (hp : Prepared names i element event element') (h : Ticks clock element) :
    element'.toSend = true ↔ (element.toSend = true ∧ ¬ event.IsStop) ∨
      (event = .pollMillisecond ∧ 1 < element.rate ∧ element.rate ∣ (clock.polls + 1 : ℕ)) ∨
      (event = .update i ∧ element.rate = 1) := by
  cases hp with
  | poll =>
    rw [toSend_poll_iff h]
    simp [Event.IsStop]
  | update hrate => simp [hrate]
  | command hcommand =>
    cases hcommand with
    | given hgiven hstop => simp [Element.toSend_setRate, Event.IsStop, hstop]
    | stop hgiven hstop => simp [Element.stop, Event.IsStop, hstop]
    | other text hgiven hstop => simp [Event.IsStop, hstop]
  | other hpoll hupdate hcommand =>
    have hstop : ¬ event.IsStop := by
      intro hstop
      cases event with
      | command bytes => exact absurd rfl (hcommand bytes)
      | _ => exact hstop
    simp [hpoll, hstop, hupdate]

/-! ### Every run -/

/-- What holds in every state of a run over elements with these names. -/
structure Periodic (maxLockers : ℕ) (names : List Bytes) (clocks : ℕ → Clock) (s : State) :
    Prop where
  inv : Inv maxLockers s
  names : s.elements.map Element.name = names
  ticks : ∀ i element, s.elements[i]? = some element → Ticks (clocks i) element

/-- Clearing a flag changes neither the names nor the countdowns. -/
theorem Leaves.getElem? {elements : List Element} (h : Leaves s s' elements) {element' : Element}
    (he : s'.elements[i]? = some element') : ∃ element, elements[i]? = some element ∧
      element'.name = element.name ∧ element'.rate = element.rate ∧
      element'.next = element.next := by
  cases h with
  | quiet helements hasked => exact ⟨element', helements ▸ he, rfl, rfl, rfl⟩
  | ask j hflagged helements hasked =>
    rw [helements, List.getElem?_modify] at he
    obtain ⟨element, helement, rfl⟩ := Option.map_eq_some_iff.mp he
    refine ⟨element, helement, ?_⟩
    split_ifs
    · exact ⟨rfl, rfl, rfl⟩
    · exact ⟨rfl, rfl, rfl⟩

theorem Leaves.length_eq {elements : List Element} (h : Leaves s s' elements) :
    s'.elements.length = elements.length := by
  cases h with
  | quiet helements hasked => rw [helements]
  | ask j hflagged helements hasked => rw [helements, List.length_modify]

/-- An element is flagged or asked for after the step if it was flagged before a flag was
cleared. -/
theorem Leaves.flagged_iff {elements : List Element} (h : Leaves s s' elements) :
    flagged s'.elements i = true ∨ s'.asked = s.asked ++ [i] ↔ flagged elements i = true := by
  cases h with
  | quiet helements hasked =>
    rw [helements, hasked]
    simp
  | ask j hflagged helements hasked =>
    rw [hasked, List.append_cancel_left_eq]
    by_cases hij : j = i
    · subst hij
      simp [hflagged]
    · have hsame : flagged s'.elements i = flagged elements i := by
        rw [helements, flagged, List.getElem?_modify_ne _ _ hij]
        rfl
      simp [hij, hsame]

theorem length_prepare {elements elements' : List Element}
    (h : prepare event elements = some elements') : elements'.length = elements.length := by
  cases event with
  | update i =>
    cases h
    exact List.length_modify _ _ _
  | pollMillisecond =>
    cases h
    exact List.length_map _
  | command bytes => exact length_command h
  | sent => cases h; rfl
  | «return» => cases h; rfl
  | lock => cases h; rfl
  | unlock number => cases h; rfl

/-- **One step** keeps every clock. -/
theorem periodic_step {names : List Bytes} {clocks : ℕ → Clock}
    (hs : Periodic maxLockers names clocks s) (h : step s event = some s') :
    Periodic maxLockers names (fun i => (clocks i).step names i event) s' := by
  obtain ⟨elements, hprepare, hleaves⟩ := leaves_of_step hs.inv h
  -- what became of an element
  have hback : ∀ i element', s'.elements[i]? = some element' → ∃ element, ∃ element₁,
      s.elements[i]? = some element ∧ Prepared names i element event element₁ ∧
      element'.name = element₁.name ∧ element'.rate = element₁.rate ∧
      element'.next = element₁.next := by
    intro i element' he'
    obtain ⟨element₁, he₁, hsame⟩ := hleaves.getElem? he'
    have hi : i < s.elements.length := by
      rw [← length_prepare hprepare]
      exact (List.getElem?_eq_some_iff.mp he₁).1
    obtain ⟨element₂, he₂, hprepared⟩ := prepared hprepare (List.getElem?_eq_getElem hi)
    obtain rfl : element₁ = element₂ := Option.some.inj (he₁.symm.trans he₂)
    exact ⟨_, element₁, List.getElem?_eq_getElem hi, hs.names ▸ hprepared, hsame⟩
  refine ⟨inv_step _ _ _ hs.inv h, ?_, fun i element' he' => ?_⟩
  · rw [← hs.names]
    refine List.ext_getElem (by
      rw [List.length_map, List.length_map, hleaves.length_eq, length_prepare hprepare])
      fun i h₁ h₂ => ?_
    rw [List.length_map] at h₁ h₂
    obtain ⟨element, element₁, he, hprepared, hname, -⟩ :=
      hback i _ (List.getElem?_eq_getElem h₁)
    rw [List.getElem_map, List.getElem_map, hname, hprepared.name_eq]
    rw [List.getElem?_eq_getElem h₂] at he
    rw [Option.some.inj he]
  · obtain ⟨element, element₁, he, hprepared, -, hrate, hnext⟩ := hback i element' he'
    exact (hprepared.ticks (hs.ticks i element he)).congr hrate hnext

theorem periodic_run {names : List Bytes} {events : List Event} :
    ∀ {clocks : ℕ → Clock} {s : State}, Periodic maxLockers names clocks s →
    Run.run step s events = some s' →
    Periodic maxLockers names (fun i => events.foldl (Clock.step names i) (clocks i)) s' := by
  induction events with
  | nil =>
    intro clocks s hs h
    cases h
    exact hs
  | cons event events ih =>
    intro clocks s hs h
    obtain ⟨t, hstep, hrun⟩ := (Run.run_cons_eq_some step).mp h
    exact ih (periodic_step hs hstep) hrun

theorem periodic_init (maxLockers : ℕ) (names : List Bytes) :
    Periodic maxLockers names (fun _ => {})
      (State.init maxLockers (names.map fun name => { name := name })) where
  inv := inv_init maxLockers _
  names := by
    show (names.map _).map _ = names
    rw [List.map_map]
    exact List.map_id _
  ticks i element he := by
    obtain ⟨name, -, rfl⟩ := Option.map_eq_some_iff.mp ((List.getElem?_map).symm.trans he)
    exact ⟨rfl, fun h => absurd h (show ¬ (1 : ℤ) < 0 by decide)⟩

/-- **Periodic rates.** In every run, an element has the rate that the last number it was given
stands for, and while the rate is above 1 its countdown is between 1 and the rate.  A poll flags it
exactly if the number of the poll, counted from when the rate was set, is a multiple of the rate.
After any event an element is flagged, or its send is asked for, if and only if it was flagged
before and is not stopped, or the event is such a poll or an update of an element with the rate
1. -/
theorem flags_periodically (maxLockers : ℕ) (names : List Bytes) (events : List Event) (s : State)
    (h : Run.run step (State.init maxLockers (names.map fun name => { name := name })) events
      = some s) (i : ℕ) (element : Element) (he : s.elements[i]? = some element) :
    element.rate = effectiveRate (Clock.after names i events).rate ∧
    (1 < element.rate → 1 ≤ element.next ∧ element.next ≤ element.rate ∧
      (({ element with toSend := false } : Element).poll.toSend = true ↔
        element.rate ∣ ((Clock.after names i events).polls + 1 : ℕ))) ∧
    ∀ event s', step s event = some s' →
      (flagged s'.elements i = true ∨ s'.asked = s.asked ++ [i] ↔
        (element.toSend = true ∧ ¬ event.IsStop) ∨
        (event = .pollMillisecond ∧ 1 < element.rate ∧
          element.rate ∣ ((Clock.after names i events).polls + 1 : ℕ)) ∨
        (event = .update i ∧ element.rate = 1)) := by
  have hs := periodic_run (periodic_init maxLockers names) h
  have hticks : Ticks (Clock.after names i events) element := hs.ticks i element he
  refine ⟨hticks.rate, fun hrate => ⟨(hticks.bounds hrate).1, (hticks.bounds hrate).2, ?_⟩,
    fun event s' hstep => ?_⟩
  · have hclear : Ticks (Clock.after names i events) { element with toSend := false } :=
      hticks.congr rfl rfl
    rw [toSend_poll_iff hclear]
    simp [hrate]
  · obtain ⟨elements, hprepare, hleaves⟩ := leaves_of_step hs.inv hstep
    obtain ⟨element', he', hprepared⟩ := prepared hprepare he
    have hflagged : flagged elements i = element'.toSend := by
      rw [flagged, he']
      rfl
    rw [hleaves.flagged_iff, hflagged]
    exact hprepared.toSend_iff hticks

/-- The command that gives the element `a` the rate 10, and nine polls. -/
def ninePolls : List Event :=
  .command [0x72, 0x61, 0x74, 0x65, 0x20, 0x61, 0x20, 0x31, 0x30]
    :: List.replicate 9 .pollMillisecond

/-- The next poll is the tenth. -/
theorem flags_periodically_ten :
    ∃ (s : State) (element : Element), Run.run step
        (State.init 3 ([[0x61], [0x62]].map fun name => ({ name := name } : Element)))
        ninePolls = some s ∧
      s.elements[0]? = some element ∧ 1 < element.rate ∧
      1 ≤ element.next ∧ element.next ≤ element.rate ∧
      (({ element with toSend := false } : Element).poll.toSend = true ↔
        element.rate ∣ ((Clock.after [[0x61], [0x62]] 0 ninePolls).polls + 1 : ℕ)) := by
  refine ⟨_, _, rfl, rfl, by decide, ?_⟩
  exact (flags_periodically 3 [[0x61], [0x62]] ninePolls _ rfl 0 _ rfl).2.1 (by decide)

end Mjlib.Micro.TelemetryManager
