import Mathlib
import Mjlib.Micro.AtomicEventQueue

/-!
# `AtomicEventQueue` loses nothing

`Inv` relates every entry to the call that owns it and to the poller (`EntryOk`), the count to the
entries that were published, and the functions that were stored to those that were run; every step
keeps it (`Inv.step`).
-/

namespace Mjlib.Micro.AtomicEventQueue

variable {φ : Type*}

/-! ### Sums -/

/-- A sum over a list with one element changed. -/
theorem sum_map_set {α M : Type*} [AddCommMonoid M] (f : α → M) {l : List α} {k : ℕ} {a : α} (b : α)
    (h : l[k]? = some a) : ((l.set k b).map f).sum + f a = (l.map f).sum + f b := by
  induction l generalizing k with
  | nil => cases h
  | cons x l ih =>
    cases k with
    | zero =>
      obtain rfl : x = a := Option.some.inj h
      rw [List.set_cons_zero, List.map_cons, List.map_cons, List.sum_cons, List.sum_cons]
      abel
    | succ k =>
      have := ih h
      rw [List.set_cons_succ, List.map_cons, List.map_cons, List.sum_cons, List.sum_cons, add_assoc,
        this, add_assoc]

/-! ### The invariant -/

/-- What a call holds of an entry: nothing, or the entry with what it has stored there. -/
def Call.owned (i : ℕ) (c : Call φ) : Multiset (Option φ) :=
  match c.pc with
  | .store j => if j = i then {none} else 0
  | .publish j => if j = i then {some c.function} else 0
  | _ => 0

/-- The function of a call, once it is stored. -/
def Call.stored (c : Call φ) : Multiset φ :=
  match c.pc with
  | .publish _ | .count | .done true => {c.function}
  | _ => 0

/-- One for a call that has yet to count what it has published. -/
def Call.counting (c : Call φ) : ℤ :=
  match c.pc with
  | .count => 1
  | _ => 0

/-- What an entry holds. -/
def Entry.held (e : Entry φ) : Multiset φ := e.function.elim 0 fun f => {f}

/-- One for an entry that is published. -/
def Entry.published (e : Entry φ) : ℤ := if e.state = 3 ∨ e.state = 7 then 1 else 0

/-- The entry that the poller works on. -/
def PollPc.entry? : PollPc φ → Option ℕ
  | .mark i | .copy i | .clear i _ | .free i _ => some i
  | _ => none

/-- What the poller alone holds. -/
def PollPc.held : PollPc φ → Multiset φ
  | .free _ function | .run _ function => function.elim 0 fun f => {f}
  | _ => 0

/-- One for a poller that has yet to take what it has freed off the count. -/
def PollPc.counting : PollPc φ → ℤ
  | .run _ _ | .uncount _ => 1
  | _ => 0

/-- What the poller has seen the count to be. -/
def PollPc.least : PollPc φ → ℤ
  | .idle | .count _ => 0
  | _ => 1

/-- What the calls hold of an entry. -/
def owners (calls : List (Call φ)) (i : ℕ) : Multiset (Option φ) := (calls.map (Call.owned i)).sum

/-- The states of an entry: who works on it, and what it holds. -/
inductive EntryOk (owners : Multiset (Option φ)) (poll : PollPc φ) (i : ℕ) : Entry φ → Prop
  | free (ho : owners = 0) (hp : poll.entry? ≠ some i) : EntryOk owners poll i ⟨0, none⟩
  | claimed (function : Option φ) (ho : owners = {function}) (hp : poll.entry? ≠ some i) :
      EntryOk owners poll i ⟨1, function⟩
  | full (function : φ) (ho : owners = 0) (hp : poll.entry? = some i → poll = .mark i) :
      EntryOk owners poll i ⟨3, some function⟩
  | copy (function : φ) (ho : owners = 0) (hp : poll = .copy i) :
      EntryOk owners poll i ⟨7, some function⟩
  | clear (function : φ) (ho : owners = 0) (hp : poll = .clear i (some function)) :
      EntryOk owners poll i ⟨7, some function⟩
  | cleared (function : φ) (ho : owners = 0) (hp : poll = .free i (some function)) :
      EntryOk owners poll i ⟨7, none⟩

/-- The invariant. -/
structure Inv (s : State φ) : Prop where
  entry : ∀ i e, s.entries[i]? = some e → EntryOk (owners s.calls i) s.poll i e
  run : ∀ i copy, s.poll = .run i copy → copy ≠ none
  count : s.count + (s.calls.map Call.counting).sum =
    (s.entries.map Entry.published).sum + s.poll.counting
  least : s.poll.least ≤ s.count
  stored : (s.calls.map Call.stored).sum = s.ran + (s.entries.map Entry.held).sum + s.poll.held
  failure : s.failure = none ∨ s.failure = some .full

theorem inv_init (size : ℕ) : Inv (init φ size) := by
  have hentry : ∀ (i : ℕ) (e : Entry φ), (init φ size).entries[i]? = some e → e = ⟨0, none⟩ := by
    intro i e h
    exact (List.mem_replicate.mp (List.mem_of_getElem? h)).2
  refine ⟨fun i e h => ?_, nofun, ?_, le_refl _, ?_, Or.inl rfl⟩
  · rw [hentry i e h]
    exact .free rfl nofun
  · simp [init, Entry.published, PollPc.counting]
  · simp [init, Entry.held, PollPc.held]

/-! ### Entries that a step does not touch -/

theorem EntryOk.of_poll {os : Multiset (Option φ)} {poll poll' : PollPc φ} {i : ℕ} {e : Entry φ}
    (h : EntryOk os poll i e) (hp : poll.entry? ≠ some i) (hp' : poll'.entry? ≠ some i) :
    EntryOk os poll' i e := by
  cases h with
  | free ho => exact .free ho hp'
  | claimed f ho => exact .claimed f ho hp'
  | full f ho => exact .full f ho (fun h => absurd h hp')
  | copy f ho h => exact absurd (h ▸ rfl) hp
  | clear f ho h => exact absurd (h ▸ rfl) hp
  | cleared f ho h => exact absurd (h ▸ rfl) hp

/-- The entries after a step that changes one of them. -/
theorem Inv.entry_set {s s' : State φ} {j : ℕ} {e' : Entry φ} (h : Inv s)
    (hset : s'.entries = s.entries.set j e')
    (howners : ∀ i, i ≠ j → owners s'.calls i = owners s.calls i)
    (hpoll : ∀ i, i ≠ j → s'.poll = s.poll ∨ s.poll.entry? ≠ some i ∧ s'.poll.entry? ≠ some i)
    (hj : EntryOk (owners s'.calls j) s'.poll j e') :
    ∀ i e, s'.entries[i]? = some e → EntryOk (owners s'.calls i) s'.poll i e := by
  intro i e he
  rw [hset, List.getElem?_set] at he
  split_ifs at he with hij
  · subst hij
    cases he
    exact hj
  · have hok := h.entry i e he
    rw [howners i (Ne.symm hij)]
    rcases hpoll i (Ne.symm hij) with hp | ⟨hp, hp'⟩
    · rwa [hp]
    · exact hok.of_poll hp hp'

theorem owners_set {calls : List (Call φ)} {k : ℕ} {c c' : Call φ} (h : calls[k]? = some c) (i : ℕ) :
    owners (calls.set k c') i + c.owned i = owners calls i + c'.owned i :=
  sum_map_set (Call.owned i) c' h

/-- A call that neither takes nor gives up an entry. -/
theorem owners_set_of_eq {calls : List (Call φ)} {k : ℕ} {c c' : Call φ} (h : calls[k]? = some c)
    {i : ℕ} (howned : c'.owned i = c.owned i) : owners (calls.set k c') i = owners calls i :=
  add_right_cancel ((owners_set h i).trans (by rw [howned]))

/-- What a call holds of an entry is part of what all calls hold of it. -/
theorem owned_le_owners {calls : List (Call φ)} {k : ℕ} {c : Call φ} (h : calls[k]? = some c)
    (i : ℕ) : c.owned i ≤ owners calls i :=
  List.single_le_sum (fun _ _ => Multiset.zero_le _) _
    (List.mem_map_of_mem (List.mem_of_getElem? h))

/-- The entry that a call holds is claimed, and holds what the call has stored. -/
theorem EntryOk.of_owned {calls : List (Call φ)} {poll : PollPc φ} {i k : ℕ} {e : Entry φ}
    {c : Call φ} {f : Option φ} (h : EntryOk (owners calls i) poll i e) (hc : calls[k]? = some c)
    (howned : c.owned i = {f}) :
    e = ⟨1, f⟩ ∧ owners calls i = {f} ∧ poll.entry? ≠ some i := by
  have hle := owned_le_owners hc i
  rw [howned] at hle
  have hne : owners calls i ≠ 0 := by
    intro h0
    rw [h0] at hle
    exact absurd (Multiset.singleton_le.mp hle) (Multiset.notMem_zero _)
  cases h with
  | claimed function ho hp =>
    rw [ho] at hle
    obtain rfl : f = function := Multiset.mem_singleton.mp (Multiset.singleton_le.mp hle)
    exact ⟨rfl, ho, hp⟩
  | free ho => exact absurd ho hne
  | full f ho => exact absurd ho hne
  | copy f ho => exact absurd ho hne
  | clear f ho => exact absurd ho hne
  | cleared f ho => exact absurd ho hne

/-- The entry that the poller has found full and not yet marked. -/
theorem EntryOk.of_mark {os : Multiset (Option φ)} {i : ℕ} {e : Entry φ}
    (h : EntryOk os (.mark i) i e) : os = 0 ∧ ∃ f, e = ⟨3, some f⟩ := by
  cases h with
  | full f ho => exact ⟨ho, f, rfl⟩
  | free _ hp => exact absurd rfl hp
  | claimed _ _ hp => exact absurd rfl hp
  | copy _ _ hp => cases hp
  | clear _ _ hp => cases hp
  | cleared _ _ hp => cases hp

theorem EntryOk.of_copy {os : Multiset (Option φ)} {i : ℕ} {e : Entry φ}
    (h : EntryOk os (.copy i) i e) : os = 0 ∧ ∃ f, e = ⟨7, some f⟩ := by
  cases h with
  | copy f ho => exact ⟨ho, f, rfl⟩
  | free _ hp => exact absurd rfl hp
  | claimed _ _ hp => exact absurd rfl hp
  | full _ _ hp => cases hp rfl
  | clear _ _ hp => cases hp
  | cleared _ _ hp => cases hp

theorem EntryOk.of_clear {os : Multiset (Option φ)} {i : ℕ} {e : Entry φ} {copy : Option φ}
    (h : EntryOk os (.clear i copy) i e) : os = 0 ∧ ∃ f, copy = some f ∧ e = ⟨7, some f⟩ := by
  cases h with
  | clear f ho hp =>
    cases hp
    exact ⟨ho, f, rfl, rfl⟩
  | free _ hp => exact absurd rfl hp
  | claimed _ _ hp => exact absurd rfl hp
  | full _ _ hp => cases hp rfl
  | copy _ _ hp => cases hp
  | cleared _ _ hp => cases hp

theorem EntryOk.of_free {os : Multiset (Option φ)} {i : ℕ} {e : Entry φ} {copy : Option φ}
    (h : EntryOk os (.free i copy) i e) : os = 0 ∧ ∃ f, copy = some f ∧ e = ⟨7, none⟩ := by
  cases h with
  | cleared f ho hp =>
    cases hp
    exact ⟨ho, f, rfl, rfl⟩
  | free _ hp => exact absurd rfl hp
  | claimed _ _ hp => exact absurd rfl hp
  | full _ _ hp => cases hp rfl
  | copy _ _ hp => cases hp
  | clear _ _ hp => cases hp

/-! ### Quiet steps -/

/-- A call that holds nothing. -/
def QueuePc.Quiet : QueuePc → Prop
  | .load _ | .claim _ | .done false => True
  | _ => False

theorem Call.owned_of_quiet {c : Call φ} (h : c.pc.Quiet) (i : ℕ) : c.owned i = 0 := by
  unfold Call.owned
  split <;> simp_all [QueuePc.Quiet]

theorem Call.stored_of_quiet {c : Call φ} (h : c.pc.Quiet) : c.stored = 0 := by
  unfold Call.stored
  split <;> simp_all [QueuePc.Quiet]

theorem Call.counting_of_quiet {c : Call φ} (h : c.pc.Quiet) : c.counting = 0 := by
  unfold Call.counting
  split <;> simp_all [QueuePc.Quiet]

/-- A call that holds nothing goes somewhere else. -/
theorem Inv.setPc {s : State φ} {k : ℕ} {c : Call φ} {pc : QueuePc} (h : Inv s)
    (hc : s.calls[k]? = some c) (hq : c.pc.Quiet) (hq' : pc.Quiet) : Inv (s.setPc k c pc) := by
  have hown : ∀ i, owners (s.setPc k c pc).calls i = owners s.calls i := fun i =>
    owners_set_of_eq hc ((Call.owned_of_quiet hq' i).trans (Call.owned_of_quiet hq i).symm)
  refine ⟨?_, h.run, ?_, h.least, ?_, h.failure⟩
  · intro i e he
    rw [hown]
    exact h.entry i e he
  · have := sum_map_set Call.counting { c with pc } hc
    rw [Call.counting_of_quiet hq, Call.counting_of_quiet hq'] at this
    have hcount := h.count
    unfold State.setPc
    dsimp only
    omega
  · have := sum_map_set Call.stored { c with pc } hc
    rw [Call.stored_of_quiet hq, Call.stored_of_quiet hq', add_zero, add_zero] at this
    unfold State.setPc
    dsimp only
    rw [this]
    exact h.stored

theorem Inv.fail_full {s : State φ} (h : Inv s) : Inv (s.fail .full) :=
  ⟨h.entry, h.run, h.count, h.least, h.stored, Or.inr rfl⟩

theorem Inv.scan {s : State φ} {k : ℕ} {c : Call φ} (h : Inv s) (hc : s.calls[k]? = some c)
    (hq : c.pc.Quiet) (i : ℕ) : Inv (s.scan k c i) := by
  unfold State.scan
  split_ifs
  · exact h.setPc hc hq trivial
  · exact h.setPc hc hq trivial
  · exact h.fail_full

/-- The poller is between two entries. -/
def PollPc.Quiet : PollPc φ → Prop
  | .idle | .count _ | .load _ => True
  | _ => False

/-- A poller that holds nothing goes somewhere else. -/
theorem Inv.setPoll {s : State φ} {poll : PollPc φ} (h : Inv s) (hq : s.poll.Quiet)
    (hq' : poll.Quiet) (hleast : poll.least ≤ s.count) : Inv (s.setPoll poll) := by
  have hzero : ∀ p : PollPc φ, p.Quiet → p.entry? = none ∧ p.counting = 0 ∧ p.held = 0 := by
    intro p hp
    cases p <;> first | exact ⟨rfl, rfl, rfl⟩ | exact hp.elim
  obtain ⟨hentry, hcounting, hheld⟩ := hzero _ hq
  obtain ⟨hentry', hcounting', hheld'⟩ := hzero _ hq'
  refine ⟨?_, ?_, ?_, hleast, ?_, h.failure⟩
  · intro i e he
    exact (h.entry i e he).of_poll (hentry ▸ nofun) (by
      show poll.entry? ≠ some i
      exact hentry' ▸ nofun)
  · rintro i copy rfl
    exact hq'.elim
  · have := h.count
    rw [hcounting] at this
    exact this.trans (by rw [State.setPoll, hcounting'])
  · have := h.stored
    rw [hheld] at this
    exact this.trans (by rw [State.setPoll, hheld'])

theorem Inv.pollFrom {s : State φ} (h : Inv s) (hq : s.poll.Quiet) (hcount : 0 ≤ s.count) (i : ℕ) :
    Inv (s.pollFrom i) := by
  unfold State.pollFrom
  split_ifs
  · exact h.setPoll hq trivial hcount
  · exact h.setPoll hq trivial hcount

/-! ### Steps that change an entry -/

theorem State.setEntry_self {s : State φ} {i : ℕ} {e : Entry φ} (he : s.entries[i]? = some e) :
    s.setEntry i e = s := by
  have : s.entries.set i e = s.entries := by
    refine List.ext_getElem? fun j => ?_
    rw [List.getElem?_set]
    split_ifs with hij hlt
    · rw [← hij, he]
    · rw [← hij, List.getElem?_eq_none (not_lt.mp hlt)]
    · rfl
  unfold State.setEntry
  rw [this]

/-- A call of `Queue` changes an entry. -/
theorem Inv.setEntry_setPc {s : State φ} {k i : ℕ} {c : Call φ} {pc : QueuePc} {e e' : Entry φ}
    (h : Inv s) (hc : s.calls[k]? = some c) (he : s.entries[i]? = some e)
    (howned : ∀ j, j ≠ i → ({ c with pc } : Call φ).owned j = c.owned j)
    (hok : EntryOk (owners (s.calls.set k { c with pc }) i) s.poll i e')
    (hpub : ({ c with pc } : Call φ).counting + e.published = c.counting + e'.published)
    (hheld : ({ c with pc } : Call φ).stored + e.held = c.stored + e'.held) :
    Inv ((s.setEntry i e').setPc k c pc) := by
  refine ⟨?_, h.run, ?_, h.least, ?_, h.failure⟩
  · exact h.entry_set rfl (fun j hj => owners_set_of_eq hc (howned j hj)) (fun _ _ => Or.inl rfl) hok
  · have h₁ := sum_map_set Call.counting { c with pc } hc
    have h₂ := sum_map_set Entry.published e' he
    have h₃ := h.count
    show s.count + ((s.calls.set k { c with pc }).map Call.counting).sum =
      ((s.entries.set i e').map Entry.published).sum + s.poll.counting
    omega
  · have h₁ := sum_map_set Call.stored { c with pc } hc
    have h₂ := sum_map_set Entry.held e' he
    have h₃ := h.stored
    show ((s.calls.set k { c with pc }).map Call.stored).sum =
      s.ran + ((s.entries.set i e').map Entry.held).sum + s.poll.held
    refine add_right_cancel (b := c.stored + e.held) ?_
    calc ((s.calls.set k { c with pc }).map Call.stored).sum + (c.stored + e.held)
        = (s.calls.map Call.stored).sum + ({ c with pc } : Call φ).stored + e.held := by
          rw [← add_assoc, h₁]
      _ = (s.calls.map Call.stored).sum + (c.stored + e'.held) := by rw [add_assoc, hheld]
      _ = s.ran + ((s.entries.map Entry.held).sum + e'.held) + s.poll.held + c.stored := by
          rw [h₃]
          abel
      _ = s.ran + ((s.entries.set i e').map Entry.held).sum + s.poll.held +
          (c.stored + e.held) := by
          rw [← h₂]
          abel

/-- The poller changes an entry. -/
theorem Inv.setEntry_setPoll {s : State φ} {i : ℕ} {poll : PollPc φ} {e e' : Entry φ} (h : Inv s)
    (he : s.entries[i]? = some e)
    (hentry : ∀ j, j ≠ i → s.poll.entry? ≠ some j ∧ poll.entry? ≠ some j)
    (hrun : ∀ j copy, poll = .run j copy → copy ≠ none)
    (hok : EntryOk (owners s.calls i) poll i e')
    (hpub : e.published + s.poll.counting = e'.published + poll.counting)
    (hheld : e.held + s.poll.held = e'.held + poll.held) (hleast : poll.least ≤ s.count) :
    Inv ((s.setEntry i e').setPoll poll) := by
  refine ⟨?_, hrun, ?_, hleast, ?_, h.failure⟩
  · exact h.entry_set rfl (fun _ _ => rfl) (fun j hj => Or.inr (hentry j hj)) hok
  · have h₁ := sum_map_set Entry.published e' he
    have h₂ := h.count
    show s.count + (s.calls.map Call.counting).sum =
      ((s.entries.set i e').map Entry.published).sum + poll.counting
    omega
  · have h₁ := sum_map_set Entry.held e' he
    show (s.calls.map Call.stored).sum =
      s.ran + ((s.entries.set i e').map Entry.held).sum + poll.held
    refine add_right_cancel (b := e.held) ?_
    calc (s.calls.map Call.stored).sum + e.held
        = s.ran + (s.entries.map Entry.held).sum + (e.held + s.poll.held) := by
          rw [h.stored]
          abel
      _ = s.ran + ((s.entries.map Entry.held).sum + e'.held) + poll.held := by
          rw [hheld]
          abel
      _ = s.ran + ((s.entries.set i e').map Entry.held).sum + poll.held + e.held := by
          rw [← h₁]
          abel

/-! ### `Queue` -/

/-- A claim on an entry that is taken changes nothing. -/
theorem EntryOk.or_one {os : Multiset (Option φ)} {poll : PollPc φ} {i : ℕ} {e : Entry φ}
    (h : EntryOk os poll i e) (hne : e.state ≠ 0) : e.state ||| 0x01 = e.state := by
  cases h with
  | free => exact absurd rfl hne
  | claimed => exact (by decide : (1 : BitVec 32) ||| 1 = 1)
  | full => exact (by decide : (3 : BitVec 32) ||| 1 = 3)
  | copy => exact (by decide : (7 : BitVec 32) ||| 1 = 7)
  | clear => exact (by decide : (7 : BitVec 32) ||| 1 = 7)
  | cleared => exact (by decide : (7 : BitVec 32) ||| 1 = 7)

/-- An entry that is free. -/
theorem EntryOk.of_state_eq_zero {os : Multiset (Option φ)} {poll : PollPc φ} {i : ℕ} {e : Entry φ}
    (h : EntryOk os poll i e) (h0 : e.state = 0) : e = ⟨0, none⟩ ∧ os = 0 ∧ poll.entry? ≠ some i := by
  cases h with
  | free ho hp => exact ⟨rfl, ho, hp⟩
  | _ => cases h0

/-- **Every operation of `Queue` keeps the invariant.** -/
theorem Inv.queueStep {s s' : State φ} {k : ℕ} {c : Call φ} (h : Inv s) (hc : s.calls[k]? = some c)
    (hstep : s.queueStep k c = some s') : Inv s' := by
  obtain ⟨function, ignoreFull, pc⟩ := c
  unfold State.queueStep at hstep
  dsimp only at hstep
  cases pc with
  | load i =>
    obtain ⟨e, he, hstep⟩ := Option.bind_eq_some_iff.mp hstep
    split_ifs at hstep
    · cases hstep
      exact h.setPc hc trivial trivial
    · cases hstep
      exact h.scan hc trivial _
  | claim i =>
    obtain ⟨e, he, hstep⟩ := Option.bind_eq_some_iff.mp hstep
    have hok := h.entry i e he
    split_ifs at hstep with hstate
    · cases hstep
      rw [hok.or_one hstate, State.setEntry_self he]
      exact h.scan hc trivial _
    · cases hstep
      obtain ⟨rfl, ho, hp⟩ := hok.of_state_eq_zero (not_not.mp hstate)
      refine h.setEntry_setPc hc he ?_ ?_ (by simp [Call.counting, Entry.published]) rfl
      · intro j hj
        exact if_neg (Ne.symm hj)
      · have hown := @owners_set _ _ _ _ ⟨function, ignoreFull, .store i⟩ hc i
        rw [ho, show (⟨function, ignoreFull, .store i⟩ : Call φ).owned i = {none} from if_pos rfl]
          at hown
        show EntryOk _ _ _ ⟨0 ||| 1, none⟩
        rw [(by decide : (0 : BitVec 32) ||| 1 = 1)]
        exact .claimed none ((add_zero _).symm.trans (hown.trans (zero_add _))) hp
  | store i =>
    obtain ⟨e, he, hstep⟩ := Option.bind_eq_some_iff.mp hstep
    cases hstep
    have howned : (⟨function, ignoreFull, .store i⟩ : Call φ).owned i = {none} := if_pos rfl
    obtain ⟨rfl, ho, hp⟩ := (h.entry i e he).of_owned hc howned
    refine h.setEntry_setPc hc he ?_ ?_ rfl rfl
    · intro j hj
      exact (if_neg (Ne.symm hj)).trans (if_neg (Ne.symm hj)).symm
    · have hown := @owners_set _ _ _ _ ⟨function, ignoreFull, .publish i⟩ hc i
      rw [ho, howned, show (⟨function, ignoreFull, .publish i⟩ : Call φ).owned i = {some function}
        from if_pos rfl] at hown
      exact .claimed (some function) (add_right_cancel (hown.trans (add_comm ..))) hp
  | publish i =>
    obtain ⟨e, he, hstep⟩ := Option.bind_eq_some_iff.mp hstep
    have howned : (⟨function, ignoreFull, .publish i⟩ : Call φ).owned i = {some function} :=
      if_pos rfl
    obtain ⟨rfl, ho, hp⟩ := (h.entry i e he).of_owned hc howned
    cases hstep
    refine h.setEntry_setPc hc he ?_ ?_ (by simp [Call.counting, Entry.published]) rfl
    · intro j hj
      exact (if_neg (Ne.symm hj)).symm
    · have hown := @owners_set _ _ _ _ ⟨function, ignoreFull, .count⟩ hc i
      rw [ho, howned] at hown
      show EntryOk _ _ _ ⟨1 ||| 2, some function⟩
      rw [(by decide : (1 : BitVec 32) ||| 2 = 3)]
      exact .full function (add_right_cancel (hown.trans (add_comm ..))) (fun h => absurd h hp)
  | count =>
    cases hstep
    have hown : ∀ j, owners (s.calls.set k ⟨function, ignoreFull, .done true⟩) j = owners s.calls j :=
      fun j => owners_set_of_eq hc rfl
    refine ⟨fun i e he => ?_, h.run, ?_, ?_, ?_, h.failure⟩
    · exact (hown i).symm ▸ h.entry i e he
    · have h₁ : ((s.calls.set k ⟨function, ignoreFull, .done true⟩).map Call.counting).sum + 1 =
        (s.calls.map Call.counting).sum + 0 := sum_map_set _ _ hc
      have h₂ := h.count
      show s.count + 1 + ((s.calls.set k ⟨function, ignoreFull, .done true⟩).map Call.counting).sum =
        (s.entries.map Entry.published).sum + s.poll.counting
      omega
    · exact h.least.trans (by show s.count ≤ s.count + 1; omega)
    · have h₁ := sum_map_set Call.stored ⟨function, ignoreFull, .done true⟩ hc
      exact (add_right_cancel h₁).trans h.stored
  | done => cases hstep

/-! ### `Poll` -/

/-- **Every operation of `Poll` keeps the invariant.** -/
theorem Inv.pollStep {s s' : State φ} (h : Inv s) (hstep : s.pollStep = some s') : Inv s' := by
  unfold State.pollStep at hstep
  have hleast := h.least
  have hrun := h.run
  cases hp : s.poll with
  | idle =>
    rw [hp] at hstep
    cases hstep
  | count i =>
    rw [hp] at hstep hleast
    cases hstep
    refine h.setPoll (hp ▸ trivial) (by split_ifs <;> trivial) ?_
    split_ifs with h0
    · exact hleast
    · exact lt_of_le_of_ne hleast (Ne.symm h0)
  | load i =>
    rw [hp] at hstep hleast
    obtain ⟨e, he, hstep⟩ := Option.bind_eq_some_iff.mp hstep
    have hok := h.entry i e he
    rw [hp] at hok
    split_ifs at hstep with h3 h7
    · cases hstep
      rw [← State.setEntry_self he]
      refine h.setEntry_setPoll he ?_ nofun ?_ (by rw [hp]; rfl) (by rw [hp]; rfl) hleast
      · intro j hj
        rw [hp]
        exact ⟨nofun, fun h => hj (Option.some.inj h).symm⟩
      · cases hok with
        | full f ho => exact .full f ho (fun _ => rfl)
        | free => cases h3
        | claimed => cases h3
        | copy => cases h3
        | clear => cases h3
        | cleared => cases h3
    · cases hok with
      | copy _ _ hp => cases hp
      | clear _ _ hp => cases hp
      | cleared _ _ hp => cases hp
      | free => cases h7
      | claimed => cases h7
      | full => cases h7
    · cases hstep
      exact h.pollFrom (hp ▸ trivial) (le_trans zero_le_one hleast) _
  | mark i =>
    rw [hp] at hstep hleast
    obtain ⟨e, he, hstep⟩ := Option.bind_eq_some_iff.mp hstep
    have hok := h.entry i e he
    rw [hp] at hok
    obtain ⟨ho, f, rfl⟩ := hok.of_mark
    cases hstep
    refine h.setEntry_setPoll he ?_ nofun ?_ ?_ (by rw [hp]; rfl) hleast
    · intro j hj
      rw [hp]
      exact ⟨fun h => hj (Option.some.inj h).symm, fun h => hj (Option.some.inj h).symm⟩
    · show EntryOk _ _ _ ⟨3 ||| 4, some f⟩
      rw [(by decide : (3 : BitVec 32) ||| 4 = 7)]
      exact .copy f ho rfl
    · rw [hp]
      simp [Entry.published, PollPc.counting]
  | copy i =>
    rw [hp] at hstep hleast
    obtain ⟨e, he, hstep⟩ := Option.bind_eq_some_iff.mp hstep
    have hok := h.entry i e he
    rw [hp] at hok
    obtain ⟨ho, f, rfl⟩ := hok.of_copy
    cases hstep
    rw [← State.setEntry_self he]
    refine h.setEntry_setPoll he ?_ nofun ?_ (by rw [hp]; rfl) (by rw [hp]; rfl) hleast
    · intro j hj
      rw [hp]
      exact ⟨fun h => hj (Option.some.inj h).symm, fun h => hj (Option.some.inj h).symm⟩
    · exact .clear f ho rfl
  | clear i copy =>
    rw [hp] at hstep hleast
    obtain ⟨e, he, hstep⟩ := Option.bind_eq_some_iff.mp hstep
    have hok := h.entry i e he
    rw [hp] at hok
    obtain ⟨ho, f, rfl, rfl⟩ := hok.of_clear
    cases hstep
    refine h.setEntry_setPoll he ?_ nofun ?_ (by rw [hp]; rfl) ?_ hleast
    · intro j hj
      rw [hp]
      exact ⟨fun h => hj (Option.some.inj h).symm, fun h => hj (Option.some.inj h).symm⟩
    · exact .cleared f ho rfl
    · rw [hp]
      exact add_comm ..
  | free i copy =>
    rw [hp] at hstep hleast
    obtain ⟨e, he, hstep⟩ := Option.bind_eq_some_iff.mp hstep
    have hok := h.entry i e he
    rw [hp] at hok
    obtain ⟨ho, f, rfl, rfl⟩ := hok.of_free
    cases hstep
    refine h.setEntry_setPoll he ?_ ?_ ?_ ?_ (by rw [hp]; rfl) hleast
    · intro j hj
      rw [hp]
      exact ⟨fun h => hj (Option.some.inj h).symm, nofun⟩
    · rintro j copy ⟨⟩
      nofun
    · show EntryOk _ _ _ ⟨7 &&& 0, none⟩
      rw [(by decide : (7 : BitVec 32) &&& 0 = 0)]
      exact .free ho nofun
    · rw [hp]
      simp [Entry.published, PollPc.counting]
  | run i copy =>
    rw [hp] at hstep hleast
    cases copy with
    | none => exact absurd rfl (hrun i none hp)
    | some f =>
      cases hstep
      refine ⟨fun i e he => ?_, nofun, ?_, hleast, ?_, h.failure⟩
      · exact (h.entry i e he).of_poll (hp ▸ nofun) nofun
      · have := h.count
        rw [hp] at this
        exact this
      · have := h.stored
        rw [hp] at this
        show (s.calls.map Call.stored).sum =
          ((s.ran ++ [f] : List φ) : Multiset φ) + (s.entries.map Entry.held).sum + 0
        rw [this, ← Multiset.coe_add, add_zero, add_assoc, add_assoc, add_comm _ (PollPc.held _)]
        rfl
  | uncount i =>
    rw [hp] at hstep hleast
    cases hstep
    -- the poller has seen a count that was not zero
    have h' : Inv ({ s with count := s.count - 1, poll := .count i } : State φ) := by
      refine ⟨fun i e he => ?_, nofun, ?_, ?_, ?_, h.failure⟩
      · exact (h.entry i e he).of_poll (hp ▸ nofun) nofun
      · have := h.count
        rw [hp] at this
        simp only [PollPc.counting] at this ⊢
        omega
      · simp only [PollPc.least] at hleast ⊢
        omega
      · have := h.stored
        rw [hp] at this
        exact this
    exact h'.pollFrom trivial h'.least _

/-! ### Runs -/

/-- **Every step keeps the invariant.** -/
theorem Inv.step {s s' : State φ} {a : Action φ} (h : Inv s)
    (hstep : AtomicEventQueue.step s a = some s') : Inv s' := by
  unfold AtomicEventQueue.step at hstep
  split_ifs at hstep
  cases a with
  | queue function ignoreFull =>
    cases hstep
    let c : Call φ := ⟨function, ignoreFull, .done false⟩
    have h' : Inv ({ s with calls := s.calls ++ [c] } : State φ) := by
      refine ⟨fun i e he => ?_, h.run, ?_, h.least, ?_, h.failure⟩
      · have hown : owners (s.calls ++ [c]) i = owners s.calls i := by
          unfold owners
          rw [List.map_append, List.sum_append]
          exact add_zero _
        show EntryOk (owners (s.calls ++ [c]) i) s.poll i e
        rw [hown]
        exact h.entry i e he
      · have := h.count
        rw [List.map_append, List.sum_append]
        exact (congrArg (s.count + ·) (add_zero _)).trans this
      · rw [List.map_append, List.sum_append]
        exact (add_zero _).trans h.stored
    exact h'.scan List.getElem?_concat_length trivial 0
  | queueStep k =>
    obtain ⟨c, hc, hstep⟩ := Option.bind_eq_some_iff.mp hstep
    exact h.queueStep hc hstep
  | poll =>
    dsimp only at hstep
    split at hstep
    · rename_i hp
      cases hstep
      have hleast := h.least
      rw [hp] at hleast
      exact h.pollFrom (hp ▸ trivial) hleast 0
    · cases hstep
  | pollStep => exact h.pollStep hstep

theorem inv_run {size : ℕ} {as : List (Action φ)} {t : State φ}
    (hrun : Run.run step (init φ size) as = some t) : Inv t :=
  Run.run_induction (fun _ _ _ => Inv.step) (inv_init size) hrun

/-! ### Queues at rest -/

/-- No call of `Queue` or `Poll` is in progress. -/
structure Quiescent (s : State φ) : Prop where
  poll : s.poll = .idle
  calls : ∀ c ∈ s.calls, ∃ accepted, c.pc = .done accepted

/-- The functions that `Queue` has accepted. -/
def accepted (calls : List (Call φ)) : List φ :=
  calls.filterMap fun c => if c.pc = .done true then some c.function else none

/-- An entry that nobody works on. -/
def Entry.Rests (e : Entry φ) : Prop := e = ⟨0, none⟩ ∨ ∃ f, e = ⟨3, some f⟩

theorem owners_of_done {calls : List (Call φ)} (h : ∀ c ∈ calls, ∃ accepted, c.pc = .done accepted)
    (i : ℕ) : owners calls i = 0 := by
  refine List.sum_eq_zero fun x hx => ?_
  obtain ⟨c, hc, rfl⟩ := List.mem_map.mp hx
  obtain ⟨b, hb⟩ := h c hc
  unfold Call.owned
  rw [hb]

theorem counting_of_done {calls : List (Call φ)}
    (h : ∀ c ∈ calls, ∃ accepted, c.pc = .done accepted) : (calls.map Call.counting).sum = 0 := by
  refine List.sum_eq_zero fun x hx => ?_
  obtain ⟨c, hc, rfl⟩ := List.mem_map.mp hx
  obtain ⟨b, hb⟩ := h c hc
  unfold Call.counting
  rw [hb]

/-- Of calls that have returned, what was stored is what was accepted. -/
theorem stored_of_done {calls : List (Call φ)}
    (h : ∀ c ∈ calls, ∃ accepted, c.pc = .done accepted) :
    (calls.map Call.stored).sum = (accepted calls : Multiset φ) := by
  induction calls with
  | nil => rfl
  | cons c calls ih =>
    have ih := ih fun c' hc' => h c' (List.mem_cons_of_mem _ hc')
    obtain ⟨b, hb⟩ := h c List.mem_cons_self
    rw [List.map_cons, List.sum_cons, ih]
    cases b with
    | true => simp [accepted, Call.stored, hb]
    | false => simp [accepted, Call.stored, hb]

theorem Inv.rests {s : State φ} (h : Inv s) (hq : Quiescent s) {e : Entry φ} (he : e ∈ s.entries) :
    e.Rests := by
  obtain ⟨i, he⟩ := List.mem_iff_getElem?.mp he
  have hok := h.entry i e he
  rw [hq.poll, owners_of_done hq.calls] at hok
  cases hok with
  | free => exact Or.inl rfl
  | claimed f ho => exact absurd ho.symm (Multiset.singleton_ne_zero _)
  | full f => exact Or.inr ⟨f, rfl⟩
  | copy _ _ hp => cases hp
  | clear _ _ hp => cases hp
  | cleared _ _ hp => cases hp

/-- The functions in entries that rest. -/
def waiting (entries : List (Entry φ)) : List φ := entries.filterMap Entry.function

theorem held_of_rests {entries : List (Entry φ)} (h : ∀ e ∈ entries, e.Rests) :
    (entries.map Entry.held).sum = (waiting entries : Multiset φ) ∧
      (entries.map Entry.published).sum = (waiting entries).length := by
  induction entries with
  | nil => exact ⟨rfl, rfl⟩
  | cons e entries ih =>
    obtain ⟨ih₁, ih₂⟩ := ih fun e' he' => h e' (List.mem_cons_of_mem _ he')
    rw [List.map_cons, List.sum_cons, ih₁, List.map_cons, List.sum_cons, ih₂]
    rcases h e List.mem_cons_self with rfl | ⟨f, rfl⟩
    · exact ⟨zero_add _, by simp [waiting, Entry.published]⟩
    · exact ⟨rfl, by simp [waiting, Entry.published, add_comm]⟩

/-- What a queue at rest knows. -/
theorem Inv.of_quiescent {s : State φ} (h : Inv s) (hq : Quiescent s) :
    (accepted s.calls).Perm (s.ran ++ waiting s.entries) ∧ s.count = (waiting s.entries).length := by
  obtain ⟨hheld, hpublished⟩ := held_of_rests fun e he => h.rests hq he
  constructor
  · have := h.stored
    rw [stored_of_done hq.calls, hheld, hq.poll] at this
    exact Multiset.coe_eq_coe.mp (this.trans (add_zero _))
  · have := h.count
    rw [counting_of_done hq.calls, hpublished, hq.poll] at this
    exact (add_zero _).symm.trans (this.trans (add_zero _))

/-! ### A poll without interference -/

/-- The poller performs so many operations, and nothing else happens. -/
def polls (n : ℕ) : List (Action φ) := List.replicate n .pollStep

theorem run_polls_succ {s s' : State φ} {n : ℕ} (h : step s .pollStep = some s') :
    Run.run step s (polls (n + 1)) = Run.run step s' (polls n) := by
  show Run.run step s (.pollStep :: polls n) = _
  rw [Run.run_cons, h]
  rfl

/-- The state of a poller that has come to the entries that are left. -/
def walking (calls : List (Call φ)) (ran : List φ) (before left : List (Entry φ)) : State φ :=
  { entries := before ++ left, count := (waiting left).length, calls, ran
    poll := if left = [] then .idle else .count before.length }

theorem getElem?_middle (before left : List (Entry φ)) (e : Entry φ) :
    (before ++ e :: left)[before.length]? = some e := by
  rw [List.getElem?_append_right le_rfl, Nat.sub_self]
  rfl

theorem set_middle (before left : List (Entry φ)) (e e' : Entry φ) :
    (before ++ e :: left).set before.length e' = before ++ e' :: left := by
  rw [List.set_append_right _ _ le_rfl, Nat.sub_self]
  rfl

/-- The poller comes to the next entry. -/
theorem pollFrom_eq_walking (calls : List (Call φ)) (ran : List φ) (before left : List (Entry φ))
    (e : Entry φ) (poll : PollPc φ) :
    State.pollFrom
      { entries := before ++ e :: left, count := (waiting left).length, calls, ran, poll }
      (before.length + 1) = walking calls ran (before ++ [e]) left := by
  unfold State.pollFrom walking State.setPoll
  dsimp only
  rw [List.append_assoc, List.length_append, List.length_append, List.length_cons,
    List.length_singleton]
  cases left with
  | nil => simp
  | cons => simp

/-- The poller passes a free entry. -/
theorem run_polls_free {calls : List (Call φ)} {ran : List φ} {before left : List (Entry φ)} (n : ℕ)
    (hne : waiting left ≠ []) :
    Run.run step (walking calls ran before (⟨0, none⟩ :: left)) (polls (n + 2)) =
      Run.run step (walking calls ran (before ++ [⟨0, none⟩]) left) (polls n) := by
  have hcount : ((waiting left).length : ℤ) ≠ 0 := by simpa using hne
  have h₁ : step (walking calls ran before (⟨0, none⟩ :: left)) .pollStep =
      some ((walking calls ran before (⟨0, none⟩ :: left)).setPoll (.load before.length)) := by
    show some (State.setPoll _ (if ((waiting left).length : ℤ) = 0 then _ else _)) = _
    rw [if_neg hcount]
  have h₂ : step ((walking calls ran before (⟨0, none⟩ :: left)).setPoll (.load before.length))
      .pollStep = some (walking calls ran (before ++ [⟨0, none⟩]) left) := by
    show (before ++ ⟨0, none⟩ :: left)[before.length]?.bind _ = _
    rw [getElem?_middle, ← pollFrom_eq_walking _ _ _ _ _ (.load before.length)]
    rfl
  rw [run_polls_succ h₁, run_polls_succ h₂]

/-- The state of a poller that works on an entry. -/
def visiting (calls : List (Call φ)) (before left : List (Entry φ)) (e : Entry φ) (ran : List φ)
    (poll : PollPc φ) : State φ :=
  { entries := before ++ e :: left, count := (waiting left).length + 1, calls, ran, poll }

theorem visiting_setEntry (calls : List (Call φ)) (before left : List (Entry φ)) (e e' : Entry φ)
    (ran : List φ) (poll : PollPc φ) :
    (visiting calls before left e ran poll).setEntry before.length e' =
      visiting calls before left e' ran poll := by
  unfold State.setEntry visiting
  rw [set_middle]

/-- The poller runs the function of a full entry. -/
theorem run_polls_full {calls : List (Call φ)} {ran : List φ} {before left : List (Entry φ)} (n : ℕ)
    (f : φ) :
    Run.run step (walking calls ran before (⟨3, some f⟩ :: left)) (polls (n + 8)) =
      Run.run step (walking calls (ran ++ [f]) (before ++ [⟨0, none⟩]) left) (polls n) := by
  let i := before.length
  let at' := visiting calls before left
  have hget : ∀ e ran poll, (at' e ran poll).entries[i]? = some e := fun e _ _ =>
    getElem?_middle before left e
  have hset : ∀ e e' ran poll, (at' e ran poll).setEntry i e' = at' e' ran poll :=
    visiting_setEntry calls before left
  have count : step (walking calls ran before (⟨3, some f⟩ :: left)) .pollStep =
      some (at' ⟨3, some f⟩ ran (.load i)) := by
    show some (State.setPoll _ (if (((waiting left).length + 1 : ℕ) : ℤ) = 0 then _ else _)) = _
    rw [if_neg (by omega)]
    rfl
  have load : step (at' ⟨3, some f⟩ ran (.load i)) .pollStep =
      some (at' ⟨3, some f⟩ ran (.mark i)) := by
    show Option.bind _ _ = _
    rw [hget]
    rfl
  have mark : step (at' ⟨3, some f⟩ ran (.mark i)) .pollStep =
      some (at' ⟨7, some f⟩ ran (.copy i)) := by
    show Option.bind _ _ = _
    rw [hget]
    show some (State.setPoll (State.setEntry _ i ⟨3 ||| 4, some f⟩) _) = _
    rw [hset, (by decide : (3 : BitVec 32) ||| 4 = 7)]
    rfl
  have copy : step (at' ⟨7, some f⟩ ran (.copy i)) .pollStep =
      some (at' ⟨7, some f⟩ ran (.clear i (some f))) := by
    show Option.bind _ _ = _
    rw [hget]
    rfl
  have clear : step (at' ⟨7, some f⟩ ran (.clear i (some f))) .pollStep =
      some (at' ⟨7, none⟩ ran (.free i (some f))) := by
    show Option.bind _ _ = _
    rw [hget]
    show some (State.setPoll (State.setEntry _ i ⟨7, none⟩) _) = _
    rw [hset]
    rfl
  have free : step (at' ⟨7, none⟩ ran (.free i (some f))) .pollStep =
      some (at' ⟨0, none⟩ ran (.run i (some f))) := by
    show Option.bind _ _ = _
    rw [hget]
    show some (State.setPoll (State.setEntry _ i ⟨7 &&& 0, none⟩) _) = _
    rw [hset, (by decide : (7 : BitVec 32) &&& 0 = 0)]
    rfl
  have run : step (at' ⟨0, none⟩ ran (.run i (some f))) .pollStep =
      some (at' ⟨0, none⟩ (ran ++ [f]) (.uncount i)) := rfl
  have uncount : step (at' ⟨0, none⟩ (ran ++ [f]) (.uncount i)) .pollStep =
      some (walking calls (ran ++ [f]) (before ++ [⟨0, none⟩]) left) := by
    rw [← pollFrom_eq_walking _ _ _ _ _ (.uncount i)]
    show some (State.pollFrom { at' ⟨0, none⟩ (ran ++ [f]) (.uncount i) with
      count := ((waiting left).length : ℤ) + 1 - 1 } (i + 1)) = _
    rw [add_sub_cancel_right]
    rfl
  rw [run_polls_succ count, run_polls_succ load, run_polls_succ mark, run_polls_succ copy,
    run_polls_succ clear, run_polls_succ free, run_polls_succ run, run_polls_succ uncount]

/-- **A poll without interference runs everything**, in the order of the entries. -/
theorem exists_run_polls {left : List (Entry φ)} (h : ∀ e ∈ left, e.Rests) :
    ∀ {calls : List (Call φ)} {ran : List φ} {before : List (Entry φ)}, ∃ n t,
      Run.run step (walking calls ran before left) (polls n) = some t ∧ t.poll = .idle ∧
        t.count = 0 ∧ t.ran = ran ++ waiting left := by
  induction left with
  | nil =>
    intro calls ran before
    exact ⟨0, _, rfl, rfl, rfl, (List.append_nil _).symm⟩
  | cons e left ih =>
    intro calls ran before
    have ih := @ih fun e' he' => h e' (List.mem_cons_of_mem _ he')
    rcases h e List.mem_cons_self with rfl | ⟨f, rfl⟩
    · by_cases hne : waiting left = []
      · -- there is nothing left: the count is zero
        have hstep : step (walking calls ran before (⟨0, none⟩ :: left)) .pollStep =
            some ((walking calls ran before (⟨0, none⟩ :: left)).setPoll .idle) := by
          show some (State.setPoll _ (if ((waiting left).length : ℤ) = 0 then _ else _)) = _
          rw [if_pos (by rw [hne]; rfl)]
        refine ⟨1, _, (run_polls_succ hstep).trans rfl, rfl, ?_, ?_⟩
        · show ((waiting left).length : ℤ) = 0
          rw [hne]
          rfl
        · show ran = ran ++ waiting left
          rw [hne, List.append_nil]
      · obtain ⟨n, t, hrun, ht⟩ := @ih calls ran (before ++ [⟨0, none⟩])
        exact ⟨n + 2, t, (run_polls_free n hne).trans hrun, ht⟩
    · obtain ⟨n, t, hrun, hidle, hcount, hran⟩ :=
        @ih calls (ran ++ [f]) (before ++ [⟨0, none⟩])
      refine ⟨n + 8, t, (run_polls_full n f).trans hrun, hidle, hcount, hran.trans ?_⟩
      rw [List.append_assoc]
      rfl

/-! ### Any run -/

/-- The functions that calls of `Queue` have stored. -/
def stored (calls : List (Call φ)) : List φ :=
  calls.filterMap fun c => match c.pc with
    | .publish _ | .count | .done true => some c.function
    | _ => none

theorem sum_stored (calls : List (Call φ)) :
    (calls.map Call.stored).sum = (stored calls : Multiset φ) := by
  induction calls with
  | nil => rfl
  | cons c calls ih =>
    obtain ⟨function, ignoreFull, pc⟩ := c
    rw [List.map_cons, List.sum_cons, ih]
    cases pc with
    | load | claim | store => exact zero_add _
    | publish | count => rfl
    | done accepted =>
      cases accepted with
      | false => exact zero_add _
      | true => rfl

/-- The count fits an `int`. -/
theorem Inv.count_le {s : State φ} (h : Inv s) : s.count ≤ s.entries.length + 1 := by
  have hcounting : 0 ≤ (s.calls.map Call.counting).sum := by
    refine List.sum_nonneg fun x hx => ?_
    obtain ⟨c, _, rfl⟩ := List.mem_map.mp hx
    unfold Call.counting
    split <;> decide
  have hpublished : (s.entries.map Entry.published).sum ≤ s.entries.length := by
    have := List.sum_le_card_nsmul (s.entries.map Entry.published) 1 fun x hx => by
      obtain ⟨e, _, rfl⟩ := List.mem_map.mp hx
      unfold Entry.published
      split_ifs <;> decide
    simpa using this
  have hpoll : s.poll.counting ≤ 1 := by
    unfold PollPc.counting
    split <;> decide
  have := h.count
  omega

/-- **Nothing is lost.**  In every interleaving, the internal assertions hold, only stored functions
are run, each of them at most once, and the count is never negative; when no call is in progress, the
count is the number of accepted functions not yet run, and a poll without interference runs them. -/
theorem accepted_perm_of_run {size : ℕ} {as : List (Action φ)} {t : State φ}
    (hrun : Run.run step (init φ size) as = some t) :
    (t.failure = none ∨ t.failure = some .full) ∧ t.ran.Subperm (stored t.calls) ∧ 0 ≤ t.count ∧
      (Quiescent t → t.failure = none →
        (∃ left, (accepted t.calls).Perm (t.ran ++ left) ∧ t.count = left.length) ∧
        ∃ n t', Run.run step t (.poll :: polls n) = some t' ∧ t'.poll = .idle ∧ t'.count = 0 ∧
          t'.ran.Perm (accepted t.calls)) := by
  have h := inv_run hrun
  refine ⟨h.failure, ?_, ?_, fun hq hfailure => ⟨⟨_, h.of_quiescent hq⟩, ?_⟩⟩
  · have hle : (t.ran : Multiset φ) ≤ stored t.calls := by
      rw [← sum_stored, h.stored, add_assoc]
      exact Multiset.le_add_right _ _
    exact Multiset.coe_le.mp hle
  · have hleast : 0 ≤ t.poll.least := by
      unfold PollPc.least
      split <;> decide
    exact hleast.trans h.least
  · obtain ⟨hperm, hcount⟩ := h.of_quiescent hq
    obtain ⟨n, t', hpolls, hidle, hzero, hran⟩ :=
      @exists_run_polls _ _ (fun e he => h.rests hq he) t.calls t.ran []
    refine ⟨n, t', ?_, hidle, hzero, hran ▸ hperm.symm⟩
    have hpoll : step t .poll = some (walking t.calls t.ran [] t.entries) := by
      obtain ⟨entries, count, calls, poll, ran, failure⟩ := t
      obtain rfl : poll = .idle := hq.poll
      obtain rfl : failure = none := hfailure
      obtain rfl : count = (waiting entries).length := hcount
      show some (State.pollFrom _ 0) = _
      unfold State.pollFrom walking State.setPoll
      cases entries <;> rfl
    rw [Run.run_cons, hpoll]
    exact hpolls

/-- Two calls whose operations alternate, and then a poll. -/
theorem accepted_perm_of_run_two : ∃ t, Run.run step (init ℕ 2)
      [.queue 7 false, .queue 8 true, .queueStep 0, .queueStep 1, .queueStep 0, .queueStep 1,
        .queueStep 0, .queueStep 1, .queueStep 1, .queueStep 1, .queueStep 0, .queueStep 0,
        .queueStep 1, .queueStep 1] = some t ∧
    ∃ n t', Run.run step t (.poll :: polls n) = some t' ∧ t'.poll = .idle ∧ t'.count = 0 ∧
      t'.ran.Perm [7, 8] := by
  refine ⟨_, rfl, ?_⟩
  have h := (accepted_perm_of_run (show Run.run step (init ℕ 2)
    [.queue 7 false, .queue 8 true, .queueStep 0, .queueStep 1, .queueStep 0, .queueStep 1,
      .queueStep 0, .queueStep 1, .queueStep 1, .queueStep 1, .queueStep 0, .queueStep 0,
      .queueStep 1, .queueStep 1] = some _ from rfl)).2.2.2
  exact (h ⟨rfl, by decide⟩ rfl).2

end Mjlib.Micro.AtomicEventQueue
