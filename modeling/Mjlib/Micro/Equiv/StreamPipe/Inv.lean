import Mjlib.Lib.Listed
import Mjlib.Micro.Equiv.StreamPipe.Status

/-!
# The invariant of a pipe

`Inv σ s` says that `s` is what the statuses `σ` make of it: the fields of the sides, the posted
events, the callbacks to be invoked.  `Inv.start`, `Inv.runZero`, `Inv.runFirst` and `Inv.invoke` say
which statuses change when an operation is started, an event runs, and a callback is invoked.
-/

namespace Mjlib.Micro.StreamPipe

open Status

variable {σ : Port → Status} {s s' : State} {x : SideId} {p q : Port} {c d : Callback} {n : ℕ}

/-! ### The invariant -/

/-- The bytes that the operations of a port were completed with. -/
def State.bytes (s : State) (p : Port) : Bytes :=
  s.invoked.flatMap fun k => if k.callback.op.port = p then k.bytes else []

/-- The bytes of a call, if it is one to the port. -/
def calledBytes (memory : ℕ → Bytes) (p : Port) : Option Callback × ℕ → Bytes
  | (some c, n) => if c.op.port = p then c.bytes memory n else []
  | (none, _) => []

/-- The bytes of the calls that running events have still to make to a port. -/
def State.callBytes (s : State) (p : Port) : Bytes := s.calls.flatMap (calledBytes s.memory p)

/-- The state is what the statuses make of it. -/
structure Inv (σ : Port → Status) (s : State) : Prop where
  asserts : s.failed = false
  side : s.side = sides σ
  events : Listed (fun p => (σ p).event p) s.events
  calls : Listed (fun p => (σ p).call) s.calls
  books : Books (fun p => (σ p).callback) s.started s.invokedCallbacks
  size : ∀ p c, (σ p).outstanding = some c → c.op.size ≠ 0
  bound : ∀ p, (σ p).Bounded
  buffers : ∀ c ∈ s.started, ∀ x size, c.op = .read x size → (s.memory c.number).length = size
  told : ∀ k ∈ s.invoked, k.size ≤ k.callback.op.size ∧ k.bytes.length = k.size
  linked : ∀ p, Linked s.memory (σ p) (σ p.opposite)
  account : ∀ p, s.bytes p ++ s.callBytes p = s.bytes p.opposite ++ s.callBytes p.opposite

theorem update_event (σ : Port → Status) (p : Port) (status : Status) :
    (fun q => (Function.update σ p status q).event q) =
      Function.update (fun q => (σ q).event q) p (status.event p) :=
  funext (Function.apply_update (fun q status => Status.event q status) σ p status)

theorem update_call (σ : Port → Status) (p : Port) (status : Status) :
    (fun q => (Function.update σ p status q).call) =
      Function.update (fun q => (σ q).call) p status.call :=
  funext (Function.apply_update (fun _ status => Status.call status) σ p status)

theorem update_callback (σ : Port → Status) (p : Port) (status : Status) :
    (fun q => (Function.update σ p status q).callback) =
      Function.update (fun q => (σ q).callback) p status.callback :=
  funext (Function.apply_update (fun _ status => Status.callback status) σ p status)

theorem Status.call_eq_some {status : Status} {call : Option Callback × ℕ}
    (h : status.call = some call) : ∃ c, status = calling c call.2 ∧ call.1 = some c := by
  cases status <;> cases h
  exact ⟨_, rfl, rfl⟩

theorem calledBytes_of_eq (memory : ℕ → Bytes) (h : c.op.port = p) :
    calledBytes memory p (some c, n) = c.bytes memory n := if_pos h

theorem calledBytes_of_ne (memory : ℕ → Bytes) (h : c.op.port ≠ p) :
    calledBytes memory p (some c, n) = [] := if_neg h

theorem Inv.callBytes_eq_nil (h : Inv σ s) (hp : (σ p).call = none) : s.callBytes p = [] := by
  refine List.flatMap_eq_nil_iff.mpr fun call hcall => ?_
  obtain ⟨q, hq⟩ := (h.calls.mem_iff call).mp hcall
  obtain ⟨c, hcq, hc⟩ := call_eq_some hq
  obtain ⟨callback, n⟩ := call
  obtain rfl : callback = some c := hc
  have hport : c.op.port = q := h.books.port (by rw [hcq]; rfl)
  refine calledBytes_of_ne _ ?_
  rw [hport]
  rintro rfl
  rw [hp] at hq
  cases hq

theorem bytes_congr {memory memory' : ℕ → Bytes} (h : memory' c.number = memory c.number) :
    c.bytes memory' n = c.bytes memory n := by
  unfold Callback.bytes
  rw [h]

theorem Status.Linked.congr {memory memory' : ℕ → Bytes} {p q : Status}
    (h : Linked memory p q)
    (hmem : ∀ c, p.callback = some c ∨ q.callback = some c → memory' c.number = memory c.number) :
    Linked memory' p q := by
  cases h with
  | first h =>
    refine .first ?_
    rw [bytes_congr (hmem _ (.inl rfl)), bytes_congr (hmem _ (.inr rfl)), h]
  | second h =>
    refine .second ?_
    rw [bytes_congr (hmem _ (.inl rfl)), bytes_congr (hmem _ (.inr rfl)), h]
  | unmatched hp hq h => exact .unmatched hp hq h

theorem Status.Linked.unmatched_of {memory : ℕ → Bytes} {p q p' : Status} (h : Linked memory p q)
    (hp : ¬ p.Matched) (hp' : ¬ p'.Matched) (hw : ∀ c d, p' = waiting c → q ≠ waiting d) :
    Linked memory p' q := by
  cases h with
  | first => exact absurd trivial hp
  | second => exact absurd trivial hp
  | unmatched _ hq _ => exact .unmatched hp' hq hw

/-- A change to a port and the one opposite. -/
theorem Port.forall_of {P : Port → Prop} (p : Port) (hsymm : ∀ q, P q → P q.opposite) (hp : P p)
    (h : ∀ q, q ≠ p → q ≠ p.opposite → P q) (q : Port) : P q := by
  by_cases hq : q = p
  · subst hq
    exact hp
  · by_cases hq' : q = p.opposite
    · subst hq'
      exact hsymm p hp
    · exact h q hq hq'

theorem linked_of {memory : ℕ → Bytes} (p : Port) (hp : Linked memory (σ p) (σ p.opposite))
    (h : ∀ q, q ≠ p → q ≠ p.opposite → Linked memory (σ q) (σ q.opposite)) (q : Port) :
    Linked memory (σ q) (σ q.opposite) :=
  Port.forall_of p (fun q hq => by rw [Port.opposite_opposite]; exact hq.symm) hp h q

theorem Port.opposite_ne_of (h : q ≠ p.opposite) : q.opposite ≠ p := by
  rintro rfl
  exact h (Port.opposite_opposite q).symm

theorem Port.opposite_injective : Function.Injective Port.opposite :=
  Function.LeftInverse.injective Port.opposite_opposite

/-! ### What is started -/

/-- Two statuses that are stored the same way, but for the operation they were met by. -/
structure Alike (status status' : Status) : Prop where
  outstanding : status'.outstanding = status.outstanding
  pending : status'.pending = status.pending
  callback : status'.callback = status.callback
  call : status'.call = status.call
  event : ∀ p, status'.event p = status.event p

theorem Alike.refl (status : Status) : Alike status status := ⟨rfl, rfl, rfl, rfl, fun _ => rfl⟩

theorem alike_second (d : Callback) (n : ℕ) : Alike (waiting d) (second d n) :=
  ⟨rfl, rfl, rfl, rfl, fun p => by cases p <;> rfl⟩

/-- Statuses that are stored the same way make the same sides. -/
theorem sides_congr {σ' : Port → Status} (ho : ∀ p, (σ' p).outstanding = (σ p).outstanding)
    (hp : ∀ p, (σ' p).pending = (σ p).pending) : sides σ' = sides σ := by
  funext x
  simp only [sides, Status.buffer, Status.data, ho, hp]

theorem alike_update {status : Status} (h : Alike (σ q) status) (p : Port) :
    Alike (σ p) (Function.update σ q status p) := by
  rw [Function.update_apply]
  split_ifs with hp
  · subst hp
    exact h
  · exact Alike.refl _


/-- **An operation is started.** It may meet the one of the opposite port. -/
theorem Inv.start (h : Inv σ s) {status' t} (status : Status) (hp : σ c.op.port = idle)
    (hnumber : c.number = s.started.length) (hc : status.callback = some c)
    (hcall : status.call = none) (hsize : status.outstanding = some c → c.op.size ≠ 0)
    (halike : Alike (σ c.op.port.opposite) status') (hbound : status.Bounded)
    (hbound' : status'.Bounded) (hlinked : Linked t.memory status status')
    (hmem : ∀ m, m ≠ c.number → (∀ d n, status' = second d n → m ≠ d.number) →
      t.memory m = s.memory m)
    (hlength : ∀ m, m ≠ c.number → (t.memory m).length = (s.memory m).length)
    (hnew : ∀ x size, c.op = .read x size → (t.memory c.number).length = size)
    (hside : t.side = sides (Function.update σ c.op.port status))
    (ht : t = { s with
      side := t.side
      memory := t.memory
      events := s.events ++ (status.event c.op.port).toList
      started := s.started ++ [c] }) :
    Inv (Function.update (Function.update σ c.op.port.opposite status') c.op.port status) t := by
  set p := c.op.port with hport
  set σ₁ := Function.update σ p.opposite status' with hσ₁
  have hσ₁_alike : ∀ q, Alike (σ q) (σ₁ q) := alike_update halike
  have hp₁ : σ₁ p = idle := by rw [hσ₁, Function.update_of_ne (Port.opposite_ne p).symm, hp]
  have hevents : (fun q => (σ₁ q).event q) = fun q => (σ q).event q :=
    funext fun q => (hσ₁_alike q).event q
  have hcalls : (fun q => (σ₁ q).call) = fun q => (σ q).call :=
    funext fun q => (hσ₁_alike q).call
  have hcallbacks : (fun q => (σ₁ q).callback) = fun q => (σ q).callback :=
    funext fun q => (hσ₁_alike q).callback
  -- The buffers of the other operations are left alone.
  have hframe : ∀ q d, (σ q).callback = some d → (∀ e n, status' = second e n → q ≠ p.opposite) →
      t.memory d.number = s.memory d.number := by
    intro q d hd hq
    refine hmem _ ?_ fun e n he => ?_
    · exact hnumber ▸ Nat.ne_of_lt (h.books.number_lt (h.books.mem_started hd))
    · refine h.books.number_ne hd ?_ (hq e n he)
      rw [← halike.callback, he]
      rfl
  have hbytes : ∀ q, s.calls.flatMap (calledBytes t.memory q) = s.callBytes q := by
    intro q
    refine List.flatMap_congr fun call hmem => ?_
    obtain ⟨r, hr⟩ := (h.calls.mem_iff call).mp hmem
    obtain ⟨d, hdr, hd⟩ := call_eq_some hr
    obtain ⟨callback, n⟩ := call
    obtain rfl : callback = some d := hd
    have heq : t.memory d.number = s.memory d.number := by
      refine hframe r d (by rw [hdr]; rfl) fun e n he => ?_
      rintro rfl
      rw [← halike.call, he] at hr
      cases hr
    simp only [calledBytes, bytes_congr heq]
  rw [ht]
  refine ⟨h.asserts, hside.trans ?_, ?_, ?_, ?_, fun q d hd => ?_, fun q => ?_,
    fun d hd => ?_, h.told, ?_, fun q => ?_⟩
  · refine (sides_congr (fun q => ?_) fun q => ?_).symm
    · rw [Function.update_apply, Function.update_apply]
      split_ifs
      · rfl
      · exact (hσ₁_alike q).outstanding
    · rw [Function.update_apply, Function.update_apply]
      split_ifs
      · rfl
      · exact (hσ₁_alike q).pending
  · rw [update_event, hevents]
    cases hevent : status.event p with
    | none =>
      have hnone : (σ p).event p = none := by rw [hp, event_idle]
      rw [← hnone, Function.update_eq_self, hnone, Option.toList_none, List.append_nil]
      exact h.events
    | some e =>
      refine h.events.append (by rw [hp, event_idle]) fun q hq => ?_
      obtain rfl : p = q := (port_of_event hevent).symm.trans (port_of_event hq)
      rw [hp, event_idle] at hq
      cases hq
  · have hnone : (σ p).call = none := by rw [hp]; rfl
    rw [update_call, hcalls, hcall, ← hnone, Function.update_eq_self]
    exact h.calls
  · rw [update_callback, hcallbacks, hc]
    exact h.books.start (by rw [← hport, hp]; rfl) hnumber
  · rw [Function.update_apply] at hd
    split_ifs at hd with hq
    · obtain rfl : d = c := Option.some.inj ((callback_of_outstanding hd).symm.trans hc)
      exact hsize hd
    · rw [(hσ₁_alike q).outstanding] at hd
      exact h.size q d hd
  · rw [Function.update_apply, hσ₁, Function.update_apply]
    split_ifs
    · exact hbound
    · exact hbound'
    · exact h.bound q
  · intro y size hread
    rcases List.mem_append.mp hd with hd | hd
    · rw [hlength _ (Nat.ne_of_lt (hnumber ▸ h.books.number_lt hd))]
      exact h.buffers d hd y size hread
    · obtain rfl := List.mem_singleton.mp hd
      exact hnew y size hread
  · refine linked_of p ?_ fun q hq hq' => ?_
    · rw [Function.update_self, Function.update_of_ne (Port.opposite_ne p), hσ₁,
        Function.update_self]
      exact hlinked
    · have hqo : q.opposite ≠ p := Port.opposite_ne_of hq'
      have hqo' : q.opposite ≠ p.opposite := fun heq => hq (Port.opposite_injective heq)
      rw [Function.update_of_ne hq, Function.update_of_ne hqo, hσ₁, Function.update_of_ne hq',
        Function.update_of_ne hqo']
      refine (h.linked q).congr fun d hd => ?_
      rcases hd with hd | hd
      · exact hframe q d hd fun _ _ _ => hq'
      · exact hframe _ d hd fun _ _ _ => hqo'
  · simpa only [State.bytes, State.callBytes, hbytes] using h.account q

/-! ### What runs -/

theorem Inv.call_ne (h : Inv σ s) (hp : (σ p).callback = some c) (hcall : (σ p).call = none)
    (q : Port) : (σ q).call ≠ some (some c, n) := by
  intro hq
  obtain ⟨d, hdq, hd⟩ := call_eq_some hq
  obtain rfl : c = d := Option.some.inj hd
  obtain rfl : p = q := (h.books.port hp).symm.trans (h.books.port (by rw [hdq]; rfl))
  rw [hcall] at hq
  cases hq

theorem calledBytes_zero (memory : ℕ → Bytes) (q : Port) (c : Callback) :
    calledBytes memory q (some c, 0) = [] := by
  have hbytes : c.bytes memory 0 = [] := by
    unfold Callback.bytes
    split <;> exact List.take_zero
  exact (congrArg (fun bytes => if c.op.port = q then bytes else []) hbytes).trans (ite_self _)

/-- **The event of an operation of zero bytes runs.** -/
theorem Inv.runZero (h : Inv σ s) {t : State} {k : ℕ} {e : Event} (hk : s.events[k]? = some e)
    (hp : σ p = zero c) (he : (zero c).event p = some e)
    (hside : t.side = sides (Function.update σ p (calling c 0)))
    (ht : t = { s with
      side := t.side
      events := s.events.eraseIdx k
      calls := (some c, 0) :: s.calls }) :
    Inv (Function.update σ p (calling c 0)) t := by
  rw [ht]
  have hcallback : (calling c 0).callback = (σ p).callback := by rw [hp]; rfl
  have hevent : (calling c 0).event p = none := by cases p <;> rfl
  refine ⟨h.asserts, hside, ?_, ?_, ?_, fun q d hd => ?_, fun q => ?_, h.buffers, h.told, ?_,
    fun q => ?_⟩
  · rw [update_event, hevent]
    exact h.events.eraseIdx hk (by rw [hp, he])
  · rw [update_call]
    exact h.calls.cons (by rw [hp]; rfl) (h.call_ne (by rw [hp]; rfl) (by rw [hp]; rfl))
  · rw [update_callback, hcallback, Function.update_eq_self _ fun q => (σ q).callback]
    exact h.books
  · rw [Function.update_apply] at hd
    split_ifs at hd
    · cases hd
    · exact h.size q d hd
  · rw [Function.update_apply]
    split_ifs
    · exact Nat.zero_le _
    · exact h.bound q
  · refine linked_of p ?_ fun q hq hq' => ?_
    · rw [Function.update_self, Function.update_of_ne (Port.opposite_ne p)]
      exact (h.linked p).unmatched_of (by rw [hp]; exact id) id nofun
    · rw [Function.update_of_ne hq, Function.update_of_ne (Port.opposite_ne_of hq')]
      exact h.linked q
  · simpa only [State.bytes, State.callBytes, List.flatMap_cons, calledBytes_zero, List.nil_append]
      using h.account q

/-- Two operations that met are told of the same bytes. -/
theorem Inv.account_first (h : Inv σ s) (hp : σ p = first c n) (hq : σ p.opposite = second d n)
    (r : Port) :
    s.bytes r ++ (calledBytes s.memory r (some c, n) ++
        (calledBytes s.memory r (some d, n) ++ s.callBytes r)) =
      s.bytes r.opposite ++ (calledBytes s.memory r.opposite (some c, n) ++
        (calledBytes s.memory r.opposite (some d, n) ++ s.callBytes r.opposite)) := by
  have hne : p ≠ p.opposite := (Port.opposite_ne p).symm
  have hcp : c.op.port = p := h.books.port (by rw [hp]; rfl)
  have hdp : d.op.port = p.opposite := h.books.port (by rw [hq]; rfl)
  revert r
  refine Port.forall_of p (fun r hr => ?_) ?_ fun r hr hr' => ?_
  · rw [Port.opposite_opposite]
    exact hr.symm
  -- Nothing else is to be invoked in this direction.
  · have hbytes : c.bytes s.memory n = d.bytes s.memory n := by
      have hlinked := h.linked p
      rw [hp, hq] at hlinked
      cases hlinked with
      | first heq => exact heq
      | unmatched hp => exact absurd trivial hp
    have haccount := h.account p
    have hnil : s.callBytes p = [] := h.callBytes_eq_nil (by rw [hp]; rfl)
    have hnil' : s.callBytes p.opposite = [] := h.callBytes_eq_nil (by rw [hq]; rfl)
    rw [hnil, hnil', List.append_nil, List.append_nil] at haccount
    rw [calledBytes_of_eq _ hcp, calledBytes_of_ne _ (by rwa [hdp, ne_comm]),
      calledBytes_of_ne _ (by rwa [hcp]), calledBytes_of_eq _ hdp, hnil, hnil', haccount, hbytes,
      List.nil_append, List.nil_append]
  · have hro : r.opposite ≠ p := Port.opposite_ne_of hr'
    have hro' : r.opposite ≠ p.opposite := fun heq => hr (Port.opposite_injective heq)
    rw [calledBytes_of_ne _ (by rwa [hcp, ne_comm]), calledBytes_of_ne _ (by rwa [hdp, ne_comm]),
      calledBytes_of_ne _ (by rwa [hcp, ne_comm]), calledBytes_of_ne _ (by rwa [hdp, ne_comm])]
    exact h.account r

/-- **The event of two operations that met runs.** -/
theorem Inv.runFirst (h : Inv σ s) {t : State} {k : ℕ} {e : Event} (hk : s.events[k]? = some e)
    (hp : σ p = first c n) (hq : σ p.opposite = second d n) (he : (first c n).event p = some e)
    (hside : t.side =
      sides (Function.update (Function.update σ p (calling c n)) p.opposite (calling d n)))
    (ht : t = { s with
      side := t.side
      events := s.events.eraseIdx k
      calls := (some c, n) :: (some d, n) :: s.calls }) :
    Inv (Function.update (Function.update σ p (calling c n)) p.opposite (calling d n)) t := by
  rw [Function.update_comm (Port.opposite_ne p).symm] at hside ⊢
  rw [ht]
  set σ₁ := Function.update σ p.opposite (calling d n) with hσ₁
  have hne : p ≠ p.opposite := (Port.opposite_ne p).symm
  have hp₁ : σ₁ p = first c n := by rw [hσ₁, Function.update_of_ne hne, hp]
  have hcp : c.op.port = p := h.books.port (by rw [hp]; rfl)
  have hdp : d.op.port = p.opposite := h.books.port (by rw [hq]; rfl)
  have hnone : ∀ (r : Port) (c : Callback), (calling c n).event r = none := by
    intro r c
    cases r <;> rfl
  have hevents : (fun q => (σ₁ q).event q) = fun q => (σ q).event q := by
    have hopp : (σ p.opposite).event p.opposite = none := by rw [hq]; cases p <;> rfl
    rw [hσ₁, update_event, hnone, ← hopp, Function.update_eq_self p.opposite fun q => (σ q).event q]
  have hcalls : (fun q => (σ₁ q).call) =
      Function.update (fun q => (σ q).call) p.opposite (some (some d, n)) := by
    rw [hσ₁, update_call]
    rfl
  have hcallbacks : (fun q => (σ₁ q).callback) = fun q => (σ q).callback := by
    have hopp : (calling d n).callback = (σ p.opposite).callback := by rw [hq]; rfl
    rw [hσ₁, update_callback, hopp, Function.update_eq_self _ fun q => (σ q).callback]
  refine ⟨h.asserts, hside, ?_, ?_, ?_, fun q d hd => ?_, fun r => ?_, h.buffers, h.told, ?_,
    fun r => ?_⟩
  · rw [update_event, hevents, hnone]
    exact h.events.eraseIdx hk (by rw [hp, he])
  · rw [update_call, hcalls]
    refine (h.calls.cons (by rw [hq]; rfl) (h.call_ne (by rw [hq]; rfl) (by rw [hq]; rfl))).cons ?_
      fun r hr => ?_
    · rw [Function.update_of_ne hne, hp]
      rfl
    · rw [Function.update_apply] at hr
      split_ifs at hr
      · cases hr
        exact hne (hcp.symm.trans hdp)
      · exact h.call_ne (by rw [hp]; rfl) (by rw [hp]; rfl) r hr
  · have hcallback : (calling c n).callback = (σ p).callback := by rw [hp]; rfl
    rw [update_callback, hcallbacks, hcallback,
      Function.update_eq_self _ fun q => (σ q).callback]
    exact h.books
  · rw [Function.update_apply, hσ₁, Function.update_apply] at hd
    split_ifs at hd
    · cases hd
    · cases hd
    · exact h.size q d hd
  · have hbound := h.bound p
    have hbound' := h.bound p.opposite
    rw [hp] at hbound
    rw [hq] at hbound'
    rw [Function.update_apply, hσ₁, Function.update_apply]
    split_ifs
    · exact hbound
    · exact hbound'
    · exact h.bound r
  · refine linked_of p ?_ fun q hq hq' => ?_
    · rw [Function.update_self, Function.update_of_ne (Port.opposite_ne p), hσ₁,
        Function.update_self]
      exact .unmatched id id nofun
    · rw [Function.update_of_ne hq, Function.update_of_ne (Port.opposite_ne_of hq'), hσ₁,
        Function.update_of_ne hq',
        Function.update_of_ne fun heq => hq (Port.opposite_injective heq)]
      exact h.linked q
  · exact h.account_first hp hq r

theorem length_bytes {memory : ℕ → Bytes} (hn : n ≤ c.op.size)
    (hbuffer : ∀ x size, c.op = .read x size → (memory c.number).length = size) :
    (c.bytes memory n).length = n := by
  unfold Callback.bytes
  cases hop : c.op with
  | read x size =>
    rw [hop] at hn
    exact List.length_take_of_le (Nat.le_trans hn (Nat.le_of_eq (hbuffer x size hop).symm))
  | write x data =>
    rw [hop] at hn
    exact List.length_take_of_le hn

/-- **The next callback is invoked.** -/
theorem Inv.invoke (h : Inv σ s) {call : Option Callback × ℕ} {calls : List (Option Callback × ℕ)}
    (hcalls : s.calls = call :: calls) : ∃ σ', Inv σ' (invoke { s with calls } call) := by
  have hlisted := h.calls
  rw [hcalls] at hlisted
  obtain ⟨p, hp⟩ := (h.calls.mem_iff call).mp (by rw [hcalls]; exact List.mem_cons_self)
  obtain ⟨c, hpc, hc⟩ := call_eq_some hp
  obtain ⟨callback, n⟩ := call
  obtain rfl : callback = some c := hc
  have hstored : ∀ q, (Function.update σ p idle q).outstanding = (σ q).outstanding ∧
      (Function.update σ p idle q).pending = (σ q).pending ∧
      (Function.update σ p idle q).event q = (σ q).event q := by
    intro q
    rw [Function.update_apply]
    split_ifs with hq
    · subst hq
      rw [hpc]
      exact ⟨rfl, rfl, by cases q <;> rfl⟩
    · exact ⟨rfl, rfl, rfl⟩
  refine ⟨Function.update σ p idle, h.asserts, ?_, ?_, ?_, ?_, fun q d hd => ?_, fun q => ?_,
    h.buffers, fun k hk => ?_, ?_, fun q => ?_⟩
  · exact h.side.trans (sides_congr (fun q => (hstored q).1) fun q => (hstored q).2.1).symm
  · rw [show (fun q => (Function.update σ p idle q).event q) = fun q => (σ q).event q from
      funext fun q => (hstored q).2.2]
    exact h.events
  · rw [update_call]
    exact hlisted.tail hp
  · have hinvoked : (StreamPipe.invoke { s with calls } (some c, n)).invokedCallbacks =
        s.invokedCallbacks ++ [c] := List.map_append
    rw [update_callback, hinvoked]
    exact h.books.complete (by rw [hpc]; rfl)
  · rw [(hstored q).1] at hd
    exact h.size q d hd
  · rw [Function.update_apply]
    split_ifs
    · trivial
    · exact h.bound q
  · rcases List.mem_append.mp hk with hk | hk
    · exact h.told k hk
    · obtain rfl := List.mem_singleton.mp hk
      have hbound := h.bound p
      rw [hpc] at hbound
      refine ⟨hbound, length_bytes hbound (h.buffers c (h.books.mem_started (p := p) ?_))⟩
      rw [hpc]
      rfl
  · refine linked_of p ?_ fun q hq hq' => ?_
    · rw [Function.update_self, Function.update_of_ne (Port.opposite_ne p)]
      exact (h.linked p).unmatched_of (by rw [hpc]; exact id) id nofun
    · rw [Function.update_of_ne hq, Function.update_of_ne (Port.opposite_ne_of hq')]
      exact h.linked q
  · have hbytes : ∀ r, (StreamPipe.invoke { s with calls } (some c, n)).bytes r =
        s.bytes r ++ calledBytes s.memory r (some c, n) := by
      intro r
      simp [StreamPipe.invoke, State.bytes, calledBytes]
    have haccount := h.account q
    simp only [State.callBytes, hcalls, List.flatMap_cons] at haccount
    rw [hbytes, hbytes, List.append_assoc, List.append_assoc]
    exact haccount

end Mjlib.Micro.StreamPipe
