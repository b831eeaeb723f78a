import Mathlib
import Mjlib.Multiplex.StreamAsioClient

/-!
# What is in flight in a `StreamAsioClient`

Every command and every read context is in one place at a time: in the queue of the lock, with a task,
or with a poll timer.  These places are the `items` of a state.  `CoherentOn` says that the items are
apart from each other, and what each of them knows about its tunnel: a read that is not yet invoked is
the tunnel's current one and not canceled, a write has its handler.  The lemmas below say how an
operation changes the items; the list is arbitrary, so that they can be used while a task is out of
the list.
-/

namespace Mjlib.Multiplex.StreamAsioClient

open Io (Concrete ExclusiveCommand)

/-! ### Items -/

/-- Where a command or a read context can be. -/
inductive Item
  /-- A command that is not invoked yet. -/
  | pending (w : Concrete Command)
  /-- A command that was invoked. -/
  | running (w : Concrete Command)
  /-- A read between two polls. -/
  | polling (tunnel context : ℕ)

namespace Item

def nonce? : Item → Option ℕ
  | pending w => some w.nonce
  | running w => some w.nonce
  | polling _ _ => none

def context? : Item → Option ℕ
  | pending ⟨_, .read _ c⟩ => some c
  | running ⟨_, .read _ c⟩ => some c
  | polling _ c => some c
  | _ => none

/-- Two items share neither a command nor a read context. -/
def Apart (x y : Item) : Prop :=
  (∀ n, x.nonce? = some n → y.nonce? ≠ some n) ∧
    ∀ c, x.context? = some c → y.context? ≠ some c

theorem Apart.symm {x y : Item} (h : x.Apart y) : y.Apart x :=
  ⟨fun n hy hx => h.1 n hx hy, fun c hy hx => h.2 c hx hy⟩

end Item

/-- The command whose release handler a task holds. -/
def Task.concrete? : Task → Option (Concrete Command)
  | invoke w => some w
  | registerDone nonce r _ => some ⟨nonce, .register r⟩
  | writeMultiple nonce request handler => some ⟨nonce, .transmit request handler⟩
  | registerWrite nonce r => some ⟨nonce, .register r⟩
  | registerRead nonce r => some ⟨nonce, .register r⟩
  | requestWrite nonce i c => some ⟨nonce, .read i c⟩
  | tunnelRead nonce i c => some ⟨nonce, .read i c⟩
  | tunnelWrite nonce i data _ => some ⟨nonce, .write i data⟩
  | _ => none

def Task.item? : Task → Option Item
  | invoke w => some (.pending w)
  | wait i c => some (.polling i c)
  | pollTimer i c _ => some (.polling i c)
  | task => task.concrete?.map .running

/-- The items of a state. -/
def items (s : State) : List Item :=
  s.lock.queued.map .pending ++ s.tasks.filterMap Task.item?

/-! ### What an item knows -/

/-- The read of a tunnel with its context is invoked: the context is canceled, or the tunnel's current
one. -/
def Between (s : State) (i c : ℕ) : Prop :=
  c < s.contexts.length ∧ ((s.context c).canceled = true ∨
    (s.tunnel i).readContext = some c ∧ (s.tunnel i).readNonce = none)

/-- A write with the nonce is the tunnel's current one. -/
def HasWrite (s : State) (i nonce : ℕ) : Prop :=
  (s.tunnel i).writeHandler.isSome = true ∧ (s.tunnel i).writeNonce = some nonce

/-- A read that is not invoked is the tunnel's current one, and not canceled. -/
def HasRead (s : State) (i c nonce : ℕ) : Prop :=
  c < s.contexts.length ∧ (s.context c).canceled = false ∧
    (s.tunnel i).readContext = some c ∧ (s.tunnel i).readNonce = some nonce

/-- What an item knows about the state. -/
def Item.Ok (s : State) : Item → Prop
  | pending w => w.nonce < s.lock.made ∧
    match w.command with
    | .read i c => HasRead s i c w.nonce
    | .write i _ => HasWrite s i w.nonce
    | _ => True
  | running w => w.nonce < s.lock.made ∧
    match w.command with
    | .read i c => Between s i c
    | .write i _ => HasWrite s i w.nonce
    | _ => True
  | polling i c => Between s i c

/-- The items in the list are apart, and right about the state. -/
structure CoherentOn (L : List Item) (s : State) : Prop where
  apart : L.Pairwise Item.Apart
  ok : ∀ x ∈ L, x.Ok s
  owner : ∀ i j c, (s.tunnel i).readContext = some c → (s.tunnel j).readContext = some c → i = j
  context_lt : ∀ i c, (s.tunnel i).readContext = some c → c < s.contexts.length

/-- The items of the state are apart, and right about it. -/
def Coherent (s : State) : Prop := CoherentOn (items s) s

namespace CoherentOn

variable {L L' : List Item} {s s' : State} {x : Item}

theorem perm (h : CoherentOn L s) (hL : L.Perm L') : CoherentOn L' s :=
  ⟨hL.pairwise h.apart fun hxy => hxy.symm, fun x hx => h.ok x (hL.mem_iff.mpr hx), h.owner,
    h.context_lt⟩

theorem sublist (h : CoherentOn L s) (hL : L'.Sublist L) : CoherentOn L' s :=
  ⟨h.apart.sublist hL, fun x hx => h.ok x (hL.subset hx), h.owner, h.context_lt⟩

/-- An item is dropped. -/
theorem tail (h : CoherentOn (x :: L) s) : CoherentOn L s := h.sublist (List.sublist_cons_self x L)

theorem head (h : CoherentOn (x :: L) s) : x.Ok s := h.ok x (List.mem_cons_self ..)

theorem head_apart (h : CoherentOn (x :: L) s) : ∀ y ∈ L, x.Apart y :=
  (List.pairwise_cons.mp h.apart).1

/-- An item is replaced by one about no more than it. -/
theorem replace {x' : Item} (h : CoherentOn (x :: L) s) (hok : x'.Ok s)
    (hn : ∀ n, x'.nonce? = some n → x.nonce? = some n)
    (hc : ∀ c, x'.context? = some c → x.context? = some c) : CoherentOn (x' :: L) s := by
  refine ⟨List.pairwise_cons.mpr ⟨fun y hy => ?_, h.tail.apart⟩, ?_, h.owner, h.context_lt⟩
  · have hxy := h.head_apart y hy
    exact ⟨fun n hx' => hxy.1 n (hn n hx'), fun c hx' => hxy.2 c (hc c hx')⟩
  · rintro y (_ | ⟨_, hy⟩)
    · exact hok
    · exact h.tail.ok y hy

end CoherentOn

/-! ### The parts of the state that matter -/

theorem tunnel_modifyTunnel (s : State) (i j : ℕ) (f : Tunnel → Tunnel) :
    (s.modifyTunnel i f).tunnel j
      = if i = j ∧ j < s.tunnels.length then f (s.tunnel j) else s.tunnel j := by
  simp only [State.tunnel, State.modifyTunnel, List.getD_eq_getElem?_getD, List.getElem?_modify]
  by_cases hj : j < s.tunnels.length
  · by_cases hi : i = j <;> simp [hj, hi]
  · simp [hj]

theorem tunnel_modifyTunnel_self {s : State} {i : ℕ} (hi : i < s.tunnels.length)
    (f : Tunnel → Tunnel) : (s.modifyTunnel i f).tunnel i = f (s.tunnel i) := by
  rw [tunnel_modifyTunnel, if_pos ⟨rfl, hi⟩]

theorem tunnel_modifyTunnel_of_ne (s : State) {i j : ℕ} (h : i ≠ j) (f : Tunnel → Tunnel) :
    (s.modifyTunnel i f).tunnel j = s.tunnel j := by
  rw [tunnel_modifyTunnel, if_neg fun hij => h hij.1]

theorem canceled_modifyContext (s : State) {c : ℕ} (c' : ℕ) {f : ReadContext → ReadContext}
    (hf : ∀ ctx, (f ctx).canceled = ctx.canceled) :
    ((s.modifyContext c f).context c').canceled = (s.context c').canceled := by
  simp only [State.context, State.modifyContext, List.getD_eq_getElem?_getD, List.getElem?_modify]
  cases s.contexts[c']? with
  | none => rfl
  | some ctx =>
    by_cases hc : c = c'
    · simp [hc, hf]
    · simp [hc]

/-- A tunnel that anything is known about exists. -/
theorem lt_of_readContext {s : State} {i c : ℕ} (h : (s.tunnel i).readContext = some c) :
    i < s.tunnels.length := by
  by_contra hi
  rw [State.tunnel, List.getD_eq_getElem?_getD, List.getElem?_eq_none (not_lt.mp hi)] at h
  simp at h

theorem lt_of_writeHandler {s : State} {i : ℕ} (h : (s.tunnel i).writeHandler.isSome = true) :
    i < s.tunnels.length := by
  by_contra hi
  rw [State.tunnel, List.getD_eq_getElem?_getD, List.getElem?_eq_none (not_lt.mp hi)] at h
  simp at h

/-- The states do not differ in what an item can know. -/
structure SameView (s s' : State) : Prop where
  made : s'.lock.made = s.lock.made
  length : s'.contexts.length = s.contexts.length
  canceled : ∀ c, (s'.context c).canceled = (s.context c).canceled
  tunnel : ∀ i, s'.tunnel i = s.tunnel i

theorem SameView.modifyContext (s : State) (c : ℕ) {f : ReadContext → ReadContext}
    (hf : ∀ ctx, (f ctx).canceled = ctx.canceled) : SameView s (s.modifyContext c f) :=
  ⟨rfl, List.length_modify .., fun c' => canceled_modifyContext s c' hf, fun _ => rfl⟩

/-- What an item knows lasts if its own part of the knowledge does. -/
theorem Item.Ok.mono {s s' : State} {x : Item} (hx : x.Ok s) (hmade : s.lock.made ≤ s'.lock.made)
    (hread : ∀ n i c, x = .pending ⟨n, .read i c⟩ → HasRead s i c n → HasRead s' i c n)
    (hbetween : ∀ i c, x.context? = some c → Between s i c → Between s' i c)
    (hwrite : ∀ n i, x.nonce? = some n → HasWrite s i n → HasWrite s' i n) : x.Ok s' := by
  cases x with
  | pending w =>
    obtain ⟨n, _ | _ | ⟨i, c⟩ | ⟨i, data⟩⟩ := w
    · exact ⟨hx.1.trans_le hmade, trivial⟩
    · exact ⟨hx.1.trans_le hmade, trivial⟩
    · exact ⟨hx.1.trans_le hmade, hread n i c rfl hx.2⟩
    · exact ⟨hx.1.trans_le hmade, hwrite n i rfl hx.2⟩
  | running w =>
    obtain ⟨n, _ | _ | ⟨i, c⟩ | ⟨i, data⟩⟩ := w
    · exact ⟨hx.1.trans_le hmade, trivial⟩
    · exact ⟨hx.1.trans_le hmade, trivial⟩
    · exact ⟨hx.1.trans_le hmade, hbetween i c rfl hx.2⟩
    · exact ⟨hx.1.trans_le hmade, hwrite n i rfl hx.2⟩
  | polling i c => exact hbetween i c rfl hx

theorem Item.Ok.nonce_lt {s : State} {x : Item} (hx : x.Ok s) {n : ℕ} (hn : x.nonce? = some n) :
    n < s.lock.made := by
  cases x with
  | pending w => exact Option.some.inj hn ▸ hx.1
  | running w => exact Option.some.inj hn ▸ hx.1
  | polling i c => simp [nonce?] at hn

theorem Item.Ok.nonce_ne_made {s : State} {x : Item} (hx : x.Ok s) :
    x.nonce? ≠ some s.lock.made := fun h => absurd (hx.nonce_lt h) (lt_irrefl _)

theorem Item.Ok.context_lt {s : State} {x : Item} (hx : x.Ok s) {c : ℕ}
    (hc : x.context? = some c) : c < s.contexts.length := by
  cases x with
  | pending w =>
    obtain ⟨n, _ | _ | ⟨i, c'⟩ | ⟨i, data⟩⟩ := w <;> simp only [context?, reduceCtorEq] at hc
    exact Option.some.inj hc ▸ hx.2.1
  | running w =>
    obtain ⟨n, _ | _ | ⟨i, c'⟩ | ⟨i, data⟩⟩ := w <;> simp only [context?, reduceCtorEq] at hc
    exact Option.some.inj hc ▸ hx.2.1
  | polling i c' => exact Option.some.inj hc ▸ hx.1

theorem CoherentOn.congr {L : List Item} {s s' : State} (h : CoherentOn L s)
    (hs : SameView s s') : CoherentOn L s' := by
  refine ⟨h.apart, fun x hx => (h.ok x hx).mono hs.made.ge ?_ ?_ ?_, ?_, ?_⟩
  · intro n i c _ hr
    rwa [HasRead, hs.length, hs.canceled, hs.tunnel]
  · intro i c _ hb
    rwa [Between, hs.length, hs.canceled, hs.tunnel]
  · intro n i _ hw
    rwa [HasWrite, hs.tunnel]
  · intro i j c
    rw [hs.tunnel, hs.tunnel]
    exact h.owner i j c
  · intro i c
    rw [hs.tunnel, hs.length]
    exact h.context_lt i c

/-! ### What the commands do to the items -/

namespace CoherentOn

variable {L : List Item} {s s' : State} {x : Item} {n i c : ℕ}

/-- A read is invoked: it is not canceled, and no longer waits for the lock. -/
theorem invokeRead (h : CoherentOn (.pending ⟨n, .read i c⟩ :: L) s) :
    (s.context c).canceled = false ∧
      CoherentOn (.running ⟨n, .read i c⟩ :: L)
        (s.modifyTunnel i fun t => { t with readNonce := none }) := by
  obtain ⟨hlt, hc, hcanceled, hcontext, hnonce⟩ := h.head
  have hi := lt_of_readContext hcontext
  have htun := fun j => tunnel_modifyTunnel s i j fun t => { t with readNonce := none }
  have hcontexts : ∀ j, ((s.modifyTunnel i fun t => { t with readNonce := none }).tunnel
      j).readContext = (s.tunnel j).readContext := by
    intro j
    rw [htun]
    split_ifs <;> rfl
  refine ⟨hcanceled, List.pairwise_cons.mpr ⟨h.head_apart, h.tail.apart⟩, ?_, ?_, ?_⟩
  · rintro y (_ | ⟨_, hy⟩)
    · refine ⟨hlt, hc, Or.inr ?_⟩
      rw [tunnel_modifyTunnel_self hi]
      exact ⟨hcontext, rfl⟩
    · refine (h.tail.ok y hy).mono le_rfl ?_ ?_ ?_
      · rintro n' j c' rfl ⟨h1, h2, h3, h4⟩
        have hji : i ≠ j := by
          rintro rfl
          exact (h.head_apart _ hy).1 n rfl (congrArg some (Option.some.inj (h4.symm.trans hnonce)))
        exact ⟨h1, h2, by rw [tunnel_modifyTunnel_of_ne s hji]; exact ⟨h3, h4⟩⟩
      · rintro j c' - ⟨h1, h2 | ⟨h3, h4⟩⟩
        · exact ⟨h1, Or.inl h2⟩
        · refine ⟨h1, Or.inr ⟨by rw [hcontexts]; exact h3, ?_⟩⟩
          rw [htun]
          split_ifs
          · rfl
          · exact h4
      · rintro n' j - ⟨h1, h2⟩
        rw [HasWrite, htun]
        split_ifs <;> exact ⟨h1, h2⟩
  · intro j k c'
    rw [hcontexts, hcontexts]
    exact h.owner j k c'
  · intro j c'
    rw [hcontexts]
    exact h.context_lt j c'

/-- The current read of a tunnel, which is invoked and not canceled, is dropped. -/
theorem finishRead (h : CoherentOn (x :: L) s) (hx : x.context? = some c)
    (hbetween : Between s i c) (hcanceled : (s.context c).canceled = false) :
    (s.tunnel i).readContext = some c ∧
      CoherentOn L (s.modifyTunnel i fun t => { t with readContext := none }) := by
  obtain ⟨hc, hbad | ⟨hcontext, hnonce⟩⟩ := hbetween
  · rw [hcanceled] at hbad
    exact absurd hbad (by decide)
  have htun := fun j => tunnel_modifyTunnel s i j fun t => { t with readContext := none }
  have hi := lt_of_readContext hcontext
  have hsome : ∀ j c', ((s.modifyTunnel i fun t => { t with readContext := none }).tunnel
      j).readContext = some c' → (s.tunnel j).readContext = some c' := by
    intro j c' hj
    rw [htun] at hj
    split_ifs at hj
    exact hj
  refine ⟨hcontext, h.tail.apart, fun y hy => ?_, ?_, ?_⟩
  · -- another item of the tunnel would have the same context
    have hne : ∀ j c', y.context? = some c' → (s.tunnel j).readContext = some c' → i ≠ j := by
      rintro j c' hy' hj rfl
      obtain rfl := Option.some.inj (hcontext.symm.trans hj)
      exact (h.head_apart y hy).2 c hx hy'
    refine (h.tail.ok y hy).mono le_rfl ?_ ?_ ?_
    · rintro n' j c' rfl ⟨h1, h2, h3, h4⟩
      exact ⟨h1, h2, by rw [tunnel_modifyTunnel_of_ne s (hne j c' rfl h3)]; exact ⟨h3, h4⟩⟩
    · rintro j c' hy' ⟨h1, h2 | ⟨h3, h4⟩⟩
      · exact ⟨h1, Or.inl h2⟩
      · exact ⟨h1, Or.inr (by rw [tunnel_modifyTunnel_of_ne s (hne j c' hy' h3)]; exact ⟨h3, h4⟩)⟩
    · rintro n' j - ⟨h1, h2⟩
      rw [HasWrite, htun]
      split_ifs <;> exact ⟨h1, h2⟩
  · exact fun j k c' hj hk => h.owner j k c' (hsome j c' hj) (hsome k c' hk)
  · exact fun j c' hj => h.context_lt j c' (hsome j c' hj)

/-- A write ends: its handler is there, and is taken. -/
theorem finishWrite {data : Bytes} (h : CoherentOn (.running ⟨n, .write i data⟩ :: L) s) :
    (s.tunnel i).writeHandler.isSome = true ∧ CoherentOn L
      (s.modifyTunnel i fun t => { t with writeHandler := none, writeNonce := none }) := by
  obtain ⟨-, hhandler, hnonce⟩ := h.head
  have htun := fun j =>
    tunnel_modifyTunnel s i j fun t => { t with writeHandler := none, writeNonce := none }
  have hread : ∀ j, ((s.modifyTunnel i fun t =>
        { t with writeHandler := none, writeNonce := none }).tunnel j).readContext
        = (s.tunnel j).readContext ∧
      ((s.modifyTunnel i fun t =>
        { t with writeHandler := none, writeNonce := none }).tunnel j).readNonce
        = (s.tunnel j).readNonce := by
    intro j
    rw [htun]
    split_ifs <;> exact ⟨rfl, rfl⟩
  refine ⟨hhandler, h.tail.apart, fun y hy => (h.tail.ok y hy).mono le_rfl ?_ ?_ ?_, ?_, ?_⟩
  · rintro n' j c' - ⟨h1, h2, h3, h4⟩
    exact ⟨h1, h2, (hread j).1.trans h3, (hread j).2.trans h4⟩
  · rintro j c' - ⟨h1, h2 | ⟨h3, h4⟩⟩
    · exact ⟨h1, Or.inl h2⟩
    · exact ⟨h1, Or.inr ⟨(hread j).1.trans h3, (hread j).2.trans h4⟩⟩
  · rintro n' j hy' ⟨h1, h2⟩
    have hij : i ≠ j := by
      rintro rfl
      obtain rfl := Option.some.inj (h2.symm.trans hnonce)
      exact (h.head_apart y hy).1 _ rfl hy'
    rw [HasWrite, tunnel_modifyTunnel_of_ne s hij]
    exact ⟨h1, h2⟩
  · intro j k c'
    rw [(hread j).1, (hread k).1]
    exact h.owner j k c'
  · intro j c'
    rw [(hread j).1]
    exact h.context_lt j c'

/-- A command that is about no tunnel is given to the lock. -/
theorem startOther (h : CoherentOn L s) {command : Command}
    (hcommand : (∃ request handler, command = .transmit request handler) ∨
      ∃ r, command = .register r)
    (hmade : s'.lock.made = s.lock.made + 1) (hlength : s'.contexts.length = s.contexts.length)
    (hcanceled : ∀ c, (s'.context c).canceled = (s.context c).canceled)
    (htunnel : ∀ i, s'.tunnel i = s.tunnel i) :
    CoherentOn (.pending ⟨s.lock.made, command⟩ :: L) s' := by
  have hL : ∀ y ∈ L, y.Ok s' := by
    refine fun y hy => (h.ok y hy).mono (by omega) ?_ ?_ ?_
    · intro n' j c' _ hr
      rwa [HasRead, hlength, hcanceled, htunnel]
    · intro j c' _ hb
      rwa [Between, hlength, hcanceled, htunnel]
    · intro n' j _ hw
      rwa [HasWrite, htunnel]
  have hcontext : Item.context? (.pending ⟨s.lock.made, command⟩) = none := by
    obtain ⟨request, handler, rfl⟩ | ⟨r, rfl⟩ := hcommand <;> rfl
  refine ⟨List.pairwise_cons.mpr ⟨fun y hy => ⟨?_, ?_⟩, h.apart⟩, ?_, ?_, ?_⟩
  · intro n' hn'
    obtain rfl : s.lock.made = n' := Option.some.inj hn'
    exact (h.ok y hy).nonce_ne_made
  · intro c' hc'
    rw [hcontext] at hc'
    simp at hc'
  · rintro y (_ | ⟨_, hy⟩)
    · obtain ⟨request, handler, rfl⟩ | ⟨r, rfl⟩ := hcommand <;>
        exact ⟨by rw [hmade]; exact Nat.lt_succ_self _, trivial⟩
    · exact hL y hy
  · intro j k c'
    rw [htunnel, htunnel]
    exact h.owner j k c'
  · intro j c'
    rw [htunnel, hlength]
    exact h.context_lt j c'

/-- A read is given to the lock, with a new context. -/
theorem startRead (h : CoherentOn L s) (ctx : ReadContext) (hnone : (s.tunnel i).readContext = none)
    (hctx : ctx.canceled = false) (hmade : s'.lock.made = s.lock.made + 1)
    (hcontexts : s'.contexts = s.contexts ++ [ctx])
    (htunnel : ∀ j, s'.tunnel j = if i = j then { s.tunnel j with
      readContext := some s.contexts.length
      readNonce := some s.lock.made } else s.tunnel j) :
    CoherentOn (.pending ⟨s.lock.made, .read i s.contexts.length⟩ :: L) s' := by
  have hlength : s'.contexts.length = s.contexts.length + 1 := by rw [hcontexts]; simp
  have hold : ∀ c' < s.contexts.length, (s'.context c').canceled = (s.context c').canceled := by
    intro c' hc'
    simp only [State.context, hcontexts, List.getD_eq_getElem?_getD,
      List.getElem?_append_left hc']
  have hnew : (s'.context s.contexts.length).canceled = false := by
    simp only [State.context, hcontexts, List.getD_eq_getElem?_getD, List.getElem?_concat_length,
      Option.getD_some, hctx]
  have hself : s'.tunnel i = { s.tunnel i with
      readContext := some s.contexts.length
      readNonce := some s.lock.made } := by rw [htunnel, if_pos rfl]
  have hother : ∀ j, i ≠ j → s'.tunnel j = s.tunnel j := fun j hj => by rw [htunnel, if_neg hj]
  have hne : ∀ j c', (s.tunnel j).readContext = some c' → i ≠ j := by
    rintro j c' hj rfl
    rw [hnone] at hj
    simp at hj
  refine ⟨List.pairwise_cons.mpr ⟨fun y hy => ⟨?_, ?_⟩, h.apart⟩, ?_, ?_, ?_⟩
  · intro n' hn'
    obtain rfl : s.lock.made = n' := Option.some.inj hn'
    exact (h.ok y hy).nonce_ne_made
  · intro c' hc' hy'
    have := (h.ok y hy).context_lt hy'
    exact absurd (Option.some.inj hc') (by omega)
  · rintro y (_ | ⟨_, hy⟩)
    · exact ⟨by rw [hmade]; exact Nat.lt_succ_self _, by rw [hlength]; exact Nat.lt_succ_self _, hnew,
        by rw [hself], by rw [hself]⟩
    · refine (h.ok y hy).mono (by omega) ?_ ?_ ?_
      · rintro n' j c' - ⟨h1, h2, h3, h4⟩
        rw [HasRead, hother j (hne j c' h3), hold c' h1]
        exact ⟨by omega, h2, h3, h4⟩
      · rintro j c' - ⟨h1, h2 | ⟨h3, h4⟩⟩
        · exact ⟨by omega, Or.inl ((hold c' h1).trans h2)⟩
        · rw [Between, hother j (hne j c' h3)]
          exact ⟨by omega, Or.inr ⟨h3, h4⟩⟩
      · rintro n' j - ⟨h1, h2⟩
        rw [HasWrite, htunnel]
        split_ifs <;> exact ⟨h1, h2⟩
  · intro j k c' hj hk
    rw [htunnel] at hj hk
    split_ifs at hj hk with h1 h2 h2
    · exact h1.symm.trans h2
    · have := h.context_lt k c' hk
      exact absurd (Option.some.inj hj) (by omega)
    · have := h.context_lt j c' hj
      exact absurd (Option.some.inj hk) (by omega)
    · exact h.owner j k c' hj hk
  · intro j c' hj
    rw [htunnel] at hj
    split_ifs at hj
    · have := Option.some.inj hj
      omega
    · have := h.context_lt j c' hj
      omega

/-- A write is given to the lock, with its handler. -/
theorem startWrite (h : CoherentOn L s) (handler : ℕ) {data : Bytes}
    (hnone : (s.tunnel i).writeHandler = none) (hmade : s'.lock.made = s.lock.made + 1)
    (hcontexts : s'.contexts = s.contexts)
    (htunnel : ∀ j, s'.tunnel j = if i = j then { s.tunnel j with
      writeHandler := some handler
      writeNonce := some s.lock.made } else s.tunnel j) :
    CoherentOn (.pending ⟨s.lock.made, .write i data⟩ :: L) s' := by
  have hcontext : ∀ c', s'.context c' = s.context c' := fun c' => by
    rw [State.context, State.context, hcontexts]
  have hread : ∀ j, (s'.tunnel j).readContext = (s.tunnel j).readContext ∧
      (s'.tunnel j).readNonce = (s.tunnel j).readNonce := by
    intro j
    rw [htunnel]
    split_ifs <;> exact ⟨rfl, rfl⟩
  refine ⟨List.pairwise_cons.mpr ⟨fun y hy => ⟨?_, ?_⟩, h.apart⟩, ?_, ?_, ?_⟩
  · intro n' hn'
    obtain rfl : s.lock.made = n' := Option.some.inj hn'
    exact (h.ok y hy).nonce_ne_made
  · intro c' hc'
    simp [Item.context?] at hc'
  · rintro y (_ | ⟨_, hy⟩)
    · refine ⟨by rw [hmade]; exact Nat.lt_succ_self _, ?_⟩
      change HasWrite s' i s.lock.made
      rw [HasWrite, htunnel, if_pos rfl]
      exact ⟨rfl, rfl⟩
    · refine (h.ok y hy).mono (by omega) ?_ ?_ ?_
      · rintro n' j c' - ⟨h1, h2, h3, h4⟩
        rw [HasRead, hcontexts, hcontext, (hread j).1, (hread j).2]
        exact ⟨h1, h2, h3, h4⟩
      · rintro j c' - hb
        rwa [Between, hcontexts, hcontext, (hread j).1, (hread j).2]
      · rintro n' j - ⟨h1, h2⟩
        have hij : i ≠ j := by
          rintro rfl
          rw [hnone] at h1
          simp at h1
        rw [HasWrite, htunnel, if_neg hij]
        exact ⟨h1, h2⟩
  · intro j k c'
    rw [(hread j).1, (hread k).1]
    exact h.owner j k c'
  · intro j c'
    rw [(hread j).1, hcontexts]
    exact h.context_lt j c'

end CoherentOn

end Mjlib.Multiplex.StreamAsioClient
