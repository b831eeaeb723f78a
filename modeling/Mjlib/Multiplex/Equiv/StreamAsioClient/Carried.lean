import Mjlib.Multiplex.Equiv.StreamAsioClient.Undisturbed

/-!
# What carries the handler of a tunnel's read

The handler of a read is in the read's context, and the context in one of the `items`: a command in
the queue or invoked, or a poll timer.  From there it is posted, and called.
`Carried h k i ab L s` counts these places: the items of `L` whose context has the handler `h`,
together with the times it is posted and was called, are `k`.  Nothing is asked of a call of `cancel`,
unlike in `CoherentOn`: what a read knows about its tunnel is that it is canceled, or the tunnel's
current one.

The lemmas say how a change of the state keeps the count.  A handler that is taken out of its context
is in hand for a while, and counts less until it is posted, called, or given to another context.
-/

namespace Mjlib.Multiplex.StreamAsioClient

open Io (Concrete ExclusiveCommand)

/-! ### Outcomes -/

/-- What the task calls the handler with, if it is posted by the task. -/
def Task.outcome? (h : ℕ) : Task → Option ErrorCode
  | complete handler ec _ => if handler = some h then some ec else none
  | _ => none

/-- What a call had, if it was one of the handler. -/
def Completion.outcome? (h : ℕ) (c : Completion) : Option ErrorCode :=
  if c.handler = h then some c.ec else none

/-- The errors that the handler is posted with, and those it was called with. -/
def outcomes (h : ℕ) (s : State) : List ErrorCode :=
  s.tasks.filterMap (Task.outcome? h) ++ s.completions.filterMap (Completion.outcome? h)

theorem outcomes_addTask (h : ℕ) (s : State) (task : Task) :
    (outcomes h (s.addTask task)).Perm ((task.outcome? h).toList ++ outcomes h s) := by
  have hnew : (s.addTask task).tasks.filterMap (Task.outcome? h)
      = s.tasks.filterMap (Task.outcome? h) ++ (task.outcome? h).toList := by
    rw [State.addTask, List.filterMap_append]
    cases ho : task.outcome? h <;> simp [ho]
  rw [outcomes, outcomes, hnew, ← List.append_assoc]
  exact List.perm_append_comm.append_right _

theorem outcomes_call (h handler : ℕ) (ec : ErrorCode) (size : ℕ) (s : State) :
    (outcomes h (s.call handler ec size)).Perm
      ((if handler = h then [ec] else []) ++ outcomes h s) := by
  have hnew : (s.call handler ec size).completions.filterMap (Completion.outcome? h)
      = s.completions.filterMap (Completion.outcome? h) ++ if handler = h then [ec] else [] := by
    rw [State.call, List.filterMap_append]
    split_ifs with heq <;> simp [Completion.outcome?, heq]
  rw [outcomes, outcomes, hnew, ← List.append_assoc]
  exact List.perm_append_comm

theorem outcomes_take {h k : ℕ} {task : Task} {s s₀ : State} (htake : take k s = some (task, s₀)) :
    (outcomes h s).Perm ((task.outcome? h).toList ++ outcomes h s₀) := by
  obtain ⟨task', htask, heq⟩ := Option.map_eq_some_iff.mp htake
  obtain ⟨rfl, rfl⟩ := Prod.mk.injEq .. ▸ heq
  have htasks : (s.tasks.filterMap (Task.outcome? h)).Perm
      ((task'.outcome? h).toList ++ (s.tasks.eraseIdx k).filterMap (Task.outcome? h)) := by
    refine ((perm_of_take htask).filterMap _).symm.trans ?_
    rw [List.filterMap_cons]
    cases task'.outcome? h <;> exact .refl _
  rw [outcomes, outcomes, ← List.append_assoc]
  exact htasks.append_right _

theorem outcomes_cancelTimer (h i : ℕ) (s : State) :
    outcomes h (cancelTimer i s) = outcomes h s := by
  have htasks : (cancelTimer i s).tasks.filterMap (Task.outcome? h)
      = s.tasks.filterMap (Task.outcome? h) := by
    rw [cancelTimer, List.filterMap_map]
    apply List.filterMap_congr
    intro task _
    cases task with
    | wait i' c =>
      change Task.outcome? h (if i' = i then .pollTimer i' c .operationAborted else .wait i' c) = _
      split_ifs <;> rfl
    | _ => rfl
  rw [outcomes, outcomes, htasks]
  rfl

theorem outcomes_setLock (h : ℕ) (s : State)
    (r : ExclusiveCommand Command × Option (Concrete Command)) :
    outcomes h (s.setLock r) = outcomes h s := by
  obtain ⟨l, _ | w⟩ := r
  · rfl
  · rw [outcomes, outcomes, State.setLock]
    simp [Task.outcome?]

/-! ### Items about reads -/

namespace Item

/-- The tunnel and the context of an item about a read. -/
def read? : Item → Option (ℕ × ℕ)
  | pending ⟨_, .read i c⟩ => some (i, c)
  | running ⟨_, .read i c⟩ => some (i, c)
  | polling i c => some (i, c)
  | _ => none

/-- The handlers of the application that the item's command carries. -/
def handlers : Item → List ℕ
  | pending w => w.command.handlers
  | running w => w.command.handlers
  | polling _ _ => []

/-- The context of the item has the handler. -/
def Holds (h : ℕ) (s : State) (x : Item) : Bool :=
  x.read?.any fun p => (s.context p.2).handler = some h

theorem context?_eq (x : Item) : x.context? = x.read?.map Prod.snd := by
  cases x with
  | pending w => obtain ⟨n, _ | _ | _ | _⟩ := w <;> rfl
  | running w => obtain ⟨n, _ | _ | _ | _⟩ := w <;> rfl
  | polling i c => rfl

theorem context?_of_read? {x : Item} {i c : ℕ} (h : x.read? = some (i, c)) :
    x.context? = some c := by
  rw [context?_eq, h]
  rfl

theorem holds_iff {h : ℕ} {s : State} {x : Item} :
    x.Holds h s = true ↔ ∃ i c, x.read? = some (i, c) ∧ (s.context c).handler = some h := by
  rw [Holds, Option.any_eq_true]
  simp only [Prod.exists, decide_eq_true_eq]

theorem holds_of_read? {h : ℕ} {s : State} {x : Item} {i c : ℕ} (hx : x.read? = some (i, c)) :
    x.Holds h s = decide ((s.context c).handler = some h) := by
  rw [Holds, hx]
  rfl

end Item

theorem context_modifyContext (s : State) (c c' : ℕ) (f : ReadContext → ReadContext) :
    (s.modifyContext c f).context c'
      = if c = c' ∧ c' < s.contexts.length then f (s.context c') else s.context c' := by
  simp only [State.context, State.modifyContext, List.getD_eq_getElem?_getD, List.getElem?_modify]
  by_cases hlt : c' < s.contexts.length
  · by_cases hc : c = c' <;> simp [hlt, hc]
  · simp [hlt]

theorem context_modifyContext_of_ne (s : State) {c c' : ℕ} (hne : c ≠ c')
    (f : ReadContext → ReadContext) : (s.modifyContext c f).context c' = s.context c' := by
  rw [context_modifyContext, if_neg fun hc => hne hc.1]

/-! ### The count -/

/-- What the reads in the list know of their tunnels, and the tunnels of their commands. -/
structure Reads (L : List Item) (s : State) : Prop where
  apart : L.Pairwise Item.Apart
  nonce_lt : ∀ x ∈ L, ∀ n, x.nonce? = some n → n < s.lock.made
  context_lt : ∀ x ∈ L, ∀ i c, x.read? = some (i, c) → c < s.contexts.length
  known : ∀ x ∈ L, ∀ i c, x.read? = some (i, c) →
    (s.context c).canceled = true ∨ (s.tunnel i).readContext = some c
  current_lt : ∀ j c, (s.tunnel j).readContext = some c → c < s.contexts.length
  readNonce_lt : ∀ j n, (s.tunnel j).readNonce = some n → n < s.lock.made
  writeNonce_lt : ∀ j n, (s.tunnel j).writeNonce = some n → n < s.lock.made
  /-- What has the nonce of a tunnel's read is the tunnel's current read, not yet invoked. -/
  readNonce : ∀ j n, (s.tunnel j).readNonce = some n → ∀ x ∈ L, x.nonce? = some n →
    ∃ c, x = .pending ⟨n, .read j c⟩ ∧ (s.tunnel j).readContext = some c
  writeNonce : ∀ j n, (s.tunnel j).writeNonce = some n → ∀ x ∈ L, x.nonce? = some n →
    x.read? = none

/-- The handler `h` is of a read of tunnel `i`; it has `k` places.  With `ab`, it can only be called
with `operation_aborted`. -/
structure Tracks (h k i : ℕ) (ab : Prop) (L : List Item) (s : State) : Prop where
  weight : L.countP (Item.Holds h s) + (outcomes h s).length = k
  about : ∀ x ∈ L, ∀ j c, x.read? = some (j, c) → (s.context c).handler = some h →
    j = i ∧ (ab → (s.context c).canceled = true)
  aborted : ab → ∀ e ∈ outcomes h s, e = .operationAborted
  elsewhere : ∀ x ∈ L, h ∉ x.handlers
  write : ∀ j, (s.tunnel j).writeHandler ≠ some h

/-- The reads of the list, with the count of one handler. -/
structure Carried (h k i : ℕ) (ab : Prop) (L : List Item) (s : State) : Prop where
  reads : Reads L s
  tracks : Tracks h k i ab L s

/-- How often a handler that is in hand counts. -/
def inHand (h : ℕ) (handler : Option ℕ) : ℕ := if handler = some h then 1 else 0

/-- The states do not differ in what is known of the reads, and of the handler. -/
structure SameReads (h : ℕ) (s s' : State) : Prop where
  made : s.lock.made ≤ s'.lock.made
  length : s'.contexts.length = s.contexts.length
  canceled : ∀ c, (s'.context c).canceled = (s.context c).canceled
  handler : ∀ c, (s'.context c).handler = (s.context c).handler
  readContext : ∀ j, (s'.tunnel j).readContext = (s.tunnel j).readContext
  readNonce : ∀ j, (s'.tunnel j).readNonce = (s.tunnel j).readNonce
  writeNonce : ∀ j, (s'.tunnel j).writeNonce = (s.tunnel j).writeNonce
  writeHandler : ∀ j, (s'.tunnel j).writeHandler = (s.tunnel j).writeHandler
  outcomes : (outcomes h s').Perm (outcomes h s)

theorem SameReads.of_eq {h : ℕ} {s s' : State} (hmade : s.lock.made ≤ s'.lock.made)
    (hcontexts : s'.contexts = s.contexts) (htunnels : s'.tunnels = s.tunnels)
    (houtcomes : StreamAsioClient.outcomes h s' = StreamAsioClient.outcomes h s) :
    SameReads h s s' where
  made := hmade
  length := by rw [hcontexts]
  canceled := fun c => by rw [context_eq_of_contexts_eq hcontexts]
  handler := fun c => by rw [context_eq_of_contexts_eq hcontexts]
  readContext := fun j => by rw [tunnel_eq_of_tunnels_eq htunnels]
  readNonce := fun j => by rw [tunnel_eq_of_tunnels_eq htunnels]
  writeNonce := fun j => by rw [tunnel_eq_of_tunnels_eq htunnels]
  writeHandler := fun j => by rw [tunnel_eq_of_tunnels_eq htunnels]
  outcomes := houtcomes ▸ .refl _

theorem countP_holds_congr {h : ℕ} {L : List Item} {s s' : State}
    (hs : ∀ x ∈ L, ∀ i c, x.read? = some (i, c) →
      (s'.context c).handler = (s.context c).handler) :
    L.countP (Item.Holds h s') = L.countP (Item.Holds h s) := by
  apply List.countP_congr
  intro x hx
  rw [Item.holds_iff, Item.holds_iff]
  constructor
  · rintro ⟨i, c, hread, hh⟩
    exact ⟨i, c, hread, (hs x hx i c hread).symm.trans hh⟩
  · rintro ⟨i, c, hread, hh⟩
    exact ⟨i, c, hread, (hs x hx i c hread).trans hh⟩

namespace Reads

variable {L L' : List Item} {s s' : State} {x x' : Item} {i c : ℕ}

theorem perm (hr : Reads L s) (hL : L.Perm L') : Reads L' s where
  apart := hL.pairwise hr.apart fun hxy => hxy.symm
  nonce_lt := fun x hx => hr.nonce_lt x (hL.mem_iff.mpr hx)
  context_lt := fun x hx => hr.context_lt x (hL.mem_iff.mpr hx)
  known := fun x hx => hr.known x (hL.mem_iff.mpr hx)
  current_lt := hr.current_lt
  readNonce_lt := hr.readNonce_lt
  writeNonce_lt := hr.writeNonce_lt
  readNonce := fun j n hn x hx => hr.readNonce j n hn x (hL.mem_iff.mpr hx)
  writeNonce := fun j n hn x hx => hr.writeNonce j n hn x (hL.mem_iff.mpr hx)

theorem sublist (hr : Reads L s) (hL : L'.Sublist L) : Reads L' s where
  apart := hr.apart.sublist hL
  nonce_lt := fun x hx => hr.nonce_lt x (hL.subset hx)
  context_lt := fun x hx => hr.context_lt x (hL.subset hx)
  known := fun x hx => hr.known x (hL.subset hx)
  current_lt := hr.current_lt
  readNonce_lt := hr.readNonce_lt
  writeNonce_lt := hr.writeNonce_lt
  readNonce := fun j n hn x hx => hr.readNonce j n hn x (hL.subset hx)
  writeNonce := fun j n hn x hx => hr.writeNonce j n hn x (hL.subset hx)

/-- No other item has the context of the first one. -/
theorem context_ne (hr : Reads (x :: L) s) (hx : x.read? = some (i, c)) :
    ∀ y ∈ L, y.context? ≠ some c := fun y hy =>
  ((List.pairwise_cons.mp hr.apart).1 y hy).2 c (Item.context?_of_read? hx)

theorem congr {h : ℕ} (hr : Reads L s) (hs : SameReads h s s') : Reads L s' where
  apart := hr.apart
  nonce_lt := fun x hx n hn => (hr.nonce_lt x hx n hn).trans_le hs.made
  context_lt := fun x hx i c hread => hs.length.symm ▸ hr.context_lt x hx i c hread
  known := by
    intro x hx i c hread
    rw [hs.canceled, hs.readContext]
    exact hr.known x hx i c hread
  current_lt := by
    intro j c
    rw [hs.readContext, hs.length]
    exact hr.current_lt j c
  readNonce_lt := by
    intro j n
    rw [hs.readNonce]
    exact fun hn => (hr.readNonce_lt j n hn).trans_le hs.made
  writeNonce_lt := by
    intro j n
    rw [hs.writeNonce]
    exact fun hn => (hr.writeNonce_lt j n hn).trans_le hs.made
  readNonce := by
    intro j n
    rw [hs.readNonce, hs.readContext]
    exact hr.readNonce j n
  writeNonce := by
    intro j n
    rw [hs.writeNonce]
    exact hr.writeNonce j n

/-- A context is changed; it stays canceled. -/
theorem modifyContext (hr : Reads L s) {f : ReadContext → ReadContext}
    (hf : (s.context c).canceled = true → (f (s.context c)).canceled = true) :
    Reads L (s.modifyContext c f) where
  apart := hr.apart
  nonce_lt := hr.nonce_lt
  context_lt := fun x hx i c' hread =>
    (hr.context_lt x hx i c' hread).trans_eq (List.length_modify ..).symm
  known := by
    intro x hx i c' hread
    refine (hr.known x hx i c' hread).imp_left fun hc => ?_
    rw [context_modifyContext]
    split_ifs with heq
    · obtain ⟨rfl, -⟩ := heq
      exact hf hc
    · exact hc
  current_lt := fun j c' hj => (hr.current_lt j c' hj).trans_eq (List.length_modify ..).symm
  readNonce_lt := hr.readNonce_lt
  writeNonce_lt := hr.writeNonce_lt
  readNonce := hr.readNonce
  writeNonce := hr.writeNonce

/-- A tunnel forgets some of what it knows. -/
theorem modifyTunnel (hr : Reads L s) {f : Tunnel → Tunnel}
    (hread : (f (s.tunnel i)).readNonce = (s.tunnel i).readNonce ∨
      (f (s.tunnel i)).readNonce = none)
    (hwrite : (f (s.tunnel i)).writeNonce = (s.tunnel i).writeNonce ∨
      (f (s.tunnel i)).writeNonce = none)
    (hcontext : (f (s.tunnel i)).readContext = (s.tunnel i).readContext ∨
      (f (s.tunnel i)).readContext = none ∧
        (∀ x ∈ L, ∀ c, x.read? = some (i, c) → (s.context c).canceled = true) ∧
        ((f (s.tunnel i)).readNonce = none ∨
          ∀ x ∈ L, ∀ c, (s.tunnel i).readContext = some c → x.context? ≠ some c)) :
    Reads L (s.modifyTunnel i f) := by
  have hnonce : ∀ j n, ((s.modifyTunnel i f).tunnel j).readNonce = some n →
      (s.tunnel j).readNonce = some n := by
    intro j n
    rw [tunnel_modifyTunnel]
    split_ifs with hij
    · obtain ⟨rfl, -⟩ := hij
      rcases hread with heq | heq <;> simp [heq]
    · exact id
  have hnonce' : ∀ j n, ((s.modifyTunnel i f).tunnel j).writeNonce = some n →
      (s.tunnel j).writeNonce = some n := by
    intro j n
    rw [tunnel_modifyTunnel]
    split_ifs with hij
    · obtain ⟨rfl, -⟩ := hij
      rcases hwrite with heq | heq <;> simp [heq]
    · exact id
  refine ⟨hr.apart, hr.nonce_lt, hr.context_lt, ?_, ?_,
    fun j n hn => hr.readNonce_lt j n (hnonce j n hn),
    fun j n hn => hr.writeNonce_lt j n (hnonce' j n hn), ?_,
    fun j n hn => hr.writeNonce j n (hnonce' j n hn)⟩
  · intro x hx j c' hxread
    rw [tunnel_modifyTunnel]
    split_ifs with hij
    · obtain ⟨rfl, -⟩ := hij
      rcases hcontext with heq | ⟨-, hcanceled, -⟩
      · rw [heq]
        exact hr.known x hx i c' hxread
      · exact Or.inl (hcanceled x hx c' hxread)
    · exact hr.known x hx j c' hxread
  · intro j c'
    rw [tunnel_modifyTunnel]
    split_ifs with hij
    · obtain ⟨rfl, -⟩ := hij
      rcases hcontext with heq | ⟨hnone, -⟩
      · rw [heq]
        exact hr.current_lt i c'
      · simp [hnone]
    · exact hr.current_lt j c'
  · intro j n hn x hx hxn
    obtain ⟨c', hx', hcurrent⟩ := hr.readNonce j n (hnonce j n hn) x hx hxn
    refine ⟨c', hx', ?_⟩
    rw [tunnel_modifyTunnel] at hn ⊢
    split_ifs at hn ⊢ with hij
    · obtain ⟨rfl, -⟩ := hij
      rcases hcontext with heq | ⟨-, -, hnone | hne⟩
      · exact heq.trans hcurrent
      · rw [hnone] at hn
        simp at hn
      · exact absurd (by rw [hx']; rfl) (hne x hx c' hcurrent)
    · exact hcurrent

/-- An item goes on as another one, that no tunnel has the nonce of. -/
theorem replace (hr : Reads (x :: L) s) (hn : ∀ n, x'.nonce? = some n → x.nonce? = some n)
    (hread : x'.read? = x.read?)
    (hfree : ∀ j n, (s.tunnel j).readNonce = some n → x'.nonce? ≠ some n) :
    Reads (x' :: L) s := by
  have htail := hr.sublist (List.sublist_cons_self x L)
  have hhead : x ∈ x :: L := List.mem_cons_self
  refine ⟨List.pairwise_cons.mpr ⟨fun y hy => ?_, htail.apart⟩, ?_, ?_, ?_, hr.current_lt,
    hr.readNonce_lt, hr.writeNonce_lt, ?_, ?_⟩
  · have hxy := (List.pairwise_cons.mp hr.apart).1 y hy
    refine ⟨fun n hx' => hxy.1 n (hn n hx'), fun c hx' => hxy.2 c ?_⟩
    rwa [Item.context?_eq, ← hread, ← Item.context?_eq]
  · rintro y (_ | ⟨_, hy⟩) n hny
    · exact hr.nonce_lt x hhead n (hn n hny)
    · exact htail.nonce_lt y hy n hny
  · rintro y (_ | ⟨_, hy⟩) j c' hy'
    · exact hr.context_lt x hhead j c' (hread ▸ hy')
    · exact htail.context_lt y hy j c' hy'
  · rintro y (_ | ⟨_, hy⟩) j c' hy'
    · exact hr.known x hhead j c' (hread ▸ hy')
    · exact htail.known y hy j c' hy'
  · rintro j n hj y (_ | ⟨_, hy⟩) hny
    · exact absurd hny (hfree j n hj)
    · exact htail.readNonce j n hj y hy hny
  · rintro j n hj y (_ | ⟨_, hy⟩) hny
    · rw [hread]
      exact hr.writeNonce j n hj x hhead (hn n hny)
    · exact htail.writeNonce j n hj y hy hny

end Reads

namespace Reads

variable {L : List Item} {s s' : State} {i : ℕ}

/-- A command that is not a read is given to the lock. -/
theorem startOther {h : ℕ} (hr : Reads L s) {command : Command}
    (hcommand : (Item.pending ⟨s.lock.made, command⟩).read? = none)
    (hmade : s.lock.made < s'.lock.made) (hs : SameReads h s s') :
    Reads (.pending ⟨s.lock.made, command⟩ :: L) s' := by
  have hL := hr.congr hs
  have hfresh : ∀ y ∈ L, y.nonce? ≠ some s.lock.made := fun y hy hn =>
    absurd (hr.nonce_lt y hy _ hn) (lt_irrefl _)
  refine ⟨List.pairwise_cons.mpr ⟨fun y hy => ⟨?_, ?_⟩, hr.apart⟩, ?_, ?_, ?_, hL.current_lt,
    hL.readNonce_lt, hL.writeNonce_lt, ?_, ?_⟩
  · intro n hn
    obtain rfl : s.lock.made = n := Option.some.inj hn
    exact hfresh y hy
  · intro c hc
    rw [Item.context?_eq, hcommand] at hc
    simp at hc
  · rintro y (_ | ⟨_, hy⟩) n hn
    · obtain rfl : s.lock.made = n := Option.some.inj hn
      exact hmade
    · exact hL.nonce_lt y hy n hn
  · rintro y (_ | ⟨_, hy⟩) j c hread
    · rw [hcommand] at hread
      simp at hread
    · exact hL.context_lt y hy j c hread
  · rintro y (_ | ⟨_, hy⟩) j c hread
    · rw [hcommand] at hread
      simp at hread
    · exact hL.known y hy j c hread
  · rintro j n hj y (_ | ⟨_, hy⟩) hn
    · -- a tunnel does not have the nonce of a command that was not made
      obtain rfl : s.lock.made = n := Option.some.inj hn
      rw [hs.readNonce] at hj
      exact absurd (hr.readNonce_lt j _ hj) (lt_irrefl _)
    · exact hL.readNonce j n hj y hy hn
  · rintro j n hj y (_ | ⟨_, hy⟩) hn
    · exact hcommand
    · exact hL.writeNonce j n hj y hy hn

/-- A write is noted in its tunnel. -/
theorem startWrite (hr : Reads L s) {n : ℕ} (hlt : n < s.lock.made)
    (hn : ∀ x ∈ L, x.nonce? = some n → x.read? = none) :
    Reads L (s.modifyTunnel i fun t => { t with writeNonce := some n }) := by
  obtain ⟨s', hs'⟩ : ∃ s', s' = s.modifyTunnel i fun t => { t with writeNonce := some n } := ⟨_, rfl⟩
  have htunnel : ∀ j, (s'.tunnel j).readContext = (s.tunnel j).readContext ∧
      (s'.tunnel j).readNonce = (s.tunnel j).readNonce := by
    intro j
    rw [hs', tunnel_modifyTunnel]
    split_ifs <;> exact ⟨rfl, rfl⟩
  have hnonce : ∀ j m, (s'.tunnel j).writeNonce = some m →
      m = n ∨ (s.tunnel j).writeNonce = some m := by
    intro j m
    rw [hs', tunnel_modifyTunnel]
    split_ifs
    · exact fun hm => Or.inl (Option.some.inj hm).symm
    · exact Or.inr
  have hlock : s'.lock = s.lock := by rw [hs']; rfl
  have hlength : s'.contexts = s.contexts := by rw [hs']; rfl
  rw [← hs']
  refine ⟨hr.apart, hlock ▸ hr.nonce_lt, hlength ▸ hr.context_lt, ?_, ?_, ?_, ?_, ?_, ?_⟩
  · intro x hx j c hread
    rw [(htunnel j).1, context_eq_of_contexts_eq hlength]
    exact hr.known x hx j c hread
  · intro j c
    rw [(htunnel j).1, hlength]
    exact hr.current_lt j c
  · intro j m
    rw [(htunnel j).2, hlock]
    exact hr.readNonce_lt j m
  · intro j m hm
    rw [hlock]
    rcases hnonce j m hm with rfl | hold
    · exact hlt
    · exact hr.writeNonce_lt j m hold
  · intro j m
    rw [(htunnel j).1, (htunnel j).2]
    exact hr.readNonce j m
  · intro j m hm
    rcases hnonce j m hm with rfl | hold
    · exact hn
    · exact hr.writeNonce j m hold

/-- A read is given to the lock, with a new context. -/
theorem startRead (hr : Reads L s) (ctx : ReadContext) (hnone : (s.tunnel i).readContext = none)
    (hmade : s'.lock.made = s.lock.made + 1) (hcontexts : s'.contexts = s.contexts ++ [ctx])
    (htunnel : ∀ j, s'.tunnel j = if i = j then { s.tunnel j with
      readContext := some s.contexts.length
      readNonce := some s.lock.made } else s.tunnel j) :
    Reads (.pending ⟨s.lock.made, .read i s.contexts.length⟩ :: L) s' := by
  have hlength : s'.contexts.length = s.contexts.length + 1 := by rw [hcontexts]; simp
  have hold : ∀ c < s.contexts.length, s'.context c = s.context c := by
    intro c hc
    simp only [State.context, hcontexts, List.getD_eq_getElem?_getD, List.getElem?_append_left hc]
  have hself : s'.tunnel i = { s.tunnel i with
      readContext := some s.contexts.length
      readNonce := some s.lock.made } := by rw [htunnel, if_pos rfl]
  have hother : ∀ j, i ≠ j → s'.tunnel j = s.tunnel j := fun j hj => by rw [htunnel, if_neg hj]
  have hfresh : ∀ y ∈ L, y.nonce? ≠ some s.lock.made := fun y hy hn =>
    absurd (hr.nonce_lt y hy _ hn) (lt_irrefl _)
  have hwrite : ∀ j, (s'.tunnel j).writeNonce = (s.tunnel j).writeNonce := by
    intro j
    rw [htunnel]
    split_ifs <;> rfl
  refine ⟨List.pairwise_cons.mpr ⟨fun y hy => ⟨?_, ?_⟩, hr.apart⟩, ?_, ?_, ?_, ?_, ?_, ?_, ?_, ?_⟩
  · intro n hn
    obtain rfl : s.lock.made = n := Option.some.inj hn
    exact hfresh y hy
  · intro c hc hy'
    obtain rfl : s.contexts.length = c := Option.some.inj hc
    rw [Item.context?_eq] at hy'
    obtain ⟨⟨j, c⟩, hread, rfl⟩ := Option.map_eq_some_iff.mp hy'
    exact absurd (hr.context_lt y hy j _ hread) (lt_irrefl _)
  · rintro y (_ | ⟨_, hy⟩) n hn
    · obtain rfl : s.lock.made = n := Option.some.inj hn
      omega
    · have := hr.nonce_lt y hy n hn
      omega
  · rintro y (_ | ⟨_, hy⟩) j c hread
    · obtain ⟨rfl, rfl⟩ := Prod.mk.injEq .. ▸ Option.some.inj hread
      omega
    · have := hr.context_lt y hy j c hread
      omega
  · rintro y (_ | ⟨_, hy⟩) j c hread
    · obtain ⟨rfl, rfl⟩ := Prod.mk.injEq .. ▸ Option.some.inj hread
      right
      rw [hself]
    · rw [hold c (hr.context_lt y hy j c hread)]
      refine (hr.known y hy j c hread).imp_right fun hc => ?_
      rw [hother j fun hij => ?_]
      · exact hc
      · subst hij
        rw [hnone] at hc
        simp at hc
  · intro j c hj
    rw [htunnel] at hj
    split_ifs at hj
    · have := Option.some.inj hj
      omega
    · have := hr.current_lt j c hj
      omega
  · intro j n hj
    rw [htunnel] at hj
    split_ifs at hj
    · have := Option.some.inj hj
      omega
    · have := hr.readNonce_lt j n hj
      omega
  · intro j n hj
    rw [hwrite] at hj
    have := hr.writeNonce_lt j n hj
    omega
  · rintro j n hj y (_ | ⟨_, hy⟩) hn
    · obtain rfl : s.lock.made = n := Option.some.inj hn
      rw [htunnel] at hj ⊢
      split_ifs at hj ⊢ with hij
      · exact ⟨_, by rw [hij], rfl⟩
      · exact absurd (hr.readNonce_lt j _ hj) (lt_irrefl _)
    · rw [htunnel] at hj ⊢
      split_ifs at hj ⊢ with hij
      · obtain rfl : s.lock.made = n := Option.some.inj hj
        exact absurd hn (hfresh y hy)
      · exact hr.readNonce j n hj y hy hn
  · rintro j n hj y (_ | ⟨_, hy⟩) hn
    · obtain rfl : s.lock.made = n := Option.some.inj hn
      rw [hwrite] at hj
      exact absurd (hr.writeNonce_lt j _ hj) (lt_irrefl _)
    · rw [hwrite] at hj
      exact hr.writeNonce j n hj y hy hn

end Reads

namespace Tracks

variable {h k i : ℕ} {ab : Prop} {L L' : List Item} {s s' : State} {x x' : Item} {j c : ℕ}

theorem perm (ht : Tracks h k i ab L s) (hL : L.Perm L') : Tracks h k i ab L' s where
  weight := by
    rw [← hL.countP_eq]
    exact ht.weight
  about := fun x hx => ht.about x (hL.mem_iff.mpr hx)
  aborted := ht.aborted
  elsewhere := fun x hx => ht.elsewhere x (hL.mem_iff.mpr hx)
  write := ht.write

/-- What the items know of the handler, and the outcomes, stay the same. -/
theorem congr_on (ht : Tracks h k i ab L s)
    (hhandler : ∀ x ∈ L, ∀ j c, x.read? = some (j, c) →
      (s'.context c).handler = (s.context c).handler)
    (hcanceled : ∀ x ∈ L, ∀ j c, x.read? = some (j, c) → (s.context c).canceled = true →
      (s'.context c).canceled = true)
    (hwrite : ∀ j, (s'.tunnel j).writeHandler = some h → (s.tunnel j).writeHandler = some h)
    (houtcomes : (outcomes h s').Perm (outcomes h s)) : Tracks h k i ab L s' where
  weight := by
    rw [countP_holds_congr hhandler, houtcomes.length_eq]
    exact ht.weight
  about := by
    intro x hx j c hread hh
    rw [hhandler x hx j c hread] at hh
    obtain ⟨hi, hab⟩ := ht.about x hx j c hread hh
    exact ⟨hi, fun ha => hcanceled x hx j c hread (hab ha)⟩
  aborted := fun ha e he => ht.aborted ha e (houtcomes.mem_iff.mp he)
  elsewhere := ht.elsewhere
  write := fun j hj => ht.write j (hwrite j hj)

theorem congr (ht : Tracks h k i ab L s) (hs : SameReads h s s') : Tracks h k i ab L s' :=
  ht.congr_on (fun _ _ _ c _ => hs.handler c) (fun _ _ _ c _ hc => (hs.canceled c).trans hc)
    (fun j hj => (hs.writeHandler j).symm.trans hj) hs.outcomes

/-- The handler of an item's context is in hand. -/
theorem takeRead (ht : Tracks h k i ab (x :: L) s) (hx : x.read? = some (j, c)) :
    ∃ k', k = k' + inHand h (s.context c).handler ∧ Tracks h k' i ab L s ∧
      ((s.context c).handler = some h → j = i ∧ (ab → (s.context c).canceled = true)) := by
  have hweight := ht.weight
  rw [List.countP_cons, Item.holds_of_read? hx] at hweight
  refine ⟨L.countP (Item.Holds h s) + (outcomes h s).length, ?_,
    ⟨rfl, fun y hy => ht.about y (List.mem_cons_of_mem x hy), ht.aborted,
      fun y hy => ht.elsewhere y (List.mem_cons_of_mem x hy), ht.write⟩,
    ht.about x List.mem_cons_self j c hx⟩
  rw [inHand]
  simp only [decide_eq_true_eq] at hweight
  omega

/-- An item that is not about a read ends. -/
theorem dropOther (ht : Tracks h k i ab (x :: L) s) (hx : x.read? = none) :
    Tracks h k i ab L s := by
  have hnot : ¬ x.Holds h s = true := by simp [Item.Holds, hx]
  have hweight := ht.weight
  rw [List.countP_cons_of_neg hnot] at hweight
  exact ⟨hweight, fun y hy => ht.about y (List.mem_cons_of_mem x hy), ht.aborted,
    fun y hy => ht.elsewhere y (List.mem_cons_of_mem x hy), ht.write⟩

/-- An item that does not have the handler comes. -/
theorem consOther (ht : Tracks h k i ab L s) (hx : x.read? = none) (hh : h ∉ x.handlers) :
    Tracks h k i ab (x :: L) s where
  weight := by
    have hnot : ¬ x.Holds h s = true := by simp [Item.Holds, hx]
    rw [List.countP_cons_of_neg hnot]
    exact ht.weight
  about := by
    rintro y (_ | ⟨_, hy⟩) j c hread
    · rw [hx] at hread
      simp at hread
    · exact ht.about y hy j c hread
  aborted := ht.aborted
  elsewhere := by
    rintro y (_ | ⟨_, hy⟩)
    · exact hh
    · exact ht.elsewhere y hy
  write := ht.write

/-- A handler in hand comes into a context. -/
theorem consRead (ht : Tracks h k i ab L s) (hx : x.read? = some (j, c)) (hh : x.handlers = [])
    (hi : (s.context c).handler = some h → j = i ∧ (ab → (s.context c).canceled = true)) :
    Tracks h (k + inHand h (s.context c).handler) i ab (x :: L) s where
  weight := by
    have hweight := ht.weight
    rw [List.countP_cons, Item.holds_of_read? hx, inHand]
    simp only [decide_eq_true_eq]
    omega
  about := by
    rintro y (_ | ⟨_, hy⟩) j' c' hread
    · obtain ⟨rfl, rfl⟩ := Prod.mk.injEq .. ▸ Option.some.inj (hx.symm.trans hread)
      exact hi
    · exact ht.about y hy j' c' hread
  aborted := ht.aborted
  elsewhere := by
    rintro y (_ | ⟨_, hy⟩)
    · rw [hh]
      exact List.not_mem_nil
    · exact ht.elsewhere y hy
  write := ht.write

theorem replace (ht : Tracks h k i ab (x :: L) s) (hread : x'.read? = x.read?)
    (hh : h ∉ x'.handlers) : Tracks h k i ab (x' :: L) s where
  weight := by
    have hweight := ht.weight
    rw [List.countP_cons] at hweight ⊢
    rw [Item.Holds, hread]
    exact hweight
  about := by
    rintro y (_ | ⟨_, hy⟩) j c hy'
    · exact ht.about x List.mem_cons_self j c (hread ▸ hy')
    · exact ht.about y (List.mem_cons_of_mem x hy) j c hy'
  aborted := ht.aborted
  elsewhere := by
    rintro y (_ | ⟨_, hy⟩)
    · exact hh
    · exact ht.elsewhere y (List.mem_cons_of_mem x hy)
  write := ht.write

/-- A handler in hand has an outcome. -/
theorem outcome (ht : Tracks h k i ab L s) {handler : Option ℕ} {ec : ErrorCode}
    (hcontexts : s'.contexts = s.contexts) (htunnels : s'.tunnels = s.tunnels)
    (houtcomes : (outcomes h s').Perm ((if handler = some h then [ec] else []) ++ outcomes h s))
    (hec : handler = some h → ab → ec = .operationAborted) :
    Tracks h (k + inHand h handler) i ab L s' where
  weight := by
    have hcount : L.countP (Item.Holds h s') = L.countP (Item.Holds h s) :=
      countP_holds_congr fun _ _ _ c _ => by rw [context_eq_of_contexts_eq hcontexts]
    rw [hcount, houtcomes.length_eq, List.length_append, inHand, ← ht.weight]
    split_ifs
    · rw [List.length_singleton]
      omega
    · rw [List.length_nil]
      omega
  about := by
    intro x hx j c
    rw [context_eq_of_contexts_eq hcontexts]
    exact ht.about x hx j c
  aborted := by
    intro ha e he
    rcases List.mem_append.mp (houtcomes.mem_iff.mp he) with hnew | hold
    · split_ifs at hnew with heq
      · rw [List.mem_singleton.mp hnew]
        exact hec heq ha
      · exact absurd hnew List.not_mem_nil
    · exact ht.aborted ha e hold
  elsewhere := ht.elsewhere
  write := by
    intro j
    rw [tunnel_eq_of_tunnels_eq htunnels]
    exact ht.write j

end Tracks

namespace Carried

variable {h k i : ℕ} {ab : Prop} {L L' : List Item} {s s' : State} {x x' : Item} {j c n : ℕ}

theorem perm (hc : Carried h k i ab L s) (hL : L.Perm L') : Carried h k i ab L' s :=
  ⟨hc.reads.perm hL, hc.tracks.perm hL⟩

theorem congr (hc : Carried h k i ab L s) (hs : SameReads h s s') : Carried h k i ab L s' :=
  ⟨hc.reads.congr hs, hc.tracks.congr hs⟩

/-- The handler of a read that ends is in hand. -/
theorem takeRead (hc : Carried h k i ab (x :: L) s) (hx : x.read? = some (j, c)) :
    ∃ k', k = k' + inHand h (s.context c).handler ∧ Carried h k' i ab L s ∧
      ((s.context c).handler = some h → j = i ∧ (ab → (s.context c).canceled = true)) := by
  obtain ⟨k', hk, htracks, hown⟩ := hc.tracks.takeRead hx
  exact ⟨k', hk, ⟨hc.reads.sublist (List.sublist_cons_self x L), htracks⟩, hown⟩

theorem dropOther (hc : Carried h k i ab (x :: L) s) (hx : x.read? = none) :
    Carried h k i ab L s :=
  ⟨hc.reads.sublist (List.sublist_cons_self x L), hc.tracks.dropOther hx⟩

theorem dropOthers {R : List Item} (hc : Carried h k i ab (R ++ L) s)
    (hR : ∀ x ∈ R, x.read? = none) : Carried h k i ab L s := by
  induction R with
  | nil => exact hc
  | cons x R ih =>
    refine ih (hc.dropOther (hR x List.mem_cons_self)) fun y hy => hR y (List.mem_cons_of_mem x hy)

theorem replace (hc : Carried h k i ab (x :: L) s)
    (hn : ∀ n, x'.nonce? = some n → x.nonce? = some n) (hread : x'.read? = x.read?)
    (hh : h ∉ x'.handlers)
    (hfree : ∀ j n, (s.tunnel j).readNonce = some n → x'.nonce? ≠ some n) :
    Carried h k i ab (x' :: L) s :=
  ⟨hc.reads.replace hn hread hfree, hc.tracks.replace hread hh⟩

/-- A handler in hand is posted. -/
theorem post (hc : Carried h k i ab L s) (handler : Option ℕ) (ec : ErrorCode) (size : ℕ)
    (hec : handler = some h → ab → ec = .operationAborted) :
    Carried h (k + inHand h handler) i ab L (s.addTask (.complete handler ec size)) := by
  refine ⟨?_, hc.tracks.outcome rfl rfl ?_ hec⟩
  · exact ⟨hc.reads.apart, hc.reads.nonce_lt, hc.reads.context_lt, hc.reads.known,
      hc.reads.current_lt, hc.reads.readNonce_lt, hc.reads.writeNonce_lt, hc.reads.readNonce,
      hc.reads.writeNonce⟩
  · refine (outcomes_addTask h s _).trans (.of_eq ?_)
    rw [Task.outcome?]
    split_ifs <;> rfl

/-- A handler in hand is called. -/
theorem call (hc : Carried h k i ab L s) (handler : ℕ) (ec : ErrorCode) (size : ℕ)
    (hec : handler = h → ab → ec = .operationAborted) :
    Carried h (k + inHand h (some handler)) i ab L (s.call handler ec size) := by
  refine ⟨?_, hc.tracks.outcome rfl rfl ?_ fun heq => hec (Option.some.inj heq)⟩
  · exact ⟨hc.reads.apart, hc.reads.nonce_lt, hc.reads.context_lt, hc.reads.known,
      hc.reads.current_lt, hc.reads.readNonce_lt, hc.reads.writeNonce_lt, hc.reads.readNonce,
      hc.reads.writeNonce⟩
  · refine (outcomes_call h handler ec size s).trans (.of_eq ?_)
    simp only [Option.some_inj]

/-- A context that no item has is changed. -/
theorem modifyContext_of_ne (hc : Carried h k i ab L s) {f : ReadContext → ReadContext}
    (hf : ∀ ctx, (f ctx).canceled = ctx.canceled) (hne : ∀ y ∈ L, y.context? ≠ some c) :
    Carried h k i ab L (s.modifyContext c f) := by
  have hcontext : ∀ x ∈ L, ∀ j c', x.read? = some (j, c') →
      (s.modifyContext c f).context c' = s.context c' := by
    intro x hx j c' hread
    refine context_modifyContext_of_ne s (fun heq => hne x hx ?_) f
    rw [heq]
    exact Item.context?_of_read? hread
  refine ⟨hc.reads.modifyContext fun hcanceled => (hf _).trans hcanceled,
    hc.tracks.congr_on ?_ ?_ (fun _ hj => hj) (.refl _)⟩
  · intro x hx j c' hread
    rw [hcontext x hx j c' hread]
  · intro x hx j c' hread
    rw [hcontext x hx j c' hread]
    exact id

/-- A context is changed, that keeps its handler and stays canceled. -/
theorem modifyContext (hc : Carried h k i ab L s) {f : ReadContext → ReadContext}
    (hf : ∀ ctx, (f ctx).handler = ctx.handler)
    (hcanceled : ∀ ctx, ctx.canceled = true → (f ctx).canceled = true) :
    Carried h k i ab L (s.modifyContext c f) := by
  refine ⟨hc.reads.modifyContext (hcanceled _), hc.tracks.congr_on ?_ ?_ (fun _ hj => hj) (.refl _)⟩
  · intro x hx j c' hread
    rw [context_modifyContext]
    split_ifs
    · exact hf _
    · rfl
  · intro x hx j c' hread hold
    rw [context_modifyContext]
    split_ifs
    · exact hcanceled _ hold
    · exact hold

/-- A tunnel forgets some of what it knows. -/
theorem modifyTunnel (hc : Carried h k i ab L s) {f : Tunnel → Tunnel}
    (hread : (f (s.tunnel j)).readNonce = (s.tunnel j).readNonce ∨
      (f (s.tunnel j)).readNonce = none)
    (hwrite : (f (s.tunnel j)).writeNonce = (s.tunnel j).writeNonce ∨
      (f (s.tunnel j)).writeNonce = none)
    (hcontext : (f (s.tunnel j)).readContext = (s.tunnel j).readContext ∨
      (f (s.tunnel j)).readContext = none ∧
        (∀ x ∈ L, ∀ c, x.read? = some (j, c) → (s.context c).canceled = true) ∧
        ((f (s.tunnel j)).readNonce = none ∨
          ∀ x ∈ L, ∀ c, (s.tunnel j).readContext = some c → x.context? ≠ some c))
    (hhandler : (f (s.tunnel j)).writeHandler = some h → (s.tunnel j).writeHandler = some h) :
    Carried h k i ab L (s.modifyTunnel j f) := by
  refine ⟨hc.reads.modifyTunnel hread hwrite hcontext,
    hc.tracks.congr_on (fun _ _ _ _ _ => rfl) (fun _ _ _ _ _ => id) ?_ (.refl _)⟩
  intro j'
  rw [tunnel_modifyTunnel]
  split_ifs with hj
  · obtain ⟨rfl, -⟩ := hj
    exact hhandler
  · exact id

/-- The current read of a tunnel ends, and its handler is in hand. -/
theorem finishRead (hc : Carried h k i ab (x :: L) s) (hx : x.read? = some (j, c))
    (hcanceled : (s.context c).canceled = false) :
    ∃ k', k = k' + inHand h (s.context c).handler ∧
      ((s.context c).handler = some h → j = i ∧ ¬ ab) ∧
      Carried h k' i ab L (s.modifyTunnel j fun t => { t with readContext := none }) ∧
      j < s.tunnels.length := by
  have hcurrent : (s.tunnel j).readContext = some c := by
    refine (hc.reads.known x List.mem_cons_self j c hx).resolve_left ?_
    simp [hcanceled]
  have hne := hc.reads.context_ne hx
  obtain ⟨k', hk, hrest, hown⟩ := hc.takeRead hx
  refine ⟨k', hk, fun heq => ⟨(hown heq).1, fun ha => ?_⟩, hrest.modifyTunnel (Or.inl rfl)
    (Or.inl rfl) (Or.inr ⟨rfl, ?_, Or.inr ?_⟩) id, lt_of_readContext hcurrent⟩
  · have := (hown heq).2 ha
    simp [hcanceled] at this
  · -- another read of the tunnel has another context, so it is canceled
    intro y hy c' hread
    refine (hrest.reads.known y hy j c' hread).resolve_right fun heq => hne y hy ?_
    obtain rfl := Option.some.inj (hcurrent.symm.trans heq)
    exact Item.context?_of_read? hread
  · intro y hy c' heq
    obtain rfl := Option.some.inj (hcurrent.symm.trans heq)
    exact hne y hy

end Carried

end Mjlib.Multiplex.StreamAsioClient
