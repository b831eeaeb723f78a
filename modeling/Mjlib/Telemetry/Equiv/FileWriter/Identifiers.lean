import Mathlib
import Mjlib.Telemetry.Equiv.FileWriter.Log

/-!
# The identifiers of a writer

The calls that give a name and an identifier to each other are the history of a run (`given`).  Both
maps of the writer are this history, so it relates every name to one identifier and every identifier
to one name (`identified_of_run`).
-/

namespace Mjlib.Telemetry.FileWriter

open Base

/-- The name and the identifier that a call gives to each other. -/
def given (s : State) : Call → List (Bytes × UInt64)
  | .allocateIdentifier recordName =>
    match s.allocateIdentifier recordName with
    | some (identifier, _) => [(recordName, identifier)]
    | none => []
  | .reserveIdentifier recordName identifier =>
    match s.reserveIdentifier recordName identifier with
    | some (true, _) => [(recordName, identifier)]
    | _ => []
  | _ => []

variable {platform : Platform} {options : Options} {s s' : State} {calls : List Call}
  {history : List (Bytes × UInt64)} {recordName : Bytes} {identifier : UInt64}

/-! ### What the maps are -/

/-- Both maps have what was given. -/
structure Records (history : List (Bytes × UInt64)) (s : State) : Prop where
  names : ∀ recordName identifier,
    s.identifierMap.get? recordName = some identifier ↔ (recordName, identifier) ∈ history
  identifiers : ∀ recordName identifier,
    s.reverseIdentifierMap.get? identifier = some recordName ↔ (recordName, identifier) ∈ history

theorem records_new : Records [] {} := ⟨by simp, by simp⟩

/-- Nothing is given. -/
theorem Records.keep (h : Records history s) (hmap : s'.identifierMap = s.identifierMap)
    (hreverse : s'.reverseIdentifierMap = s.reverseIdentifierMap) :
    Records (history ++ []) s' := by
  rw [List.append_nil]
  refine ⟨fun recordName identifier => ?_, fun recordName identifier => ?_⟩
  · rw [hmap]
    exact h.names recordName identifier
  · rw [hreverse]
    exact h.identifiers recordName identifier

/-- What is given again was there. -/
theorem Records.again (h : Records history s)
    (hold : s.identifierMap.get? recordName = some identifier) :
    Records (history ++ [(recordName, identifier)]) s := by
  have hmem : ∀ p, p ∈ history ++ [(recordName, identifier)] ↔ p ∈ history := by
    intro p
    rw [List.mem_append, List.mem_singleton, or_iff_left_iff_imp]
    rintro rfl
    exact (h.names _ _).mp hold
  exact ⟨fun _ _ => (h.names _ _).trans (hmem _).symm,
    fun _ _ => (h.identifiers _ _).trans (hmem _).symm⟩

/-- A new name gets an identifier that is not in use. -/
theorem Records.insert (h : Records history s) (hname : s.identifierMap.get? recordName = none)
    (hfree : s.reverseIdentifierMap.contains identifier = false)
    (hmap : s'.identifierMap = s.identifierMap.insert recordName identifier)
    (hreverse : s'.reverseIdentifierMap = s.reverseIdentifierMap.insert identifier recordName) :
    Records (history ++ [(recordName, identifier)]) s' := by
  have hfree' : s.reverseIdentifierMap.get? identifier = none := by
    rwa [SortedMap.contains, Option.isSome_eq_false_iff, Option.isNone_iff_eq_none] at hfree
  -- neither the name nor the identifier is in the history
  have hnew : ∀ name i, (name, i) ∈ history → name ≠ recordName ∧ i ≠ identifier := by
    intro name i hmem
    refine ⟨?_, ?_⟩
    · rintro rfl
      cases hname.symm.trans ((h.names _ _).mpr hmem)
    · rintro rfl
      cases hfree'.symm.trans ((h.identifiers _ _).mpr hmem)
  refine ⟨fun name i => ?_, fun name i => ?_⟩
  · rw [hmap, SortedMap.get?_insert, List.mem_append, List.mem_singleton, Prod.mk.injEq]
    split_ifs with heq
    · subst heq
      rw [Option.some.injEq]
      exact ⟨fun hi => Or.inr ⟨rfl, hi.symm⟩, fun hi => (hi.resolve_left fun hmem =>
        (hnew _ _ hmem).1 rfl).2.symm⟩
    · rw [h.names]
      exact ⟨Or.inl, fun hi => hi.resolve_right fun hi => heq hi.1⟩
  · rw [hreverse, SortedMap.get?_insert, List.mem_append, List.mem_singleton, Prod.mk.injEq]
    split_ifs with heq
    · subst heq
      rw [Option.some.injEq]
      exact ⟨fun hi => Or.inr ⟨hi.symm, rfl⟩, fun hi => (hi.resolve_left fun hmem =>
        (hnew _ _ hmem).2 rfl).1.symm⟩
    · rw [h.identifiers]
      exact ⟨Or.inl, fun hi => hi.resolve_right fun hi => heq hi.2⟩

/-! ### The other calls -/

theorem Appends.maps {buffers : List Bytes} (happ : Appends s buffers s') :
    s'.identifierMap = s.identifierMap ∧ s'.reverseIdentifierMap = s.reverseIdentifierMap := by
  unfold Appends at happ
  cases hw : s.writer with
  | none =>
    rw [hw] at happ
    rw [happ]
    exact ⟨rfl, rfl⟩
  | some writer =>
    rw [hw] at happ
    obtain ⟨_, -, rfl⟩ := happ
    exact ⟨rfl, rfl⟩

theorem writeSchema_maps {schema : Bytes} (hstep : s.writeSchema identifier schema = some s') :
    s'.identifierMap = s.identifierMap ∧ s'.reverseIdentifierMap = s.reverseIdentifierMap := by
  obtain ⟨name, -, happ⟩ := writeSchema_eq_some hstep
  exact happ.maps

theorem openFile_maps (hstep : s.openFile = some s') :
    s'.identifierMap = s.identifierMap ∧ s'.reverseIdentifierMap = s.reverseIdentifierMap := by
  -- the schemas are written again, one after the other
  have hfold : ∀ (l : List (UInt64 × SchemaRecord)) (s s' : State),
      l.foldlM (fun s x => s.writeSchema x.2.identifier x.2.schema) s = some s' →
        s'.identifierMap = s.identifierMap ∧
          s'.reverseIdentifierMap = s.reverseIdentifierMap := by
    intro l
    induction l with
    | nil =>
      intro s s' h
      obtain rfl := Option.some.inj h
      exact ⟨rfl, rfl⟩
    | cons x l ih =>
      intro s s' h
      rw [List.foldlM_cons] at h
      obtain ⟨s₁, hschema, hrest⟩ := Option.bind_eq_some_iff.mp h
      obtain ⟨hmap, hreverse⟩ := writeSchema_maps hschema
      obtain ⟨hmap', hreverse'⟩ := ih s₁ s' hrest
      exact ⟨hmap'.trans hmap, hreverse'.trans hreverse⟩
  unfold State.openFile at hstep
  cases hw : s.writer with
  | some writer =>
    rw [hw] at hstep
    cases hstep
  | none =>
    rw [hw] at hstep
    dsimp only at hstep
    unfold State.postOpen at hstep
    obtain ⟨s₁, hheader, hrest⟩ := Option.bind_eq_some_iff.mp hstep
    obtain ⟨hmap, hreverse⟩ := (write_eq_some hheader).maps
    obtain ⟨hmap', hreverse'⟩ := hfold _ _ _ hrest
    exact ⟨hmap'.trans hmap, hreverse'.trans hreverse⟩

theorem close_maps (hstep : s.close options = some s') :
    s'.identifierMap = s.identifierMap ∧ s'.reverseIdentifierMap = s.reverseIdentifierMap := by
  unfold State.close at hstep
  cases hw : s.writer with
  | none =>
    rw [hw] at hstep
    rw [Option.some.inj hstep]
    exact ⟨rfl, rfl⟩
  | some writer =>
    rw [hw] at hstep
    dsimp only at hstep
    split_ifs at hstep
    · obtain ⟨s₁, hindex, hstep⟩ := Option.bind_eq_some_iff.mp hstep
      cases hstep
      exact (writeIndex_eq_some hindex).maps
    · cases hstep
      exact ⟨rfl, rfl⟩

theorem writeData_maps {timestamp : Ptime} {serializedData : Bytes} {writeFlags : WriteFlags}
    {now : Ptime} (hstep : s.writeData platform options timestamp identifier serializedData
      writeFlags now = some s') :
    s'.identifierMap = s.identifierMap ∧ s'.reverseIdentifierMap = s.reverseIdentifierMap := by
  cases hw : s.writer with
  | none =>
    unfold State.writeData at hstep
    rw [hw] at hstep
    rw [Option.some.inj hstep]
    exact ⟨rfl, rfl⟩
  | some writer =>
    obtain ⟨_, -, s₁, happ, hseek⟩ := writeData_eq_some hw hstep
    obtain ⟨hmap, hreverse⟩ := happ.maps
    obtain ⟨writer₁, hw₁⟩ := happ.exists_writer hw
    obtain ⟨_, _, -, happ'⟩ := maybeWriteSeekBlock_eq_some hw₁ hseek
    obtain ⟨hmap', hreverse'⟩ := happ'.maps
    exact ⟨hmap'.trans hmap, hreverse'.trans hreverse⟩

/-! ### Runs -/

/-- **Every call** keeps the maps and the history together. -/
theorem Records.step {call : Call} (h : Records history s)
    (hstep : FileWriter.step platform options s call = some s') :
    Records (history ++ given s call) s' := by
  cases call with
  | openFile =>
    obtain ⟨hmap, hreverse⟩ := openFile_maps hstep
    exact h.keep hmap hreverse
  | close =>
    obtain ⟨hmap, hreverse⟩ := close_maps hstep
    exact h.keep hmap hreverse
  | allocateIdentifier recordName =>
    obtain ⟨⟨identifier, _⟩, hallocate, rfl⟩ := Option.map_eq_some_iff.mp hstep
    rw [given, hallocate]
    unfold State.allocateIdentifier at hallocate
    split at hallocate
    · rename_i hold
      cases hallocate
      exact h.again hold
    · rename_i hname
      obtain ⟨result, hfree, hallocate⟩ := Option.bind_eq_some_iff.mp hallocate
      cases hallocate
      exact h.insert hname (findFree_eq_some hfree) rfl rfl
  | reserveIdentifier recordName identifier =>
    obtain ⟨⟨b, _⟩, hreserve, rfl⟩ := Option.map_eq_some_iff.mp hstep
    rw [given, hreserve]
    unfold State.reserveIdentifier at hreserve
    split at hreserve
    · rename_i hold
      split_ifs at hreserve with heq
      cases hreserve
      exact h.again (heq ▸ hold)
    · rename_i hname
      split_ifs at hreserve with hused
      · cases hreserve
        exact h.keep rfl rfl
      · cases hreserve
        exact h.insert hname (Bool.eq_false_iff.mpr hused) rfl rfl
  | writeSchema identifier schema =>
    obtain ⟨hmap, hreverse⟩ := writeSchema_maps hstep
    exact h.keep hmap hreverse
  | writeData timestamp identifier serializedData writeFlags now =>
    obtain ⟨hmap, hreverse⟩ := writeData_maps hstep
    exact h.keep hmap hreverse

theorem records_of_run : ∀ {calls : List Call} {history : List (Bytes × UInt64)} {s₀ : State},
    Records history s₀ → Run.run (step platform options) s₀ calls = some s →
      Records (history ++ Run.collect (step platform options) given s₀ calls) s := by
  intro calls
  induction calls with
  | nil =>
    intro history s₀ h hrun
    obtain rfl := Option.some.inj hrun
    exact h.keep rfl rfl
  | cons call calls ih =>
    intro history s₀ h hrun
    obtain ⟨s₁, hstep, hrest⟩ := (Run.run_cons_eq_some _).mp hrun
    rw [Run.collect_cons_of_eq hstep, ← List.append_assoc]
    exact ih (h.step hstep) hrest

/-! ### Free identifiers -/

/-- The search ends unless it meets used identifiers only. -/
theorem contains_of_findFree_eq_none {n : ℕ} : ∀ {nextId : UInt64}, s.findFree n nextId = none →
    ∀ i < n, s.reverseIdentifierMap.contains (nextId + UInt64.ofNat i) = true := by
  induction n with
  | zero => exact fun _ i hi => absurd hi (Nat.not_lt_zero i)
  | succ n ih =>
    intro nextId h i hi
    rw [State.findFree] at h
    split_ifs at h with hused
    cases i with
    | zero => simpa using hused
    | succ i =>
      have hnext := ih h i (Nat.lt_of_succ_lt_succ hi)
      rwa [UInt64.add_assoc, UInt64.add_comm 1, ← UInt64.ofNat_one, ← UInt64.ofNat_add] at hnext

/-- While not all identifiers are in use, a name gets one. -/
theorem exists_allocateIdentifier (hsize : s.reverseIdentifierMap.size < 2 ^ 64)
    (recordName : Bytes) : (s.allocateIdentifier recordName).isSome = true := by
  unfold State.allocateIdentifier
  split
  · rfl
  suffices hfree : s.findFree (s.reverseIdentifierMap.size + 1) s.nextId ≠ none by
    obtain ⟨result, hresult⟩ := Option.ne_none_iff_exists'.mp hfree
    rw [hresult]
    rfl
  intro hnone
  -- one more identifier than there are would be in use
  have hused : (List.range (s.reverseIdentifierMap.size + 1)).map
      (fun i => s.nextId + UInt64.ofNat i) ⊆ s.reverseIdentifierMap.entries.map Prod.fst := by
    intro i hi
    obtain ⟨k, hk, rfl⟩ := List.mem_map.mp hi
    have hcontains := contains_of_findFree_eq_none hnone k (List.mem_range.mp hk)
    obtain ⟨name, hname⟩ := Option.isSome_iff_exists.mp hcontains
    exact List.mem_map.mpr ⟨_, SortedMap.get?_eq_some_iff.mp hname, rfl⟩
  have hnodup : ((List.range (s.reverseIdentifierMap.size + 1)).map
      fun i => s.nextId + UInt64.ofNat i).Nodup := by
    refine (List.nodup_map_iff_inj_on List.nodup_range).mpr fun i hi j hj heq => ?_
    have hword : UInt64.size = 2 ^ 64 := rfl
    have hi' := List.mem_range.mp hi
    have hj' := List.mem_range.mp hj
    have hnat := congrArg UInt64.toNat ((UInt64.add_right_inj _).mp heq)
    rwa [UInt64.toNat_ofNat_of_lt' (by omega), UInt64.toNat_ofNat_of_lt' (by omega)] at hnat
  have hle := (hnodup.subperm hused).length_le
  rw [List.length_map, List.length_map, List.length_range] at hle
  exact absurd hle (Nat.not_succ_le_self _)

/-! ### The identifiers of a run -/

/-- What the history of a run says about the writer's identifiers, and about the next call. -/
structure Identified (history : List (Bytes × UInt64)) (s : State) : Prop where
  inverse : ∀ recordName identifier, s.identifierMap.get? recordName = some identifier ↔
    s.reverseIdentifierMap.get? identifier = some recordName
  recorded : ∀ recordName identifier,
    s.identifierMap.get? recordName = some identifier ↔ (recordName, identifier) ∈ history
  oneName : ∀ recordName recordName' identifier, (recordName, identifier) ∈ history →
    (recordName', identifier) ∈ history → recordName = recordName'
  oneIdentifier : ∀ recordName identifier identifier', (recordName, identifier) ∈ history →
    (recordName, identifier') ∈ history → identifier = identifier'
  allocated : s.reverseIdentifierMap.size < 2 ^ 64 →
    ∀ recordName, (s.allocateIdentifier recordName).isSome = true
  sameAgain : ∀ recordName identifier, (recordName, identifier) ∈ history →
    s.allocateIdentifier recordName = some (identifier, s)
  refused : ∀ recordName identifier s', s.reserveIdentifier recordName identifier = some (false, s') →
    s' = s ∧ ∃ recordName' ≠ recordName, (recordName', identifier) ∈ history
  failed : ∀ recordName identifier, s.reserveIdentifier recordName identifier = none ↔
    ∃ identifier' ≠ identifier, (recordName, identifier') ∈ history

/-- **The identifiers of a writer** after any calls. -/
theorem identified_of_run (platform : Platform) (options : Options) (calls : List Call) (s : State)
    (hrun : Run.run (step platform options) {} calls = some s) :
    Identified (Run.collect (step platform options) given {} calls) s := by
  have h : Records (Run.collect (step platform options) given {} calls) s :=
    records_of_run records_new hrun
  refine ⟨fun name i => (h.names name i).trans (h.identifiers name i).symm, h.names, ?_, ?_,
    exists_allocateIdentifier, ?_, ?_, ?_⟩
  · intro name name' i hmem hmem'
    exact Option.some.inj (((h.identifiers name i).mpr hmem).symm.trans
      ((h.identifiers name' i).mpr hmem'))
  · intro name i i' hmem hmem'
    exact Option.some.inj (((h.names name i).mpr hmem).symm.trans ((h.names name i').mpr hmem'))
  · intro name i hmem
    rw [State.allocateIdentifier, (h.names name i).mpr hmem]
  · intro name i s' hreserve
    unfold State.reserveIdentifier at hreserve
    split at hreserve
    · split_ifs at hreserve
      cases hreserve
    · rename_i hname
      split_ifs at hreserve with hused
      · obtain ⟨name', hname'⟩ := Option.isSome_iff_exists.mp hused
        cases hreserve
        refine ⟨rfl, name', ?_, (h.identifiers name' i).mp hname'⟩
        rintro rfl
        rw [(h.names name' i).mpr ((h.identifiers name' i).mp hname')] at hname
        cases hname
      · cases hreserve
  · intro name i
    rw [State.reserveIdentifier]
    cases hname : s.identifierMap.get? name with
    | none =>
      refine ⟨fun hnone => ?_, ?_⟩
      · dsimp only at hnone
        split_ifs at hnone
      · rintro ⟨i', -, hmem⟩
        cases hname.symm.trans ((h.names name i').mpr hmem)
    | some i' =>
      dsimp only
      refine ⟨fun hnone => ⟨i', ?_, (h.names name i').mp hname⟩, ?_⟩
      · rintro rfl
        rw [if_pos rfl] at hnone
        cases hnone
      · rintro ⟨j, hne, hmem⟩
        have heq : i' = j := Option.some.inj (hname.symm.trans ((h.names name j).mpr hmem))
        exact if_neg (heq ▸ hne)

/-- Reservations before and after allocations; the identifier 2 is passed over. -/
theorem identified_reserved :
    ∃ s, Identified [([0x61], 2), ([0x62], 1), ([0x63], 3), ([0x64], 4), ([0x61], 2)] s := by
  have h := identified_of_run ⟨fun data => data, 0⟩ {}
    [.reserveIdentifier [0x61] 2, .allocateIdentifier [0x62], .allocateIdentifier [0x63],
      .reserveIdentifier [0x64] 3, .reserveIdentifier [0x64] 4, .allocateIdentifier [0x61]] _ rfl
  exact ⟨_, h⟩

end Mjlib.Telemetry.FileWriter
